import MiniPostScript.Proofs.Run.Lockstep
import MiniPostScript.Proofs.Session.Feed
import MiniPostScript.Proofs.Token.Cut

set_option autoImplicit false

namespace MiniPostScript

theorem Run.begin_cut (line later : String) (ends : Token.EndsOutside line) (r : Run) :
    let first := (r.begin line).finish
    (r.begin (line ++ " " ++ later)).finish = (first.begin later).finish.upon first.notices := by
  intro first
  have idle : first.pending = [] := finish_pending _
  have whole : (r.begin (line ++ " " ++ later)).finish = first.callTokens (tokens later) := by
    rw [line_finish, tokens_cut line later ends, call_tokens_append, ← line_finish]
  have goesOn : (first.onTop [⟨.line, tokens later, tokens later, .times 0⟩]).finish =
      first.callTokens (tokens later) := last_pass_finish .line _ _ (.times 0) first idle (.inr rfl)
  have same : first.onTop [⟨.line, tokens later, tokens later, .times 0⟩] =
      (first.begin later).upon first.notices := by
    simp only [onTop, begin, upon, idle, List.nil_append]
  rw [whole, ← goesOn, same, finish_upon]

namespace Session

theorem feed_cut (line later : String) (ends : Token.EndsOutside line) (s : Session) :
    let first := s.feed line
    let second := first.1.feed later
    s.feed (line ++ " " ++ later) = (second.1, first.2 ++ second.2) := by
  let start : Run := ⟨s.settings.maxDepth, s.machine, [], 0, [], []⟩
  let between := (start.begin line).finish
  let last := (between.begin later).finish
  have one : s.feed line = ({ s with machine := between.machine }, between.notices.reverse) :=
    feed_finish line s
  have two : feed later { s with machine := between.machine } =
      ({ s with machine := last.machine }, last.notices.reverse) := by
    obtain ⟨depth, homes⟩ := Run.finish_nested 0 [] (start.begin line) ⟨rfl, rfl⟩
    have limit : between.limit = s.settings.maxDepth := Run.finish_limit _
    simp only [feed_finish, last, Run.begin_fresh later between depth homes, limit]
  have both : (Run.ofLine s.settings.maxDepth s.machine (line ++ " " ++ later)).finish =
      last.upon between.notices := Run.begin_cut line later ends start
  simp only [one, two]
  rw [feed_finish, both]
  simp only [Run.upon, List.reverse_append]

theorem cut_anywhere (line later : String) (ends : Token.EndsOutside line) :
    tokens (line ++ " " ++ later) = tokens line ++ tokens later ∧
    (∀ r : Run,
      let first := (r.begin line).finish
      let second := (first.begin later).finish
      (r.begin (line ++ " " ++ later)).finish = { second with notices := second.notices ++ first.notices }) ∧
    (∀ s : Session,
      let first := s.feed line
      let second := first.1.feed later
      s.feed (line ++ " " ++ later) = (second.1, first.2 ++ second.2)) :=
  ⟨tokens_cut line later ends, Run.begin_cut line later ends, feed_cut line later ends⟩

theorem halted_line_cut :
    let s := Session.new .default
    let line := "nope { 1 { quit 2 } exec 3 } exec 4"
    Token.EndsOutside line ∧ (s.feed line).1.machine.halted = true ∧
      s.feed (line ++ " " ++ "5 print") = ((s.feed line).1, [.reported (.undefined "nope")]) := by
  intro s line
  let start := Run.ofLine s.settings.maxDepth s.machine line
  have last : (Run.step^[10] start).pending = [] ∧ (Run.step^[10] start).machine.halted = true ∧
      (Run.step^[10] start).notices = [.reported (.undefined "nope")] := by decide +kernel
  obtain ⟨idle, halts, tells⟩ := last
  have first := feed_at 10 line s idle
  have halted : (s.feed line).1.machine.halted = true := by
    rw [first]
    exact halts
  have told : (s.feed line).2 = [.reported (.undefined "nope")] := by
    rw [first, tells]
    rfl
  have ends : Token.EndsOutside line := by decide +kernel
  have whole := (cut_anywhere line "5 print" ends).2.2 s
  have ignored : (s.feed line).1.feed "5 print" = ((s.feed line).1, []) := by rw [feed, if_pos halted]
  simp only [ignored, told] at whole
  exact ⟨ends, halted, whole⟩

end Session

end MiniPostScript
