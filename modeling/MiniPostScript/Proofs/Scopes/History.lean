import MiniPostScript.Proofs.Run.Frames

set_option autoImplicit false

namespace MiniPostScript

theorem Dictionary.insert_all_capacity (bindings : List (String × Value)) (d : Dictionary) :
    (d.insertAll bindings).capacity = d.capacity := by
  induction bindings generalizing d with
  | nil => rfl
  | cons binding rest ih => exact ih (d.insert binding.1 binding.2)

theorem Dictionary.insert_all_append (bindings later : List (String × Value)) (d : Dictionary) :
    d.insertAll (bindings ++ later) = (d.insertAll bindings).insertAll later := List.foldl_append

namespace Scopes

inductive Access where
  | push (d : Dictionary)
  | pop
  | define (key : String) (value : Value)
  | lookup (key : String)

def Access.apply : Access → Scopes → Scopes
  | .push d, s => s.push d
  | .pop, s => (s.pop?.map Prod.snd).getD s
  | .define key value, s => s.define key value
  | .lookup _, s => s

def Access.handed? : Access → Scopes → Option FrameId
  | .push _, _ => none
  | .pop, s => s.pop?.map Prod.fst
  | .define _ _, _ => none
  | .lookup key, s => (s.lookup key).map Prod.snd

def after (global : Dictionary) : List Access → Scopes
  | [] => .ofGlobal global
  | access :: past => access.apply (after global past)

def pushed : List Access → List Dictionary
  | [] => []
  | .push d :: past => pushed past ++ [d]
  | _ :: past => pushed past

-- What a frame held at first, if there is such a frame.
def initial? (global : Dictionary) (past : List Access) : FrameId → Option Dictionary
  | .global => some global
  | .begun index => (pushed past)[index]?

def opened : List Access → List FrameId
  | [] => [.global]
  | .push _ :: past => .begun (pushed past).length :: opened past
  | .pop :: past => if (opened past).length = 1 then opened past else (opened past).tail
  | _ :: past => opened past

-- What has been defined while a frame was the innermost open one, in that order.
def definitions (frame : FrameId) : List Access → List (String × Value)
  | [] => []
  | .define key value :: past =>
      definitions frame past ++ (if (opened past).head? = some frame then [(key, value)] else [])
  | _ :: past => definitions frame past

theorem pop_apply (s : Scopes) : Access.pop.apply s = s.closed := pop_closed s

theorem closed_frames (s : Scopes) : s.closed.frames = if s.frames.length = 1 then s.frames else s.frames.tail := by
  rw [frames_length]
  by_cases last : s.depth = 1
  · rw [if_pos last, closed_global s last]
  · rw [if_neg last, frames_closed s last]
    rfl

theorem frames_after (global : Dictionary) (past : List Access) :
    (after global past).frames = opened past ∧ (after global past).begun.size = (pushed past).length := by
  induction past with
  | nil => exact ⟨rfl, rfl⟩
  | cons access past ih =>
      obtain ⟨frames, size⟩ := ih
      cases access with
      | push d =>
          refine ⟨?_, ?_⟩
          · rw [after, Access.apply, frames_push, frames, size]
            rfl
          · simp [after, Access.apply, push, pushed, size]
      | pop =>
          rw [after, pop_apply]
          exact ⟨by rw [closed_frames, frames]; rfl, size⟩
      | define key value =>
          rw [after, Access.apply]
          refine ⟨(frames_define key value _).trans frames, ?_⟩
          rw [define]
          split
          · exact size
          · simpa [pushed] using size
      | lookup key => exact ⟨frames, size⟩

theorem has_iff (global : Dictionary) (past : List Access) (frame : FrameId) :
    (after global past).Has frame ↔ (initial? global past frame).isSome = true := by
  cases frame with
  | global => exact ⟨fun _ => rfl, fun _ => trivial⟩
  | begun index => simp [Has, (frames_after global past).2, initial?]

theorem initial_later (global d : Dictionary) (past later : List Access) (frame : FrameId)
    (known : initial? global past frame = some d) : initial? global (later ++ past) frame = some d := by
  induction later with
  | nil => exact known
  | cons access later ih =>
      cases frame with
      | global => exact ih
      | begun index =>
          cases access with
          | push new =>
              obtain ⟨bound, _⟩ := List.getElem?_eq_some_iff.mp ih
              exact (List.getElem?_append_left bound).trans ih
          | _ => exact ih

theorem opened_known (global : Dictionary) (past : List Access) (frame : FrameId) (member : frame ∈ opened past) :
    (initial? global past frame).isSome = true := by
  rw [← (frames_after global past).1] at member
  exact (has_iff global past frame).mp (frames_has _ frame member)

theorem definitions_unknown (global : Dictionary) (past : List Access) (frame : FrameId)
    (unknown : initial? global past frame = none) : definitions frame past = [] := by
  induction past with
  | nil => rfl
  | cons access past ih =>
      have before : initial? global past frame = none := by
        cases known : initial? global past frame with
        | none => rfl
        | some d => cases unknown.symm.trans (initial_later global d past [access] frame known)
      cases access with
      | define key value =>
          have shut : (opened past).head? ≠ some frame := by
            intro top
            have known := opened_known global past frame (List.mem_of_head? top)
            rw [before] at known
            cases known
          rw [definitions, if_neg shut, ih before]
          rfl
      | _ => exact ih before

theorem initial_new (global d : Dictionary) (access : Access) (past : List Access) (frame : FrameId)
    (before : initial? global past frame = none) (known : initial? global (access :: past) frame = some d) :
    access = .push d ∧ frame = .begun (pushed past).length := by
  cases frame with
  | global => cases before
  | begun index =>
      cases access with
      | push new =>
          have least := List.getElem?_eq_none_iff.mp before
          have known : (pushed past ++ [new])[index]? = some d := known
          obtain ⟨bound, _⟩ := List.getElem?_eq_some_iff.mp known
          obtain rfl : index = (pushed past).length := by
            rw [List.length_append, List.length_singleton] at bound
            omega
          rw [List.getElem?_concat_length] at known
          exact ⟨congrArg Access.push (Option.some.inj known), rfl⟩
      | _ => cases before.symm.trans known

theorem pushed_contents (d : Dictionary) (s : Scopes) : (s.push d).contents (.begun s.begun.size) = d := by
  simp [contents, push]

theorem opened_top (global : Dictionary) (past : List Access) (frame : FrameId) :
    frame = (after global past).top ↔ (opened past).head? = some frame := by
  obtain ⟨rest, frames⟩ := top_frames (after global past)
  rw [← (frames_after global past).1, frames, List.head?_cons, Option.some_inj]
  exact eq_comm

theorem contents_after (global d : Dictionary) (past : List Access) (frame : FrameId)
    (known : initial? global past frame = some d) :
    (after global past).contents frame = d.insertAll (definitions frame past) := by
  induction past generalizing d with
  | nil =>
      cases frame with
      | global =>
          cases known
          rfl
      | begun index => cases known
  | cons access past ih =>
      cases before : initial? global past frame with
      | none =>
          obtain ⟨rfl, rfl⟩ := initial_new global d access past frame before known
          have none : definitions (.begun (pushed past).length) (.push d :: past) = [] :=
            definitions_unknown global past _ before
          rw [none, ← (frames_after global past).2]
          exact pushed_contents d (after global past)
      | some old =>
          obtain rfl := Option.some.inj ((initial_later global old past [access] frame before).symm.trans known)
          have has : (after global past).Has frame := (has_iff global past frame).mpr (by rw [before]; rfl)
          have here := ih old before
          cases access with
          | push new => exact (contents_push new _ frame has).trans here
          | pop =>
              rw [after, pop_apply, contents_closed, here]
              rfl
          | lookup key => exact here
          | define key value =>
              rw [after, Access.apply, contents_define, here, definitions, Dictionary.insert_all_append]
              by_cases top : frame = (after global past).top
              · rw [if_pos top, if_pos ((opened_top global past frame).mp top)]
                rfl
              · rw [if_neg top, if_neg (mt (opened_top global past frame).mpr top)]
                rfl

theorem definitions_later (frame : FrameId) (past later : List Access) :
    ∃ new, definitions frame (later ++ past) = definitions frame past ++ new := by
  induction later with
  | nil => exact ⟨[], (List.append_nil _).symm⟩
  | cons access later ih =>
      obtain ⟨new, same⟩ := ih
      cases access with
      | define key value => exact ⟨_, (congrArg (· ++ _) same).trans (List.append_assoc _ _ _)⟩
      | _ => exact ⟨new, same⟩

-- A frame that has ended is never open again, since a new frame is none of those that there have been.
theorem ended_shut (global : Dictionary) (past later : List Access) (frame : FrameId)
    (known : (initial? global past frame).isSome = true) (shut : frame ∉ opened past) :
    frame ∉ opened (later ++ past) ∧ definitions frame (later ++ past) = definitions frame past := by
  induction later with
  | nil => exact ⟨shut, rfl⟩
  | cons access later ih =>
      obtain ⟨still, same⟩ := ih
      obtain ⟨d, first⟩ := Option.isSome_iff_exists.mp known
      cases access with
      | push new =>
          have other : frame ≠ .begun (pushed (later ++ past)).length := by
            rintro rfl
            have bound := initial_later global d past later _ first
            rw [initial?, List.getElem?_eq_none (Nat.le_refl _)] at bound
            cases bound
          exact ⟨fun member => (List.mem_cons.mp member).elim other still, same⟩
      | pop =>
          refine ⟨fun member => still ?_, same⟩
          rw [List.cons_append, opened] at member
          split at member
          · exact member
          · exact List.mem_of_mem_tail member
      | define key value =>
          have other : (opened (later ++ past)).head? ≠ some frame := fun top => still (List.mem_of_head? top)
          refine ⟨still, ?_⟩
          rw [List.cons_append, definitions, if_neg other, same, List.append_nil]
      | lookup key => exact ⟨still, same⟩

theorem frames_nodup (s : Scopes) : s.frames.Nodup := by
  have begun : (s.active.map FrameId.begun).Nodup :=
    s.nested.map FrameId.begun fun index inner outside same => Nat.ne_of_gt outside (FrameId.begun.inj same)
  rw [frames, List.nodup_append]
  refine ⟨begun, by simp, ?_⟩
  intro frame member last global same
  obtain ⟨index, _, rfl⟩ := List.mem_map.mp member
  cases (List.mem_singleton.mp global) ▸ same

theorem pop_some (s closed : Scopes) (frame : FrameId) (ended : s.pop? = some (frame, closed)) :
    s.depth ≠ 1 ∧ frame = s.top ∧ closed = s.closed := by
  obtain ⟨global, begun, active, nested, bounded⟩ := s
  cases active with
  | nil => cases ended
  | cons index rest =>
      cases ended
      exact ⟨by simp [depth], rfl, rfl⟩

theorem lookup_some_iff (s : Scopes) (key : String) (value : Value) (home : FrameId) :
    s.lookup key = some (value, home) ↔ ∃ inner outer, s.frames = inner ++ home :: outer ∧
      (s.contents home).get? key = some value ∧ ∀ frame ∈ inner, (s.contents frame).get? key = none := by
  simp only [lookup, List.findSome?_eq_some_iff, lookup_in_iff, lookup_in_none_iff]
  constructor
  · rintro ⟨inner, frame, outer, frames, ⟨bound, rfl⟩, free⟩
    exact ⟨inner, outer, frames, bound, free⟩
  · rintro ⟨inner, outer, frames, bound, free⟩
    exact ⟨inner, home, outer, frames, ⟨bound, rfl⟩, free⟩

theorem lookup_none_iff (s : Scopes) (key : String) :
    s.lookup key = none ↔ ∀ frame ∈ s.frames, (s.contents frame).get? key = none := by
  simp only [lookup, List.findSome?_eq_none_iff, lookup_in_none_iff]

theorem handed_has (access : Access) (s : Scopes) (frame : FrameId) (handed : access.handed? s = some frame) :
    s.Has frame := by
  cases access with
  | push d => cases handed
  | define key value => cases handed
  | pop =>
      obtain ⟨⟨top, closed⟩, ended, rfl⟩ := Option.map_eq_some_iff.mp handed
      obtain ⟨_, rfl, _⟩ := pop_some s closed top ended
      obtain ⟨rest, frames⟩ := top_frames s
      exact frames_has s _ (frames ▸ List.mem_cons_self)
  | lookup key =>
      obtain ⟨⟨value, home⟩, found, rfl⟩ := Option.map_eq_some_iff.mp handed
      exact bound_has s home key value (lookup_bound s key home value found)

theorem popped_contents (global : Dictionary) (past later : List Access) (frame : FrameId) (closed : Scopes)
    (ended : (after global past).pop? = some (frame, closed)) :
    (after global (later ++ .pop :: past)).contents frame = (after global past).contents frame := by
  obtain ⟨more, top, _⟩ := pop_some _ closed frame ended
  have frames : (after global past).frames = frame :: (after global past).closed.frames := top ▸ frames_closed _ more
  have known := (has_iff global past frame).mp (frames_has _ frame (frames ▸ List.mem_cons_self))
  obtain ⟨d, first⟩ := Option.isSome_iff_exists.mp known
  have ends : initial? global (.pop :: past) frame = some d := initial_later global d past [.pop] frame first
  have shut : frame ∉ opened (.pop :: past) := by
    rw [← (frames_after global (.pop :: past)).1, after, pop_apply]
    exact (List.nodup_cons.mp (frames ▸ frames_nodup (after global past))).1
  obtain ⟨_, same⟩ := ended_shut global (.pop :: past) later frame (by rw [ends]; rfl) shut
  rw [contents_after global d _ frame (initial_later global d _ later frame ends), same,
    contents_after global d past frame first]
  rfl

theorem frames_follow_history (global : Dictionary) (past : List Access) :
    let s := after global past
    -- Which frames there are, and which of them are open.
    (∀ frame, s.Has frame ↔ (initial? global past frame).isSome = true) ∧ s.frames = opened past ∧ s.frames.Nodup ∧
    (∀ d, ¬ s.Has (s.push d).top) ∧
    -- What a frame holds, now and later.
    (∀ frame d, initial? global past frame = some d →
      s.contents frame = d.insertAll (definitions frame past) ∧ (s.contents frame).capacity = d.capacity ∧
      ∀ later, ∃ new, definitions frame (later ++ past) = definitions frame past ++ new ∧
        (after global (later ++ past)).contents frame = (s.contents frame).insertAll new) ∧
    (∀ key value frame, frame ≠ s.top → (s.define key value).contents frame = s.contents frame) ∧
    (∀ frame closed, s.pop? = some (frame, closed) → ∀ later,
      (after global (later ++ .pop :: past)).contents frame = s.contents frame) ∧
    -- What is handed out.
    (∀ (access : Access) frame, access.handed? s = some frame → s.Has frame) ∧
    (∀ key value home, s.lookup key = some (value, home) ↔ ∃ inner outer, s.frames = inner ++ home :: outer ∧
      (s.contents home).get? key = some value ∧ ∀ frame ∈ inner, (s.contents frame).get? key = none) ∧
    (∀ key, s.lookup key = none ↔ ∀ frame ∈ s.frames, (s.contents frame).get? key = none) ∧
    (s.frames = [.global] → s.pop? = none ∧ Access.pop.apply s = s) := by
  intro s
  refine ⟨has_iff global past, (frames_after global past).1, frames_nodup s, ?_, ?_, ?_,
    fun frame closed ended later => popped_contents global past later frame closed ended,
    fun access frame => handed_has access s frame, lookup_some_iff s, lookup_none_iff s, ?_⟩
  · exact fun d has => fresh_frame s _ has rfl
  · intro frame d known
    have here := contents_after global d past frame known
    refine ⟨here, by rw [here, Dictionary.insert_all_capacity], fun later => ?_⟩
    obtain ⟨new, same⟩ := definitions_later frame past later
    refine ⟨new, same, ?_⟩
    rw [contents_after global d _ frame (initial_later global d past later frame known), same,
      Dictionary.insert_all_append, ← here]
  · intro key value frame other
    rw [contents_define, if_neg other]
  · intro alone
    have last : s.depth = 1 := by rw [← frames_length, alone]; rfl
    refine ⟨?_, by rw [pop_apply, closed_global s last]⟩
    cases ended : s.pop? with
    | none => rfl
    | some entry => exact absurd last (pop_some s entry.2 entry.1 ended).1

theorem kept_frame_followed :
    let past : List Access := [.define "x" (.integer 3), .pop, .define "x" (.integer 2), .push (.empty 7), .lookup "x",
      .define "x" (.integer 1), .push (.empty 5)]
    let later : List Access := [.define "x" (.integer 5), .push (.empty 9), .define "x" (.integer 4)]
    let s := after .builtins past
    s.lookup "x" = some (.integer 3, .begun 0) ∧
    s.contents (.begun 0) = (Dictionary.empty 5).insertAll [("x", .integer 1), ("x", .integer 3)] ∧
    s.contents (.begun 1) = (Dictionary.empty 7).insertAll [("x", .integer 2)] ∧
    (after .builtins (later ++ .pop :: past)).contents (.begun 0) = s.contents (.begun 0) := by
  intro past later s
  obtain ⟨_, open', _, _, holds, _, popped, _, found, _⟩ := frames_follow_history .builtins past
  have first := (holds (.begun 0) (.empty 5) rfl).1
  have bound : (s.contents (.begun 0)).get? "x" = some (.integer 3) := by
    rw [first]
    rfl
  refine ⟨(found "x" _ _).mpr ⟨[], [.global], open', bound, by simp⟩, first, (holds (.begun 1) (.empty 7) rfl).1, ?_⟩
  exact popped (.begun 0) s.closed rfl later

end Scopes

end MiniPostScript
