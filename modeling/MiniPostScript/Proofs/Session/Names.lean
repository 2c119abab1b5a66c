import MiniPostScript.Proofs.Operator.Faults
import MiniPostScript.Proofs.Run.Ahead
import MiniPostScript.Proofs.Run.Notices
import MiniPostScript.Proofs.Session.Feed
import MiniPostScript.Proofs.Token.Form

set_option autoImplicit false

namespace MiniPostScript

-- A word without white space that opens neither a block nor a string.
structure Token.Bare (token : String) : Prop where
  solid : ∀ c ∈ token.toList, Text.isBlank c = false
  block : token.toList.head? ≠ some '{'
  string : token.toList.head? ≠ some '('

namespace Token

theorem token_kinds (line token : String) (member : token ∈ tokens line) :
    Bare token ∨ (∃ source, token.toList = '{' :: (source ++ ['}'])) ∨ ∃ text, token.toList = '(' :: (text ++ [')']) := by
  have form := (token_made line token member).1
  generalize same : token.toList = whole at form
  cases form with
  | word whole solid block string =>
      rw [← same] at solid block string
      exact .inl ⟨solid, beq_eq_false_iff_ne.mp block, beq_eq_false_iff_ne.mp string⟩
  | block source => exact .inr (.inl ⟨source, rfl⟩)
  | string text => exact .inr (.inr ⟨text, rfl⟩)

theorem cut_bare (line token : String) (member : token ∈ tokens line) (block : token.toList.head? ≠ some '{')
    (string : token.toList.head? ≠ some '(') : Bare token := by
  rcases token_kinds line token member with bare | ⟨source, is⟩ | ⟨text, is⟩
  · exact bare
  · exact absurd (congrArg List.head? is) block
  · exact absurd (congrArg List.head? is) string

theorem literal_block (line token : String) (member : token ∈ tokens line) (opens : token.toList.head? = some '{') :
    ∃ source, constant? token = some (.block source) := by
  rcases token_kinds line token member with bare | ⟨source, is⟩ | ⟨text, is⟩
  · exact absurd opens bare.block
  · exact ⟨_, block_constant token source is⟩
  · cases (congrArg List.head? is).symm.trans opens

theorem literal_string (line token : String) (member : token ∈ tokens line) (opens : token.toList.head? = some '(') :
    constant? token = some (.string (String.ofList token.toList.tail.dropLast)) := by
  rcases token_kinds line token member with bare | ⟨source, is⟩ | ⟨text, is⟩
  · exact absurd opens bare.string
  · cases (congrArg List.head? is).symm.trans opens
  · rw [string_constant token text is, is, List.tail_cons, List.dropLast_concat]

theorem dispatched_bare (line token : String) (member : token ∈ tokens line) (none : constant? token = none) :
    Bare token := by
  refine cut_bare line token member ?_ ?_
  · intro opens
    obtain ⟨source, is⟩ := literal_block line token member opens
    cases none.symm.trans is
  · intro opens
    cases none.symm.trans (literal_string line token member opens)

end Token

namespace Run

theorem constant_told (token : String) (value : Value) (r : Run) (next : r.token? = some token)
    (is : constant? token = some value) : r.step.notices = r.notices := by
  cases r.move with
  | idle idle same => rw [same]
  | token activity outer first rest pending runs left same =>
      have taken := token_left activity outer first rest r pending runs left
      obtain rfl := Option.some.inj (next.symm.trans taken)
      rw [same, execute_constant token _ value is]
      rfl
  | again activity outer passes pending runs spent more same => rw [same]
  | leave activity outer pending ended same => rw [same, leave_notices]

theorem undefined_told (name : String) (r : Run) (told : .reported (.undefined name) ∈ r.step.notices) :
    .reported (.undefined name) ∈ r.notices ∨ r.token? = some name ∧ constant? name = none := by
  rcases step_told r _ told with old | ⟨token, next, tells⟩
  · exact .inl old
  · generalize notice : Notice.reported (.undefined name) = told' at tells
    cases tells with
    | undefined =>
        cases notice
        cases is : constant? name with
        | none => exact .inr ⟨next, rfl⟩
        | some value => exact .inl (constant_told name value r next is ▸ told)
    | refused op error stack failed =>
        cases notice
        exact absurd rfl ((perform_error_own op _ _ _ failed).1 name)
    | shown value cell => cases notice
    | full => cases notice

structure Worded (r : Run) : Prop where
  ahead : ∀ token ∈ r.ahead, ∃ source, token ∈ tokens source
  told : ∀ name, .reported (.undefined name) ∈ r.notices → Token.Bare name

theorem worded_bare (name : String) (r : Run) (worded : r.Worded) (next : r.token? = some name)
    (none : constant? name = none) : Token.Bare name := by
  obtain ⟨source, cut⟩ := worded.ahead name (token_ahead r name next)
  exact Token.dispatched_bare source name cut none

theorem of_line_worded (limit : Nat) (m : Machine) (line : String) : (ofLine limit m line).Worded where
  ahead := by
    intro token member
    exact ⟨line, by simpa [ahead, ofLine] using member⟩
  told := fun _ none => nomatch none

theorem step_worded (r : Run) (worded : r.Worded) : r.step.Worded where
  ahead := by
    intro token member
    rcases step_ahead r token member with old | cut
    · exact worded.ahead token old
    · exact cut
  told := by
    intro name told
    rcases undefined_told name r told with old | ⟨next, none⟩
    · exact worded.told name old
    · exact worded_bare name r worded next none

theorem iterate_worded (n : Nat) (r : Run) (worded : r.Worded) : (step^[n] r).Worded := by
  induction n generalizing r with
  | zero => exact worded
  | succ n ih => exact ih r.step (step_worded r worded)

end Run

namespace Session

theorem literals_agree :
    (∀ line token, token ∈ tokens line →
      (token.toList.head? = some '{' → ∃ source, constant? token = some (.block source)) ∧
      (token.toList.head? = some '(' → constant? token = some (.string (String.ofList token.toList.tail.dropLast))) ∧
      (token.toList.head? ≠ some '{' → token.toList.head? ≠ some '(' → ∀ c ∈ token.toList, Text.isBlank c = false) ∧
      (∀ source, constant? token = some (.block source) →
        Text.spaced (Text.fragments source.toList) = source.toList)) ∧
    (∀ (s : Session) (line : String),
      (∀ n name, (Run.step^[n] (Run.ofLine s.settings.maxDepth s.machine line)).token? = some name →
        constant? name = none → Token.Bare name) ∧
      (∀ name, .reported (.undefined name) ∈ (s.feed line).2 → Token.Bare name)) := by
  constructor
  · intro line token member
    refine ⟨Token.literal_block line token member, Token.literal_string line token member, ?_, ?_⟩
    · exact fun block string => (Token.cut_bare line token member block string).solid
    · exact fun source => Token.block_source_spaced token source (Token.token_made line token member).2
  · intro s line
    have worded (n : Nat) := Run.iterate_worded n _ (Run.of_line_worded s.settings.maxDepth s.machine line)
    refine ⟨fun n name => Run.worded_bare name _ (worded n), fun name told => ?_⟩
    obtain ⟨n, _, _, fed⟩ := feed_ends line s
    rw [fed] at told
    exact (worded n).told name (List.mem_reverse.mp told)

theorem literals_pushed :
    let s := Session.new .default
    let line := "/f { (a  b) nope } def f (c {d}"
    (∃ source, constant? "{ (a b) nope }" = some (.block source) ∧
      Text.spaced (Text.fragments source.toList) = source.toList) ∧
    constant? "(c {d})" = some (.string "c {d}") ∧
    (s.feed line).2 = [.reported (.undefined "nope")] ∧ Token.Bare "nope" := by
  intro s line
  obtain ⟨read, looked⟩ := literals_agree
  have cut : tokens line = ["/f", "{ (a b) nope }", "def", "f", "(c {d})"] := by decide +kernel
  have block : "{ (a b) nope }" ∈ tokens line := by simp [cut]
  have string : "(c {d})" ∈ tokens line := by simp [cut]
  have ends : (Run.step^[9] (Run.ofLine s.settings.maxDepth s.machine line)).pending = [] ∧
      (Run.step^[9] (Run.ofLine s.settings.maxDepth s.machine line)).notices = [.reported (.undefined "nope")] := by
    decide +kernel
  have told : (s.feed line).2 = [.reported (.undefined "nope")] := by
    rw [feed_at 9 line s ends.1]
    exact congrArg List.reverse ends.2
  obtain ⟨source, is⟩ := (read line _ block).1 rfl
  refine ⟨⟨source, is, (read line _ block).2.2.2 source is⟩, (read line _ string).2.1 rfl, told, ?_⟩
  exact (looked s line).2 "nope" (by simp [told])

end Session

end MiniPostScript
