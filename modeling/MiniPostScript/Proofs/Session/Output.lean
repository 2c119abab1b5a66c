import MiniPostScript.Program
import MiniPostScript.Proofs.Operator.Faults
import MiniPostScript.Proofs.Run.Ahead
import MiniPostScript.Proofs.Run.Notices
import MiniPostScript.Proofs.Session.Shapes
import MiniPostScript.Proofs.Value.Unbroken
import MiniPostScript.Terminal

set_option autoImplicit false

namespace MiniPostScript

theorem scalar_unbroken (value : Value) (is : value.isScalar = true) : value.Unbroken := by
  cases value with
  | integer | real | boolean => trivial
  | _ => cases is

theorem literal_unbroken (token : String) (value : Value) (unbroken : Text.Unbroken token.toList)
    (literal : Literal token value) : value.Unbroken := by
  cases literal with
  | scalar value is => exact scalar_unbroken value is
  | string text drawn | block text drawn | name text drawn =>
      exact Text.unbroken_subset _ _ drawn unbroken

theorem makes_unbroken (op : Operator) (operands : List Value) (value : Value)
    (unbroken : ∀ operand ∈ operands, operand.Unbroken) (makes : Makes op operands value) :
    value.Unbroken := by
  cases makes with
  | operand value member => exact unbroken value member
  | scalar value is => exact scalar_unbroken value is
  | dictionary n is taken size => trivial
  | string text drawn =>
      intro c member
      obtain ⟨source, operand, inside⟩ := drawn c member
      exact unbroken (.string source) operand c inside

theorem perform_error_unbroken (op : Operator) (s after : Stack) (error : Error)
    (failed : s.perform op = .error (error, after)) : error.Unbroken := by
  have name := operator_name_unbroken op
  rcases perform_error_listed op s after error failed with ⟨_, rfl⟩ | ⟨_, listed⟩
  · exact name
  · rcases fault_cases op error listed with rfl | rfl | rfl | ⟨_, rfl⟩
    · exact name
    · exact name
    · exact name
    · trivial

theorem builtin_key_unbroken (key : String) (op : Operator) (builtin : (key, op) ∈ Operator.builtins) :
    Text.Unbroken key.toList := by
  rcases List.mem_append.mp builtin with name | other
  · obtain ⟨op, _, same⟩ := List.mem_map.mp name
    cases same
    exact operator_name_unbroken op
  · have aliases : ∀ entry ∈ Operator.aliases, Text.Unbroken entry.1.toList := by decide +kernel
    exact aliases (key, op) other

-- Frames that have been ended count too, since a named block may still see them.
structure Machine.Unbroken (m : Machine) : Prop where
  values : ∀ value, m.Holds value → value.Unbroken
  keys : ∀ frame key value, (m.scopes.contents frame).get? key = some value → Text.Unbroken key.toList

theorem of_scoping_unbroken (scoping : Scoping) : (Machine.ofScoping scoping).Unbroken where
  values := by
    rintro value (none | ⟨frame, key, bound⟩)
    · cases none
    · obtain ⟨_, found⟩ := Machine.of_scoping_bound scoping frame key value bound
      obtain ⟨op, _, rfl⟩ := Dictionary.builtins_get key value found
      trivial
  keys := by
    intro frame key value bound
    obtain ⟨_, found⟩ := Machine.of_scoping_bound scoping frame key value bound
    obtain ⟨op, builtin, _⟩ := Dictionary.builtins_get key value found
    exact builtin_key_unbroken key op builtin

namespace Run

structure Unbroken (r : Run) : Prop where
  machine : r.machine.Unbroken
  ahead : ∀ token ∈ r.ahead, Text.Unbroken token.toList
  told : ∀ notice ∈ r.notices, Text.Unbroken notice.text.toList

theorem origin_unbroken (token : String) (r : Run) (value : Value) (machine : r.machine.Unbroken)
    (unbroken : Text.Unbroken token.toList) (origin : Origin token r value) : value.Unbroken := by
  cases origin with
  | kept member => exact machine.values value (.inl member)
  | constant is => exact literal_unbroken token value unbroken (constant_literal token value is)
  | found home found data => exact machine.values value (.inr ⟨home, token, found_bound token value home r found⟩)
  | made op operands below is stack makes =>
      refine makes_unbroken op operands value (fun operand member => machine.values operand (.inl ?_)) makes
      rw [stack]
      exact Stack.mem_push_all operand operands below member

theorem tells_unbroken (limit : Nat) (m : Machine) (token : String) (notice : Notice) (machine : m.Unbroken)
    (unbroken : Text.Unbroken token.toList) (tells : Tells limit m token notice) :
    Text.Unbroken notice.text.toList := by
  cases tells with
  | undefined => exact message_unbroken (.undefined token) unbroken
  | refused op error stack failed =>
      exact message_unbroken error (perform_error_unbroken op m.stack stack error failed)
  | shown value cell => exact value_text_unbroken value (machine.values value (.inl cell))
  | full => exact message_unbroken (.nestingLimit limit) trivial

theorem step_bound_unbroken (frame : FrameId) (key : String) (value : Value) (r : Run)
    (machine : r.machine.Unbroken) (bound : (r.step.machine.scopes.contents frame).get? key = some value) :
    Text.Unbroken key.toList ∧ value.Unbroken := by
  rcases step_bound frame key value r bound with old | ⟨name, defined⟩ | ⟨⟨capacity, bindings⟩, begun, inside⟩
  · exact ⟨machine.keys frame key value old, machine.values value (.inr ⟨frame, key, old⟩)⟩
  · exact ⟨machine.values (.name key) (.inl name), machine.values value (.inl defined)⟩
  · exact Bindings.get_unbroken key value bindings (machine.values _ (.inl begun)) inside

theorem step_unbroken (r : Run) (unbroken : r.Unbroken) : r.step.Unbroken where
  machine := by
    refine ⟨?_, fun frame key value bound => (step_bound_unbroken frame key value r unbroken.machine bound).1⟩
    rintro value (cell | ⟨frame, key, bound⟩)
    · rcases step_cells r value cell with old | ⟨token, next, origin⟩
      · exact unbroken.machine.values value (.inl old)
      · exact origin_unbroken token r value unbroken.machine
          (unbroken.ahead token (token_ahead r token next)) origin
    · exact (step_bound_unbroken frame key value r unbroken.machine bound).2
  ahead := by
    intro token member
    rcases step_ahead r token member with old | ⟨source, new⟩
    · exact unbroken.ahead token old
    · exact token_unbroken source token new
  told := by
    intro notice told
    rcases step_told r notice told with old | ⟨token, next, tells⟩
    · exact unbroken.told notice old
    · exact tells_unbroken r.limit r.machine token notice unbroken.machine
        (unbroken.ahead token (token_ahead r token next)) tells

theorem reached_unbroken (settings : Settings) (r : Run) (reached : Reached settings r) : r.Unbroken := by
  induction reached with
  | fresh =>
      exact ⟨of_scoping_unbroken settings.scoping, fun _ none => (nomatch none), fun _ none => (nomatch none)⟩
  | begin line r idle reached ih =>
      refine ⟨ih.machine, fun token member => token_unbroken line token ?_, fun _ none => nomatch none⟩
      simpa [Run.ahead, begin] using member
  | step r reached ih => exact step_unbroken r ih

end Run

namespace Program

theorem lines_from_append (text pending rest : List Char) (apart : '\n' ∉ text) :
    linesFrom pending (text ++ rest) = linesFrom (text.reverse ++ pending) rest := by
  induction text generalizing pending with
  | nil => rfl
  | cons c text ih =>
      obtain ⟨other, later⟩ := not_or.mp (mt List.mem_cons.mpr apart)
      change (if c = '\n' then _ else linesFrom (c :: pending) (text ++ rest)) = _
      rw [if_neg (Ne.symm other), ih (c :: pending) later]
      simp

theorem lines_from_feed (pending rest : List Char) (other : '\r' ∉ pending) :
    linesFrom pending ('\n' :: rest) = pending.reverse :: linesFrom [] rest := by
  rw [linesFrom.eq_def]
  dsimp only
  rw [if_pos rfl]
  split
  · exact absurd List.mem_cons_self other
  · rfl

theorem lines_from_break (text rest : List Char) (unbroken : Text.Unbroken text) :
    linesFrom [] (text ++ '\n' :: rest) = text :: linesFrom [] rest := by
  have free (c : Char) (blank : Text.isBlank c = true) (other : c ≠ ' ') : c ∉ text :=
    fun member => other (unbroken c member blank)
  have feed := free '\n' (by decide) (by decide)
  have back := mt List.mem_reverse.mp (free '\r' (by decide) (by decide))
  rw [lines_from_append text [] _ feed, List.append_nil, lines_from_feed _ rest back, List.reverse_reverse]

theorem lines_join (texts : List String) (unbroken : ∀ text ∈ texts, Text.Unbroken text.toList) :
    lines (String.join (texts.map fun text => text ++ "\n")) = texts := by
  rw [lines, String.toList_join]
  induction texts with
  | nil => rfl
  | cons text rest ih =>
      obtain ⟨first, others⟩ := List.forall_mem_cons.mp unbroken
      have ended : (text ++ "\n").toList = text.toList ++ ['\n'] := String.toList_append
      simp only [List.map_cons, List.flatMap_cons, ended, List.append_assoc, List.singleton_append]
      rw [lines_from_break _ _ first, List.map_cons, ih others, String.ofList_toList]

end Program

namespace Session

theorem moment_unbroken (settings : Settings) (s : Session) (line : String) (reached : Reached settings s)
    (n : Nat) : (Run.step^[n] (Run.ofLine settings.maxDepth s.machine line)).Unbroken := by
  exact Run.reached_unbroken settings _ (Run.reached_iterate settings n _ (line_reached settings s line reached))

theorem feed_unbroken (settings : Settings) (s : Session) (line : String) (reached : Reached settings s) :
    ∀ notice ∈ (s.feed line).2, Text.Unbroken notice.text.toList := by
  obtain ⟨n, _, _, fed⟩ := feed_ends line s
  have unbroken := moment_unbroken settings s line reached n
  rw [← (session_reached settings s reached).1] at unbroken
  intro notice told
  rw [fed] at told
  exact unbroken.told notice (List.mem_reverse.mp told)

theorem respond_split (s : Session) (line : String)
    (unbroken : ∀ notice ∈ (s.feed line).2, Text.Unbroken notice.text.toList) (some : (s.feed line).2 ≠ []) :
    (s.respond line).2.toList.splitOn '\n' = (s.feed line).2.map fun notice => notice.text.toList := by
  have joined : (s.respond line).2.toList =
      ['\n'].intercalate ((s.feed line).2.map fun notice => notice.text.toList) := by
    rw [respond, String.toList_intercalate, List.map_map]
    rfl
  rw [joined]
  refine List.splitOn_intercalate '\n' ?_ (by simpa using some)
  intro text member
  obtain ⟨notice, told, rfl⟩ := List.mem_map.mp member
  exact fun inside => absurd (unbroken notice told '\n' inside (by decide)) (by decide)

theorem lines_kept_apart (settings : Settings) (s : Session) (line : String) (reached : Reached settings s) :
    s.machine.Unbroken ∧
    (∀ n, let r := Run.step^[n] (Run.ofLine settings.maxDepth s.machine line)
      r.machine.Unbroken ∧ ∀ notice ∈ r.notices, Text.Unbroken notice.text.toList) ∧
    ((s.feed line).2 ≠ [] →
      (s.respond line).2.toList.splitOn '\n' = (s.feed line).2.map fun notice => notice.text.toList) ∧
    (∀ bytes, String.fromUTF8? bytes = some line → ∃ after written,
      Terminal.answer? bytes s = some (after, written) ∧
      Program.lines written = (s.feed line).2.map Notice.text) := by
  have moment := moment_unbroken settings s line reached
  have told := feed_unbroken settings s line reached
  refine ⟨(moment 0).machine, fun n => ⟨(moment n).machine, (moment n).told⟩, respond_split s line told, ?_⟩
  intro bytes decoded
  refine ⟨(s.feed line).1, _, by rw [Terminal.answer?, decoded], ?_⟩
  have texts : ∀ text ∈ (s.feed line).2.map Notice.text, Text.Unbroken text.toList := by
    intro text member
    obtain ⟨notice, shown, rfl⟩ := List.mem_map.mp member
    exact told notice shown
  have join := Program.lines_join _ texts
  rwa [List.map_map] at join

theorem broken_string_shown :
    let s := Session.new .default
    let line := "/s (a\tb\nc) def s print nope"
    let told := [Notice.shown "a b c", .reported (.undefined "nope")]
    (s.feed line).2 = told ∧
      (s.respond line).2.toList.splitOn '\n' = told.map fun notice => notice.text.toList := by
  intro s line told
  let start := Run.ofLine s.settings.maxDepth s.machine line
  have last : (Run.step^[7] start).pending = [] ∧ (Run.step^[7] start).notices.reverse = told := by
    decide +kernel
  have fed : (s.feed line).2 = told := by
    rw [feed_at 7 line s last.1]
    exact last.2
  obtain ⟨_, _, split, _⟩ := lines_kept_apart .default s line .new
  refine ⟨fed, ?_⟩
  rw [← fed]
  exact split (by rw [fed]; exact List.cons_ne_nil _ _)

end Session

end MiniPostScript
