import MiniPostScript.Proofs.Operator.Faults
import MiniPostScript.Proofs.Run.Notices
import MiniPostScript.Proofs.Session.Reached

set_option autoImplicit false

namespace MiniPostScript

namespace Dictionary

def Binds (d : Dictionary) (name : String) : Prop := ∃ value, d.get? name = some value

theorem binds_insert (key name : String) (value : Value) (d : Dictionary) (bound : d.Binds name) :
    (d.insert key value).Binds name := by
  by_cases same : name = key
  · exact ⟨value, by rw [get_insert, if_pos same]⟩
  · obtain ⟨old, found⟩ := bound
    exact ⟨old, by rw [get_insert, if_neg same, found]⟩

theorem binds_insert_all (name : String) (entries : List (String × Value)) (d : Dictionary) (bound : d.Binds name) :
    (d.insertAll entries).Binds name := by
  induction entries generalizing d with
  | nil => exact bound
  | cons first rest ih => exact ih _ (binds_insert first.1 name first.2 d bound)

theorem insert_all_binds (entries : List (String × Value)) (d : Dictionary) (entry : String × Value)
    (member : entry ∈ entries) : (d.insertAll entries).Binds entry.1 := by
  induction entries generalizing d with
  | nil => cases member
  | cons first rest ih =>
      rcases List.mem_cons.mp member with rfl | later
      · exact binds_insert_all _ rest _ ⟨entry.2, by rw [get_insert, if_pos rfl]⟩
      · exact ih _ later

theorem builtins_bind (name : String) (op : Operator) (member : (name, op) ∈ Operator.builtins) :
    builtins.Binds name :=
  insert_all_binds _ (empty _) (name, .operator op) (List.mem_map.mpr ⟨(name, op), member, rfl⟩)

end Dictionary

namespace Run

theorem lookup_binds (name : String) (r : Run) (bound : (r.machine.scopes.contents .global).Binds name) :
    ∃ value home, r.lookup name = some (value, home) := by
  obtain ⟨value, found⟩ := bound
  have global := (Scopes.lookup_in_iff r.machine.scopes name .global .global value).mpr ⟨found, rfl⟩
  have resolves : (r.lookup name).isSome := by
    rw [lookup]
    split
    · simp [global]
    · have last := List.mem_of_getLast? (Scopes.frames_last r.machine.scopes)
      exact List.findSome?_isSome_iff.mpr ⟨.global, last, by rw [global, Option.isSome_some]⟩
  obtain ⟨⟨value, home⟩, same⟩ := Option.isSome_iff_exists.mp resolves
  exact ⟨value, home, same⟩

theorem evaluate_defined (name : String) (value : Value) (home : FrameId) (r : Run)
    (told : .reported (.undefined name) ∈ (r.evaluate value home).notices) :
    .reported (.undefined name) ∈ r.notices := by
  have entered (entry : Entry) (source : String)
      (told : .reported (.undefined name) ∈ (r.enter entry source (.times 0)).notices) :
      .reported (.undefined name) ∈ r.notices := by
    rcases enter_told entry source _ r _ told with old | other
    · exact old
    · cases other
  cases value with
  | operator op =>
      rw [evaluate] at told
      cases performed : r.machine.stack.perform op with
      | error failure =>
          obtain ⟨error, stack⟩ := failure
          rw [operate_error op r error stack performed] at told
          rcases List.mem_cons.mp told with same | old
          · obtain rfl := Notice.reported.inj same
            exact absurd rfl ((perform_error_own op _ stack _ performed).1 name)
          · exact old
      | ok done =>
          obtain ⟨stack, deed⟩ := done
          rw [operate_ok op r stack deed performed] at told
          rcases carry_out_told deed _ r _ told with old | ⟨_, _, other⟩ | other
          · exact old
          · cases other
          · cases other
  | block source =>
      rw [evaluate, enterNamed] at told
      split at told
      · exact entered _ source told
      · exact entered _ source told
  | _ => exact told

theorem step_undefined (name : String) (r : Run) (told : .reported (.undefined name) ∈ r.step.notices) :
    .reported (.undefined name) ∈ r.notices ∨ r.token? = some name ∧ r.lookup name = none := by
  cases r.move with
  | idle idle same => exact .inl (same ▸ told)
  | again activity outer passes pending runs spent more same =>
      rw [same] at told
      exact .inl told
  | leave activity outer pending ended same =>
      rw [same, leave_notices] at told
      exact .inl told
  | token activity outer token rest pending runs left same =>
      rw [same] at told
      cases is : constant? token with
      | some value =>
          rw [execute_constant token _ value is] at told
          exact .inl told
      | none =>
          cases found : (r.shorten activity rest outer).lookup token with
          | some entry =>
              rw [execute_found token _ entry.1 entry.2 is found] at told
              exact .inl (evaluate_defined name entry.1 entry.2 (r.shorten activity rest outer) told)
          | none =>
              rw [execute_undefined token _ is found] at told
              rcases List.mem_cons.mp told with new | old
              · cases new
                exact .inr ⟨token_left activity outer name rest r pending runs left, found⟩
              · exact .inl old

theorem step_binds (frame : FrameId) (name : String) (r : Run) (bound : (r.machine.scopes.contents frame).Binds name) :
    (r.step.machine.scopes.contents frame).Binds name := by
  obtain ⟨value, found⟩ := bound
  rw [step_contents frame r (Scopes.bound_has _ frame name value found)]
  exact Dictionary.binds_insert_all name _ _ ⟨value, found⟩

theorem since_binds (frame : FrameId) (name : String) (past r : Run)
    (bound : (past.machine.scopes.contents frame).Binds name) (later : Since (fun _ => True) past r) :
    (r.machine.scopes.contents frame).Binds name := by
  induction later with
  | start here => exact bound
  | step r earlier here ih => exact step_binds frame name r ih
  | begin line r idle earlier here ih => exact ih

section

variable (settings : Settings) (r : Run)

theorem reached_global (reached : Reached settings r) :
    ∃ definitions, r.machine.scopes.contents .global = Dictionary.builtins.insertAll definitions := by
  induction reached with
  | fresh => exact ⟨[], rfl⟩
  | begin line r idle reached ih => exact ih
  | step r reached ih =>
      obtain ⟨definitions, same⟩ := ih
      refine ⟨definitions ++ (r.definitionIn? .global).toList, ?_⟩
      rw [step_contents .global r trivial, same]
      exact List.foldl_append.symm

theorem reached_binds (name : String) (op : Operator) (member : (name, op) ∈ Operator.builtins)
    (reached : Reached settings r) : (r.machine.scopes.contents .global).Binds name := by
  obtain ⟨definitions, same⟩ := reached_global settings r reached
  rw [same]
  exact Dictionary.binds_insert_all name definitions _ (Dictionary.builtins_bind name op member)

theorem reached_defined (name : String) (op : Operator) (member : (name, op) ∈ Operator.builtins)
    (reached : Reached settings r) : .reported (.undefined name) ∉ r.notices := by
  induction reached with
  | fresh => exact List.not_mem_nil
  | begin line r idle reached ih => exact List.not_mem_nil
  | step r reached ih =>
      intro told
      rcases step_undefined name r told with old | ⟨_, missing⟩
      · exact ih old
      · obtain ⟨value, home, found⟩ := lookup_binds name r (reached_binds settings r name op member reached)
        cases missing.symm.trans found

theorem builtins_resolve (reached : Reached settings r) :
    r.machine.scopes.frames.head? = some r.machine.scopes.top ∧
    r.machine.scopes.frames.getLast? = some .global ∧
    (∀ frame ∈ r.machine.scopes.frames, r.machine.scopes.Has frame) ∧
    (∃ definitions, r.machine.scopes.contents .global = Dictionary.builtins.insertAll definitions) ∧
    (∀ name op, (name, op) ∈ Operator.builtins →
      (r.machine.scopes.contents .global).Binds name ∧
      (∃ value home, r.lookup name = some (value, home)) ∧
      .reported (.undefined name) ∉ r.notices) ∧
    ∀ frame name, (r.machine.scopes.contents frame).Binds name →
      ∀ later, Since (fun _ => True) r later → (later.machine.scopes.contents frame).Binds name := by
  obtain ⟨rest, top⟩ := Scopes.top_frames r.machine.scopes
  refine ⟨by rw [top, List.head?_cons], Scopes.frames_last _, Scopes.frames_has _,
    reached_global settings r reached, fun name op member => ?_, fun frame name bound later since => ?_⟩
  · have bound := reached_binds settings r name op member reached
    exact ⟨bound, lookup_binds name r bound, reached_defined settings r name op member reached⟩
  · exact since_binds frame name r later bound since

theorem ended_frame_resolves :
    let r := step^[9] ((fresh ⟨.lexical, 9⟩).begin "1 dict begin /f { end end sub } def f")
    r.homes = [.begun 0] ∧ r.machine.scopes.frames = [.global] ∧ r.token? = some "sub" ∧
      (∃ value home, r.lookup "sub" = some (value, home)) ∧ .reported (.undefined "sub") ∉ r.step.notices := by
  intro r
  obtain ⟨homes, frames, next⟩ : r.homes = [.begun 0] ∧ r.machine.scopes.frames = [.global] ∧
      r.token? = some "sub" := by decide +kernel
  have builtin : ("sub", Operator.sub) ∈ Operator.builtins := by decide
  have reached : Reached ⟨.lexical, 9⟩ r := reached_iterate _ 9 _ (.begin _ _ rfl .fresh)
  obtain ⟨_, _, _, _, resolves, _⟩ := builtins_resolve ⟨.lexical, 9⟩ r reached
  obtain ⟨_, _, _, _, after, _⟩ := builtins_resolve ⟨.lexical, 9⟩ r.step (.step r reached)
  exact ⟨homes, frames, next, (resolves "sub" .sub builtin).2.1, (after "sub" .sub builtin).2.2⟩

end

end Run

namespace Session

theorem feed_defined (settings : Settings) (s : Session) (line name : String) (op : Operator)
    (member : (name, op) ∈ Operator.builtins) (reached : Reached settings s) :
    .reported (.undefined name) ∉ (s.feed line).2 := by
  have ends := Run.reached_finish settings _ (line_reached settings s line reached)
  rw [feed_finish, (session_reached settings s reached).1, List.mem_reverse]
  exact Run.reached_defined settings _ name op member ends

end Session

end MiniPostScript
