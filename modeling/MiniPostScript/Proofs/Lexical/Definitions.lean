import MiniPostScript.Proofs.Lexical.Resolution
import MiniPostScript.Proofs.Session.Reached

set_option autoImplicit false

namespace MiniPostScript

namespace Scopes

section

variable (key : String) (value : Value) (home : FrameId) (s : Scopes)

-- Whether a block of this home finds under this key what is defined under it next.
def Catches : Prop := s.top = home ∨ s.top = .global ∧ (s.contents home).get? key = none

def lookupFrom : Option (Value × FrameId) := s.lookupIn key home <|> s.lookupIn key .global

theorem lookup_in_define (frame : FrameId) :
    (s.define key value).lookupIn key frame =
      if frame = s.top then some (value, frame) else s.lookupIn key frame := by
  rw [lookupIn, contents_define]
  by_cases top : frame = s.top
  · rw [if_pos top, if_pos top, Dictionary.get_insert, if_pos rfl, Option.map_some]
  · rw [if_neg top, if_neg top, lookupIn]

theorem definition_caught (catches : s.Catches key home) :
    (s.define key value).lookupFrom key home = some (value, s.top) := by
  rw [lookupFrom, lookup_in_define, lookup_in_define]
  rcases catches with here | ⟨global, unbound⟩
  · rw [if_pos here.symm, here]
    rfl
  · by_cases here : home = s.top
    · rw [if_pos here, here]
      rfl
    · rw [if_neg here, (lookup_in_none_iff s key home).mpr unbound, if_pos global.symm, global]
      rfl

theorem definition_missed (misses : ¬s.Catches key home) :
    (s.define key value).lookupFrom key home = s.lookupFrom key home := by
  rw [lookupFrom, lookupFrom, lookup_in_define, lookup_in_define]
  have elsewhere : home ≠ s.top := fun here => misses (.inl here.symm)
  rw [if_neg elsewhere]
  by_cases global : FrameId.global = s.top
  · cases bound : s.lookupIn key home with
    | none => exact absurd (.inr ⟨global.symm, (lookup_in_none_iff s key home).mp bound⟩) misses
    | some entry => rfl
  · rw [if_neg global]

end

end Scopes

namespace Run

theorem define_step (key : String) (value : Value) (r : Run) (defines : r.deed? = some (.define key value)) :
    r.step.machine.scopes = r.machine.scopes.define key value ∧
      r.step.machine.scoping = r.machine.scoping ∧ r.step.entries <:+ r.entries := by
  cases r.does with
  | performs op stack deed activity rest outer performed is same =>
      obtain rfl := Option.some.inj (is.symm.trans defines)
      have level : r.step.depth = r.depth := by rw [same]; rfl
      refine ⟨by rw [same]; rfl, by rw [same]; rfl, ?_⟩
      cases r.nests with
      | stays entries depth homes => exact ⟨[], entries⟩
      | enters entry block room entries depth homes found => omega
      | leaves entry entries depth homes => exact ⟨[entry], entries.symm⟩
  | keeps none => cases none.symm.trans defines

theorem tokenless_step (r : Run) (tokenless : r.token? = none) :
    r.step.machine = r.machine ∧ r.step.entries <:+ r.entries := by
  cases r.move with
  | idle idle same =>
      rw [same]
      exact ⟨rfl, List.suffix_refl _⟩
  | token activity outer token rest pending runs left same =>
      cases tokenless.symm.trans (token_left activity outer token rest r pending runs left)
  | again activity outer passes pending runs spent more same =>
      rw [same, entries, entries, pending]
      exact ⟨rfl, List.suffix_refl _⟩
  | leave activity outer pending ended same =>
      rw [same, leave_machine, entries, leave_pending, List.map_tail]
      exact ⟨rfl, List.tail_suffix _⟩

theorem tokenless_run (k : Nat) (r : Run) (tokenless : ∀ i < k, (step^[i] r).token? = none) :
    (step^[k] r).machine = r.machine ∧ (step^[k] r).entries <:+ r.entries := by
  induction k generalizing r with
  | zero => exact ⟨rfl, List.suffix_refl _⟩
  | succ k ih =>
      obtain ⟨machine, suffix⟩ := tokenless_step r (tokenless 0 (Nat.succ_pos k))
      obtain ⟨later, inner⟩ := ih r.step fun i less => tokenless (i + 1) (Nat.succ_lt_succ less)
      exact ⟨later.trans machine, inner.trans suffix⟩

theorem own_definition_seen (settings : Settings) (r : Run) (inner still outer : List Entry) (home : FrameId)
    (key : String) (value : Value) (k : Nat) (reached : Reached settings r)
    (lexical : r.machine.scoping = .lexical) (running : r.entries = inner ++ .named home :: outer)
    (innermost : ∀ entry ∈ inner, entry.home? = none) (defines : r.deed? = some (.define key value))
    (next : ∀ i < k, (step^[i] r.step).token? = none)
    (there : (step^[k] r.step).entries = still ++ .named home :: outer) :
    (r.machine.scopes.Catches key home →
      (step^[k] r.step).lookup key = some (value, r.machine.scopes.top)) ∧
    (¬r.machine.scopes.Catches key home → (step^[k] r.step).lookup key = r.lookup key) := by
  obtain ⟨scopes, scoping, suffix⟩ := define_step key value r defines
  obtain ⟨machine, later⟩ := tokenless_run k r.step next
  have unnamed : ∀ entry ∈ still, entry.home? = none := by
    obtain ⟨gone, whole⟩ := later.trans suffix
    rw [there, running, ← List.append_assoc] at whole
    have left := List.append_cancel_right whole
    exact fun entry member => innermost entry (left ▸ List.mem_append_right gone member)
  obtain ⟨homes, first⟩ := innermost_home 0 [] inner outer home r (reached_nested settings r reached) running innermost
  obtain ⟨homes', second⟩ := innermost_home 0 [] still outer home (step^[k] r.step)
    (reached_nested settings _ (reached_iterate settings k _ (.step r reached))) there unnamed
  have before : r.lookup key = r.machine.scopes.lookupFrom key home := lookup_home key home homes r lexical first
  have after : (step^[k] r.step).lookup key = (r.machine.scopes.define key value).lookupFrom key home := by
    have same : (step^[k] r.step).machine.scoping = .lexical := by rw [machine, scoping, lexical]
    rw [lookup_home key home homes' _ same second, machine, scopes, Scopes.lookupFrom]
  rw [before, after]
  exact ⟨Scopes.definition_caught key value home _, Scopes.definition_missed key value home _⟩

theorem nested_definition_seen :
    let r := step^[9] ((fresh ⟨.lexical, 2⟩).begin "/f { true { /n 5 def } if n } def f")
    r.entries = [.block, .named .global, .line] ∧ (step^[1] r.step).token? = some "n" ∧
      (step^[1] r.step).lookup "n" = some (.integer 5, .global) := by
  intro r
  obtain ⟨lexical, running, stands, stack, top, first, second, there⟩ : r.machine.scoping = .lexical ∧
      r.entries = [.block, .named .global, .line] ∧ r.operator? = some .define ∧
      r.machine.stack = Stack.empty.pushAll [.name "n", .integer 5] ∧ r.machine.scopes.top = .global ∧
      (∀ i < 1, (step^[i] r.step).token? = none) ∧ (step^[1] r.step).token? = some "n" ∧
      (step^[1] r.step).entries = [] ++ .named .global :: [.line] := by decide +kernel
  have defines : r.deed? = some (.define "n" (.integer 5)) :=
    bids_deed .define _ .empty _ r stands stack (.define _ _)
  have reached : Reached ⟨.lexical, 2⟩ r := reached_iterate _ 9 _ (.begin _ _ rfl .fresh)
  obtain ⟨seen, _⟩ := own_definition_seen ⟨.lexical, 2⟩ r [.block] [] [.line] .global "n" (.integer 5) 1
    reached lexical running (fun entry member => by rw [List.mem_singleton.mp member]; rfl) defines first there
  rw [top] at seen
  exact ⟨running, second, seen (.inl top)⟩

theorem ambient_definition_unseen :
    let r := step^[9] ((fresh ⟨.lexical, 1⟩).begin "/f { /n 5 def n } def 1 dict begin f")
    Reached ⟨.lexical, 1⟩ r ∧ r.machine.scoping = .lexical ∧ r.entries = [.named .global, .line] ∧
      r.deed? = some (.define "n" (.integer 5)) ∧ r.step.token? = some "n" ∧
      r.step.entries = [.named .global, .line] ∧ r.step.lookup "n" = none := by
  intro r
  obtain ⟨lexical, running, stands, stack, unseen⟩ : r.machine.scoping = .lexical ∧
      r.entries = [.named .global, .line] ∧ r.operator? = some .define ∧
      r.machine.stack = Stack.empty.pushAll [.name "n", .integer 5] ∧ r.step.token? = some "n" ∧
      r.step.entries = [.named .global, .line] ∧ r.step.lookup "n" = none := by decide +kernel
  have defines : r.deed? = some (.define "n" (.integer 5)) :=
    bids_deed .define _ .empty _ r stands stack (.define _ _)
  exact ⟨reached_iterate _ 9 _ (.begin _ _ rfl .fresh), lexical, running, defines, unseen⟩

end Run

end MiniPostScript
