import MiniPostScript.Proofs.Run.Frames
import MiniPostScript.Proofs.Run.Lockstep
import MiniPostScript.Proofs.Run.Task

set_option autoImplicit false

namespace MiniPostScript

namespace Scopes

theorem lookup_flat (name : String) (s : Scopes) (flat : s.active = []) :
    s.lookup name = s.lookupIn name .global := by
  rw [lookup, frames, flat]
  simp only [List.map_nil, List.nil_append, List.findSome?_singleton]

theorem active_define (key : String) (value : Value) (s : Scopes) :
    (s.define key value).active = s.active := by
  rw [define]
  split <;> rfl

end Scopes

def Machine.lexically (m : Machine) : Machine := { m with scoping := .lexical }

structure Machine.Flat (m : Machine) : Prop where
  scopes : m.scopes.active = []
  scoping : m.scoping = .dynamic

inductive Entry.Flat : Entry → Entry → Prop where
  | line : Entry.Flat .line .line
  | block : Entry.Flat .block .block
  | named : Entry.Flat .block (.named .global)

inductive Activity.Flat : Activity → Activity → Prop where
  | same (entry entry' : Entry) (rest body : List String) (passes : Passes)
      (entries : entry.Flat entry') :
      Activity.Flat ⟨entry, rest, body, passes⟩ ⟨entry', rest, body, passes⟩

inductive Task.Flat : Task → Task → Prop where
  | settled (after : Machine) (told : List Notice) (flat : after.Flat) :
      Task.Flat (.settled after told) (.settled after.lexically told)
  | entering (after : Machine) (entry entry' : Entry) (source : String) (passes : Passes)
      (flat : after.Flat) (entries : entry.Flat entry') :
      Task.Flat (.entering after entry source passes) (.entering after.lexically entry' source passes)

def Deed.begins : Deed → Bool
  | .beginDict _ => true
  | _ => false

theorem effect_flat (deed : Deed) (m : Machine) (flat : m.Flat) (closed : deed.begins = false)
    (keeps : ∀ choose, deed ≠ .setScoping choose) :
    (deed.effect m).task.Flat (deed.effect m.lexically).task := by
  cases deed with
  | display lines => exact .settled m _ flat
  | beginDict d => exact absurd closed (by simp [Deed.begins])
  | endDict =>
      rw [Deed.effect, Deed.effect, Scopes.pop_closed, Scopes.pop_closed]
      exact .settled { m with scopes := m.scopes.closed } [] ⟨by simp [Scopes.closed, flat.scopes], flat.scoping⟩
  | define key value =>
      exact .settled { m with scopes := m.scopes.define key value } []
        ⟨(Scopes.active_define key value m.scopes).trans flat.scopes, flat.scoping⟩
  | halt => exact .settled { m with halted := true } [] ⟨flat.scopes, flat.scoping⟩
  | setScoping choose => exact absurd rfl (keeps choose)
  | run source => exact .entering m .block .block source (.times 0) flat .block
  | loop source passes =>
      have halted : m.lexically.halted = m.halted := rfl
      rw [Deed.effect, Deed.effect, halted]
      split
      · exact .settled m [] flat
      · exact .entering m .block .block source passes flat .block

namespace Run

-- The next step neither begins a dictionary nor performs an operator that sets the scoping.
structure Plain (r : Run) : Prop where
  begins : ∀ deed ∈ r.deed?, deed.begins = false
  changeScoping : r.operator? ≠ some .changeScoping
  lexical : r.operator? ≠ some .lexical
  dynamic : r.operator? ≠ some .dynamic

instance (r : Run) : Decidable r.Plain :=
  decidable_of_iff
    ((∀ deed ∈ r.deed?, deed.begins = false) ∧ r.operator? ≠ some .changeScoping ∧
      r.operator? ≠ some .lexical ∧ r.operator? ≠ some .dynamic)
    ⟨fun ⟨begins, changes, lexical, dynamic⟩ => ⟨begins, changes, lexical, dynamic⟩,
      fun plain => ⟨plain.begins, plain.changeScoping, plain.lexical, plain.dynamic⟩⟩

structure Flat (r s : Run) : Prop where
  limit : s.limit = r.limit
  machine : s.machine = r.machine.lexically
  flat : r.machine.Flat
  pending : List.Forall₂ Activity.Flat r.pending s.pending
  depth : s.depth = r.depth
  homes : ∀ home ∈ s.homes, home = .global
  notices : s.notices = r.notices

section

variable (r s : Run)

theorem lookup_flat (name : String) (flat : Flat r s) :
    r.lookup name = r.machine.scopes.lookupIn name .global ∧
      s.lookup name = r.machine.scopes.lookupIn name .global := by
  have everywhere := Scopes.lookup_flat name r.machine.scopes flat.flat.scopes
  have scopes : s.machine.scopes = r.machine.scopes := by rw [flat.machine]; rfl
  have lexical : s.machine.scoping = .lexical := by rw [flat.machine]; rfl
  refine ⟨by simp only [lookup, flat.flat.scoping, everywhere], ?_⟩
  cases inner : s.homes with
  | nil => simp only [lookup, inner, scopes, lexical, everywhere]
  | cons home rest =>
      obtain rfl := flat.homes home (inner ▸ List.mem_cons_self)
      rw [lookup_home name .global rest s lexical inner, scopes]
      cases r.machine.scopes.lookupIn name .global <;> rfl

theorem plain_deed (op : Operator) (stack : Stack) (deed : Deed) (plain : r.Plain)
    (is : r.operator? = some op) (performed : r.machine.stack.perform op = .ok (stack, deed)) :
    deed.begins = false ∧ ∀ choose, deed ≠ .setScoping choose := by
  have done : r.deed? = some deed := by simp only [deed?, is, performed]
  refine ⟨plain.begins deed done, ?_⟩
  rintro choose rfl
  rcases perform_deed op _ stack _ performed with ⟨lines, other, _⟩ | ⟨operands, bids, _⟩
  · cases other
  · cases bids with
    | changeScoping => exact plain.changeScoping is
    | lexical => exact plain.lexical is
    | dynamic => exact plain.dynamic is

theorem operator_flat (op : Operator) (flat : Flat r s) (plain : r.Plain) (is : r.operator? = some op) :
    (r.machine.operatorTask op).Flat (s.machine.operatorTask op) := by
  have stack : r.machine.lexically.stack = r.machine.stack := rfl
  rw [flat.machine, Machine.operatorTask, Machine.operatorTask, Machine.perform, Machine.perform, stack]
  cases performed : r.machine.stack.perform op with
  | error failure =>
      exact .settled { r.machine with stack := failure.2 } [.reported failure.1] ⟨flat.flat.scopes, flat.flat.scoping⟩
  | ok result =>
      obtain ⟨closed, keeps⟩ := plain_deed r op result.1 result.2 plain is performed
      exact effect_flat result.2 { r.machine with stack := result.1 } ⟨flat.flat.scopes, flat.flat.scoping⟩ closed keeps

theorem task_flat (token : String) (flat : Flat r s) (plain : r.Plain) (next : r.token? = some token) :
    (r.task token).Flat (s.task token) := by
  obtain ⟨found, found'⟩ := lookup_flat r s token flat
  cases is : constant? token with
  | some value =>
      simp only [task, is, flat.machine]
      exact .settled (r.machine.push value) [] ⟨flat.flat.scopes, flat.flat.scoping⟩
  | none =>
      cases bound : r.machine.scopes.lookupIn token .global with
      | none =>
          simp only [task, is, found, found', bound, flat.machine]
          exact .settled r.machine _ flat.flat
      | some entry =>
          obtain ⟨value, home⟩ := entry
          obtain ⟨_, rfl⟩ := (Scopes.lookup_in_iff _ _ _ _ _).mp bound
          simp only [task, is, found, found', bound]
          cases value with
          | operator op =>
              have stands : r.operator? = some op := by
                simp only [operator?, next, Option.bind_some, operatorOf?, is, found, bound]
              exact operator_flat r s op flat plain stands
          | block source =>
              simp only [Machine.valueTask, flat.machine, flat.flat.scoping, Machine.lexically]
              exact .entering r.machine .block (.named .global) source (.times 0) flat.flat .named
          | _ =>
              simp only [Machine.valueTask, flat.machine]
              exact .settled (r.machine.push _) [] ⟨flat.flat.scopes, flat.flat.scoping⟩

theorem undertake_flat (first second : Task) (flat : Flat r s) (tasks : first.Flat second) :
    Flat (r.undertake first) (s.undertake second) := by
  cases tasks with
  | settled after told global =>
      exact { flat with machine := rfl, flat := global, notices := congrArg (told ++ ·) flat.notices }
  | entering after entry entry' source passes global entries =>
      by_cases full : r.limit ≤ r.depth
      · have full' : s.limit ≤ s.depth := flat.limit ▸ flat.depth ▸ full
        simp only [undertake, enter, if_pos full, if_pos full']
        refine { flat with machine := rfl, flat := global, notices := ?_ }
        simp only [report, flat.limit, flat.notices]
      · have room : ¬ s.limit ≤ s.depth := flat.limit ▸ flat.depth ▸ full
        simp only [undertake, enter, if_neg full, if_neg room]
        refine { flat with
          machine := rfl
          flat := global
          pending := .cons (.same entry entry' _ _ passes entries) flat.pending
          depth := congrArg Nat.succ flat.depth
          homes := ?_ }
        intro home member
        rcases List.mem_append.mp member with here | before
        · cases entries with
          | line => cases here
          | block => cases here
          | named => exact List.mem_singleton.mp here
        · exact flat.homes home before

theorem flat_abreast (flat : Flat r s) : Abreast r s where
  halted := by rw [flat.machine]; rfl
  pending := flat.pending.imp fun _ _ ⟨entry, entry', rest, body, passes, _⟩ => .same entry entry' rest body passes

theorem leave_flat (flat : Flat r s) : Flat r.leave s.leave := by
  have pairs := flat.pending
  cases pending : r.pending with
  | nil =>
      rw [pending] at pairs
      have pending' := List.forall₂_nil_left_iff.mp pairs
      simp only [leave, pending, pending']
      exact flat
  | cons x xs =>
      rw [pending] at pairs
      obtain ⟨y, ys, same, beneath, pending'⟩ := List.forall₂_cons_left_iff.mp pairs
      obtain ⟨entry, entry', tokens, body, passes, entries⟩ := same
      simp only [leave, pending, pending']
      cases entries with
      | line => exact { flat with pending := beneath }
      | block => exact { flat with pending := beneath, depth := congrArg Nat.pred flat.depth }
      | named =>
          exact { flat with
            pending := beneath
            depth := congrArg Nat.pred flat.depth
            homes := fun home member => flat.homes home (List.mem_of_mem_tail member) }

theorem step_flat (flat : Flat r s) (plain : r.Plain) : Flat r.step s.step := by
  refine step_abreast Flat r s (flat_abreast r s flat) flat ?_ ?_ (leave_flat r s flat)
  · intro entry entry' left body passes rest next xs ys pending pending'
    have pairs := flat.pending
    rw [pending, pending'] at pairs
    obtain ⟨⟨_, _, _, _, _, entries⟩, beneath⟩ := List.forall₂_cons.mp pairs
    exact { flat with pending := .cons (.same entry entry' rest body next entries) beneath }
  · intro token xs ys next replaced
    rw [execute_task, execute_task]
    exact undertake_flat _ _ _ _ replaced (task_flat r s token flat plain next)

end

end Run

end MiniPostScript
