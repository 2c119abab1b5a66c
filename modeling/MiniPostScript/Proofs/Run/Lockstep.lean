import Mathlib.Data.List.Forall2
import MiniPostScript.Proofs.Run.Call
import MiniPostScript.Proofs.Run.Nesting

set_option autoImplicit false

namespace MiniPostScript

inductive Activity.Abreast : Activity → Activity → Prop where
  | same (entry entry' : Entry) (rest body : List String) (passes : Passes) :
      Activity.Abreast ⟨entry, rest, body, passes⟩ ⟨entry', rest, body, passes⟩

namespace Run

structure Abreast (r s : Run) : Prop where
  halted : s.machine.halted = r.machine.halted
  pending : List.Forall₂ Activity.Abreast r.pending s.pending

theorem same_abreast (r s : Run) (halted : s.machine.halted = r.machine.halted)
    (pending : s.pending = r.pending) : Abreast r s where
  halted := halted
  pending := by
    rw [pending]
    exact List.forall₂_same.mpr fun ⟨entry, rest, body, passes⟩ _ => .same entry entry rest body passes

section

variable (related : Run → Run → Prop) (r s : Run)

theorem step_abreast (abreast : Abreast r s) (now : related r s)
    (goesOn : ∀ entry entry' left body passes rest next xs ys,
      r.pending = ⟨entry, left, body, passes⟩ :: xs → s.pending = ⟨entry', left, body, passes⟩ :: ys →
      related { r with pending := ⟨entry, rest, body, next⟩ :: xs }
        { s with pending := ⟨entry', rest, body, next⟩ :: ys })
    (takes : ∀ token xs ys, r.token? = some token →
      related { r with pending := xs } { s with pending := ys } →
      related ({ r with pending := xs }.execute token) ({ s with pending := ys }.execute token))
    (leaves : related r.leave s.leave) : related r.step s.step := by
  have pairs := abreast.pending
  have halted := abreast.halted
  cases pending : r.pending with
  | nil =>
      rw [pending] at pairs
      rw [step, step, pending, List.forall₂_nil_left_iff.mp pairs]
      exact now
  | cons x xs =>
      rw [pending] at pairs
      obtain ⟨y, ys, ⟨entry, entry', left, body, passes⟩, _, pending'⟩ := List.forall₂_cons_left_iff.mp pairs
      have goes (rest : List String) (next : Passes) :=
        goesOn entry entry' left body passes rest next xs ys pending pending'
      rw [step, step, pending, pending', halted]
      cases runs : r.machine.halted with
      | true => exact leaves
      | false =>
          cases left with
          | cons token rest => exact takes token _ _ (by simp [token?, pending, runs]) (goes rest passes)
          | nil =>
              cases more : passes.next? with
              | none =>
                  simp only [more, Bool.false_eq_true, if_false]
                  exact leaves
              | some next =>
                  simp only [more, Bool.false_eq_true, if_false]
                  exact goes body next

theorem finish_abreast (start : related r s)
    (steps : ∀ n, related (step^[n] r) (step^[n] s) → related (step^[n] r).step (step^[n] s).step)
    (together : ∀ r s, related r s → r.pending = [] → s.pending = []) :
    related r.finish s.finish := by
  have all (n : Nat) : related (step^[n] r) (step^[n] s) := by
    induction n with
    | zero => exact start
    | succ n ih =>
        rw [Function.iterate_succ_apply', Function.iterate_succ_apply']
        exact steps n ih
  obtain ⟨n, reached⟩ := finish_reached r
  have ends := all n
  rw [reached] at ends
  rw [finish_at n s (together _ _ ends (finish_pending r))]
  exact ends

end

-- A change to a run that the nesting has no part in.
def SparesNesting (change : Run → Run) (r : Run) : Prop := ∀ pending depth homes,
  change { r with pending := pending, depth := depth, homes := homes } =
    { change r with pending := pending, depth := depth, homes := homes }

section

variable (change : Run → Run) (r : Run)

theorem nesting_mapped (spares : SparesNesting change r) :
    (change r).pending = r.pending ∧ (change r).depth = r.depth ∧ (change r).homes = r.homes := by
  have same : change r = { change r with pending := r.pending, depth := r.depth, homes := r.homes } :=
    spares r.pending r.depth r.homes
  exact ⟨(congrArg pending same).trans rfl, (congrArg depth same).trans rfl, (congrArg homes same).trans rfl⟩

theorem leave_mapped (spares : SparesNesting change r) : (change r).leave = change r.leave := by
  obtain ⟨pending, depth, homes⟩ := nesting_mapped change r spares
  cases busy : r.pending with
  | nil => simp only [leave, pending, busy]
  | cons activity outer =>
      simp only [leave, pending, depth, homes, busy]
      cases activity.entry with
      | line => exact (spares outer r.depth r.homes).symm
      | block => exact (spares outer (r.depth - 1) r.homes).symm
      | named home => exact (spares outer (r.depth - 1) r.homes.tail).symm

theorem enter_mapped (spares : SparesNesting change r) (limit : (change r).limit = r.limit)
    (reports : ∀ error, (change r).report error = change (r.report error)) (entry : Entry) (source : String)
    (passes : Passes) : (change r).enter entry source passes = change (r.enter entry source passes) := by
  obtain ⟨pending, depth, homes⟩ := nesting_mapped change r spares
  have same : (change r).limit ≤ (change r).depth ↔ r.limit ≤ r.depth := by rw [limit, depth]
  by_cases full : r.limit ≤ r.depth
  · rw [enter, enter, if_pos full, if_pos (same.mpr full), reports, limit]
  · rw [enter, enter, if_neg full, if_neg (mt same.mp full), pending, depth, homes]
    exact (spares _ _ _).symm

theorem step_mapped (halted : (change r).machine.halted = r.machine.halted) (spares : SparesNesting change r)
    (takes : ∀ token activities, r.token? = some token →
      (change { r with pending := activities }).execute token =
        change ({ r with pending := activities }.execute token)) :
    (change r).step = change r.step := by
  obtain ⟨pending, depth, homes⟩ := nesting_mapped change r spares
  have moved (activities : List Activity) :
      change { r with pending := activities } = { change r with pending := activities } := by
    refine (spares activities r.depth r.homes).trans ?_
    rw [← depth, ← homes]
  refine step_abreast (fun r s => s = change r) r (change r)
    (same_abreast r (change r) halted pending) rfl ?_ ?_ (leave_mapped change r spares)
  · intro entry entry' left body passes rest next xs ys here there
    rw [pending, here] at there
    obtain ⟨same, rfl⟩ := List.cons.inj there
    obtain ⟨rfl, _⟩ := Activity.mk.inj same
    exact (moved _).symm
  · intro token xs ys next same
    rw [same]
    exact takes token xs next

theorem finish_mapped (pending : ∀ r, (change r).pending = r.pending)
    (steps : ∀ n, (change (step^[n] r)).step = change (step^[n] r).step) :
    (change r).finish = change r.finish := by
  refine finish_abreast (fun r s => s = change r) r (change r) rfl ?_ ?_
  · intro n now
    rw [now]
    exact steps n
  · rintro r s rfl idle
    rw [pending, idle]

end

def upon (earlier : List Notice) (r : Run) : Run := { r with notices := r.notices ++ earlier }

theorem execute_upon (token : String) (earlier : List Notice) (r : Run) :
    (r.upon earlier).execute token = (r.execute token).upon earlier := by
  have same : (r.upon earlier).task token = r.task token := rfl
  rw [execute_task, execute_task, same]
  cases r.task token with
  | settled after told => simp only [undertake, upon, List.append_assoc]
  | entering after entry source passes =>
      exact enter_mapped (upon earlier) { r with machine := after } (fun _ _ _ => rfl) rfl (fun _ => rfl)
        entry source passes

theorem step_upon (earlier : List Notice) (r : Run) : (r.upon earlier).step = r.step.upon earlier :=
  step_mapped (upon earlier) r rfl (fun _ _ _ => rfl) fun token activities _ =>
    execute_upon token earlier { r with pending := activities }

theorem finish_upon (earlier : List Notice) (r : Run) : (r.upon earlier).finish = r.finish.upon earlier :=
  finish_mapped (upon earlier) r (fun _ => rfl) fun n => step_upon earlier (step^[n] r)

end Run

end MiniPostScript
