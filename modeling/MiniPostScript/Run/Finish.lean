import MiniPostScript.Run

set_option autoImplicit false

namespace MiniPostScript

-- The places of a stack of at most `n` activities in the order of steps, outermost first.
def Rank : Nat → Type
  | 0 => Unit
  | n + 1 => (Nat × Nat) × Rank n

namespace Rank

@[reducible] def order : (n : Nat) → WellFoundedRelation (Rank n)
  | 0 => ⟨fun _ _ => False, ⟨fun _ => ⟨_, fun _ less => less.elim⟩⟩⟩
  | n + 1 =>
      have := order n
      inferInstanceAs (WellFoundedRelation ((Nat × Nat) × Rank n))

instance (n : Nat) : WellFoundedRelation (Rank n) := order n

-- No activity weighs nothing, so a place that is not taken comes before one that is.
def ofWeights : (n : Nat) → List (Nat × Nat) → Rank n
  | 0, _ => ()
  | n + 1, [] => ((0, 0), ofWeights n [])
  | n + 1, weight :: rest => (weight, ofWeights n rest)

theorem of_weights_replace (n : Nat) (outer old new : List (Nat × Nat)) (heavy light : Nat × Nat)
    (less : Prod.Lex (· < ·) (· < ·) light heavy) (fits : outer.length < n) :
    (order n).rel (ofWeights n (outer ++ light :: new)) (ofWeights n (outer ++ heavy :: old)) := by
  induction n generalizing outer with
  | zero => omega
  | succ n ih =>
      cases outer with
      | nil => exact Prod.Lex.left _ _ less
      | cons weight outer =>
          exact Prod.Lex.right _ (ih outer (by simpa using fits))

theorem of_weights_remove (n : Nat) (outer : List (Nat × Nat)) (heavy : Nat × Nat)
    (present : 0 < heavy.1) (fits : outer.length < n) :
    (order n).rel (ofWeights n outer) (ofWeights n (outer ++ [heavy])) := by
  induction n generalizing outer with
  | zero => omega
  | succ n ih =>
      cases outer with
      | nil => exact Prod.Lex.left _ _ (Prod.Lex.left _ _ present)
      | cons weight outer =>
          exact Prod.Lex.right _ (ih outer (by simpa using fits))

end Rank

namespace Activity

def weight (activity : Activity) : Nat × Nat := (activity.passes.remaining + 1, activity.rest.length)

end Activity

namespace Run

def room (r : Run) : Nat := r.pending.length + (r.limit - r.depth)

def rank (n : Nat) (r : Run) : Rank n := Rank.ofWeights n (r.pending.map Activity.weight).reverse

inductive Grows (before after : Run) : Prop where
  | stays (limit : after.limit = before.limit) (pending : after.pending = before.pending)
      (depth : after.depth = before.depth) (homes : after.homes = before.homes)
  | enters (inner : Activity) (limit : after.limit = before.limit) (block : inner.entry ≠ .line)
      (room : before.depth < before.limit) (pending : after.pending = inner :: before.pending)
      (depth : after.depth = before.depth + 1)
      (homes : after.homes = inner.entry.home?.toList ++ before.homes)

theorem enter_grows (entry : Entry) (source : String) (passes : Passes) (r : Run)
    (block : entry ≠ .line) : Grows r (r.enter entry source passes) := by
  rw [enter]
  split
  · exact .stays rfl rfl rfl rfl
  · exact .enters _ rfl block (by omega) rfl rfl rfl

theorem carry_out_grows (effect : Effect) (r : Run) : Grows r (r.carryOut effect) := by
  cases effect with
  | done after shown => exact .stays rfl rfl rfl rfl
  | run after source passes =>
      cases enter_grows .block source passes { r with machine := after } Entry.noConfusion with
      | stays limit pending depth homes => exact .stays limit pending depth homes
      | enters inner limit block room pending depth homes =>
          exact .enters inner limit block room pending depth homes

theorem operate_grows (op : Operator) (r : Run) : Grows r (r.operate op) := by
  rw [operate]
  split
  · exact carry_out_grows _ r
  · exact .stays rfl rfl rfl rfl

theorem enter_named_grows (source : String) (home : FrameId) (r : Run) :
    Grows r (r.enterNamed source home) := by
  rw [enterNamed]
  split <;> exact enter_grows _ _ _ r Entry.noConfusion

theorem evaluate_grows (value : Value) (home : FrameId) (r : Run) :
    Grows r (r.evaluate value home) := by
  cases value with
  | operator op => exact operate_grows op r
  | block source => exact enter_named_grows source home r
  | _ => exact .stays rfl rfl rfl rfl

theorem dispatch_grows (name : String) (r : Run) : Grows r (r.dispatch name) := by
  rw [dispatch]
  split
  · exact .stays rfl rfl rfl rfl
  · exact evaluate_grows _ _ r

theorem execute_grows (token : String) (r : Run) : Grows r (r.execute token) := by
  rw [execute]
  split
  · exact .stays rfl rfl rfl rfl
  · exact dispatch_grows token r

theorem leave_room (r : Run) : r.leave.room ≤ r.room := by
  unfold leave room
  split
  · exact Nat.le_refl _
  · rename_i activity outer pending
    split <;> simp only [pending, List.length_cons] <;> omega

theorem grows_room (before after : Run) (grows : Grows before after) : after.room ≤ before.room := by
  cases grows with
  | stays limit pending depth homes => simp [room, limit, pending, depth]
  | enters inner limit block deeper pending depth homes =>
      simp only [room, limit, pending, depth, List.length_cons]
      omega

theorem step_room (r : Run) : r.step.room ≤ r.room := by
  rw [step]
  split
  · exact Nat.le_refl _
  · rename_i activity outer pending
    split
    · exact leave_room r
    · split
      · rename_i token rest _
        refine Nat.le_trans (grows_room _ _ (execute_grows token _)) ?_
        simp [room, pending]
      · split
        · simp [room, pending]
        · exact leave_room r

theorem leave_rank (n : Nat) (r : Run) (busy : r.pending ≠ []) (fits : r.room ≤ n) :
    (Rank.order n).rel (rank n r.leave) (rank n r) := by
  rw [leave]
  split
  · rename_i idle
    exact absurd idle busy
  · rename_i activity outer pending
    have short : (outer.map Activity.weight).reverse.length < n := by
      simp only [room, pending, List.length_cons] at fits
      simp only [List.length_reverse, List.length_map]
      omega
    have present : 0 < activity.weight.1 := Nat.succ_pos _
    have less := Rank.of_weights_remove n (outer.map Activity.weight).reverse activity.weight present short
    have whole : rank n r =
        Rank.ofWeights n ((outer.map Activity.weight).reverse ++ [activity.weight]) := by
      simp [rank, pending]
    rw [whole]
    split <;> exact less

theorem replace_rank (n : Nat) (r after : Run) (heavy light : Activity) (outer : List Activity)
    (busy : r.pending = heavy :: outer) (fits : r.room ≤ n)
    (less : Prod.Lex (· < ·) (· < ·) light.weight heavy.weight)
    (shape : after.pending = light :: outer ∨ ∃ inner, after.pending = inner :: light :: outer) :
    (Rank.order n).rel (rank n after) (rank n r) := by
  have short : (outer.map Activity.weight).reverse.length < n := by
    simp only [room, busy, List.length_cons] at fits
    simp only [List.length_reverse, List.length_map]
    omega
  have before : rank n r =
      Rank.ofWeights n ((outer.map Activity.weight).reverse ++ heavy.weight :: []) := by
    simp [rank, busy]
  rw [before]
  rcases shape with same | ⟨inner, deeper⟩
  · have now : rank n after =
        Rank.ofWeights n ((outer.map Activity.weight).reverse ++ light.weight :: []) := by
      simp [rank, same]
    exact now ▸ Rank.of_weights_replace n _ [] [] _ _ less short
  · have now : rank n after =
        Rank.ofWeights n ((outer.map Activity.weight).reverse ++ light.weight :: [inner.weight]) := by
      simp [rank, deeper]
    exact now ▸ Rank.of_weights_replace n _ [] [inner.weight] _ _ less short

theorem step_rank (n : Nat) (r : Run) (busy : r.pending ≠ []) (fits : r.room ≤ n) :
    (Rank.order n).rel (rank n r.step) (rank n r) := by
  rw [step]
  split
  · rename_i idle
    exact absurd idle busy
  · rename_i activity outer pending
    split
    · exact leave_rank n r busy fits
    · split
      · rename_i token rest left
        have grows := execute_grows token { r with pending := { activity with rest := rest } :: outer }
        refine replace_rank n r _ activity { activity with rest := rest } outer pending fits
          (Prod.Lex.right _ (by simp [left])) ?_
        cases grows with
        | stays limit same depth homes => exact .inl same
        | enters inner limit block deeper pending depth homes => exact .inr ⟨inner, pending⟩
      · split
        · rename_i next found
          exact replace_rank n r _ activity _ outer pending fits
            (Prod.Lex.left _ _ (Nat.succ_lt_succ (Passes.next_remaining _ _ found))) (.inl rfl)
        · exact leave_rank n r busy fits

def finishWithin (n : Nat) (r : Run) (fits : r.room ≤ n) : Run :=
  if _ : r.pending = [] then r else finishWithin n r.step (Nat.le_trans (step_room r) fits)
termination_by rank n r
decreasing_by exact step_rank n r (by assumption) fits

def finish (r : Run) : Run := finishWithin r.room r (Nat.le_refl _)

theorem finish_within_idle (n : Nat) (r : Run) (fits : r.room ≤ n) (idle : r.pending = []) :
    finishWithin n r fits = r := by
  rw [finishWithin, dif_pos idle]

theorem finish_within_busy (n : Nat) (r : Run) (fits : r.room ≤ n) (busy : r.pending ≠ []) :
    finishWithin n r fits = finishWithin n r.step (Nat.le_trans (step_room r) fits) := by
  rw [finishWithin, dif_neg busy]

theorem finish_within_pending (n : Nat) (r : Run) (fits : r.room ≤ n) :
    (finishWithin n r fits).pending = [] := by
  fun_induction finishWithin n r fits with
  | case1 r fits idle => exact idle
  | case2 r fits busy ih => exact ih

theorem finish_within_agree (m n : Nat) (r : Run) (fits : r.room ≤ m) (fits' : r.room ≤ n) :
    finishWithin m r fits = finishWithin n r fits' := by
  fun_induction finishWithin m r fits with
  | case1 r fits idle => exact (finish_within_idle n r fits' idle).symm
  | case2 r fits busy ih =>
      rw [finish_within_busy n r fits' busy]
      exact ih (Nat.le_trans (step_room r) fits')

theorem finish_idle (r : Run) (idle : r.pending = []) : r.finish = r :=
  finish_within_idle _ r _ idle

theorem finish_step (r : Run) : r.step.finish = r.finish := by
  by_cases idle : r.pending = []
  · have still : r.step = r := by simp [step, idle]
    rw [still]
  · unfold finish
    rw [finish_within_busy r.room r (Nat.le_refl _) idle]
    exact finish_within_agree _ _ _ _ _

theorem finish_pending (r : Run) : r.finish.pending = [] :=
  finish_within_pending r.room r (Nat.le_refl _)

theorem run_induction (holds : Run → Prop) (idle : ∀ r, r.pending = [] → holds r)
    (busy : ∀ r, r.pending ≠ [] → holds r.step → holds r) (r : Run) : holds r := by
  have within (n : Nat) (r : Run) (fits : r.room ≤ n) : holds r := by
    fun_induction finishWithin n r fits with
    | case1 r fits none => exact idle r none
    | case2 r fits some ih => exact busy r some ih
  exact within r.room r (Nat.le_refl _)

end Run

end MiniPostScript
