import Mathlib.Data.List.Dedup
import Mathlib.Data.List.Forall2
import Mathlib.Data.List.Induction
import MiniPostScript.Value

set_option autoImplicit false

namespace MiniPostScript

namespace Bindings

def names (bindings : Bindings) : List String := bindings.toList.map Prod.fst

theorem get_above (low query : String) (bindings : Bindings) (above : bindings.Above low) (reached : ¬low < query) :
    bindings.get? query = none := by
  cases bindings with
  | nil => rfl
  | cons key value rest =>
      have other : query ≠ key := by
        rintro rfl
        exact reached above.1
      rw [get?, if_neg other]
      exact get_above low query rest above.2 reached

theorem names_above (low : String) (bindings : Bindings) (above : bindings.Above low) :
    ∀ name ∈ bindings.names, low < name := by
  cases bindings with
  | nil => exact fun _ none => nomatch none
  | cons key value rest => exact List.forall_mem_cons.mpr ⟨above.1, names_above low rest above.2⟩

theorem sorted_names (bindings : Bindings) (sorted : bindings.Sorted) : bindings.names.Pairwise (· < ·) := by
  cases bindings with
  | nil => exact .nil
  | cons key value rest => exact .cons (names_above key rest sorted.1) (sorted_names rest sorted.2)

theorem mem_get (key : String) (value : Value) (bindings : Bindings) (sorted : bindings.Sorted) :
    (key, value) ∈ bindings.toList ↔ bindings.get? key = some value := by
  cases bindings with
  | nil => exact ⟨nofun, nofun⟩
  | cons k old rest =>
      rw [toList, List.mem_cons, mem_get key value rest sorted.2, get?]
      by_cases same : key = k
      · subst same
        rw [if_pos rfl, get_above key key rest sorted.1 (String.lt_irrefl key)]
        simp [eq_comm]
      · rw [if_neg same]
        simp [same]

theorem mem_names (key : String) (bindings : Bindings) : key ∈ bindings.names ↔ (bindings.get? key).isSome = true := by
  cases bindings with
  | nil => exact ⟨nofun, nofun⟩
  | cons k old rest =>
      have later := mem_names key rest
      rw [names, toList, List.map_cons, List.mem_cons, get?]
      by_cases same : key = k
      · simp [same]
      · rw [if_neg same, ← later]
        exact or_iff_right same

theorem size_names (bindings : Bindings) : bindings.size = bindings.names.length := by
  cases bindings with
  | nil => rfl
  | cons key value rest => exact congrArg Nat.succ (size_names rest)

def Related (R : Value → Value → Prop) (a b : Bindings) : Prop :=
  List.Forall₂ (fun x y => x.1 = y.1 ∧ R x.2 y.2) a.toList b.toList

theorem related_get (R : Value → Value → Prop) (key : String) (a b : Bindings) (related : Related R a b) :
    Option.Rel R (a.get? key) (b.get? key) := by
  cases a with
  | nil =>
      cases b with
      | nil => exact .none
      | cons k w other => cases related
  | cons j v rest =>
      cases b with
      | nil => cases related
      | cons k w other =>
          obtain ⟨⟨rfl, here⟩, later⟩ := List.forall₂_cons.mp related
          rw [get?, get?]
          by_cases same : key = j
          · rw [if_pos same, if_pos same]
            exact .some here
          · rw [if_neg same, if_neg same]
            exact related_get R key rest other later

theorem first_least (key k : String) (value : Value) (rest : Bindings) (above : rest.Above k)
    (bound : ((cons k value rest).get? key).isSome = true) : ¬key < k := by
  rcases List.mem_cons.mp ((mem_names key _).mpr bound) with rfl | later
  · exact String.lt_irrefl key
  · exact String.lt_asymm (names_above k rest above key later)

theorem rel_bound (R : Value → Value → Prop) (v w : Option Value) (related : Option.Rel R v w) : v.isSome = w.isSome := by
  cases related <;> rfl

-- The first names are the same, because each is the least of its mapping. What follows is bound above them.
theorem sorted_related (R : Value → Value → Prop) (a b : Bindings) (left : a.Sorted) (right : b.Sorted) :
    Related R a b ↔ ∀ key, Option.Rel R (a.get? key) (b.get? key) := by
  refine ⟨fun related key => related_get R key a b related, fun found => ?_⟩
  have bound (key : String) := rel_bound R _ _ (found key)
  cases a with
  | nil =>
      cases b with
      | nil => exact .nil
      | cons k w other => simpa [get?] using bound k
  | cons j v rest =>
      cases b with
      | nil => simpa [get?] using bound j
      | cons k w other =>
          have upper := first_least j k w other right.1 (by rw [← bound, get?, if_pos rfl]; rfl)
          have lower := first_least k j v rest left.1 (by rw [bound, get?, if_pos rfl]; rfl)
          obtain rfl : j = k := String.le_antisymm (String.not_lt.mp lower) (String.not_lt.mp upper)
          have here := found j
          rw [get?, get?, if_pos rfl, if_pos rfl, Option.rel_some_some] at here
          refine .cons ⟨rfl, here⟩ ((sorted_related R rest other left.2 right.2).mpr fun key => ?_)
          by_cases same : key = j
          · subst same
            rw [get_above key key rest left.1 upper, get_above key key other right.1 upper]
            exact .none
          · have later := found key
            rwa [get?, get?, if_neg same, if_neg same] at later

end Bindings

namespace Dictionary

def names (d : Dictionary) : List String := d.bindings.names

theorem of_list_concat (capacity : Nat) (entries : List (String × Value)) (entry : String × Value) :
    ofList capacity (entries ++ [entry]) = (ofList capacity entries).insert entry.1 entry.2 := List.foldl_concat _ _ _ _

theorem of_list_sorted (capacity : Nat) (entries : List (String × Value)) : (ofList capacity entries).bindings.Sorted := by
  induction entries using List.reverseRecOn with
  | nil => trivial
  | append_singleton entries entry ih =>
      rw [of_list_concat]
      exact Bindings.insert_sorted _ _ _ ih

theorem of_list_capacity (capacity : Nat) (entries : List (String × Value)) :
    (ofList capacity entries).capacity = capacity := by
  induction entries using List.reverseRecOn with
  | nil => rfl
  | append_singleton entries entry ih =>
      rw [of_list_concat]
      exact ih

theorem of_list_get (capacity : Nat) (entries : List (String × Value)) (key : String) :
    (ofList capacity entries).get? key = entries.reverse.lookup key := by
  induction entries using List.reverseRecOn with
  | nil => rfl
  | append_singleton entries entry ih =>
      rw [of_list_concat, get_insert, ih, List.reverse_concat, List.lookup_cons]
      by_cases same : key = entry.1
      · simp [same]
      · rw [if_neg same, beq_eq_false_iff_ne.mpr same]

theorem of_list_mem (capacity : Nat) (entries : List (String × Value)) (key : String) (value : Value)
    (bound : (ofList capacity entries).get? key = some value) : (key, value) ∈ entries := by
  rw [of_list_get, List.lookup_eq_some_iff] at bound
  obtain ⟨earlier, later, same, _⟩ := bound
  exact List.mem_reverse.mp (same ▸ List.mem_append_right earlier List.mem_cons_self)

theorem of_list_names (capacity : Nat) (entries : List (String × Value)) :
    (ofList capacity entries).names.Perm (entries.map Prod.fst).dedup := by
  have sorted := Bindings.sorted_names _ (of_list_sorted capacity entries)
  have distinct : (ofList capacity entries).names.Nodup := sorted.imp fun less => String.ne_of_lt less
  refine (List.perm_ext_iff_of_nodup distinct (List.nodup_dedup _)).mpr fun key => ?_
  rw [List.mem_dedup, names, Bindings.mem_names]
  change ((ofList capacity entries).get? key).isSome = true ↔ _
  rw [of_list_get, List.lookup_isSome_iff]
  simp

end Dictionary

end MiniPostScript
