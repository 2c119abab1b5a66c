import MiniPostScript.Proofs.Value.Bindings
import MiniPostScript.Value.Display

set_option autoImplicit false

namespace MiniPostScript

-- Values that can come about: a dictionary is made empty, and values are inserted into it.
inductive Value.Built : Value → Prop where
  | plain (value : Value) (is : ∀ d, value ≠ .dictionary d) : Value.Built value
  | dictionary (capacity : Nat) (entries : List (String × Value)) (built : ∀ entry ∈ entries, Value.Built entry.2) :
      Value.Built (.dictionary (.ofList capacity entries))

-- `lists` goes through the sorted names. In which order a dictionary has given them is left open, for each
-- dictionary within a value anew.
mutual
inductive Value.Shows : Value → String → Prop where
  | plain (value : Value) (is : ∀ d, value ≠ .dictionary d) : Value.Shows value value.text
  | dictionary (d : Dictionary) (names : List String) (text : String) (all : names.Perm d.names)
      (lists : d.Lists names.mergeSort text) : Value.Shows (.dictionary d) ("<<" ++ text ++ " >>")
inductive Dictionary.Lists : Dictionary → List String → String → Prop where
  | nil (d : Dictionary) : d.Lists [] ""
  | cons (d : Dictionary) (name : String) (names : List String) (value : Value) (text rest : String)
      (bound : d.get? name = some value) (shows' : value.Shows text) (lists : d.Lists names rest) :
      d.Lists (name :: names) (" /" ++ name ++ " " ++ text ++ rest)
end

namespace Dictionary

theorem sort_names (d : Dictionary) (names : List String) (sorted : d.bindings.Sorted) (all : names.Perm d.names) :
    names.mergeSort = d.names := by
  have trans (a b c : String) (first : decide (a ≤ b) = true) (second : decide (b ≤ c) = true) : decide (a ≤ c) = true :=
    decide_eq_true (String.le_trans (of_decide_eq_true first) (of_decide_eq_true second))
  have total (a b : String) : (decide (a ≤ b) || decide (b ≤ a)) = true := by simpa using String.le_total a b
  have ordered : names.mergeSort.Pairwise (· ≤ ·) := (List.pairwise_mergeSort trans total names).imp of_decide_eq_true
  have listed : d.names.Pairwise (· ≤ ·) :=
    (Bindings.sorted_names _ sorted).imp fun less => String.not_lt.mp (String.lt_asymm less)
  exact ((List.mergeSort_perm names _).trans all).eq_of_pairwise (fun a b _ _ => String.le_antisymm) ordered listed

theorem lists_iff (d : Dictionary) (bindings : Bindings) (text : String)
    (each : ∀ entry ∈ bindings.toList, d.get? entry.1 = some entry.2 ∧ ∀ text, entry.2.Shows text ↔ text = entry.2.text) :
    d.Lists bindings.names text ↔ text = bindings.text := by
  cases bindings with
  | nil =>
      constructor
      · rintro ⟨⟩
        rfl
      · rintro rfl
        exact .nil d
  | cons key value rest =>
      obtain ⟨⟨bound, shows'⟩, later⟩ := List.forall_mem_cons.mp each
      have further (text : String) := lists_iff d rest text later
      constructor
      · intro lists
        cases lists with
        | cons _ _ _ other text more found shown lists =>
            obtain rfl : value = other := Option.some.inj (bound.symm.trans found)
            rw [(shows' text).mp shown, (further more).mp lists]
            rfl
      · rintro rfl
        exact .cons d key rest.names value value.text rest.text bound ((shows' _).mpr rfl) ((further _).mpr rfl)

theorem names_listed (d : Dictionary) (text : String) (sorted : d.bindings.Sorted)
    (each : ∀ name value, d.get? name = some value → ∀ text, value.Shows text ↔ text = value.text) :
    (Value.dictionary d).Shows text ↔ text = (Value.dictionary d).text := by
  have lists (text : String) : d.Lists d.names text ↔ text = d.bindings.text := by
    refine lists_iff d d.bindings text fun entry member => ?_
    have bound : d.get? entry.1 = some entry.2 := (Bindings.mem_get entry.1 entry.2 _ sorted).mp member
    exact ⟨bound, each entry.1 entry.2 bound⟩
  have whole : (Value.dictionary d).text = "<<" ++ d.bindings.text ++ " >>" := by
    cases d
    rfl
  rw [whole]
  constructor
  · intro shows'
    cases shows' with
    | plain _ is => exact absurd rfl (is d)
    | dictionary _ names text all listed =>
        rw [sort_names d names sorted all] at listed
        rw [(lists text).mp listed]
  · rintro rfl
    refine .dictionary d d.names _ (List.Perm.refl _) ?_
    rw [sort_names d d.names sorted (List.Perm.refl _)]
    exact (lists _).mpr rfl

end Dictionary

theorem built_shows (value : Value) (text : String) (built : value.Built) : value.Shows text ↔ text = value.text := by
  induction built generalizing text with
  | plain value is =>
      constructor
      · intro shows'
        cases shows' with
        | plain => rfl
        | dictionary d => exact absurd rfl (is d)
      · rintro rfl
        exact .plain value is
  | dictionary capacity entries built ih =>
      refine Dictionary.names_listed _ text (Dictionary.of_list_sorted capacity entries) fun name value bound => ?_
      exact fun text => ih (name, value) (Dictionary.of_list_mem capacity entries name value bound) text

namespace Bindings

theorem rel_map (f : Value → String) (v w : Option Value) (same : v.map f = w.map f) :
    Option.Rel (fun v w => f v = f w) v w := by
  cases v with
  | none =>
      cases w with
      | none => exact .none
      | some w => cases same
  | some v =>
      cases w with
      | none => cases same
      | some w => exact .some (Option.some.inj same)

theorem text_related (a b : Bindings) (related : Related (fun v w => v.text = w.text) a b) : a.text = b.text := by
  cases a with
  | nil =>
      cases b with
      | nil => rfl
      | cons => cases related
  | cons j v rest =>
      cases b with
      | nil => cases related
      | cons k w other =>
          obtain ⟨⟨rfl, here⟩, later⟩ := List.forall₂_cons.mp related
          have here : v.text = w.text := here
          rw [text, text, text_related rest other later, here]

theorem text_listed (bindings : Bindings) :
    bindings.text = String.join (bindings.toList.map fun entry => " /" ++ entry.1 ++ " " ++ entry.2.text) := by
  cases bindings with
  | nil => rfl
  | cons key value rest => rw [text, toList, List.map_cons, String.join_cons, text_listed rest]

end Bindings

-- Of two histories it is enough that values of the same name have the same text; in particular they may end in
-- the same mapping. What has been inserted last for a name is found first in the reversed entries.
theorem dictionary_display (capacity : Nat) (entries : List (String × Value)) (built : ∀ entry ∈ entries, entry.2.Built) :
    let d := Dictionary.ofList capacity entries
    (∀ text, (Value.dictionary d).Shows text ↔ text = d.text) ∧
    (∀ other again, (∀ name, ((Dictionary.ofList other again).get? name).map Value.text = (d.get? name).map Value.text) →
      (Dictionary.ofList other again).text = d.text) ∧
    (∃ listed : List (String × Value), listed.Pairwise (fun first second => first.1 < second.1) ∧
      (∀ name value, (name, value) ∈ listed ↔ entries.reverse.lookup name = some value) ∧
      d.text = "<<" ++ String.join (listed.map fun entry => " /" ++ entry.1 ++ " " ++ entry.2.text) ++ " >>" ∧
      d.size = listed.length) ∧
    d.size = (entries.map Prod.fst).dedup.length := by
  intro d
  have sorted := Dictionary.of_list_sorted capacity entries
  have written (d : Dictionary) : d.text = "<<" ++ d.bindings.text ++ " >>" := by
    cases d
    rfl
  refine ⟨fun text => built_shows _ text (.dictionary capacity entries built), ?_, ?_, ?_⟩
  · intro other again same
    have filled := Dictionary.of_list_sorted other again
    have related := (Bindings.sorted_related (fun v w => v.text = w.text) _ _ filled sorted).mpr fun name =>
      Bindings.rel_map _ _ _ (same name)
    rw [written, written, Bindings.text_related _ _ related]
  · refine ⟨d.bindings.toList, List.pairwise_map.mp (Bindings.sorted_names _ sorted), ?_, ?_, ?_⟩
    · intro name value
      rw [Bindings.mem_get name value _ sorted, ← Dictionary.of_list_get capacity]
      rfl
    · rw [written, Bindings.text_listed]
    · exact (Bindings.size_names _).trans (List.length_map _)
  · exact (Bindings.size_names _).trans (Dictionary.of_list_names capacity entries).length_eq

theorem nested_dictionary_displayed :
    let inner : Dictionary := .ofList 1 [("y", .boolean true), ("x", .string "one")]
    let entries := [("b", .integer 2), ("a", .dictionary inner), ("b", .string "two")]
    (∀ entry ∈ entries, entry.2.Built) ∧ (Dictionary.ofList 3 entries).size = 2 ∧
      ∀ text, (Value.dictionary (.ofList 3 entries)).Shows text ↔ text = "<< /a << /x one /y True >> /b two >>" := by
  intro inner entries
  have built : ∀ entry ∈ entries, entry.2.Built := by
    have plain : ∀ entry ∈ [("y", Value.boolean true), ("x", .string "one")], entry.2.Built := by
      simpa using ⟨.plain _ nofun, .plain _ nofun⟩
    simpa [entries] using ⟨.plain _ nofun, .dictionary 1 _ plain, .plain _ nofun⟩
  obtain ⟨shown, _⟩ := dictionary_display 3 entries built
  have text : (Dictionary.ofList 3 entries).text = "<< /a << /x one /y True >> /b two >>" := by decide +kernel
  exact ⟨built, by decide +kernel, fun other => text ▸ shown other⟩

end MiniPostScript
