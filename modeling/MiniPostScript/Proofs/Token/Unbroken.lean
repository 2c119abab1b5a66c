import MiniPostScript.Token

set_option autoImplicit false

namespace MiniPostScript

namespace Text

def Unbroken (text : List Char) : Prop := ∀ c ∈ text, isBlank c = true → c = ' '

instance (text : List Char) : Decidable (Unbroken text) := List.decidableBAll _ _

theorem unbroken_nil : Unbroken [] := fun _ none => nomatch none

theorem unbroken_subset (inner text : List Char) (within : inner ⊆ text) (unbroken : Unbroken text) :
    Unbroken inner :=
  fun c member => unbroken c (within member)

theorem unbroken_append (text later : List Char) :
    Unbroken (text ++ later) ↔ Unbroken text ∧ Unbroken later :=
  List.forall_mem_append

theorem unbroken_cons (c : Char) (text : List Char) :
    Unbroken (c :: text) ↔ (isBlank c = true → c = ' ') ∧ Unbroken text :=
  List.forall_mem_cons

theorem solid_unbroken (text : List Char) (solid : ∀ c ∈ text, isBlank c = false) : Unbroken text := by
  intro c member blank
  rw [solid c member] at blank
  cases blank

theorem spaced_unbroken (words : List (List Char)) (unbroken : ∀ word ∈ words, Unbroken word) :
    Unbroken (spaced words) := by
  rw [spaced]
  induction words with
  | nil => exact unbroken_nil
  | cons first rest ih =>
      obtain ⟨head, tail⟩ := List.forall_mem_cons.mp unbroken
      cases rest with
      | nil => simpa using head
      | cons second later =>
          rw [List.intercalate_cons_cons, unbroken_append, unbroken_append]
          exact ⟨⟨head, by decide⟩, ih tail⟩

theorem digits_unbroken (n : Nat) : Unbroken (Nat.toDigits 10 n) := by
  intro c member blank
  have digit := Nat.isDigit_of_mem_toDigits (by decide) (by decide) member
  simp only [Char.isDigit, Bool.and_eq_true, decide_eq_true_eq, ge_iff_le, UInt32.le_iff_toNat_le] at digit
  obtain ⟨low, high⟩ := digit
  change 48 ≤ c.toNat at low
  change c.toNat ≤ 57 at high
  simp [isBlank, blankRanges] at blank
  omega

end Text

namespace Token

open Text

namespace Scan

def words : Scan → List (List Char)
  | .outside => []
  | .inBlock words _ => words
  | .inString words => words

theorem read_block (word : List Char) (words : List (List Char)) (depth : Nat) :
    ∃ left, (inBlock words depth).read word =
      if left = 0 then (.outside, some (spaced (word :: words).reverse))
      else (.inBlock (word :: words) left, none) :=
  ⟨_, rfl⟩

theorem joined_unbroken (words : List (List Char)) (held : ∀ old ∈ words, Unbroken old) :
    Unbroken (spaced words.reverse) :=
  spaced_unbroken _ fun old member => held old (List.mem_reverse.mp member)

theorem read_unbroken (word : List Char) (scan : Scan) (fresh : Unbroken word)
    (held : ∀ old ∈ scan.words, Unbroken old) :
    (∀ old ∈ (scan.read word).1.words, Unbroken old) ∧ ∀ token ∈ (scan.read word).2, Unbroken token := by
  have longer (words : List (List Char)) (older : ∀ old ∈ words, Unbroken old) :
      ∀ old ∈ word :: words, Unbroken old := List.forall_mem_cons.mpr ⟨fresh, older⟩
  cases scan with
  | outside =>
      rw [read]
      split
      · split <;> simp [words, fresh]
      · split <;> simp [words, fresh]
  | inBlock words depth =>
      obtain ⟨left, same⟩ := read_block word words depth
      rw [same]
      by_cases closed : left = 0
      · rw [if_pos closed]
        simpa [Scan.words] using joined_unbroken _ (longer words held)
      · rw [if_neg closed]
        simpa [Scan.words] using longer words held
  | inString words =>
      rw [read]
      split
      · simpa [Scan.words] using joined_unbroken _ (longer words held)
      · simpa [Scan.words] using longer words held

theorem rest_unbroken (scan : Scan) (held : ∀ old ∈ scan.words, Unbroken old) :
    ∀ token ∈ scan.rest?, Unbroken token := by
  cases scan with
  | outside => simp [rest?]
  | inBlock words depth =>
      rintro token ⟨rfl⟩
      rw [unbroken_append]
      refine ⟨joined_unbroken words held, fun c member => ?_⟩
      rw [List.eq_of_mem_replicate member]
      decide
  | inString words =>
      rintro token ⟨rfl⟩
      rw [unbroken_append]
      exact ⟨joined_unbroken words held, by decide⟩

theorem tokens_unbroken (words : List (List Char)) (scan : Scan)
    (fresh : ∀ word ∈ words, Unbroken word) (held : ∀ old ∈ scan.words, Unbroken old) :
    ∀ token ∈ scan.tokens words, Unbroken token := by
  induction words generalizing scan with
  | nil =>
      intro token member
      exact rest_unbroken scan held token (Option.mem_toList.mp member)
  | cons word rest ih =>
      obtain ⟨first, others⟩ := List.forall_mem_cons.mp fresh
      obtain ⟨kept, completed⟩ := read_unbroken word scan first held
      intro token member
      rw [tokens] at member
      rcases List.mem_append.mp member with now | later
      · exact completed token (Option.mem_toList.mp now)
      · exact ih _ others kept token later

end Scan

end Token

theorem token_unbroken (line token : String) (member : token ∈ tokens line) :
    Text.Unbroken token.toList := by
  obtain ⟨text, cut, rfl⟩ := List.mem_map.mp member
  rw [String.toList_ofList]
  refine Token.Scan.tokens_unbroken _ .outside (fun word fragment => ?_) (fun _ none => nomatch none) text cut
  exact Text.solid_unbroken word (Text.fragments_solid _ word fragment)

end MiniPostScript
