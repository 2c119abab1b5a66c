set_option autoImplicit false

namespace MiniPostScript.Text

-- The code points with the Unicode property `White_Space`, as closed ranges.
def blankRanges : List (Nat × Nat) :=
  [(0x09, 0x0D), (0x20, 0x20), (0x85, 0x85), (0xA0, 0xA0), (0x1680, 0x1680), (0x2000, 0x200A),
   (0x2028, 0x2029), (0x202F, 0x202F), (0x205F, 0x205F), (0x3000, 0x3000)]

def isBlank (c : Char) : Bool :=
  blankRanges.any fun range => range.1 ≤ c.toNat && c.toNat ≤ range.2

def fragmentsFrom (pending : List Char) : List Char → List (List Char)
  | [] => if pending = [] then [] else [pending.reverse]
  | c :: rest =>
      if isBlank c then
        if pending = [] then fragmentsFrom [] rest
        else pending.reverse :: fragmentsFrom [] rest
      else fragmentsFrom (c :: pending) rest

def fragments (text : List Char) : List (List Char) := fragmentsFrom [] text

def trim (text : List Char) : List Char :=
  ((text.dropWhile isBlank).reverse.dropWhile isBlank).reverse

def spaced (words : List (List Char)) : List Char := [' '].intercalate words

theorem fragments_from_solid (pending text : List Char) (solid : ∀ c ∈ pending, isBlank c = false) :
    ∀ word ∈ fragmentsFrom pending text, word ≠ [] ∧ ∀ c ∈ word, isBlank c = false := by
  induction text generalizing pending with
  | nil =>
      intro word member
      by_cases empty : pending = []
      · simp [fragmentsFrom, empty] at member
      · simp only [fragmentsFrom, if_neg empty, List.mem_singleton] at member
        subst member
        exact ⟨by simpa using empty, by simpa using solid⟩
  | cons c rest ih =>
      intro word member
      by_cases blank : isBlank c = true
      · by_cases empty : pending = []
        · simp only [fragmentsFrom, if_pos blank, if_pos empty] at member
          exact ih [] (by simp) word member
        · simp only [fragmentsFrom, if_pos blank, if_neg empty, List.mem_cons] at member
          rcases member with rfl | later
          · exact ⟨by simpa using empty, by simpa using solid⟩
          · exact ih [] (by simp) word later
      · simp only [fragmentsFrom, if_neg blank] at member
        refine ih (c :: pending) ?_ word member
        intro d present
        rcases List.mem_cons.mp present with rfl | older
        · simpa using blank
        · exact solid d older

theorem fragments_solid (text word : List Char) (member : word ∈ fragments text) :
    ∀ c ∈ word, isBlank c = false :=
  (fragments_from_solid [] text (by simp) word member).2

theorem fragments_nonempty (text word : List Char) (member : word ∈ fragments text) : word ≠ [] :=
  (fragments_from_solid [] text (by simp) word member).1

end MiniPostScript.Text
