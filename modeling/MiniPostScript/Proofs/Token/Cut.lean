import MiniPostScript.Token

set_option autoImplicit false

namespace MiniPostScript

namespace Text

theorem fragments_from_cut (pending text rest : List Char) (c : Char) (blank : isBlank c = true) :
    fragmentsFrom pending (text ++ c :: rest) = fragmentsFrom pending text ++ fragments rest := by
  induction text generalizing pending with
  | nil =>
      rw [List.nil_append, fragmentsFrom, fragmentsFrom, if_pos blank]
      by_cases empty : pending = []
      · rw [if_pos empty, if_pos empty]
        rfl
      · rw [if_neg empty, if_neg empty]
        rfl
  | cons d text ih =>
      rw [List.cons_append, fragmentsFrom, fragmentsFrom]
      by_cases gap : isBlank d = true
      · rw [if_pos gap, if_pos gap]
        by_cases empty : pending = []
        · rw [if_pos empty, if_pos empty, ih]
        · rw [if_neg empty, if_neg empty, ih]
          rfl
      · rw [if_neg gap, if_neg gap, ih]

theorem fragments_cut (text rest : List Char) (c : Char) (blank : isBlank c = true) :
    fragments (text ++ c :: rest) = fragments text ++ fragments rest :=
  fragments_from_cut [] text rest c blank

end Text

namespace Token

namespace Scan

theorem tokens_append (words later : List (List Char)) (scan : Scan) (ends : scan.after words = .outside) :
    scan.tokens (words ++ later) = scan.tokens words ++ Scan.outside.tokens later := by
  induction words generalizing scan with
  | nil =>
      obtain rfl : scan = .outside := ends
      rfl
  | cons word rest ih =>
      have rests := ih (scan.read word).1 ends
      simp only [List.cons_append, tokens, rests, List.append_assoc]

end Scan

-- No block and no string is left open at the end of the line.
def EndsOutside (line : String) : Prop := Scan.outside.after (Text.fragments line.toList) = .outside

instance (line : String) : Decidable (EndsOutside line) := decEq (_ : Scan) .outside

end Token

theorem tokens_cut (line later : String) (ends : Token.EndsOutside line) :
    tokens (line ++ " " ++ later) = tokens line ++ tokens later := by
  have whole : (line ++ " " ++ later).toList = line.toList ++ ' ' :: later.toList := by
    simp
  rw [tokens, Token.split, whole, Text.fragments_cut _ _ ' ' (by decide),
    Token.Scan.tokens_append _ _ .outside ends, List.map_append]
  rfl

end MiniPostScript
