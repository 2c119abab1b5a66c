import MiniPostScript.Proofs.Operator.Makes
import MiniPostScript.Token.Constant

set_option autoImplicit false

namespace MiniPostScript

namespace Text

theorem trim_subset (text : List Char) : trim text ⊆ text := by
  intro c member
  have inner := (List.dropWhile_sublist isBlank).subset (List.mem_reverse.mp member)
  exact (List.dropWhile_sublist isBlank).subset (List.mem_reverse.mp inner)

end Text

namespace Token

theorem number_scalar (token : List Char) (value : Value) (is : number? token = some value) :
    value.isScalar = true := by
  rw [number?] at is
  split at is
  · cases is
  · rename_i numeral _
    dsimp only at is
    split at is
    · cases is
    · split at is
      · cases is
        rfl
      · split at is
        · cases is
          rfl
        · obtain rfl := Option.some.inj is
          exact numeric_scalar _ (numeric_single _) _ rfl

theorem boolean_scalar (token : List Char) (value : Value) (is : boolean? token = some value) :
    value.isScalar = true := by
  rw [boolean?.eq_def] at is
  split at is <;> cases is <;> rfl

theorem between_subset (opening closing : Char) (token inner : List Char)
    (is : between? opening closing token = some inner) : inner ⊆ token := by
  cases token with
  | nil => cases is
  | cons first rest =>
      rw [between?] at is
      split at is
      · obtain rfl := Option.some.inj is
        exact fun c member => List.mem_cons_of_mem first ((List.dropLast_sublist rest).subset member)
      · cases is

end Token

inductive Literal (token : String) : Value → Prop where
  | scalar (value : Value) (is : value.isScalar = true) : Literal token value
  | string (text : String) (drawn : text.toList ⊆ token.toList) : Literal token (.string text)
  | block (source : String) (drawn : source.toList ⊆ token.toList) : Literal token (.block source)
  | name (text : String) (drawn : text.toList ⊆ token.toList) : Literal token (.name text)

theorem constant_literal (token : String) (value : Value) (is : constant? token = some value) :
    Literal token value := by
  simp only [constant?, Option.orElse_eq_orElse, Option.orElse_eq_or, Option.or_eq_some_iff] at is
  rcases is with number | ⟨_, boolean | ⟨_, string | ⟨_, block | ⟨_, name⟩⟩⟩⟩
  · exact .scalar value (Token.number_scalar _ value number)
  · exact .scalar value (Token.boolean_scalar _ value boolean)
  · obtain ⟨text, inside, rfl⟩ := Option.map_eq_some_iff.mp string
    exact .string _ (by simpa using Token.between_subset _ _ _ text inside)
  · obtain ⟨source, inside, rfl⟩ := Option.map_eq_some_iff.mp block
    refine .block _ ?_
    rw [String.toList_ofList]
    exact List.Subset.trans (Text.trim_subset source) (Token.between_subset _ _ _ source inside)
  · rw [Token.name?.eq_def] at name
    split at name
    · rename_i text same
      cases name
      refine .name _ ?_
      rw [String.toList_ofList, same]
      exact List.subset_cons_self _ _
    · cases name

end MiniPostScript
