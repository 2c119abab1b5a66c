import MiniPostScript.Error
import MiniPostScript.Proofs.Token.Unbroken
import MiniPostScript.Value.Display

set_option autoImplicit false

namespace MiniPostScript

mutual
def Value.Unbroken : Value → Prop
  | .string text => Text.Unbroken text.toList
  | .name text => Text.Unbroken text.toList
  | .block source => Text.Unbroken source.toList
  | .dictionary d => d.Unbroken
  | _ => True
def Dictionary.Unbroken : Dictionary → Prop
  | .mk _ bindings => bindings.Unbroken
def Bindings.Unbroken : Bindings → Prop
  | .nil => True
  | .cons key value rest => Text.Unbroken key.toList ∧ value.Unbroken ∧ rest.Unbroken
end

namespace Bindings

theorem get_unbroken (key : String) (value : Value) (bindings : Bindings) (unbroken : bindings.Unbroken)
    (found : bindings.get? key = some value) : Text.Unbroken key.toList ∧ value.Unbroken := by
  cases bindings with
  | nil => cases found
  | cons k first rest =>
      obtain ⟨head, here, tail⟩ := unbroken
      rw [get?] at found
      by_cases same : key = k
      · rw [if_pos same] at found
        cases found
        exact ⟨same ▸ head, here⟩
      · rw [if_neg same] at found
        exact get_unbroken key value rest tail found

end Bindings

namespace Decimal

open Text

theorem sign_unbroken (negative : Bool) : Unbroken (sign negative) := by
  cases negative <;> decide

theorem drop_final_zeros_subset (text : List Char) : dropFinalZeros text ⊆ text := by
  cases text with
  | nil => exact fun _ none => none
  | cons first rest =>
      refine List.cons_subset_cons first fun c member => ?_
      exact List.mem_reverse.mp ((List.dropWhile_sublist _).subset (List.mem_reverse.mp member))

theorem integer_text_unbroken (n : Int) : Unbroken (integerText n) :=
  (unbroken_append _ _).mpr ⟨sign_unbroken _, digits_unbroken _⟩

theorem decimals_unbroken (scaled : Nat) : Unbroken (decimals scaled) :=
  unbroken_subset _ _ (List.tail_sublist _).subset (digits_unbroken _)

theorem fixed_text_unbroken (negative : Bool) (scaled : Nat) : Unbroken (fixedText negative scaled) := by
  rw [fixedText, unbroken_append, unbroken_append, unbroken_cons]
  refine ⟨⟨sign_unbroken _, digits_unbroken _⟩, by decide, ?_⟩
  exact unbroken_subset _ _ (drop_final_zeros_subset _) (decimals_unbroken scaled)

end Decimal

theorem single_text_unbroken (x : Single) : Text.Unbroken x.text := by
  cases x with
  | nan => decide
  | infinite negative => exact (Text.unbroken_append _ _).mpr ⟨Decimal.sign_unbroken _, by decide⟩
  | finite negative rank => exact Decimal.fixed_text_unbroken _ _

theorem operator_name_unbroken (op : Operator) : Text.Unbroken op.name.toList := by
  cases op <;> decide +kernel

mutual
theorem value_text_unbroken (value : Value) (unbroken : value.Unbroken) :
    Text.Unbroken value.text.toList := by
  cases value with
  | integer n =>
      rw [Value.text, String.toList_ofList]
      exact Decimal.integer_text_unbroken _
  | real x =>
      rw [Value.text, String.toList_ofList]
      exact single_text_unbroken x
  | boolean b => cases b <;> decide +kernel
  | string text | name text | block source => exact unbroken
  | operator op =>
      simp only [Value.text, String.toList_append, Text.unbroken_append, and_assoc]
      exact ⟨by decide +kernel, operator_name_unbroken op, by decide +kernel⟩
  | dictionary d => exact dictionary_text_unbroken d unbroken
theorem dictionary_text_unbroken (d : Dictionary) (unbroken : d.Unbroken) :
    Text.Unbroken d.text.toList := by
  obtain ⟨capacity, bindings⟩ := d
  simp only [Dictionary.text, String.toList_append, Text.unbroken_append, and_assoc]
  exact ⟨by decide +kernel, bindings_text_unbroken bindings unbroken, by decide +kernel⟩
theorem bindings_text_unbroken (bindings : Bindings) (unbroken : bindings.Unbroken) :
    Text.Unbroken bindings.text.toList := by
  cases bindings with
  | nil => decide +kernel
  | cons key value rest =>
      obtain ⟨head, here, tail⟩ := unbroken
      simp only [Bindings.text, String.toList_append, Text.unbroken_append, and_assoc]
      exact ⟨by decide +kernel, head, by decide +kernel, value_text_unbroken value here,
        bindings_text_unbroken rest tail⟩
end

def Error.Unbroken : Error → Prop
  | .undefined name => Text.Unbroken name.toList
  | .stackUnderflow op _ _ => Text.Unbroken op.toList
  | .typeMismatch op => Text.Unbroken op.toList
  | .divisionByZero op => Text.Unbroken op.toList
  | .outOfRange op => Text.Unbroken op.toList
  | .intervalOverflow | .nestingLimit _ | .emptyStack => True

theorem message_unbroken (error : Error) (unbroken : error.Unbroken) :
    Text.Unbroken error.message.toList := by
  cases error with
  | intervalOverflow | emptyStack => decide +kernel
  -- Unification opens the message; equations of a match into long literals are too slow to make.
  | nestingLimit limit =>
      change Text.Unbroken (_ ++ limit.repr).toList
      rw [String.toList_append, Text.unbroken_append, Nat.toList_repr]
      exact ⟨by decide +kernel, Text.digits_unbroken limit⟩
  | stackUnderflow op needed found =>
      change Text.Unbroken (_ ++ op ++ _ ++ needed.repr ++ _ ++ found.repr).toList
      simp only [String.toList_append, Text.unbroken_append, Nat.toList_repr, and_assoc]
      exact ⟨by decide +kernel, unbroken, by decide +kernel, Text.digits_unbroken needed,
        by decide +kernel, Text.digits_unbroken found⟩
  | divisionByZero op | outOfRange op | typeMismatch op | undefined op =>
      change Text.Unbroken (_ ++ op ++ _).toList
      simp only [String.toList_append, Text.unbroken_append, and_assoc]
      exact ⟨by decide +kernel, unbroken, by decide +kernel⟩

end MiniPostScript
