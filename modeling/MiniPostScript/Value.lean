import MiniPostScript.Number.Arithmetic
import MiniPostScript.Number.Integer
import MiniPostScript.Operator

set_option autoImplicit false

namespace MiniPostScript

-- A block is kept as its source text and read anew each time it runs.
mutual
inductive Value where
  | integer (n : Integer)
  | real (x : Single)
  | boolean (b : Bool)
  | string (text : String)
  | name (text : String)
  | block (source : String)
  | operator (op : Operator)
  | dictionary (d : Dictionary)
deriving DecidableEq
inductive Dictionary where
  | mk (capacity : Nat) (bindings : Bindings)
deriving DecidableEq
inductive Bindings where
  | nil
  | cons (key : String) (value : Value) (rest : Bindings)
deriving DecidableEq
end

namespace Bindings

def get? (key : String) : Bindings → Option Value
  | .nil => none
  | .cons k value rest => if key = k then some value else rest.get? key

def insert (key : String) (value : Value) : Bindings → Bindings
  | .nil => .cons key value .nil
  | .cons k old rest =>
      if key = k then .cons key value rest
      else if key < k then .cons key value (.cons k old rest)
      else .cons k old (rest.insert key value)

def size : Bindings → Nat
  | .nil => 0
  | .cons _ _ rest => rest.size + 1

def toList : Bindings → List (String × Value)
  | .nil => []
  | .cons key value rest => (key, value) :: rest.toList

def Above (low : String) : Bindings → Prop
  | .nil => True
  | .cons key _ rest => low < key ∧ rest.Above low

def Sorted : Bindings → Prop
  | .nil => True
  | .cons key _ rest => rest.Above key ∧ rest.Sorted

end Bindings

namespace Dictionary

-- The capacity that a dictionary was made with; it bounds nothing.
def capacity : Dictionary → Nat
  | .mk capacity _ => capacity

def bindings : Dictionary → Bindings
  | .mk _ bindings => bindings

def empty (capacity : Nat) : Dictionary := .mk capacity .nil

def insert (key : String) (value : Value) (d : Dictionary) : Dictionary :=
  .mk d.capacity (d.bindings.insert key value)

def get? (key : String) (d : Dictionary) : Option Value := d.bindings.get? key

def size (d : Dictionary) : Nat := d.bindings.size

def isEmpty (d : Dictionary) : Bool := d.size == 0

def ofList (capacity : Nat) (entries : List (String × Value)) : Dictionary :=
  entries.foldl (fun d entry => d.insert entry.1 entry.2) (empty capacity)

def builtins : Dictionary :=
  ofList Operator.builtins.length (Operator.builtins.map fun entry => (entry.1, .operator entry.2))

end Dictionary

namespace Value

def kind : Value → String
  | .integer _ => "integer"
  | .real _ => "float"
  | .boolean _ => "boolean"
  | .string _ => "string"
  | .name _ => "name"
  | .block _ => "block"
  | .operator _ => "operator"
  | .dictionary _ => "dict"

def toSingle? : Value → Option Single
  | .integer n => some (.ofInt n.toInt)
  | .real x => some x
  | _ => none

-- A numeric result: an integer when it is whole and 32 bits hold it, a real otherwise.
def ofSingle (x : Single) : Value :=
  match x.toInt?.bind Integer.ofInt? with
  | some n => .integer n
  | none => .real x

end Value

namespace Bindings

theorem get_insert (key query : String) (value : Value) (bindings : Bindings) :
    (bindings.insert key value).get? query =
      if query = key then some value else bindings.get? query := by
  cases bindings with
  | nil => rfl
  | cons k old rest =>
      have ih := get_insert key query value rest
      by_cases same : key = k
      · subst same
        by_cases hit : query = key <;> simp [insert, get?, hit]
      · by_cases before : key < k
        · simp [insert, get?, same, before]
        · by_cases hit : query = k
          · simp [insert, get?, same, before, hit, Ne.symm same]
          · simp [insert, get?, same, before, hit, ih]

theorem insert_above (low key : String) (value : Value) (bindings : Bindings)
    (less : low < key) (above : bindings.Above low) : (bindings.insert key value).Above low := by
  cases bindings with
  | nil => exact ⟨less, trivial⟩
  | cons k old rest =>
      by_cases same : key = k
      · simpa only [insert, if_pos same, Above] using And.intro less above.2
      · by_cases before : key < k
        · simpa only [insert, if_neg same, if_pos before, Above] using And.intro less above
        · simp only [insert, if_neg same, if_neg before, Above]
          exact ⟨above.1, insert_above low key value rest less above.2⟩

theorem above_trans (low high : String) (bindings : Bindings) (less : low < high)
    (above : bindings.Above high) : bindings.Above low := by
  cases bindings with
  | nil => trivial
  | cons k _ rest => exact ⟨String.lt_trans less above.1, above_trans low high rest less above.2⟩

theorem insert_sorted (key : String) (value : Value) (bindings : Bindings)
    (sorted : bindings.Sorted) : (bindings.insert key value).Sorted := by
  cases bindings with
  | nil => exact ⟨trivial, trivial⟩
  | cons k old rest =>
      by_cases same : key = k
      · subst same
        simpa only [insert, if_pos, Sorted] using sorted
      · by_cases before : key < k
        · simp only [insert, if_neg same, if_pos before, Sorted]
          exact ⟨⟨before, above_trans key k rest before sorted.1⟩, sorted⟩
        · simp only [insert, if_neg same, if_neg before, Sorted]
          have after : k < key :=
            String.not_le.mp fun reaches => same (String.le_antisymm reaches (String.not_lt.mp before))
          exact ⟨insert_above k key value rest after sorted.1, insert_sorted key value rest sorted.2⟩

end Bindings

theorem Dictionary.get_insert (key query : String) (value : Value) (d : Dictionary) :
    (d.insert key value).get? query = if query = key then some value else d.get? query :=
  Bindings.get_insert key query value d.bindings

end MiniPostScript
