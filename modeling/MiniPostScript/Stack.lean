import MiniPostScript.Error
import MiniPostScript.Value

set_option autoImplicit false

namespace MiniPostScript

-- The operand stack, its top first.
structure Stack where
  cells : List Value
deriving DecidableEq

namespace Stack

def empty : Stack := ⟨[]⟩

def toList (s : Stack) : List Value := s.cells.reverse

def count (s : Stack) : Nat := s.cells.length

def push (value : Value) (s : Stack) : Stack := ⟨value :: s.cells⟩

def pushAll (values : List Value) (s : Stack) : Stack := ⟨values.reverse ++ s.cells⟩

def top? (s : Stack) : Option Value := s.cells.head?

def pop? (s : Stack) : Option (Value × Stack) :=
  match s.cells with
  | [] => none
  | value :: below => some (value, ⟨below⟩)

-- Fails unless the stack has as many cells as `op` needs. It looks no deeper than it has to.
def require (op : String) (needed : Nat) (s : Stack) : Except Error Unit :=
  if (s.cells.take needed).length < needed then .error (.stackUnderflow op needed s.count)
  else .ok ()

-- The top cells, deepest first, and the stack below them.
def take (op : String) (needed : Nat) (s : Stack) : Except Error (List Value × Stack) :=
  (s.require op needed).map fun _ => ((s.cells.take needed).reverse, ⟨s.cells.drop needed⟩)

def copy (n : Nat) (s : Stack) : Stack := ⟨s.cells.take n ++ s.cells⟩

def exchanged : List Value → List Value
  | upper :: lower :: below => lower :: upper :: below
  | cells => cells

def exch (s : Stack) : Except Error Stack := (s.require "exch" 2).map fun _ => ⟨exchanged s.cells⟩

-- Looks for its operand itself.
def dup (s : Stack) : Except Error Stack :=
  match s.top? with
  | none => .error (.stackUnderflow "dup" 1 0)
  | some value => .ok (s.push value)

theorem require_error_iff (op : String) (needed : Nat) (s : Stack) :
    s.require op needed = .error (.stackUnderflow op needed s.count) ↔ s.count < needed := by
  rw [require, count]
  rw [List.length_take]
  constructor
  · intro refused
    split at refused
    · omega
    · cases refused
  · intro less
    rw [if_pos (by omega)]

theorem take_push_all (op : String) (values : List Value) (s : Stack) :
    (s.pushAll values).take op values.length = .ok (values, s) := by
  simp [take, require, pushAll, Except.map]

theorem take_error_iff (op : String) (needed : Nat) (s : Stack) (error : Error) :
    s.take op needed = .error error ↔
      s.count < needed ∧ error = .stackUnderflow op needed s.count := by
  rw [take, require, count]
  rw [List.length_take]
  by_cases few : s.cells.length < needed
  · rw [if_pos (by omega)]
    simpa [Except.map, few] using eq_comm
  · rw [if_neg (by omega)]
    simp [Except.map, few]

theorem take_ok_iff (op : String) (needed : Nat) (s below : Stack) (operands : List Value) :
    s.take op needed = .ok (operands, below) ↔
      operands.length = needed ∧ s = below.pushAll operands := by
  constructor
  · intro taken
    rw [take, require] at taken
    split at taken
    · cases taken
    · rename_i enough
      cases taken
      rw [List.length_take] at enough
      refine ⟨by simp only [List.length_reverse, List.length_take]; omega, ?_⟩
      simp only [pushAll, List.reverse_reverse, List.take_append_drop]
  · rintro ⟨rfl, rfl⟩
    exact take_push_all op operands below

theorem operands_below (needed : Nat) (s : Stack) (enough : needed ≤ s.count) :
    ∃ operands below, operands.length = needed ∧ s = pushAll operands below := by
  cases taken : s.take "" needed with
  | error error =>
      have few := ((take_error_iff "" needed s error).mp taken).1
      omega
  | ok result => exact ⟨result.1, result.2, (take_ok_iff "" needed s result.2 result.1).mp taken⟩

theorem exch_underflow (s : Stack) (few : s.count < 2) : s.exch = .error (.stackUnderflow "exch" 2 s.count) := by
  rw [exch, (require_error_iff "exch" 2 s).mpr few]
  rfl

theorem dup_underflow (s : Stack) (few : s.count < 1) : s.dup = .error (.stackUnderflow "dup" 1 s.count) := by
  obtain ⟨cells⟩ := s
  obtain rfl : cells = [] := List.length_eq_zero_iff.mp (Nat.lt_one_iff.mp few)
  rfl

end Stack

end MiniPostScript
