import MiniPostScript.Value

set_option autoImplicit false

namespace MiniPostScript

-- What a frame is called: the global one, or the place of a begun one in the order of beginning.
inductive FrameId where
  | global
  | begun (index : Nat)
deriving DecidableEq, Repr

structure Scopes where
  global : Dictionary
  -- Every frame begun so far, whether it is open or has ended.
  begun : Array Dictionary
  -- Those still open, innermost first; the global frame is open beneath them.
  active : List Nat
  nested : active.Pairwise (· > ·)
  bounded : ∀ index ∈ active, index < begun.size
deriving DecidableEq

namespace Scopes

def ofGlobal (global : Dictionary) : Scopes := ⟨global, #[], [], .nil, by simp⟩

def contents (s : Scopes) : FrameId → Dictionary
  | .global => s.global
  | .begun index => s.begun[index]?.getD (.empty 0)

def frames (s : Scopes) : List FrameId := s.active.map .begun ++ [.global]

def depth (s : Scopes) : Nat := s.active.length + 1

def top (s : Scopes) : FrameId :=
  match s.active with
  | [] => .global
  | index :: _ => .begun index

def Has (s : Scopes) : FrameId → Prop
  | .global => True
  | .begun index => index < s.begun.size

def push (d : Dictionary) (s : Scopes) : Scopes where
  global := s.global
  begun := s.begun.push d
  active := s.begun.size :: s.active
  nested := .cons s.bounded s.nested
  bounded := by
    intro index member
    rw [Array.size_push]
    rcases List.mem_cons.mp member with rfl | older
    · exact Nat.lt_succ_self _
    · exact Nat.lt_succ_of_lt (s.bounded index older)

def closed (s : Scopes) : Scopes where
  global := s.global
  begun := s.begun
  active := s.active.tail
  nested := s.nested.tail
  bounded := fun index member => s.bounded index (List.mem_of_mem_tail member)

def pop? (s : Scopes) : Option (FrameId × Scopes) :=
  match s.active with
  | [] => none
  | index :: _ => some (.begun index, s.closed)

def define (key : String) (value : Value) (s : Scopes) : Scopes :=
  match s.top with
  | .global => { s with global := s.global.insert key value }
  | .begun index =>
      { s with
        begun := s.begun.modify index (Dictionary.insert key value)
        bounded := by simpa using s.bounded }

def lookupIn (s : Scopes) (key : String) (frame : FrameId) : Option (Value × FrameId) :=
  ((s.contents frame).get? key).map fun value => (value, frame)

def lookup (s : Scopes) (key : String) : Option (Value × FrameId) :=
  s.frames.findSome? (s.lookupIn key)

theorem frames_has (s : Scopes) (frame : FrameId) (member : frame ∈ s.frames) : s.Has frame := by
  rcases List.mem_append.mp member with begun | global
  · obtain ⟨index, present, rfl⟩ := List.mem_map.mp begun
    exact s.bounded index present
  · obtain rfl := List.mem_singleton.mp global
    trivial

theorem top_frames (s : Scopes) : ∃ rest, s.frames = s.top :: rest := by
  rw [frames, top]
  cases s.active with
  | nil => exact ⟨[], rfl⟩
  | cons index rest => exact ⟨rest.map .begun ++ [.global], rfl⟩

theorem frames_push (d : Dictionary) (s : Scopes) :
    (s.push d).frames = .begun s.begun.size :: s.frames := rfl

theorem frames_define (key : String) (value : Value) (s : Scopes) :
    (s.define key value).frames = s.frames := by
  rw [define]
  split <;> rfl

theorem pop_closed (s : Scopes) : (s.pop?.map Prod.snd).getD s = s.closed := by
  obtain ⟨global, begun, active, nested, bounded⟩ := s
  cases active <;> rfl

theorem frames_length (s : Scopes) : s.frames.length = s.depth := by
  simp [frames, depth]

theorem frames_last (s : Scopes) : s.frames.getLast? = some .global := by
  simp [frames]

theorem top_global_iff (s : Scopes) : s.top = .global ↔ s.depth = 1 := by
  obtain ⟨global, begun, active, nested, bounded⟩ := s
  cases active with
  | nil => simp [top, depth]
  | cons index rest => simp [top, depth]

theorem frames_closed (s : Scopes) (more : s.depth ≠ 1) : s.frames = s.top :: s.closed.frames := by
  obtain ⟨global, begun, active, nested, bounded⟩ := s
  cases active with
  | nil => exact absurd rfl more
  | cons index rest => rfl

theorem closed_global (s : Scopes) (last : s.depth = 1) : s.closed = s := by
  obtain ⟨global, begun, active, nested, bounded⟩ := s
  cases active with
  | nil => rfl
  | cons index rest => simp [depth] at last

theorem has_closed (s : Scopes) (frame : FrameId) : s.closed.Has frame ↔ s.Has frame := by
  cases frame with
  | global => exact Iff.rfl
  | begun index => exact Iff.rfl

theorem contents_closed (s : Scopes) (frame : FrameId) : s.closed.contents frame = s.contents frame := by
  cases frame with
  | global => rfl
  | begun index => rfl

theorem has_push (d : Dictionary) (s : Scopes) (frame : FrameId) (has : s.Has frame) :
    (s.push d).Has frame := by
  cases frame with
  | global => trivial
  | begun index =>
      simp only [Has, push, Array.size_push] at has ⊢
      exact Nat.lt_succ_of_lt has

theorem has_define (key : String) (value : Value) (s : Scopes) (frame : FrameId)
    (has : s.Has frame) : (s.define key value).Has frame := by
  rw [define]
  split
  · exact has
  · cases frame with
    | global => trivial
    | begun index => simpa only [Has, Array.size_modify] using has

theorem fresh_frame (s : Scopes) (frame : FrameId) (has : s.Has frame) :
    frame ≠ .begun s.begun.size := by
  rintro rfl
  exact Nat.lt_irrefl _ has

theorem contents_push (d : Dictionary) (s : Scopes) (frame : FrameId) (has : s.Has frame) :
    (s.push d).contents frame = s.contents frame := by
  cases frame with
  | global => rfl
  | begun index =>
      have older : index ≠ s.begun.size := Nat.ne_of_lt has
      simp only [contents, push, Array.getElem?_push, if_neg older]

theorem contents_define (key : String) (value : Value) (s : Scopes) (frame : FrameId) :
    (s.define key value).contents frame =
      if frame = s.top then (s.contents frame).insert key value else s.contents frame := by
  rw [define]
  split
  · rename_i top
    cases frame with
    | global => simp only [contents, top, if_true]
    | begun index => simp [contents, top]
  · rename_i inner top
    cases frame with
    | global => simp [contents, top]
    | begun index =>
        by_cases same : index = inner
        · subst same
          have bound : index < s.begun.size := frames_has s (.begun index) (by
            obtain ⟨rest, frames⟩ := top_frames s
            simp [frames, top])
          simp [contents, top, bound, Array.getElem_modify]
        · simp [contents, top, same, Ne.symm same, Array.getElem?_modify]

theorem bound_has (s : Scopes) (frame : FrameId) (key : String) (value : Value)
    (bound : (s.contents frame).get? key = some value) : s.Has frame := by
  cases frame with
  | global => trivial
  | begun index =>
      by_cases has : index < s.begun.size
      · exact has
      · have absent : s.begun[index]? = none := Array.getElem?_eq_none (Nat.le_of_not_gt has)
        simp only [contents, absent, Option.getD_none] at bound
        cases bound

theorem lookup_in_iff (s : Scopes) (key : String) (frame home : FrameId) (value : Value) :
    s.lookupIn key frame = some (value, home) ↔
      (s.contents frame).get? key = some value ∧ frame = home := by
  simp only [lookupIn, Option.map_eq_some_iff, Prod.mk.injEq]
  constructor
  · rintro ⟨bound, here, rfl, same⟩
    exact ⟨here, same⟩
  · rintro ⟨here, same⟩
    exact ⟨value, here, rfl, same⟩

theorem lookup_in_none_iff (s : Scopes) (key : String) (frame : FrameId) :
    s.lookupIn key frame = none ↔ (s.contents frame).get? key = none := Option.map_eq_none_iff

theorem lookup_bound (s : Scopes) (key : String) (home : FrameId) (value : Value)
    (found : s.lookup key = some (value, home)) : (s.contents home).get? key = some value := by
  obtain ⟨frame, _, here⟩ := List.exists_of_findSome?_eq_some found
  obtain ⟨bound, rfl⟩ := (lookup_in_iff s key frame home value).mp here
  exact bound

end Scopes

end MiniPostScript
