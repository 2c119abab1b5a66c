import MiniPostScript.Proofs.Run.Frames
import MiniPostScript.Proofs.Run.Lockstep
import MiniPostScript.Proofs.Run.Task

set_option autoImplicit false

namespace MiniPostScript

-- Which frame of the other run a frame that can be seen corresponds to.
inductive Twin (left right : FrameId) : FrameId → FrameId → Prop where
  | home : Twin left right left right
  | global : Twin left right .global .global

namespace Scopes

structure Alike (left right : FrameId) (s t : Scopes) : Prop where
  hasLeft : s.Has left
  hasRight : t.Has right
  positions : List.Forall₂ (fun a b => a = left ↔ b = right) s.frames t.frames
  home : ∀ name, (s.contents left).get? name = (t.contents right).get? name
  global : ∀ name, (s.contents .global).get? name = (t.contents .global).get? name

variable (left right : FrameId) (s t : Scopes)

theorem alike_bindings (a b : FrameId) (name : String) (alike : Alike left right s t)
    (twin : Twin left right a b) : (s.contents a).get? name = (t.contents b).get? name := by
  cases twin with
  | home => exact alike.home name
  | global => exact alike.global name

theorem alike_depth (alike : Alike left right s t) : s.depth = t.depth := by
  rw [← frames_length, ← frames_length]
  exact alike.positions.length_eq

theorem alike_top (a b : FrameId) (alike : Alike left right s t) (twin : Twin left right a b) :
    a = s.top ↔ b = t.top := by
  cases twin with
  | home =>
      obtain ⟨rest, frames⟩ := top_frames s
      obtain ⟨rest', frames'⟩ := top_frames t
      have positions := alike.positions
      rw [frames, frames'] at positions
      obtain ⟨same, _⟩ := List.forall₂_cons.mp positions
      rw [eq_comm, same, eq_comm]
  | global => rw [eq_comm, top_global_iff, alike_depth left right s t alike, ← top_global_iff, eq_comm]

-- Definitions go to the innermost open frame, so they reach a frame exactly when they reach its twin.
theorem alike_define (key : String) (value : Value) (alike : Alike left right s t) :
    Alike left right (s.define key value) (t.define key value) := by
  have bindings (a b : FrameId) (twin : Twin left right a b) (name : String) :
      ((s.define key value).contents a).get? name = ((t.define key value).contents b).get? name := by
    have here := alike_top left right s t a b alike twin
    have same := alike_bindings left right s t a b name alike twin
    rw [contents_define, contents_define]
    by_cases top : a = s.top
    · rw [if_pos top, if_pos (here.mp top), Dictionary.get_insert, Dictionary.get_insert, same]
    · rw [if_neg top, if_neg (fun other => top (here.mpr other)), same]
  exact {
    hasLeft := has_define key value s left alike.hasLeft
    hasRight := has_define key value t right alike.hasRight
    positions := by
      rw [frames_define, frames_define]
      exact alike.positions
    home := bindings left right .home
    global := bindings .global .global .global }

-- A frame that is begun is new, so it is nobody's home.
theorem alike_push (d : Dictionary) (alike : Alike left right s t) :
    Alike left right (s.push d) (t.push d) where
  hasLeft := has_push d s left alike.hasLeft
  hasRight := has_push d t right alike.hasRight
  positions := by
    rw [frames_push, frames_push]
    refine .cons ?_ alike.positions
    exact iff_of_false (fresh_frame s left alike.hasLeft).symm (fresh_frame t right alike.hasRight).symm
  home := by
    intro name
    rw [contents_push d s left alike.hasLeft, contents_push d t right alike.hasRight, alike.home]
  global := alike.global

theorem alike_closed (alike : Alike left right s t) : Alike left right s.closed t.closed := by
  have depth := alike_depth left right s t alike
  have positions : List.Forall₂ (fun a b => a = left ↔ b = right) s.closed.frames t.closed.frames := by
    by_cases last : s.depth = 1
    · rw [closed_global s last, closed_global t (depth ▸ last)]
      exact alike.positions
    · have opened := alike.positions
      rw [frames_closed s last, frames_closed t (depth ▸ last)] at opened
      exact (List.forall₂_cons.mp opened).2
  exact {
    hasLeft := (has_closed s left).mpr alike.hasLeft
    hasRight := (has_closed t right).mpr alike.hasRight
    positions := positions
    home := by
      intro name
      rw [contents_closed, contents_closed, alike.home]
    global := alike.global }

end Scopes

inductive Found (left right : FrameId) :
    Option (Value × FrameId) → Option (Value × FrameId) → Prop where
  | nothing : Found left right none none
  | bound (value : Value) (a b : FrameId) (twin : Twin left right a b) :
      Found left right (some (value, a)) (some (value, b))

theorem lookup_in_found (left right a b : FrameId) (s t : Scopes) (name : String)
    (alike : s.Alike left right t) (twin : Twin left right a b) :
    Found left right (s.lookupIn name a) (t.lookupIn name b) := by
  rw [Scopes.lookupIn, Scopes.lookupIn, Scopes.alike_bindings left right s t a b name alike twin]
  cases (t.contents b).get? name with
  | none => exact .nothing
  | some value => exact .bound value a b twin

theorem found_or_else (left right : FrameId) (first first' second second' : Option (Value × FrameId))
    (found : Found left right first first') (otherwise : Found left right second second') :
    Found left right (first <|> second) (first' <|> second') := by
  cases found with
  | nothing => exact otherwise
  | bound value a b twin => exact .bound value a b twin

structure Machine.Alike (left right : FrameId) (m n : Machine) : Prop where
  stack : m.stack = n.stack
  scopes : m.scopes.Alike left right n.scopes
  scoping : m.scoping = n.scoping
  halted : m.halted = n.halted

inductive Effect.Alike (left right : FrameId) : Effect → Effect → Prop where
  | done (m n : Machine) (shown : List String) (machines : m.Alike left right n) :
      Effect.Alike left right (.done m shown) (.done n shown)
  | run (m n : Machine) (source : String) (passes : Passes) (machines : m.Alike left right n) :
      Effect.Alike left right (.run m source passes) (.run n source passes)

theorem effect_alike (left right : FrameId) (deed : Deed) (m n : Machine)
    (alike : m.Alike left right n) : Effect.Alike left right (deed.effect m) (deed.effect n) := by
  cases deed with
  | display lines => exact .done m n lines alike
  | beginDict d => exact .done _ _ [] { alike with scopes := Scopes.alike_push left right _ _ d alike.scopes }
  | endDict =>
      rw [Deed.effect, Deed.effect, Scopes.pop_closed, Scopes.pop_closed]
      exact .done _ _ [] { alike with scopes := Scopes.alike_closed left right _ _ alike.scopes }
  | define key value =>
      exact .done _ _ [] { alike with scopes := Scopes.alike_define left right _ _ key value alike.scopes }
  | halt => exact .done _ _ [] { alike with halted := rfl }
  | setScoping choose => exact .done _ _ [] { alike with scoping := congrArg choose alike.scoping }
  | run source => exact .run m n source (.times 0) alike
  | loop source passes =>
      rw [Deed.effect, Deed.effect, ← alike.halted]
      split
      · exact .done m n [] alike
      · exact .run m n source passes alike

inductive Entry.Alike (left right : FrameId) : Entry → Entry → Prop where
  | line : Entry.Alike left right .line .line
  | block : Entry.Alike left right .block .block
  | named (a b : FrameId) (twin : Twin left right a b) : Entry.Alike left right (.named a) (.named b)

inductive Task.Alike (left right : FrameId) : Task → Task → Prop where
  | settled (m n : Machine) (told : List Notice) (machines : m.Alike left right n) :
      Task.Alike left right (.settled m told) (.settled n told)
  | entering (m n : Machine) (entry entry' : Entry) (source : String) (passes : Passes)
      (machines : m.Alike left right n) (entries : entry.Alike left right entry') :
      Task.Alike left right (.entering m entry source passes) (.entering n entry' source passes)

theorem effect_task_alike (left right : FrameId) (first second : Effect)
    (alike : first.Alike left right second) : Task.Alike left right first.task second.task := by
  cases alike with
  | done m n shown machines => exact .settled m n _ machines
  | run m n source passes machines => exact .entering m n .block .block source passes machines .block

theorem operator_alike (left right : FrameId) (op : Operator) (m n : Machine)
    (alike : m.Alike left right n) : Task.Alike left right (m.operatorTask op) (n.operatorTask op) := by
  rw [Machine.operatorTask, Machine.operatorTask, Machine.perform, Machine.perform, alike.stack]
  cases n.stack.perform op with
  | error failure => exact .settled _ _ [.reported failure.1] { alike with stack := rfl }
  | ok result =>
      exact effect_task_alike left right _ _ (effect_alike left right result.2 _ _ { alike with stack := rfl })

theorem value_alike (left right : FrameId) (value : Value) (a b : FrameId) (m n : Machine)
    (twin : Twin left right a b) (alike : m.Alike left right n) :
    Task.Alike left right (m.valueTask value a) (n.valueTask value b) := by
  cases value with
  | operator op => exact operator_alike left right op m n alike
  | block source =>
      refine .entering m n _ _ source (.times 0) alike ?_
      rw [← alike.scoping]
      cases m.scoping with
      | dynamic => exact .block
      | lexical => exact .named a b twin
  | _ => exact .settled _ _ [] { alike with stack := congrArg (Stack.push _) alike.stack }

inductive Activity.Alike (left right : FrameId) : Activity → Activity → Prop where
  | same (entry entry' : Entry) (rest body : List String) (passes : Passes)
      (entries : entry.Alike left right entry') :
      Activity.Alike left right ⟨entry, rest, body, passes⟩ ⟨entry', rest, body, passes⟩

namespace Run

-- The activities inside the block with the two homes, together with the homes of each run.
inductive Inside (left right : FrameId) (outer outer' : List FrameId) :
    List Activity → List FrameId → List Activity → List FrameId → Prop where
  | nothing : Inside left right outer outer' [] (left :: outer) [] (right :: outer')
  | within (x y : Activity) (xs ys : List Activity) (hs ks : List FrameId)
      (alike : x.Alike left right y) (inside : Inside left right outer outer' xs hs ys ks) :
      Inside left right outer outer' (x :: xs) (x.entry.home?.toList ++ hs)
        (y :: ys) (y.entry.home?.toList ++ ks)

-- The notices from before the block was entered may differ; those since then do not.
structure Alike (left right : FrameId) (outer outer' : List FrameId) (old old' : List Notice)
    (r s : Run) : Prop where
  limit : r.limit = s.limit
  depth : r.depth = s.depth
  machines : r.machine.Alike left right s.machine
  inside : Inside left right outer outer' r.pending r.homes s.pending s.homes
  told : ∃ told, r.notices = told ++ old ∧ s.notices = told ++ old'

section

variable (left right : FrameId) (outer outer' : List FrameId) (old old' : List Notice) (r s : Run)

theorem inside_home (xs ys : List Activity) (hs ks : List FrameId)
    (inside : Inside left right outer outer' xs hs ys ks) :
    ∃ a b rest rest', hs = a :: rest ∧ ks = b :: rest' ∧ Twin left right a b := by
  induction inside with
  | nothing => exact ⟨left, right, outer, outer', rfl, rfl, .home⟩
  | within x y xs ys hs ks alike inside ih =>
      obtain ⟨entry, entry', tokens, body, passes, entries⟩ := alike
      cases entries with
      | line => exact ih
      | block => exact ih
      | named a b twin => exact ⟨a, b, hs, ks, rfl, rfl, twin⟩

theorem inside_cons (x : Activity) (xs ys : List Activity) (hs ks : List FrameId)
    (inside : Inside left right outer outer' (x :: xs) hs ys ks) :
    ∃ y ys' hs' ks', ys = y :: ys' ∧ x.Alike left right y ∧ hs = x.entry.home?.toList ++ hs' ∧
      ks = y.entry.home?.toList ++ ks' ∧ Inside left right outer outer' xs hs' ys' ks' := by
  cases inside with
  | within _ y _ ys hs ks alike inside => exact ⟨y, ys, hs, ks, rfl, alike, rfl, rfl, inside⟩

theorem inside_nil (ys : List Activity) (hs ks : List FrameId)
    (inside : Inside left right outer outer' [] hs ys ks) : ys = [] := by
  cases inside
  rfl

theorem enter_alike (entry entry' : Entry) (source : String) (passes : Passes)
    (entries : entry.Alike left right entry') (alike : Alike left right outer outer' old old' r s) :
    Alike left right outer outer' old old' (r.enter entry source passes) (s.enter entry' source passes) := by
  by_cases full : r.limit ≤ r.depth
  · have full' : s.limit ≤ s.depth := alike.limit ▸ alike.depth ▸ full
    obtain ⟨told, before, before'⟩ := alike.told
    rw [enter, enter, if_pos full, if_pos full', ← alike.limit]
    exact { alike with
      told := ⟨.reported (.nestingLimit r.limit) :: told, congrArg (_ :: ·) before, congrArg (_ :: ·) before'⟩ }
  · have room : ¬ s.limit ≤ s.depth := alike.limit ▸ alike.depth ▸ full
    rw [enter, enter, if_neg full, if_neg room]
    exact { alike with
      depth := congrArg Nat.succ alike.depth
      inside := .within _ _ _ _ _ _ (.same entry entry' _ _ passes entries) alike.inside }

theorem lookup_found (name : String) (lexical : r.machine.scoping = .lexical)
    (alike : Alike left right outer outer' old old' r s) :
    Found left right (r.lookup name) (s.lookup name) := by
  obtain ⟨a, b, rest, rest', homes, homes', twin⟩ := inside_home left right outer outer' _ _ _ _ alike.inside
  rw [lookup_home name a rest r lexical homes,
    lookup_home name b rest' s (alike.machines.scoping ▸ lexical) homes']
  exact found_or_else left right _ _ _ _
    (lookup_in_found left right a b _ _ name alike.machines.scopes twin)
    (lookup_in_found left right .global .global _ _ name alike.machines.scopes .global)

theorem task_alike (token : String) (lexical : r.machine.scoping = .lexical)
    (alike : Alike left right outer outer' old old' r s) :
    Task.Alike left right (r.task token) (s.task token) := by
  rw [task, task]
  cases constant? token with
  | some value =>
      exact .settled _ _ [] { alike.machines with stack := congrArg (Stack.push value) alike.machines.stack }
  | none =>
      have found := lookup_found left right outer outer' old old' r s token lexical alike
      generalize r.lookup token = here, s.lookup token = there at found
      cases found with
      | nothing => exact .settled _ _ [.reported (.undefined token)] alike.machines
      | bound value a b twin => exact value_alike left right value a b _ _ twin alike.machines

theorem undertake_alike (first second : Task) (tasks : first.Alike left right second)
    (alike : Alike left right outer outer' old old' r s) :
    Alike left right outer outer' old old' (r.undertake first) (s.undertake second) := by
  cases tasks with
  | settled m n shown machines =>
      obtain ⟨told, before, before'⟩ := alike.told
      refine { alike with machines := machines, told := ⟨shown ++ told, ?_, ?_⟩ }
      · rw [undertake, before, List.append_assoc]
      · rw [undertake, before', List.append_assoc]
  | entering m n entry entry' source passes machines entries =>
      exact enter_alike left right outer outer' old old' { r with machine := m } { s with machine := n }
        entry entry' source passes entries { alike with machines := machines }

theorem leave_alike (alike : Alike left right outer outer' old old' r s) :
    Alike left right outer outer' old old' r.leave s.leave := by
  have inside := alike.inside
  cases pending : r.pending with
  | nil =>
      rw [pending] at inside
      have pending' := inside_nil left right outer outer' _ _ _ inside
      simp only [leave, pending, pending']
      exact alike
  | cons x xs =>
      rw [pending] at inside
      obtain ⟨y, ys, hs, ks, pending', activities, homes, homes', beneath⟩ :=
        inside_cons left right outer outer' x xs _ _ _ inside
      obtain ⟨entry, entry', tokens, body, passes, entries⟩ := activities
      simp only [leave, pending, pending']
      cases entries with
      | line => exact { alike with inside := by rw [homes, homes']; exact beneath }
      | block =>
          exact { alike with
            depth := congrArg Nat.pred alike.depth
            inside := by rw [homes, homes']; exact beneath }
      | named a b twin =>
          exact { alike with
            depth := congrArg Nat.pred alike.depth
            inside := by rw [homes, homes']; exact beneath }

theorem alike_abreast (alike : Alike left right outer outer' old old' r s) : Abreast r s where
  halted := alike.machines.halted.symm
  pending := by
    have inside := alike.inside
    generalize r.pending = xs, r.homes = hs, s.pending = ys, s.homes = ks at inside
    induction inside with
    | nothing => exact .nil
    | within x y xs ys hs ks same inside ih =>
        obtain ⟨entry, entry', rest, body, passes, _⟩ := same
        exact .cons (.same entry entry' rest body passes) ih

theorem step_alike (lexical : r.machine.scoping = .lexical)
    (alike : Alike left right outer outer' old old' r s) :
    Alike left right outer outer' old old' r.step s.step := by
  refine step_abreast (Alike left right outer outer' old old') r s
    (alike_abreast left right outer outer' old old' r s alike) alike ?_ ?_
    (leave_alike left right outer outer' old old' r s alike)
  · intro entry entry' tokens body passes rest next xs ys pending pending'
    have inside := alike.inside
    rw [pending] at inside
    obtain ⟨y, ys', hs, ks, same, beside, homes, homes', beneath⟩ :=
      inside_cons left right outer outer' _ xs _ _ _ inside
    obtain ⟨rfl, rfl⟩ := List.cons.inj (pending'.symm.trans same)
    obtain ⟨_, _, _, _, _, entries⟩ := beside
    refine { alike with inside := ?_ }
    rw [homes, homes']
    exact .within _ _ xs ys hs ks (.same entry entry' rest body next entries) beneath
  · intro token xs ys next replaced
    rw [execute_task, execute_task]
    exact undertake_alike left right outer outer' old old' _ _ _ _
      (task_alike left right outer outer' old old' r s token lexical alike) replaced

end

end Run

end MiniPostScript
