import Mathlib.Algebra.Ring.Nat
import MiniPostScript.Program
import MiniPostScript.Proofs.Session.Feed

set_option autoImplicit false

namespace MiniPostScript.Program

def shown (program : String) : List (List String) :=
  ((Session.new .default).feedAll (lines program)).2.map fun told => told.map Notice.text

theorem answers_joined (s : Session) (lines : List String) :
    answers s lines = (s.feedAll lines).2.map fun told => "\n".intercalate (told.map Notice.text) := by
  induction lines generalizing s with
  | nil => rfl
  | cons line rest ih => simp only [answers, Session.respond, Session.feedAll, List.map_cons, ih]

def extent (texts : List String) : Nat := (texts.map fun text => text.length + 1).sum

theorem joined_length (texts : List String) (some : texts ≠ []) :
    ("\n".intercalate texts).length + 1 = extent texts := by
  induction texts with
  | nil => exact absurd rfl some
  | cons text rest ih =>
      by_cases last : rest = []
      · subst last
        simp [extent]
      · have later := ih last
        rw [String.intercalate_cons_of_ne_nil last]
        simp only [extent, List.map_cons, List.sum_cons, String.length_append] at later ⊢
        have feed : "\n".length = 1 := rfl
        omega

theorem joined_empty_iff (texts : List String) : "\n".intercalate texts = "" ↔ texts = [] ∨ texts = [""] := by
  constructor
  · intro empty
    refine or_iff_not_imp_left.mpr fun some => ?_
    have length := joined_length texts some
    rw [empty] at length
    match texts with
    | [text] =>
        rw [String.intercalate_singleton] at empty
        rw [empty]
    | first :: second :: rest =>
        simp only [extent, List.map_cons, List.sum_cons, String.length_empty] at length
        omega
  · rintro (rfl | rfl) <;> rfl

theorem joined_flatten (groups : List (List String)) (some : [] ∉ groups) :
    "\n".intercalate (groups.map "\n".intercalate) = "\n".intercalate groups.flatten := by
  induction groups with
  | nil => rfl
  | cons group rest ih =>
      obtain ⟨here, later⟩ := not_or.mp (mt List.mem_cons.mpr some)
      by_cases last : rest = []
      · subst last
        simp
      · have after : rest.flatten ≠ [] := by
          obtain ⟨next, more, rfl⟩ := List.exists_cons_of_ne_nil last
          intro none
          exact later (List.mem_cons.mpr (.inl (List.append_eq_nil_iff.mp none).1.symm))
        rw [List.map_cons, List.flatten_cons, String.intercalate_cons_of_ne_nil (by simpa using last), ih later,
          String.intercalate_append_of_ne_nil (Ne.symm here) after]

-- Of the lines with an empty answer only those that show nothing make no difference to the join.
theorem run_joined (program : String) :
    run program = "\n".intercalate ((shown program).filter (· ≠ [""])).flatten := by
  let kept := ((shown program).filter (· ≠ [""])).filter (· ≠ [])
  have texts : (answers (.new .default) (lines program)).filter (fun text => text ≠ "") =
      kept.map "\n".intercalate := by
    have same : (fun told => "\n".intercalate (told.map Notice.text)) = "\n".intercalate ∘ List.map Notice.text := rfl
    simp only [kept, shown]
    rw [answers_joined, same, ← List.map_map, List.filter_map, List.filter_filter]
    congr 1
    refine List.filter_congr fun group _ => ?_
    simp [joined_empty_iff]
  have some : [] ∉ kept := by simp [kept]
  rw [run, texts, joined_flatten kept some]
  exact congrArg _ List.flatten_filter_ne_nil

-- Each lone empty text that is dropped costs one line feed, so no other text can make up for it.
theorem extent_filter (groups : List (List String)) :
    extent groups.flatten = extent (groups.filter (· ≠ [""])).flatten + groups.count [""] := by
  induction groups with
  | nil => rfl
  | cons group rest ih =>
      by_cases lone : group = [""]
      · subst lone
        simp [extent] at ih ⊢
        omega
      · simp [extent, lone] at ih ⊢
        omega

theorem run_drops_lone_empty_texts (program : String) :
    run program = "\n".intercalate ((shown program).filter (· ≠ [""])).flatten ∧
    (run program = "\n".intercalate (shown program).flatten ↔
      [""] ∉ shown program ∨ (shown program).flatten = [""]) := by
  refine ⟨run_joined program, ?_⟩
  rw [run_joined]
  have extents := extent_filter (shown program)
  generalize shown program = groups at *
  by_cases lost : [""] ∈ groups
  · have some := List.count_pos_iff.mpr lost
    have whole : groups.flatten ≠ [] := by
      intro none
      rw [none] at extents
      simp only [extent, List.map_nil, List.sum_nil] at extents
      omega
    by_cases none : (groups.filter (· ≠ [""])).flatten = []
    · rw [none]
      simp only [String.intercalate_nil, lost, not_true_eq_false, false_or]
      rw [eq_comm, joined_empty_iff]
      exact or_iff_right whole
    · have kept := joined_length _ none
      have all := joined_length _ whole
      refine iff_of_false (fun same => ?_) (not_or.mpr ⟨not_not.mpr lost, fun same => ?_⟩)
      · rw [same] at kept
        omega
      · rw [same] at extents
        simp only [extent, List.map_cons, List.map_nil, List.sum_cons, List.sum_nil, String.length_empty] at extents kept
        omega
  · have all : groups.filter (· ≠ [""]) = groups :=
      List.filter_eq_self.mpr fun group member => decide_eq_true fun lone => lost (lone ▸ member)
    rw [all]
    exact iff_of_true rfl (.inl lost)

theorem lone_empty_text_dropped :
    "\n".intercalate (shown "() =\n1 =").flatten = "\n1" ∧ run "() =\n1 =" = "1" := by
  let s := Session.new .default
  have cut : lines "() =\n1 =" = ["() =", "1 ="] := by decide +kernel
  have first : s.feed "() =" = (s, [.shown ""]) :=
    (Session.feed_at 3 "() =" s (by decide +kernel)).trans (by decide +kernel)
  have second : s.feed "1 =" = (s, [.shown "1"]) :=
    (Session.feed_at 3 "1 =" s (by decide +kernel)).trans (by decide +kernel)
  have texts : shown "() =\n1 =" = [[""], ["1"]] := by
    simp only [shown, cut, Session.feedAll, s, first, second]
    rfl
  rw [run_joined, texts]
  decide +kernel

end MiniPostScript.Program
