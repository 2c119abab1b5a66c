import Mathlib.Data.List.Chain
import MiniPostScript.Proofs.Token.Cut
import MiniPostScript.Proofs.Token.Unbroken

set_option autoImplicit false

namespace MiniPostScript.Text

structure Tidy (text : List Char) : Prop where
  plain : Unbroken text
  single : text.IsChain fun c d => isBlank c = true → isBlank d = false

theorem tidy_within (inner text : List Char) (within : inner <:+: text) (tidy : Tidy text) : Tidy inner :=
  ⟨unbroken_subset inner text within.subset tidy.plain, tidy.single.infix within⟩

theorem tidy_append (text later : List Char) (left : Tidy text) (right : Tidy later)
    (seam : ∀ c ∈ text.getLast?, ∀ d ∈ later.head?, isBlank c = true → isBlank d = false) : Tidy (text ++ later) :=
  ⟨(unbroken_append text later).mpr ⟨left.plain, right.plain⟩, left.single.append right.single seam⟩

theorem solid_tidy (text : List Char) (solid : ∀ c ∈ text, isBlank c = false) : Tidy text := by
  refine ⟨solid_unbroken text solid, ?_⟩
  induction text with
  | nil => exact .nil
  | cons c rest ih =>
      obtain ⟨_, later⟩ := List.forall_mem_cons.mp solid
      exact (ih later).cons fun d next _ => later d (List.mem_of_head? next)

theorem spaced_cons (word next : List Char) (rest : List (List Char)) :
    spaced (word :: next :: rest) = word ++ ' ' :: spaced (next :: rest) := by
  rw [spaced, List.intercalate_cons_cons, List.append_assoc]
  rfl

theorem spaced_concat (words : List (List Char)) (word : List Char) (some : words ≠ []) :
    spaced (words ++ [word]) = spaced words ++ ' ' :: word := by
  induction words with
  | nil => exact absurd rfl some
  | cons first rest ih =>
      cases rest with
      | nil => simp [spaced]
      | cons next later =>
          have further := ih (List.cons_ne_nil next later)
          rw [List.cons_append] at further ⊢
          rw [List.cons_append, spaced_cons, further, spaced_cons, List.append_assoc, List.cons_append]

theorem spaced_head (word : List Char) (rest : List (List Char)) (some : word ≠ []) :
    (spaced (word :: rest)).head? = word.head? := by
  obtain ⟨c, later, rfl⟩ := List.exists_cons_of_ne_nil some
  cases rest with
  | nil => simp [spaced]
  | cons next further => simp [spaced_cons]

theorem spaced_ends (words : List (List Char)) (word : List Char) : word <:+ spaced (words ++ [word]) := by
  induction words with
  | nil => exact ⟨[], by simp [spaced]⟩
  | cons first rest ih =>
      obtain ⟨next, later, same⟩ := List.exists_cons_of_ne_nil (List.append_ne_nil_of_right_ne_nil rest (List.cons_ne_nil word []))
      rw [List.cons_append, same, spaced_cons, ← same]
      exact (ih.trans (List.suffix_cons ' ' _)).trans (List.suffix_append first _)

theorem spaced_last (words : List (List Char)) (word : List Char) (some : word ≠ []) :
    (spaced (words ++ [word])).getLast? = word.getLast? := by
  obtain ⟨front, same⟩ := spaced_ends words word
  rw [← same, List.getLast?_append_of_ne_nil front some]

theorem spaced_tidy (words : List (List Char)) (solid : ∀ word ∈ words, word ≠ [] ∧ ∀ c ∈ word, isBlank c = false) :
    Tidy (spaced words) := by
  induction words with
  | nil => exact solid_tidy [] (fun _ none => nomatch none)
  | cons first rest ih =>
      obtain ⟨⟨_, head⟩, others⟩ := List.forall_mem_cons.mp solid
      cases rest with
      | nil => simpa [spaced] using solid_tidy first head
      | cons next later =>
          obtain ⟨some, clear⟩ := others next List.mem_cons_self
          have spread : Tidy (' ' :: spaced (next :: later)) := by
            refine tidy_append [' '] (spaced (next :: later)) ⟨by decide, .singleton _⟩ (ih others) fun c _ d second _ => ?_
            rw [spaced_head next later some] at second
            exact clear d (List.mem_of_head? second)
          rw [spaced_cons]
          refine tidy_append first _ (solid_tidy first head) spread fun c last d _ blank => ?_
          rw [head c (List.mem_of_getLast? last)] at blank
          cases blank

theorem fragments_from_spaced (pending text : List Char) (tidy : Tidy text)
    (first : pending = [] → ∀ c ∈ text.head?, isBlank c = false) (last : ∀ c ∈ text.getLast?, isBlank c = false) :
    spaced (fragmentsFrom pending text) = pending.reverse ++ text := by
  induction text generalizing pending with
  | nil =>
      rw [fragmentsFrom]
      split
      · rename_i empty
        rw [empty]
        rfl
      · simp [spaced]
  | cons c rest ih =>
      obtain ⟨plain, single⟩ := tidy
      obtain ⟨space, plain⟩ := (unbroken_cons c rest).mp plain
      obtain ⟨apart, single⟩ := List.isChain_cons.mp single
      have ends : ∀ d ∈ rest.getLast?, isBlank d = false := fun d member =>
        last d (List.mem_getLast?_append_of_mem_getLast? member : d ∈ ([c] ++ rest).getLast?)
      rw [fragmentsFrom]
      cases blank : isBlank c with
      | false =>
          have later := ih (c :: pending) ⟨plain, single⟩ (fun none => absurd none (List.cons_ne_nil c pending)) ends
          rw [if_neg Bool.false_ne_true, later, List.reverse_cons, List.append_assoc]
          rfl
      | true =>
          have some : pending ≠ [] := by
            intro none
            rw [first none c rfl] at blank
            cases blank
          have more : rest ≠ [] := by
            rintro rfl
            rw [last c rfl] at blank
            cases blank
          have later := ih [] ⟨plain, single⟩ (fun _ d member => apart d member blank) ends
          cases cut : fragmentsFrom [] rest with
          | nil =>
              rw [cut] at later
              exact absurd later.symm more
          | cons next further =>
              rw [cut] at later
              rw [if_pos rfl, if_neg some, spaced_cons, later, space blank]
              rfl

theorem fragments_from_word (pending word : List Char) (some : pending ≠ [] ∨ word ≠ [])
    (solid : ∀ c ∈ word, isBlank c = false) : fragmentsFrom pending word = [pending.reverse ++ word] := by
  induction word generalizing pending with
  | nil =>
      have held : pending ≠ [] := some.resolve_right (not_not_intro rfl)
      rw [fragmentsFrom, if_neg held, List.append_nil]
  | cons c rest ih =>
      obtain ⟨here, later⟩ := List.forall_mem_cons.mp solid
      rw [fragmentsFrom, here, if_neg Bool.false_ne_true, ih (c :: pending) (.inl (List.cons_ne_nil c pending)) later,
        List.reverse_cons, List.append_assoc]
      rfl

theorem fragments_clear (text : List Char) : ∀ word ∈ fragments text, word ≠ [] ∧ ∀ c ∈ word, isBlank c = false :=
  fun word member => ⟨fragments_nonempty text word member, fragments_solid text word member⟩

theorem fragments_spaced (words : List (List Char)) (solid : ∀ word ∈ words, word ≠ [] ∧ ∀ c ∈ word, isBlank c = false) :
    fragments (spaced words) = words := by
  induction words with
  | nil => rfl
  | cons first rest ih =>
      obtain ⟨⟨some, clear⟩, others⟩ := List.forall_mem_cons.mp solid
      have alone : fragments first = [first] := fragments_from_word [] first (.inr some) clear
      cases rest with
      | nil => rw [spaced, List.intercalate_singleton, alone]
      | cons next later =>
          rw [spaced_cons, fragments_cut first _ ' ' (by decide), alone, ih others]
          rfl

theorem blank_fragments (lead rest : List Char) (blank : ∀ c ∈ lead, isBlank c = true) :
    fragments (lead ++ rest) = fragments rest := by
  induction lead with
  | nil => rfl
  | cons c lead ih =>
      obtain ⟨here, later⟩ := List.forall_mem_cons.mp blank
      exact (fragments_cut [] (lead ++ rest) c here).trans (ih later)

theorem fragments_blank (text tail : List Char) (blank : ∀ c ∈ tail, isBlank c = true) :
    fragments (text ++ tail) = fragments text := by
  cases tail with
  | nil => rw [List.append_nil]
  | cons c tail =>
      obtain ⟨here, later⟩ := List.forall_mem_cons.mp blank
      have none : fragments tail = [] := by
        rw [← List.append_nil tail, blank_fragments tail [] later]
        rfl
      rw [fragments_cut text tail c here, none, List.append_nil]

theorem drop_blank (text : List Char) :
    text.dropWhile isBlank = trim text ++ ((text.dropWhile isBlank).reverse.takeWhile isBlank).reverse := by
  rw [trim, ← List.reverse_append, List.takeWhile_append_dropWhile, List.reverse_reverse]

theorem trim_around (text : List Char) : ∃ lead tail, text = lead ++ (trim text ++ tail) ∧
    (∀ c ∈ lead, isBlank c = true) ∧ ∀ c ∈ tail, isBlank c = true := by
  have blank (part : List Char) : ∀ c ∈ part.takeWhile isBlank, isBlank c = true := List.all_eq_true.mp List.all_takeWhile
  refine ⟨text.takeWhile isBlank, ((text.dropWhile isBlank).reverse.takeWhile isBlank).reverse, ?_, blank text, ?_⟩
  · rw [← drop_blank, List.takeWhile_append_dropWhile]
  · exact fun c member => blank _ c (List.mem_reverse.mp member)

theorem trim_within (text : List Char) : trim text <:+: text := by
  obtain ⟨lead, tail, same, _, _⟩ := trim_around text
  exact ⟨lead, tail, by rw [List.append_assoc]; exact same.symm⟩

theorem fragments_trim (text : List Char) : fragments (trim text) = fragments text := by
  obtain ⟨lead, tail, same, before, behind⟩ := trim_around text
  conv => rhs; rw [same]
  rw [blank_fragments lead _ before, fragments_blank _ tail behind]

theorem drop_blank_head (text : List Char) : ∀ c ∈ (text.dropWhile isBlank).head?, isBlank c = false := by
  intro c first
  have stops := List.head?_dropWhile_not isBlank text
  rw [first] at stops
  exact stops

theorem trim_first (text : List Char) : ∀ c ∈ (trim text).head?, isBlank c = false := by
  intro c first
  refine drop_blank_head text c ?_
  rw [drop_blank, List.head?_append, first]
  rfl

theorem trim_last (text : List Char) : ∀ c ∈ (trim text).getLast?, isBlank c = false := by
  intro c last
  rw [trim, List.getLast?_reverse] at last
  exact drop_blank_head _ c last

theorem trim_spaced (text : List Char) (tidy : Tidy text) : spaced (fragments (trim text)) = trim text :=
  fragments_from_spaced [] (trim text) (tidy_within _ _ (trim_within text) tidy) (fun _ => trim_first text) (trim_last text)

end MiniPostScript.Text
