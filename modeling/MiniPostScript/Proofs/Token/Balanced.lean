import Mathlib.Data.List.Infix
import MiniPostScript.Proofs.Token.Form

set_option autoImplicit false

namespace MiniPostScript.Token

open Text

-- How many blocks more are open after a fragment than before it.
def rise (word : List Char) : Int := (if opensBlock word then 1 else 0) - (if closesBlock word then 1 else 0)

-- How many blocks are open after fragments that follow an opening brace.
def level (words : List (List Char)) : Int := words.foldl (fun level word => level + rise word) 1

structure Balanced (words : List (List Char)) : Prop where
  inside : ∀ part, part <+: words → 1 ≤ level part
  ends : level words = 1

instance (words : List (List Char)) : Decidable (Balanced words) :=
  decidable_of_iff ((∀ part ∈ words.inits, 1 ≤ level part) ∧ level words = 1)
    ⟨fun ⟨inside, ends⟩ => ⟨fun part within => inside part ((List.mem_inits part words).mpr within), ends⟩,
      fun ⟨inside, ends⟩ => ⟨fun part within => inside part ((List.mem_inits part words).mp within), ends⟩⟩

def braced (words : List (List Char)) : List (List Char) := ['{'] :: (words ++ [['}']])

theorem level_concat (words : List (List Char)) (word : List Char) : level (words ++ [word]) = level words + rise word :=
  List.foldl_concat _ 1 word words

namespace Scan

theorem closing_nil (scan : Scan) (sound : scan.Sound) (none : scan.closing = []) : scan = .outside := by
  cases scan with
  | outside => rfl
  | inBlock words depth => exact absurd ((List.replicate_eq_nil_iff _).mp none) (Nat.ne_of_gt sound.1)
  | inString words => cases none

theorem single_group (words : List (List Char)) (token : List Char) (single : outside.tokens words = [token]) :
    Uncut words.dropLast ∧ token = spaced words ++ (outside.after words).closing := by
  obtain ⟨groups, whole, uncut, _, tokens⟩ := tokens_grouped words [] uncut_nil rfl
  have tokens : outside.tokens words = written (outside.after words).closing groups := tokens
  rw [single] at tokens
  have one : groups.length = 1 := by rw [← written_length, ← tokens, List.length_singleton]
  obtain ⟨group, rfl⟩ := List.length_eq_one_iff.mp one
  obtain rfl : group = words := by simpa using whole
  exact ⟨(uncut group List.mem_cons_self).2, List.singleton_inj.mp tokens⟩

theorem tokens_single (words : List (List Char)) (some : words ≠ []) :
    outside.tokens words = [spaced words] ↔ Uncut words.dropLast ∧ outside.after words = .outside := by
  constructor
  · intro single
    obtain ⟨uncut, closed⟩ := single_group words _ single
    exact ⟨uncut, closing_nil _ (after_sound words .outside trivial) (List.self_eq_append_right.mp closed)⟩
  · rintro ⟨inside, ends⟩
    obtain ⟨groups, whole, uncut, ended, tokens⟩ := tokens_grouped words [] uncut_nil rfl
    have tokens : outside.tokens words = written (outside.after words).closing groups := tokens
    have whole : groups.flatten = words := whole
    rw [tokens, ends]
    cases groups with
    | nil => exact absurd whole.symm some
    | cons first others =>
        cases others with
        | nil =>
            obtain rfl : first = words := by simpa using whole
            rw [written, closing, List.append_nil]
        | cons next later =>
            -- The first group would have left the scan outside too early.
            have further : next ++ later.flatten ≠ [] :=
              List.append_ne_nil_of_left_ne_nil (uncut next (by simp)).1 _
            have within : first <+: words.dropLast := by
              rw [← whole, List.flatten_cons, List.flatten_cons, List.dropLast_append_of_ne_nil further]
              exact List.prefix_append first _
            exact absurd (ended first (by simp)) (inside first within (uncut first List.mem_cons_self).1)

theorem level_read (first word : List Char) (part held : List (List Char)) (depth : Nat)
    (now : outside.after (first :: part) = .inBlock held depth) (count : (depth : Int) = level part) :
    ∃ left : Nat, (left : Int) = level (part ++ [word]) ∧
      outside.after (first :: (part ++ [word])) = if left = 0 then .outside else .inBlock (word :: held) left := by
  have sound := after_sound (first :: part) .outside trivial
  rw [now] at sound
  obtain ⟨left, counted, _, same⟩ := read_in_block word held depth sound.1
  refine ⟨left, by rw [level_concat, ← count, rise, counted, Int.add_sub_assoc], ?_⟩
  rw [← List.cons_append, after_append, now]
  change ((inBlock held depth).read word).1 = _
  rw [same]
  split <;> rfl

-- The induction is on the fragments from the last one on, because the count goes from the first one on.
theorem stays_inside (first : List Char) (words : List (List Char)) (opens : outside.after [first] = .inBlock [first] 1)
    (inside : ∀ part, part <+: words → outside.after (first :: part) ≠ .outside ∨ 0 < level part) :
    ∃ held depth, outside.after (first :: words) = .inBlock held depth ∧ (depth : Int) = level words := by
  induction words using List.reverseRecOn with
  | nil => exact ⟨[first], 1, opens, rfl⟩
  | append_singleton words word ih =>
      obtain ⟨held, depth, now, count⟩ := ih fun part within => inside part (within.trans (List.prefix_append words _))
      obtain ⟨left, counted, after⟩ := level_read first word words held depth now count
      by_cases closed : left = 0
      · rw [if_pos closed] at after
        rcases inside _ (List.prefix_refl _) with still | deep
        · exact absurd after still
        · omega
      · rw [if_neg closed] at after
        exact ⟨word :: held, left, after, counted⟩

theorem uncut_opened (first : List Char) (words : List (List Char)) :
    Uncut (first :: words) ↔ ∀ part, part <+: words → outside.after (first :: part) ≠ .outside := by
  constructor
  · intro uncut part within
    exact uncut (first :: part) ((List.prefix_cons_inj first).mpr within) (List.cons_ne_nil _ _)
  · intro inside part within some
    rcases List.prefix_cons_iff.mp within with rfl | ⟨shorter, rfl, earlier⟩
    · exact absurd rfl some
    · exact inside shorter earlier

theorem tokens_braced (words : List (List Char)) :
    outside.tokens (braced words) = [spaced (braced words)] ↔ Balanced words := by
  have front : (braced words).dropLast = ['{'] :: words := by
    rw [braced, ← List.cons_append, List.dropLast_concat]
  rw [tokens_single (braced words) (List.cons_ne_nil _ _), front, uncut_opened]
  have closes (held : List (List Char)) (depth : Nat) (now : outside.after (['{'] :: words) = .inBlock held depth)
      (count : (depth : Int) = level words) : outside.after (braced words) = .outside ↔ level words = 1 := by
    obtain ⟨left, counted, after⟩ := level_read ['{'] ['}'] words held depth now count
    have fall : level (words ++ [['}']]) = level words - 1 := level_concat words ['}']
    rw [braced, after]
    by_cases closed : left = 0
    · rw [if_pos closed]
      exact ⟨fun _ => by omega, fun _ => rfl⟩
    · rw [if_neg closed]
      exact ⟨Scan.noConfusion, fun one => by omega⟩
  constructor
  · rintro ⟨inside, ends⟩
    have stays (part : List (List Char)) (within : part <+: words) : 1 ≤ level part := by
      obtain ⟨held, depth, now, count⟩ := stays_inside ['{'] part rfl fun shorter earlier => .inl (inside shorter (earlier.trans within))
      have sound := after_sound (['{'] :: part) .outside trivial
      rw [now] at sound
      have deep := sound.1
      omega
    obtain ⟨held, depth, now, count⟩ := stays_inside ['{'] words rfl fun part within => .inl (inside part within)
    exact ⟨stays, (closes held depth now count).mp ends⟩
  · rintro ⟨inside, ends⟩
    refine ⟨fun part within => ?_, ?_⟩
    · obtain ⟨held, depth, now, _⟩ := stays_inside ['{'] part rfl fun shorter earlier => .inr (inside shorter (earlier.trans within))
      rw [now]
      exact Scan.noConfusion
    · obtain ⟨held, depth, now, count⟩ := stays_inside ['{'] words rfl fun part within => .inr (inside part within)
      exact (closes held depth now count).mpr ends

end Scan

theorem spaced_braced (words : List (List Char)) (solid : ∀ word ∈ words, word ≠ [] ∧ ∀ c ∈ word, isBlank c = false) :
    ∃ source, spaced (braced words) = '{' :: (source ++ [' ', '}']) ∧ fragments source = words := by
  cases words with
  | nil => exact ⟨[], rfl, rfl⟩
  | cons first rest =>
      refine ⟨' ' :: spaced (first :: rest), ?_, ?_⟩
      · rw [braced, List.cons_append, spaced_cons, ← List.cons_append, spaced_concat _ _ (List.cons_ne_nil _ _)]
        rfl
      · exact (blank_fragments [' '] _ (List.forall_mem_singleton.mpr (by decide))).trans (fragments_spaced _ solid)

theorem braced_solid (words : List (List Char)) (solid : ∀ word ∈ words, word ≠ [] ∧ ∀ c ∈ word, isBlank c = false) :
    ∀ word ∈ braced words, word ≠ [] ∧ ∀ c ∈ word, isBlank c = false := by
  intro word member
  rcases List.mem_cons.mp member with rfl | later
  · exact ⟨List.cons_ne_nil _ _, List.forall_mem_singleton.mpr (by decide)⟩
  · rcases List.mem_append.mp later with inner | last
    · exact solid word inner
    · obtain rfl := List.mem_singleton.mp last
      exact ⟨List.cons_ne_nil _ _, List.forall_mem_singleton.mpr (by decide)⟩

theorem braced_constant (line : String) (words : List (List Char))
    (solid : ∀ word ∈ words, word ≠ [] ∧ ∀ c ∈ word, isBlank c = false) (is : line.toList = spaced (braced words)) :
    constant? line = some (.block (String.ofList (spaced words))) := by
  obtain ⟨source, same, cut⟩ := spaced_braced words solid
  have same : spaced (braced words) = '{' :: ((source ++ [' ']) ++ ['}']) := by rw [same, List.append_assoc]; rfl
  have tidy := spaced_tidy (braced words) (braced_solid words solid)
  rw [same] at is tidy
  have inner : Tidy (source ++ [' ']) := tidy_within _ _ ⟨['{'], ['}'], rfl⟩ tidy
  have blank : fragments (source ++ [' ']) = fragments source :=
    fragments_blank source [' '] (List.forall_mem_singleton.mpr (by decide))
  rw [block_constant line _ is, ← trim_spaced _ inner, fragments_trim, blank, cut]

theorem line_single_iff (line : String) :
    tokens line = [line] ↔ Scan.outside.tokens (fragments line.toList) = [line.toList] := by
  rw [tokens, split, List.map_eq_singleton_iff]
  constructor
  · rintro ⟨text, single, rfl⟩
    rw [String.toList_ofList] at single ⊢
    exact single
  · intro single
    exact ⟨line.toList, single, String.ofList_toList⟩

theorem spaced_blocks (words : List String)
    (solid : ∀ word ∈ words, word ≠ "" ∧ ∀ c ∈ word.toList, isBlank c = false) :
    let line := " ".intercalate ("\x7b" :: (words ++ ["\x7d"]))
    (tokens line = [line] ↔ Balanced (words.map String.toList)) ∧
      constant? line = some (.block (" ".intercalate words)) := by
  intro line
  have text : line.toList = spaced (braced (words.map String.toList)) := by
    simp [line, String.toList_intercalate, spaced, braced]
  have source : " ".intercalate words = String.ofList (spaced (words.map String.toList)) := by
    simp [← String.toList_inj, String.toList_intercalate, spaced]
  have clear : ∀ word ∈ words.map String.toList, word ≠ [] ∧ ∀ c ∈ word, isBlank c = false := by
    intro letters member
    obtain ⟨word, here, rfl⟩ := List.mem_map.mp member
    obtain ⟨some, letters⟩ := solid word here
    exact ⟨fun none => some (String.toList_eq_nil_iff.mp none), letters⟩
  refine ⟨?_, ?_⟩
  · rw [line_single_iff, text, fragments_spaced _ (braced_solid _ clear), Scan.tokens_braced]
  · rw [source]
    exact braced_constant line _ clear text

theorem mixed_block_single :
    let line := " ".intercalate ["\x7b", "\x7ba", "{}", "b\x7d", "(", "c", "\x7d"]
    tokens line = [line] ∧ constant? line = some (.block "{a {} b} ( c") := by
  have solid : ∀ word ∈ ["\x7ba", "{}", "b\x7d", "(", "c"], word ≠ "" ∧ (word.toList.all fun c => !isBlank c) = true := by
    decide +kernel
  obtain ⟨single, constant⟩ := spaced_blocks ["\x7ba", "{}", "b\x7d", "(", "c"]
    fun word member => ⟨(solid word member).1, by simpa using (solid word member).2⟩
  exact ⟨single.mpr (by decide +kernel), constant⟩

end MiniPostScript.Token
