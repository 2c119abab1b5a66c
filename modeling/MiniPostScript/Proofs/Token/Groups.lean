import MiniPostScript.Proofs.Token.Unbroken

set_option autoImplicit false

namespace MiniPostScript.Token

open Text

inductive Whole : List (List Char) → Prop where
  | word (word : List Char) (block : opensBlock word = false) (string : opensString word = false) : Whole [word]
  | block (words : List (List Char)) (opens : words.getLast?.any opensBlock = true)
      (closes : words.head?.any closesBlock = true) : Whole words
  | string (words : List (List Char)) (opens : words.getLast?.any opensString = true)
      (closes : words.head?.any closesString = true) : Whole words

namespace Scan

-- Inside a literal there is the fragment that has opened it, and inside a block an open brace.
def Sound : Scan → Prop
  | .outside => True
  | .inBlock words depth => 0 < depth ∧ words.getLast?.any opensBlock = true
  | .inString words => words.getLast?.any opensString = true

inductive Reads (scan : Scan) (word : List Char) : Scan × Option (List Char) → Prop where
  | holds (next : Scan) (inside : next ≠ .outside) (sound : next.Sound) (words : next.words = word :: scan.words) :
      Reads scan word (next, none)
  | completes (whole : Whole (word :: scan.words)) :
      Reads scan word (.outside, some (spaced (word :: scan.words).reverse))

theorem read_outside (word : List Char) : Reads .outside word (outside.read word) := by
  have alone : some word = some (spaced (word :: outside.words).reverse) := by simp [words, spaced]
  rw [read]
  cases block : opensBlock word with
  | true =>
      cases closed : closesBlock word with
      | true => exact alone ▸ .completes (.block _ (by simpa [words] using block) (by simpa using closed))
      | false => exact .holds _ Scan.noConfusion ⟨Nat.one_pos, by simpa using block⟩ rfl
  | false =>
      cases string : opensString word with
      | false => exact alone ▸ .completes (.word word block string)
      | true =>
          cases closed : closesString word with
          | true => exact alone ▸ .completes (.string _ (by simpa [words] using string) (by simpa using closed))
          | false => exact .holds _ Scan.noConfusion (by simpa [Sound] using string) rfl

theorem opened_still (word : List Char) (words : List (List Char)) (opens : List Char → Bool)
    (opened : words.getLast?.any opens = true) : (word :: words).getLast?.any opens = true := by
  cases words with
  | nil => cases opened
  | cons first rest => simpa only [List.getLast?_cons_cons] using opened

theorem read_in_block (word : List Char) (words : List (List Char)) (depth : Nat) (inside : 0 < depth) :
    ∃ left : Nat, (left : Int) = depth + (if opensBlock word then 1 else 0) - (if closesBlock word then 1 else 0) ∧
      (left ≠ 0 ∨ closesBlock word = true) ∧
      (inBlock words depth).read word =
        if left = 0 then (.outside, some (spaced (word :: words).reverse)) else (.inBlock (word :: words) left, none) := by
  refine ⟨_, ?_, ?_, rfl⟩
  · cases opensBlock word <;> cases closesBlock word <;> simp
    omega
  · cases closes : closesBlock word with
    | true => exact .inr rfl
    | false =>
        left
        cases opensBlock word with
        | false => exact Nat.ne_of_gt inside
        | true => exact Nat.succ_ne_zero depth

theorem reads (word : List Char) (scan : Scan) (sound : scan.Sound) : Reads scan word (scan.read word) := by
  cases scan with
  | outside => exact read_outside word
  | inBlock words depth =>
      obtain ⟨inside, opened⟩ := sound
      obtain ⟨left, _, closes, same⟩ := read_in_block word words depth inside
      have still := opened_still word words opensBlock opened
      rw [same]
      by_cases closed : left = 0
      · rw [if_pos closed]
        exact .completes (.block _ still (by simpa using closes.resolve_left (not_not_intro closed)))
      · rw [if_neg closed]
        exact .holds _ Scan.noConfusion ⟨Nat.pos_of_ne_zero closed, still⟩ rfl
  | inString words =>
      have still := opened_still word words opensString sound
      rw [read]
      by_cases closes : (closesString word && !opensString word) = true
      · rw [if_pos closes]
        exact .completes (.string _ still (by simpa using (Bool.and_eq_true_iff.mp closes).1))
      · rw [if_neg closes]
        exact .holds _ Scan.noConfusion still rfl

theorem read_sound (word : List Char) (scan : Scan) (sound : scan.Sound) : (scan.read word).1.Sound := by
  have reads := reads word scan sound
  generalize scan.read word = outcome at reads ⊢
  cases reads with
  | holds next inside sound words => exact sound
  | completes whole => trivial

theorem after_append (words later : List (List Char)) (scan : Scan) :
    scan.after (words ++ later) = (scan.after words).after later := List.foldl_append

theorem after_sound (words : List (List Char)) (scan : Scan) (sound : scan.Sound) : (scan.after words).Sound := by
  induction words generalizing scan with
  | nil => exact sound
  | cons word rest ih => exact ih _ (read_sound word scan sound)

-- Fragments that stay inside the literal that the first of them opens.
def Uncut (words : List (List Char)) : Prop := ∀ part, part <+: words → part ≠ [] → outside.after part ≠ .outside

theorem uncut_nil : Uncut [] := fun _ none some => absurd (List.prefix_nil.mp none) some

theorem uncut_prefix (words part : List (List Char)) (whole : Uncut words) (within : part <+: words) : Uncut part :=
  fun shorter inside => whole shorter (inside.trans within)

theorem uncut_concat (words : List (List Char)) (word : List Char) (uncut : Uncut words)
    (inside : outside.after (words ++ [word]) ≠ .outside) : Uncut (words ++ [word]) := by
  intro part within some
  rcases List.prefix_concat_iff.mp within with rfl | shorter
  · exact inside
  · exact uncut part shorter some

def closing : Scan → List Char
  | .outside => []
  | .inBlock _ depth => List.replicate depth '}'
  | .inString _ => [')']

theorem rest_closed (scan : Scan) (inside : scan ≠ .outside) :
    scan.rest? = some (spaced scan.words.reverse ++ scan.closing) := by
  cases scan with
  | outside => exact absurd rfl inside
  | inBlock words depth => rfl
  | inString words => rfl

end Scan

def written (closing : List Char) : List (List (List Char)) → List (List Char)
  | [] => []
  | [group] => [spaced group ++ closing]
  | group :: next :: rest => spaced group :: written closing (next :: rest)

theorem written_length (closing : List Char) (groups : List (List (List Char))) :
    (written closing groups).length = groups.length := by
  fun_induction written closing groups with
  | case1 => rfl
  | case2 => rfl
  | case3 => simp_all

theorem written_cons (closing : List Char) (group : List (List Char)) (rest : List (List (List Char)))
    (last : rest = [] → closing = []) : written closing (group :: rest) = spaced group :: written closing rest := by
  cases rest with
  | nil => rw [last rfl, written, written, List.append_nil]
  | cons next later => rfl

namespace Scan

-- How the fragments in hand and those to come are cut into groups, and what tokens come of them.
structure Grouped (held words : List (List Char)) (groups : List (List (List Char))) : Prop where
  whole : groups.flatten = held ++ words
  uncut : ∀ group ∈ groups, group ≠ [] ∧ Uncut group.dropLast
  ended : ∀ group ∈ groups.dropLast, outside.after group = .outside
  tokens : (outside.after held).tokens words = written (outside.after (held ++ words)).closing groups

theorem grouped_rest (held : List (List Char)) (uncut : Uncut held) (hand : (outside.after held).words = held.reverse)
    (inside : outside.after held ≠ .outside) : Grouped held [] [held] where
  whole := by simp
  uncut := by
    have some : held ≠ [] := by
      rintro rfl
      exact inside rfl
    simpa using ⟨some, uncut_prefix held _ uncut held.dropLast_prefix⟩
  ended := fun _ none => nomatch none
  tokens := by
    rw [Scan.tokens, rest_closed _ inside, hand, List.reverse_reverse, List.append_nil]
    rfl

theorem grouped_holds (held rest : List (List Char)) (word : List Char) (groups : List (List (List Char))) (next : Scan)
    (read : (outside.after held).read word = (next, none)) (grouped : Grouped (held ++ [word]) rest groups) :
    Grouped held (word :: rest) groups := by
  have moved : held ++ word :: rest = (held ++ [word]) ++ rest := by simp
  have same : outside.after (held ++ [word]) = next := (after_append held [word] .outside).trans (congrArg Prod.fst read)
  obtain ⟨whole, uncut, ended, tokens⟩ := grouped
  rw [same] at tokens
  refine ⟨moved ▸ whole, uncut, ended, ?_⟩
  rw [Scan.tokens, read, moved]
  exact tokens

theorem grouped_completes (held rest : List (List Char)) (word : List Char) (groups : List (List (List Char)))
    (uncut : Uncut held) (read : (outside.after held).read word = (.outside, some (spaced (held ++ [word]))))
    (grouped : Grouped [] rest groups) : Grouped held (word :: rest) ((held ++ [word]) :: groups) := by
  have moved : held ++ word :: rest = (held ++ [word]) ++ rest := by simp
  have ends : outside.after (held ++ [word]) = .outside :=
    (after_append held [word] .outside).trans (congrArg Prod.fst read)
  obtain ⟨whole, others, ended, tokens⟩ := grouped
  have last : groups = [] → (outside.after rest).closing = [] := by
    rintro rfl
    obtain rfl : rest = [] := whole.symm
    rfl
  refine ⟨?_, ?_, ?_, ?_⟩
  · rw [List.flatten_cons, whole, moved]
    rfl
  · simpa using ⟨uncut, others⟩
  · intro group member
    cases groups with
    | nil => cases member
    | cons first later =>
        rcases List.mem_cons.mp member with rfl | further
        · exact ends
        · exact ended group further
  · rw [Scan.tokens, read, moved, after_append, ends, written_cons _ _ _ last]
    exact congrArg (List.cons _) tokens

-- The scan has in hand what it has read since it was outside, so those fragments come first in the next group.
theorem tokens_grouped (words held : List (List Char)) (uncut : Uncut held)
    (hand : (outside.after held).words = held.reverse) : ∃ groups, Grouped held words groups := by
  induction words generalizing held with
  | nil =>
      by_cases ended : outside.after held = .outside
      · obtain rfl : held = [] := by simpa [ended, words] using hand
        exact ⟨[], rfl, by simp, by simp, rfl⟩
      · exact ⟨[held], grouped_rest held uncut hand ended⟩
  | cons word rest ih =>
      have next : outside.after (held ++ [word]) = ((outside.after held).read word).1 := after_append held [word] .outside
      have reads := reads word _ (after_sound held .outside trivial)
      generalize read : (outside.after held).read word = outcome at reads next
      cases reads with
      | holds later inside sound same =>
          have longer := uncut_concat held word uncut (next ▸ inside)
          obtain ⟨groups, grouped⟩ := ih (held ++ [word]) longer (by rw [next, same, hand, List.reverse_concat])
          exact ⟨groups, grouped_holds held rest word groups later read grouped⟩
      | completes whole =>
          rw [hand, List.reverse_cons, List.reverse_reverse] at read
          obtain ⟨groups, grouped⟩ := ih [] uncut_nil rfl
          exact ⟨_, grouped_completes held rest word groups uncut read grouped⟩

end Scan

-- The groups are those between two moments at which the scan is outside, so there is no other way to cut.
theorem fragments_grouped (line : String) :
    let words := fragments line.toList
    (∃ groups : List (List (List Char)), groups.flatten = words ∧
      (∀ group ∈ groups, group ≠ [] ∧ Scan.Uncut group.dropLast) ∧
      (∀ group ∈ groups.dropLast, Scan.outside.after group = .outside) ∧
      (tokens line).map String.toList = written (Scan.outside.after words).closing groups) ∧
    (∀ earlier held depth, Scan.outside.after earlier = .inBlock held depth → 0 < depth ∧
      ∀ word, ∃ left : Nat,
        (left : Int) = depth + (if opensBlock word then 1 else 0) - (if closesBlock word then 1 else 0) ∧
        Scan.outside.after (earlier ++ [word]) = if left = 0 then .outside else .inBlock (word :: held) left) := by
  intro words
  constructor
  · obtain ⟨groups, whole, uncut, ended, same⟩ := Scan.tokens_grouped words [] Scan.uncut_nil rfl
    refine ⟨groups, whole, uncut, ended, ?_⟩
    have texts : (tokens line).map String.toList = Scan.outside.tokens words := by simp [tokens, split, words]
    exact texts.trans same
  · intro earlier held depth inside
    have sound := Scan.after_sound earlier .outside trivial
    rw [inside] at sound
    refine ⟨sound.1, fun word => ?_⟩
    obtain ⟨left, count, _, same⟩ := Scan.read_in_block word held depth sound.1
    have next : Scan.outside.after (earlier ++ [word]) = ((Scan.inBlock held depth).read word).1 := by
      rw [Scan.after_append, inside]
      rfl
    refine ⟨left, count, ?_⟩
    rw [next, same]
    split <;> rfl

theorem open_blocks_closed :
    let line := "1 {2 {3} (4 5} \x7b6 \x7b7"
    let words := fragments line.toList
    tokens line = ["1", "{2 {3} (4 5}", "{6 {7}}"] ∧
      Scan.outside.after words = .inBlock [['{', '7'], ['{', '6']] 2 ∧
      Scan.outside.after (words ++ [['8', '}']]) = .inBlock [['8', '}'], ['{', '7'], ['{', '6']] 1 := by
  intro line words
  have inside : Scan.outside.after words = .inBlock [['{', '7'], ['{', '6']] 2 := by decide +kernel
  obtain ⟨_, next⟩ := (fragments_grouped line).2 words _ 2 inside
  obtain ⟨left, count, after⟩ := next ['8', '}']
  have braces : opensBlock ['8', '}'] = false ∧ closesBlock ['8', '}'] = true := by decide
  obtain rfl : left = 1 := by
    simp only [braces.1, braces.2, Bool.false_eq_true, if_false, if_true] at count
    omega
  exact ⟨by decide +kernel, inside, after⟩

end MiniPostScript.Token
