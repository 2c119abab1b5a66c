import MiniPostScript.Proofs.Token.Balanced

set_option autoImplicit false

namespace MiniPostScript.Token

open Text

theorem level_single (word : List Char) : level [word] = 1 + rise word := rfl

theorem level_append (words later : List (List Char)) : level (words ++ later) = level words + level later - 1 := by
  induction later using List.reverseRecOn with
  | nil =>
      rw [List.append_nil]
      exact (Int.add_sub_cancel _ 1).symm
  | append_singleton later word ih =>
      rw [← List.append_assoc, level_concat, level_concat, ih]
      omega

theorem prefix_append_cases (part words later : List (List Char)) (within : part <+: words ++ later) :
    part <+: words ∨ ∃ more, more <+: later ∧ part = words ++ more := by
  obtain ⟨rest, same⟩ := within
  rcases List.append_eq_append_iff.mp same with ⟨more, whole, _⟩ | ⟨more, whole, split⟩
  · exact .inl ⟨more, whole.symm⟩
  · exact .inr ⟨more, ⟨rest, split.symm⟩, whole⟩

theorem balanced_append (words later : List (List Char)) :
    Balanced (words ++ later) ↔ (∀ part, part <+: words → 1 ≤ level part) ∧
      (∀ part, part <+: later → 1 ≤ level (words ++ part)) ∧ level (words ++ later) = 1 := by
  constructor
  · rintro ⟨inside, ends⟩
    exact ⟨fun part within => inside part (within.trans (List.prefix_append words later)),
      fun part within => inside _ ((List.prefix_append_right_inj words).mpr within), ends⟩
  · rintro ⟨before, behind, ends⟩
    refine ⟨fun part within => ?_, ends⟩
    rcases prefix_append_cases part words later within with early | ⟨more, late, rfl⟩
    · exact before part early
    · exact behind more late

theorem balanced_between (words group later : List (List Char)) (balanced : Balanced group) :
    Balanced (words ++ (group ++ later)) ↔ Balanced (words ++ later) := by
  have past (part : List (List Char)) : level (words ++ (group ++ part)) = level (words ++ part) := by
    rw [level_append, level_append group, balanced.ends, level_append words part]
    omega
  rw [balanced_append, balanced_append words later, past]
  refine and_congr_right fun before => and_congr_left fun _ => ?_
  constructor
  · intro behind part within
    rw [← past]
    exact behind _ ((List.prefix_append_right_inj group).mpr within)
  · intro behind part within
    rcases prefix_append_cases part group later within with early | ⟨more, late, rfl⟩
    · have outer := before words (List.prefix_refl words)
      have inner := balanced.inside part early
      rw [level_append]
      omega
    · rw [past]
      exact behind more late

theorem balanced_groups (words : List (List Char)) (groups : List (List (List Char))) (keep : List (List Char) → Bool)
    (others : ∀ group ∈ groups, keep group = false → Balanced group) :
    Balanced (words ++ groups.flatten) ↔ Balanced (words ++ (groups.filter keep).flatten) := by
  induction groups generalizing words with
  | nil => rfl
  | cons group rest ih =>
      obtain ⟨here, later⟩ := List.forall_mem_cons.mp others
      cases kept : keep group with
      | true =>
          rw [List.filter_cons_of_pos kept, List.flatten_cons, List.flatten_cons, ← List.append_assoc, ← List.append_assoc]
          exact ih (words ++ group) later
      | false =>
          rw [List.filter_cons_of_neg (Bool.eq_false_iff.mp kept), List.flatten_cons,
            balanced_between words group _ (here kept)]
          exact ih words later

namespace Scan

theorem ended_at_once (first : List Char) (more : List (List Char)) (uncut : Uncut (first :: more).dropLast)
    (ends : outside.after [first] = .outside) : more = [] := by
  cases more with
  | nil => rfl
  | cons next rest =>
      refine absurd ends (uncut [first] ?_ (List.cons_ne_nil _ _))
      rw [List.dropLast_cons_cons]
      exact (List.prefix_cons_inj first).mpr List.nil_prefix

theorem alone_balanced (word : List Char) (even : opensBlock word = closesBlock word) : Balanced [word] := by
  have same : level [word] = 1 := by
    rw [level_single, rise, even]
    cases closesBlock word <;> rfl
  refine ⟨fun part within => ?_, same⟩
  rcases List.prefix_cons_iff.mp within with rfl | ⟨rest, rfl, none⟩
  · exact Int.le_refl 1
  · rw [List.prefix_nil.mp none]
    exact Int.le_of_eq same.symm

theorem opened_level (first : List Char) (more : List (List Char)) (opened : outside.after [first] = .inBlock [first] 1)
    (uncut : Uncut (first :: more).dropLast) (ends : outside.after (first :: more) = .outside) :
    (∀ part, part <+: more → 0 ≤ level part) ∧ level more = 0 := by
  induction more using List.reverseRecOn with
  | nil => cases opened.symm.trans ends
  | append_singleton front last _ =>
      rw [← List.cons_append, List.dropLast_concat, uncut_opened] at uncut
      have deep (part : List (List Char)) (within : part <+: front) : ∃ held depth,
          outside.after (first :: part) = .inBlock held depth ∧ (depth : Int) = level part :=
        stays_inside first part opened fun shorter earlier => .inl (uncut shorter (earlier.trans within))
      obtain ⟨held, depth, now, count⟩ := deep front (List.prefix_refl front)
      obtain ⟨left, counted, after⟩ := level_read first last front held depth now count
      have closed : left = 0 := by
        refine Decidable.byContradiction fun open' => ?_
        rw [ends, if_neg open'] at after
        cases after
      have whole : level (front ++ [last]) = 0 := by rw [← counted, closed]; rfl
      refine ⟨fun part within => ?_, whole⟩
      rcases List.prefix_concat_iff.mp within with rfl | shorter
      · exact Int.le_of_eq whole.symm
      · obtain ⟨held, depth, _, count⟩ := deep part shorter
        rw [← count]
        exact Int.natCast_nonneg depth

theorem block_balanced (first : List Char) (more : List (List Char)) (opens : opensBlock first = true)
    (uncut : Uncut (first :: more).dropLast) (ends : outside.after (first :: more) = .outside) :
    Balanced (first :: more) := by
  cases closes : closesBlock first with
  | true =>
      have once : outside.after [first] = .outside := by simp [after, read, opens, closes]
      obtain rfl := ended_at_once first more uncut once
      exact alone_balanced first (opens.trans closes.symm)
  | false =>
      have opened : outside.after [first] = .inBlock [first] 1 := by simp [after, read, opens, closes]
      obtain ⟨inside, whole⟩ := opened_level first more opened uncut ends
      have deeper (part : List (List Char)) : level ([first] ++ part) = level part + 1 := by
        rw [level_append, level_single, rise, opens, closes, if_pos rfl, if_neg Bool.false_ne_true]
        omega
      refine ⟨fun part within => ?_, by rw [← List.singleton_append, deeper, whole]; rfl⟩
      rcases List.prefix_cons_iff.mp within with rfl | ⟨rest, rfl, further⟩
      · exact Int.le_refl 1
      · rw [← List.singleton_append, deeper]
        exact Int.le_add_of_nonneg_left (inside rest further)

theorem group_balanced (group : List (List Char)) (some : group ≠ []) (nonempty : ∀ word ∈ group, word ≠ [])
    (uncut : Uncut group.dropLast) (ends : outside.after group = .outside) (string : opensString (spaced group) = false)
    (clear : opensBlock (spaced group) = false → closesBlock (spaced group) = false) : Balanced group := by
  obtain ⟨first, more, rfl⟩ := List.exists_cons_of_ne_nil some
  have head := spaced_head first more (nonempty first List.mem_cons_self)
  rw [opensString, head] at string
  rw [opensBlock, head] at clear
  cases opens : opensBlock first with
  | true => exact block_balanced first more opens uncut ends
  | false =>
      have once : outside.after [first] = .outside := by
        simp only [after, List.foldl, read, opens, opensString, string]
        rfl
      obtain rfl := ended_at_once first more uncut once
      have closes := clear opens
      rw [spaced, List.intercalate_singleton] at closes
      exact alone_balanced first (opens.trans closes.symm)

end Scan

def stringWords (line : String) : List (List Char) :=
  ((tokens line).filter fun token => opensString token.toList).flatMap fun token => fragments token.toList

theorem written_unclosed (groups : List (List (List Char))) : written [] groups = groups.map spaced := by
  fun_induction written [] groups with
  | case1 => rfl
  | case2 group => rw [List.append_nil, List.map_singleton]
  | case3 group next rest ih => rw [ih, List.map_cons (a := group)]

-- The groups of fragments that become the tokens of a line at whose end nothing is open.
structure ClosedGroups (words : List (List Char)) (groups : List (List (List Char))) : Prop where
  whole : groups.flatten = words
  uncut : ∀ group ∈ groups, group ≠ [] ∧ Scan.Uncut group.dropLast
  ended : ∀ group ∈ groups, Scan.outside.after group = .outside
  tokens : Scan.outside.tokens words = groups.map spaced

theorem after_groups (groups : List (List (List Char))) (ended : ∀ group ∈ groups, Scan.outside.after group = .outside) :
    Scan.outside.after groups.flatten = .outside := by
  induction groups with
  | nil => rfl
  | cons group rest ih =>
      obtain ⟨here, later⟩ := List.forall_mem_cons.mp ended
      rw [List.flatten_cons, Scan.after_append, here, ih later]

theorem closed_groups (words : List (List Char)) (ends : Scan.outside.after words = .outside) :
    ∃ groups, ClosedGroups words groups := by
  obtain ⟨groups, whole, uncut, ended, tokens⟩ := Scan.tokens_grouped words [] Scan.uncut_nil rfl
  have whole : groups.flatten = words := whole
  refine ⟨groups, whole, uncut, ?_, ?_⟩
  · induction groups using List.reverseRecOn with
    | nil => exact fun _ none => nomatch none
    | append_singleton groups last _ =>
        rw [List.dropLast_concat] at ended
        refine List.forall_mem_append.mpr ⟨ended, List.forall_mem_singleton.mpr ?_⟩
        rw [← whole, List.flatten_concat, Scan.after_append, after_groups groups ended] at ends
        exact ends
  · rw [← written_unclosed]
    exact tokens.trans (congrArg (fun scan => written (Scan.closing scan) groups) ends)

theorem string_groups (line : String) (groups : List (List (List Char))) (cut : ClosedGroups (fragments line.toList) groups)
    (solid : ∀ group ∈ groups, ∀ word ∈ group, word ≠ [] ∧ ∀ c ∈ word, isBlank c = false) :
    stringWords line = (groups.filter fun group => opensString (spaced group)).flatten := by
  have texts (group : List (List Char)) (kept : group ∈ groups.filter fun group => opensString (spaced group)) :
      fragments (String.ofList (spaced group)).toList = id group := by
    rw [String.toList_ofList]
    exact fragments_spaced group (solid group (List.mem_filter.mp kept).1)
  rw [stringWords, tokens, split, cut.tokens, List.map_map, List.filter_map, List.flatMap_map, ← List.flatMap_id]
  simp only [Function.comp_def, String.toList_ofList] at texts ⊢
  exact List.flatMap_congr texts

theorem strings_balanced (line : String) (ends : EndsOutside line)
    (clear : ∀ token ∈ tokens line, opensBlock token.toList = false → opensString token.toList = false →
      closesBlock token.toList = false) : Balanced (fragments line.toList) ↔ Balanced (stringWords line) := by
  obtain ⟨groups, cut⟩ := closed_groups _ ends
  have solid (group : List (List Char)) (member : group ∈ groups) :
      ∀ word ∈ group, word ≠ [] ∧ ∀ c ∈ word, isBlank c = false := fun word inner =>
    fragments_clear line.toList word (cut.whole ▸ List.mem_flatten_of_mem member inner)
  rw [string_groups line groups cut solid, ← cut.whole]
  refine balanced_groups [] groups (fun group => opensString (spaced group)) fun group member string => ?_
  obtain ⟨some, uncut⟩ := cut.uncut group member
  refine Scan.group_balanced group some (fun word inner => (solid group member word inner).1) uncut
    (cut.ended group member) string fun block => ?_
  have token : String.ofList (spaced group) ∈ tokens line := by
    rw [tokens, split, cut.tokens]
    exact List.mem_map_of_mem (List.mem_map_of_mem member)
  have closes := clear _ token
  rw [String.toList_ofList] at closes
  exact closes block string

theorem braced_fragments (line : String) :
    fragments ("\x7b " ++ line ++ " \x7d").toList = braced (fragments line.toList) := by
  have text : ("\x7b " ++ line ++ " \x7d").toList = ['{'] ++ ' ' :: (line.toList ++ ' ' :: ['}']) := by simp
  rw [text, fragments_cut ['{'] _ ' ' (by decide), fragments_cut line.toList ['}'] ' ' (by decide)]
  rfl

theorem balanced_kept (line : String) (balanced : Balanced (fragments line.toList)) :
    ∃ token source, tokens ("\x7b " ++ line ++ " \x7d") = [token] ∧ constant? token = some (.block source) ∧
      tokens source = tokens line := by
  have solid := fragments_clear line.toList
  refine ⟨_, _, ?_, braced_constant _ _ solid String.toList_ofList, ?_⟩
  · rw [tokens, split, braced_fragments, (Scan.tokens_braced _).mpr balanced, List.map_singleton]
  · rw [tokens, split, String.toList_ofList, fragments_spaced _ solid]
    rfl

theorem unclosed_braced (words : List (List Char)) (token : List Char) (unbalanced : ¬Balanced words)
    (alone : Scan.outside.tokens (braced words) = [token]) :
    ∃ left, token = spaced (braced words) ++ List.replicate (left + 1) '}' := by
  obtain ⟨uncut, text⟩ := Scan.single_group _ _ alone
  rw [braced, ← List.cons_append, List.dropLast_concat, Scan.uncut_opened] at uncut
  obtain ⟨held, depth, now, count⟩ := Scan.stays_inside ['{'] words rfl fun part within => .inl (uncut part within)
  obtain ⟨left, _, after⟩ := Scan.level_read ['{'] ['}'] words held depth now count
  cases left with
  | zero =>
      have closed : Scan.outside.after (braced words) = .outside := after
      rw [closed, Scan.closing, List.append_nil] at text
      exact absurd ((Scan.tokens_braced words).mp (text ▸ alone)) unbalanced
  | succ left =>
      have opened : Scan.outside.after (braced words) = .inBlock (['}'] :: held) (left + 1) := after
      exact ⟨left, by rw [text, opened, Scan.closing]⟩

theorem closing_fragment (count : Nat) :
    fragments (List.replicate (count + 1) '}') = [List.replicate (count + 1) '}'] := by
  refine fragments_from_word [] _ (.inr (List.cons_ne_nil _ _)) fun c member => ?_
  rw [List.eq_of_mem_replicate member]
  decide

theorem unclosed_source (line token : String) (ends : EndsOutside line) (unbalanced : ¬Balanced (fragments line.toList))
    (single : tokens ("\x7b " ++ line ++ " \x7d") = [token]) :
    ∃ source left, constant? token = some (.block source) ∧
      tokens source = tokens line ++ [String.ofList (List.replicate (left + 1) '}')] := by
  have solid := fragments_clear line.toList
  have alone : Scan.outside.tokens (braced (fragments line.toList)) = [token.toList] := by
    rw [tokens, split, braced_fragments, List.map_eq_singleton_iff] at single
    obtain ⟨text, single, rfl⟩ := single
    rw [single, String.toList_ofList]
  obtain ⟨left, text⟩ := unclosed_braced _ _ unbalanced alone
  obtain ⟨source, spread, cut⟩ := spaced_braced _ solid
  have whole : token.toList = '{' :: ((source ++ ' ' :: List.replicate (left + 1) '}') ++ ['}']) := by
    have moved : '}' :: List.replicate (left + 1) '}' = List.replicate (left + 1) '}' ++ ['}'] :=
      List.replicate_succ.symm.trans List.replicate_succ'
    rw [text, spread]
    simp only [List.cons_append, List.append_assoc, List.nil_append, ← moved]
  refine ⟨_, left, block_constant token _ whole, ?_⟩
  rw [tokens, split, String.toList_ofList, fragments_trim, fragments_cut source _ ' ' (by decide), cut,
    closing_fragment, Scan.tokens_append _ _ .outside ends, List.map_append]
  rfl

theorem braced_line_kept_iff (line : String) (ends : EndsOutside line)
    (clear : ∀ token ∈ tokens line, opensBlock token.toList = false → opensString token.toList = false →
      closesBlock token.toList = false) :
    (∃ token source, tokens ("\x7b " ++ line ++ " \x7d") = [token] ∧ constant? token = some (.block source) ∧
      tokens source = tokens line) ↔ Balanced (stringWords line) := by
  rw [← strings_balanced line ends clear]
  constructor
  · rintro ⟨token, source, single, block, kept⟩
    refine Decidable.byContradiction fun unbalanced => ?_
    obtain ⟨other, left, constant, more⟩ := unclosed_source line token ends unbalanced single
    obtain rfl : source = other := Value.block.inj (Option.some.inj (block.symm.trans constant))
    rw [kept, List.self_eq_append_right] at more
    cases more
  · exact balanced_kept line

theorem matched_braces_kept :
    let line := "1 (a \x7b b) \x7bx y\x7d (c \x7d d) add"
    EndsOutside line ∧ Balanced (stringWords line) ∧ ∃ token source, tokens ("\x7b " ++ line ++ " \x7d") = [token] ∧
      constant? token = some (.block source) ∧ tokens source = tokens line := by
  intro line
  have ends : EndsOutside line := by decide +kernel
  have even : Balanced (stringWords line) := by decide +kernel
  exact ⟨ends, even, (braced_line_kept_iff line ends (by decide +kernel)).mpr even⟩

theorem string_brace_closes_block :
    let line := "(a \x7d b)"
    EndsOutside line ∧ tokens line = [line] ∧ opensString line.toList = true ∧
      tokens ("\x7b " ++ line ++ " \x7d") = ["\x7b (a \x7d", "b)", "\x7d"] := by
  decide +kernel

end MiniPostScript.Token
