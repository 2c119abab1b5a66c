import Mathlib.Data.List.ModifyLast
import MiniPostScript.Proofs.Token.Form

set_option autoImplicit false

namespace MiniPostScript.Token

open Text

namespace Scan

-- What a literal that has been closed at the end of a line lacks when it is read again. Only one of the
-- delimiters appended to a block counts, and none if its last fragment closes a block by itself. The last
-- fragment of a string does not close it if it opens a string, unless it is the whole string.
def lacking : Scan → List Char
  | .outside => []
  | .inBlock words depth => List.replicate (if words.head?.any closesBlock then depth else depth - 1) '}'
  | .inString words => if 1 < words.length ∧ words.head?.any opensString then [')'] else []

theorem tokens_concat (words : List (List Char)) (scan : Scan) :
    ∃ done, ∀ rest, scan.tokens (words ++ rest) = done ++ (scan.after words).tokens rest := by
  induction words generalizing scan with
  | nil => exact ⟨[], fun _ => rfl⟩
  | cons word words ih =>
      obtain ⟨done, same⟩ := ih (scan.read word).1
      refine ⟨(scan.read word).2.toList ++ done, fun rest => ?_⟩
      rw [List.append_assoc]
      exact congrArg ((scan.read word).2.toList ++ ·) (same rest)

end Scan

theorem opens_block_append (word tail : List Char) (some : word ≠ []) : opensBlock (word ++ tail) = opensBlock word := by
  rw [opensBlock, List.head?_append_of_ne_nil word some, opensBlock]

theorem opens_string_append (word tail : List Char) (some : word ≠ []) : opensString (word ++ tail) = opensString word := by
  rw [opensString, List.head?_append_of_ne_nil word some, opensString]

theorem closes_block_append (word : List Char) (depth : Nat) (deep : 0 < depth) :
    closesBlock (word ++ List.replicate depth '}') = true := by
  rw [closesBlock, List.getLast?_append, List.getLast?_replicate, if_neg (Nat.ne_of_gt deep)]
  rfl

theorem closes_string_append (word : List Char) : closesString (word ++ [')']) = true := by
  rw [closesString, List.getLast?_concat]
  rfl

theorem spaced_extended (words : List (List Char)) (word tail : List Char) :
    spaced (words ++ [word ++ tail]) = spaced (words ++ [word]) ++ tail := by
  by_cases none : words = []
  · rw [none, List.nil_append, List.nil_append, spaced, spaced, List.intercalate_singleton, List.intercalate_singleton]
  · rw [spaced_concat words _ none, spaced_concat words _ none, List.append_assoc]
    rfl

namespace Scan

theorem tokens_held (word : List Char) (scan next : Scan) (inside : next ≠ .outside)
    (holds : scan.read word = (next, none)) : scan.tokens [word] = [spaced next.words.reverse ++ next.closing] := by
  have single : scan.tokens [word] = (scan.read word).2.toList ++ (scan.read word).1.rest?.toList := rfl
  rw [single, holds, rest_closed next inside]
  rfl

theorem tokens_completed (word token : List Char) (scan : Scan) (completes : scan.read word = (.outside, some token)) :
    scan.tokens [word] = [token] := by
  rw [tokens, completes]
  rfl

theorem outside_reread (word : List Char) (next : Scan) (some : word ≠ []) (holds : outside.read word = (next, none)) :
    outside.tokens [word ++ next.closing] = [spaced next.words.reverse ++ next.closing ++ next.lacking] := by
  have alone : spaced [word] = word := List.intercalate_singleton
  rw [read] at holds
  split at holds
  · rename_i block
    split at holds
    · cases holds
    · rename_i closes
      obtain ⟨rfl, _⟩ := Prod.mk.inj holds
      have lacking : (inBlock [word] 1).lacking = [] := by simp [lacking, closes]
      rw [lacking, List.append_nil, words, List.reverse_singleton, alone]
      refine tokens_completed _ _ _ ?_
      rw [read, opens_block_append word _ some, if_pos block, closing, if_pos (closes_block_append word 1 Nat.one_pos)]
  · rename_i block
    split at holds
    · obtain ⟨rfl, _⟩ := Prod.mk.inj holds
      have lacking : (inString [word]).lacking = [] := rfl
      rw [lacking, List.append_nil, words, List.reverse_singleton, alone]
      refine tokens_completed _ _ _ ?_
      rw [read, opens_block_append word _ some, if_neg block, closing, closes_string_append, Bool.not_true,
        Bool.and_false, if_neg Bool.false_ne_true]
    · cases holds

-- A fragment that has left some blocks open, read in its place once more with what closes them. It closes one block
-- now, and so leaves one less open unless it has closed one before.
theorem block_extended (word : List Char) (held : List (List Char)) (depth left : Nat) (inside : 0 < depth)
    (deep : 0 < left) (some : word ≠ [])
    (count : (left : Int) = depth + (if opensBlock word then 1 else 0) - (if closesBlock word then 1 else 0)) :
    (inBlock held depth).tokens [word ++ List.replicate left '}'] =
      [spaced ((word ++ List.replicate left '}') :: held).reverse ++
        List.replicate (if closesBlock word then left else left - 1) '}'] := by
  obtain ⟨again, recount, _, same⟩ := read_in_block (word ++ List.replicate left '}') held depth inside
  rw [opens_block_append word _ some, closes_block_append word left deep, if_pos rfl] at recount
  have lacks : again = if closesBlock word then left else left - 1 := by
    cases closes : closesBlock word with
    | true =>
        rw [closes] at count
        exact Int.ofNat_inj.mp (recount.trans count.symm)
    | false =>
        rw [closes, if_neg Bool.false_ne_true, Int.sub_zero] at count
        rw [if_neg Bool.false_ne_true]
        omega
  rw [← lacks]
  by_cases closed : again = 0
  · rw [if_pos closed] at same
    rw [closed, tokens_completed _ _ _ same]
    exact congrArg (fun text => [text]) (List.append_nil _).symm
  · rw [if_neg closed] at same
    exact tokens_held _ _ _ Scan.noConfusion same

theorem block_reread (word : List Char) (held : List (List Char)) (depth : Nat) (next : Scan) (inside : 0 < depth)
    (some : word ≠ []) (holds : (inBlock held depth).read word = (next, none)) :
    (inBlock held depth).tokens [word ++ next.closing] = [spaced next.words.reverse ++ next.closing ++ next.lacking] := by
  obtain ⟨left, count, _, same⟩ := read_in_block word held depth inside
  rw [same] at holds
  split at holds
  · cases holds
  · rename_i open'
    obtain ⟨rfl, _⟩ := Prod.mk.inj holds
    have text : spaced ((word ++ List.replicate left '}') :: held).reverse =
        spaced (word :: held).reverse ++ List.replicate left '}' := by
      rw [List.reverse_cons, spaced_extended, List.reverse_cons]
    rw [words, closing, ← text]
    exact block_extended word held depth left inside (Nat.pos_of_ne_zero open') some count

theorem string_reread (word : List Char) (held : List (List Char)) (next : Scan) (opened : held ≠ []) (some : word ≠ [])
    (holds : (inString held).read word = (next, none)) :
    (inString held).tokens [word ++ next.closing] = [spaced next.words.reverse ++ next.closing ++ next.lacking] := by
  rw [read] at holds
  split at holds
  · cases holds
  · obtain ⟨rfl, _⟩ := Prod.mk.inj holds
    have several : 1 < (word :: held).length := Nat.succ_lt_succ (List.length_pos_of_ne_nil opened)
    have text : spaced ((word ++ [')']) :: held).reverse = spaced (word :: held).reverse ++ [')'] := by
      rw [List.reverse_cons, spaced_extended, List.reverse_cons]
    rw [words, closing, ← text]
    cases opens : opensString word with
    | true =>
        have lacking : (inString (word :: held)).lacking = [')'] := if_pos ⟨several, opens⟩
        rw [lacking]
        refine tokens_held _ _ (.inString ((word ++ [')']) :: held)) Scan.noConfusion ?_
        rw [read, opens_string_append word _ some, opens, Bool.not_true, Bool.and_false, if_neg Bool.false_ne_true]
    | false =>
        have lacking : (inString (word :: held)).lacking = [] :=
          if_neg fun both => Bool.false_ne_true (opens.symm.trans both.2)
        rw [lacking, List.append_nil]
        refine tokens_completed _ _ _ ?_
        rw [read, opens_string_append word _ some, opens, closes_string_append]
        rfl

theorem last_reread (word : List Char) (scan : Scan) (sound : scan.Sound) (some : word ≠ []) :
    ∃ token, scan.tokens [word] = [token] ∧
      scan.tokens [word ++ (scan.read word).1.closing] = [token ++ (scan.read word).1.lacking] := by
  have reads := reads word scan sound
  generalize read : scan.read word = outcome at reads
  cases reads with
  | completes whole =>
      refine ⟨_, tokens_completed _ _ _ read, ?_⟩
      rw [closing, lacking, List.append_nil, List.append_nil]
      exact tokens_completed _ _ _ read
  | holds next inside sound' same =>
      refine ⟨_, tokens_held _ _ _ inside read, ?_⟩
      cases scan with
      | outside => exact outside_reread word next some read
      | inBlock held depth => exact block_reread word held depth next sound.1 some read
      | inString held =>
          refine string_reread word held next ?_ some read
          rintro rfl
          cases sound

end Scan

theorem spaced_append (words later : List (List Char)) (some : words ≠ []) (more : later ≠ []) :
    spaced (words ++ later) = spaced words ++ ' ' :: spaced later := by
  induction later using List.reverseRecOn with
  | nil => exact absurd rfl more
  | append_singleton later word ih =>
      by_cases none : later = []
      · rw [none, List.nil_append, spaced_concat words word some, spaced, spaced, List.intercalate_singleton]
      · rw [← List.append_assoc, spaced_concat _ word (List.append_ne_nil_of_left_ne_nil some later), ih none,
          spaced_concat later word none, List.append_assoc, List.cons_append]

theorem spaced_written (closing : List Char) (groups : List (List (List Char))) (some : groups ≠ [])
    (each : ∀ group ∈ groups, group ≠ []) : spaced (written closing groups) = spaced groups.flatten ++ closing := by
  fun_induction written closing groups with
  | case1 => exact absurd rfl some
  | case2 group => rw [spaced, List.intercalate_singleton, List.flatten_singleton]
  | case3 group next rest ih =>
      obtain ⟨here, later⟩ := List.forall_mem_cons.mp each
      have more : (next :: rest).flatten ≠ [] := List.append_ne_nil_of_left_ne_nil (later next List.mem_cons_self) _
      have further : written closing (next :: rest) ≠ [] :=
        List.ne_nil_of_length_pos (written_length closing (next :: rest) ▸ Nat.succ_pos rest.length)
      rw [List.flatten_cons, spaced_append group _ here more, ← List.singleton_append,
        spaced_append _ _ (List.cons_ne_nil _ _) further, ih (List.cons_ne_nil next rest) later, spaced,
        List.intercalate_singleton, List.append_assoc, List.cons_append]

theorem joined_fragments (words : List (List Char)) (word : List Char)
    (solid : ∀ other ∈ words ++ [word], other ≠ [] ∧ ∀ c ∈ other, isBlank c = false) :
    fragments (spaced (Scan.outside.tokens (words ++ [word]))) =
      words ++ [word ++ (Scan.outside.after (words ++ [word])).closing] := by
  obtain ⟨groups, whole, uncut, _, tokens⟩ := Scan.tokens_grouped (words ++ [word]) [] Scan.uncut_nil rfl
  have tokens : Scan.outside.tokens (words ++ [word]) =
    written (Scan.outside.after (words ++ [word])).closing groups := tokens
  have whole : groups.flatten = words ++ [word] := whole
  have some : groups ≠ [] := by
    rintro rfl
    cases List.append_eq_nil_iff.mp whole.symm with | intro _ none => cases none
  rw [tokens, spaced_written _ groups some fun group member => (uncut group member).1, whole, ← spaced_extended]
  refine fragments_spaced _ (List.forall_mem_append.mpr ⟨?_, List.forall_mem_singleton.mpr ⟨?_, ?_⟩⟩)
  · exact (List.forall_mem_append.mp solid).1
  · exact List.append_ne_nil_of_left_ne_nil (solid word List.mem_concat_self).1 _
  · exact List.forall_mem_append.mpr ⟨(solid word List.mem_concat_self).2, closing_solid _⟩

theorem fragments_reread (words : List (List Char)) (word : List Char) (some : word ≠ []) :
    let scan := Scan.outside.after (words ++ [word])
    ∃ done token, Scan.outside.tokens (words ++ [word]) = done ++ [token] ∧
      Scan.outside.tokens (words ++ [word ++ scan.closing]) = done ++ [token ++ scan.lacking] := by
  intro scan
  obtain ⟨done, same⟩ := Scan.tokens_concat words .outside
  have next : ((Scan.outside.after words).read word).1 = scan := (Scan.after_append words [word] .outside).symm
  obtain ⟨token, once, again⟩ := Scan.last_reread word _ (Scan.after_sound words .outside trivial) some
  rw [next] at again
  exact ⟨done, token, by rw [same, once], by rw [same, again]⟩

theorem tokens_reread (line : String) :
    let lacking := (Scan.outside.after (fragments line.toList)).lacking
    tokens (" ".intercalate (tokens line)) = (tokens line).modifyLast (· ++ String.ofList lacking) ∧
      (tokens (" ".intercalate (tokens line)) = tokens line ↔ lacking = []) := by
  intro lacking
  have solid := fragments_clear line.toList
  have joined : (" ".intercalate (tokens line)).toList = spaced (Scan.outside.tokens (fragments line.toList)) := by
    simp [tokens, split, String.toList_intercalate, spaced]
  generalize same : fragments line.toList = words at solid joined
  rcases List.eq_nil_or_concat' words with rfl | ⟨words, word, rfl⟩
  · have once : tokens line = [] := by rw [tokens, split, same]; rfl
    have again : tokens (" ".intercalate (tokens line)) = [] := by rw [tokens, split, joined]; rfl
    have none : lacking = [] := congrArg (fun words => (Scan.outside.after words).lacking) same
    rw [again, once, none]
    exact ⟨rfl, iff_of_true rfl rfl⟩
  · obtain ⟨done, token, once, again⟩ := fragments_reread words word (solid word List.mem_concat_self).1
    have first : tokens line = done.map String.ofList ++ [String.ofList token] := by
      rw [tokens, split, same, once, List.map_append, List.map_singleton]
    have second : tokens (" ".intercalate (tokens line)) =
        done.map String.ofList ++ [String.ofList token ++ String.ofList lacking] := by
      rw [tokens, split, joined, joined_fragments words word solid, again, List.map_append, List.map_singleton,
        String.ofList_append, ← same]
    rw [second, first, List.modifyLast_concat]
    refine ⟨rfl, ?_⟩
    rw [List.append_cancel_left_eq, List.singleton_inj, ← String.ofList_append, String.ofList_inj, List.append_right_eq_self]

theorem nested_block_reclosed :
    tokens "\x7b 1 \x7b 2" = ["\x7b 1 \x7b 2\x7d\x7d"] ∧
      tokens (" ".intercalate (tokens "\x7b 1 \x7b 2")) = ["\x7b 1 \x7b 2\x7d\x7d\x7d"] := by
  decide +kernel

end MiniPostScript.Token
