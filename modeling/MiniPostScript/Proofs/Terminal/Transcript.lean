import MiniPostScript.Proofs.Session.Output
import MiniPostScript.Proofs.Text.Tidy

set_option autoImplicit false

namespace MiniPostScript

namespace Program

theorem blank_return : ∀ c ∈ ['\r', '\n'], Text.isBlank c = true :=
  List.forall_mem_cons.mpr ⟨by decide, List.forall_mem_singleton.mpr (by decide)⟩

theorem lines_from_single (text : List Char) (some : text ≠ []) (within : '\n' ∉ text.dropLast) :
    ∃ line, linesFrom [] text = [line] ∧ Text.fragments line = Text.fragments text := by
  obtain ⟨front, c, rfl⟩ := (List.eq_nil_or_concat' text).resolve_left some
  rw [List.dropLast_concat] at within
  rw [lines_from_append front [] [c] within, List.append_nil]
  by_cases feed : c = '\n'
  · subst feed
    by_cases back : '\r' ∈ front.getLast?
    · obtain ⟨before, rfl⟩ := List.getLast?_eq_some_iff.mp back
      refine ⟨before, by simp [linesFrom], ?_⟩
      rw [List.append_assoc]
      exact (Text.fragments_blank before _ blank_return).symm
    · have after : ∀ c ∈ ['\n'], Text.isBlank c = true := (List.forall_mem_cons.mp blank_return).2
      refine ⟨front, ?_, (Text.fragments_blank front _ after).symm⟩
      rw [linesFrom.eq_def]
      dsimp only
      rw [if_pos rfl]
      split
      · rename_i before same
        exact absurd (by rw [← List.head?_reverse, same]; rfl) back
      · rw [List.reverse_reverse]
        rfl
  · refine ⟨front ++ [c], ?_, rfl⟩
    simp [linesFrom, feed]

end Program

namespace Terminal

def readLine : List UInt8 → List UInt8 × List UInt8
  | [] => ([], [])
  | byte :: rest =>
      if byte = 10 then ([byte], rest)
      else
        let (line, left) := readLine rest
        (byte :: line, left)

theorem read_append (input : List UInt8) : (readLine input).1 ++ (readLine input).2 = input := by
  induction input with
  | nil => rfl
  | cons byte rest ih =>
      rw [readLine]
      split
      · rfl
      · exact congrArg (List.cons byte) ih

def text? (piece : List UInt8) : Option String := String.fromUTF8? ⟨piece.toArray⟩

def shown (told : List Notice) : String := String.join (told.map fun notice => notice.text ++ "\n")

-- The prompt and what a line is answered with, line after line. A line of white space is read and not fed.
def loop (s : Session) (input : List UInt8) : String × UInt8 :=
  match _read : readLine input with
  | ([], _) => (s.prompt, 0)
  | (byte :: bytes, left) =>
      match text? (byte :: bytes) with
      | none => (s.prompt, 1)
      | some text =>
          let line := Text.trim text.toList
          if line = [] then
            let (later, code) := loop s left
            (s.prompt ++ later, code)
          else
            let (after, told) := s.feed (String.ofList line)
            let written := s.prompt ++ shown told
            if after.machine.halted then (written, 0)
            else
              let (later, code) := loop after left
              (written ++ later, code)
termination_by input.length
decreasing_by
  all_goals
    rw [← read_append input, _read, List.length_append]
    exact Nat.lt_add_of_pos_left (Nat.zero_lt_succ _)

theorem lines_from_read (pending input : List UInt8) (some : pending ≠ [] ∨ input ≠ []) :
    linesFrom pending input =
      ⟨(pending.reverse ++ (readLine input).1).toArray⟩ :: linesFrom [] (readLine input).2 := by
  induction input generalizing pending with
  | nil =>
      have some : pending ≠ [] := some.resolve_right (fun none => none rfl)
      rw [linesFrom, if_neg some, readLine, List.append_nil]
      rfl
  | cons byte rest ih =>
      rw [linesFrom, readLine]
      split
      · rw [List.reverse_cons]
      · rw [ih (byte :: pending) (.inl (List.cons_ne_nil _ _)), List.reverse_cons, List.append_assoc]
        rfl

theorem lines_end (input left : List UInt8) (read : readLine input = ([], left)) : lines input = [] := by
  cases input with
  | nil => rfl
  | cons byte rest =>
      rw [readLine] at read
      split at read <;> cases read

theorem lines_next (input left bytes : List UInt8) (byte : UInt8) (read : readLine input = (byte :: bytes, left)) :
    lines input = ⟨(byte :: bytes).toArray⟩ :: lines left := by
  have some : input ≠ [] := by
    rintro rfl
    cases read
  have cut := lines_from_read [] input (.inr some)
  rwa [read] at cut

theorem converse_invalid (s : Session) (bytes : ByteArray) (rest : List ByteArray)
    (invalid : String.fromUTF8? bytes = none) : converse s (bytes :: rest) = (s.prompt, 1) := by
  rw [converse, answer?, invalid]

theorem converse_text (s : Session) (bytes : ByteArray) (rest : List ByteArray) (text : String)
    (decoded : String.fromUTF8? bytes = some text) :
    converse s (bytes :: rest) =
      let (after, told) := s.feed text
      let written := s.prompt ++ shown told
      if after.machine.halted then (written, 0)
      else
        let (later, code) := converse after rest
        (written ++ later, code) := by
  rw [converse, answer?, decoded]
  rfl

theorem feed_trim (text : String) (s : Session) : s.feed (String.ofList (Text.trim text.toList)) = s.feed text := by
  refine s.feed_fragments _ text ?_
  rw [String.toList_ofList, Text.fragments_trim]

theorem feed_skip (text : String) (s : Session) (empty : Text.trim text.toList = []) : s.feed text = (s, []) := by
  refine s.feed_blank text ?_
  rw [← Text.fragments_trim, empty]
  rfl

-- The cases are those of the loop: the end of input, no text, white space, a line that halts, any other line.
theorem loop_runs (s : Session) (input : List UInt8) (running : s.machine.halted = false) :
    loop s input = converse s (lines input) := by
  fun_induction loop s input with
  | case1 s input left read => rw [lines_end input left read, converse]
  | case2 s input byte bytes left read invalid =>
      rw [lines_next input left bytes byte read, converse_invalid s _ _ invalid]
  | case3 s input byte bytes left read text decoded line empty later code rest ih =>
      have silent : s.prompt ++ shown [] = s.prompt := String.append_empty
      rw [lines_next input left bytes byte read, converse_text s _ _ text decoded, feed_skip text s empty]
      dsimp only
      rw [if_neg (Bool.eq_false_iff.mp running), ← ih running, rest, silent]
  | case4 s input byte bytes left read text decoded line some after told fed written halted =>
      rw [lines_next input left bytes byte read, converse_text s _ _ text decoded, ← feed_trim, fed]
      exact (if_pos halted).symm
  | case5 s input byte bytes left read text decoded line some after told fed written runs later code rest ih =>
      rw [lines_next input left bytes byte read, converse_text s _ _ text decoded, ← feed_trim, fed]
      dsimp only
      rw [if_neg runs, ← ih (Bool.eq_false_iff.mpr runs), rest]

-- An input cut behind each of its line feeds. What comes after the last one is a piece unless it is empty.
structure Pieces (input : List UInt8) (pieces : List (List UInt8)) : Prop where
  whole : pieces.flatten = input
  cut : ∀ piece ∈ pieces, piece ≠ [] ∧ 10 ∉ piece.dropLast
  ended : ∀ piece ∈ pieces.dropLast, piece.getLast? = some 10

theorem pieces_single (piece : List UInt8) (some : piece ≠ []) (within : 10 ∉ piece.dropLast) :
    Pieces piece [piece] where
  whole := List.flatten_singleton
  cut := List.forall_mem_singleton.mpr ⟨some, within⟩
  ended := fun _ none => nomatch none

theorem pieces_cons (line rest : List UInt8) (pieces : List (List UInt8)) (clear : 10 ∉ line)
    (later : Pieces rest pieces) : Pieces (line ++ 10 :: rest) ((line ++ [10]) :: pieces) where
  whole := by rw [List.flatten_cons, later.whole, List.append_assoc]; rfl
  cut := by
    refine List.forall_mem_cons.mpr ⟨⟨List.concat_ne_nil 10 line, ?_⟩, later.cut⟩
    rwa [List.dropLast_concat]
  ended := by
    intro piece member
    cases pieces with
    | nil => cases member
    | cons next others =>
        rcases List.mem_cons.mp member with rfl | after
        · exact List.getLast?_concat
        · exact later.ended piece after

theorem lines_from_pieces (pending input : List UInt8) (clear : 10 ∉ pending) :
    ∃ pieces, Pieces (pending.reverse ++ input) pieces ∧
      linesFrom pending input = pieces.map fun piece => ⟨piece.toArray⟩ := by
  induction input generalizing pending with
  | nil =>
      rw [linesFrom, List.append_nil]
      split
      · rename_i empty
        subst empty
        exact ⟨[], ⟨rfl, fun _ none => (nomatch none), fun _ none => (nomatch none)⟩, rfl⟩
      · rename_i some
        refine ⟨[pending.reverse], pieces_single _ (mt List.reverse_eq_nil_iff.mp some) fun member => clear ?_, rfl⟩
        exact List.mem_reverse.mp (List.dropLast_subset _ member)
  | cons byte rest ih =>
      rw [linesFrom]
      split
      · rename_i feed
        subst feed
        obtain ⟨pieces, later, same⟩ := ih [] List.not_mem_nil
        have here : 10 ∉ pending.reverse := mt List.mem_reverse.mp clear
        refine ⟨(pending.reverse ++ [10]) :: pieces, pieces_cons _ rest pieces here later, ?_⟩
        rw [same, List.reverse_cons]
        rfl
      · rename_i other
        have still : 10 ∉ byte :: pending := List.not_mem_cons_of_ne_of_not_mem (Ne.symm other) clear
        have moved : (byte :: pending).reverse ++ rest = pending.reverse ++ byte :: rest := by
          rw [List.reverse_cons, List.append_assoc]
          rfl
        exact moved ▸ ih (byte :: pending) still

theorem text_bytes (piece : List UInt8) (text : String) (decoded : text? piece = some text) :
    text.toList.flatMap String.utf8EncodeChar = piece := by
  rw [text?, String.fromUTF8?] at decoded
  split at decoded
  · have held : text.toByteArray = ⟨piece.toArray⟩ := by
      rw [← Option.some.inj decoded]
      rfl
    have bytes : text.toList.utf8Encode.data = piece.toArray := by rw [String.utf8Encode_toList, held]
    rw [List.utf8Encode, List.data_toByteArray] at bytes
    exact congrArg Array.toList bytes
  · cases decoded

-- A line feed is one byte, and no other character has that byte in it.
theorem text_within (piece : List UInt8) (text : String) (decoded : text? piece = some text) (some : piece ≠ [])
    (within : 10 ∉ piece.dropLast) : text.toList ≠ [] ∧ '\n' ∉ text.toList.dropLast := by
  have bytes := text_bytes piece text decoded
  have full : text.toList ≠ [] := by
    intro empty
    rw [empty] at bytes
    exact some bytes.symm
  refine ⟨full, fun member => within ?_⟩
  obtain ⟨front, c, same⟩ := (List.eq_nil_or_concat' text.toList).resolve_left full
  rw [same, List.dropLast_concat] at member
  rw [← bytes, same, List.flatMap_append, List.flatMap_singleton,
    List.dropLast_append_of_ne_nil String.utf8EncodeChar_ne_nil]
  exact List.mem_append_left _ (List.mem_flatMap.mpr ⟨'\n', member, by decide⟩)

-- What a piece gives when it is cut into lines: one line, without its line end.
def ReadAs (piece : List UInt8) (line : String) : Prop :=
  ∃ text, text? piece = some text ∧ Program.lines text = [line]

theorem read_as (piece : List UInt8) (text : String) (decoded : text? piece = some text) (some : piece ≠ [])
    (within : 10 ∉ piece.dropLast) : ∃ line, ReadAs piece line ∧ ∀ s : Session, s.feed text = s.feed line := by
  obtain ⟨full, single⟩ := text_within piece text decoded some within
  obtain ⟨line, cut, same⟩ := Program.lines_from_single text.toList full single
  refine ⟨String.ofList line, ⟨text, decoded, by rw [Program.lines, cut]; rfl⟩, fun s => ?_⟩
  refine s.feed_fragments text _ ?_
  rw [String.toList_ofList, same]

def transcript : Session → List String → String
  | _, [] => ""
  | s, line :: rest =>
      let (after, told) := s.feed line
      "REPL(" ++ s.machine.stack.cells.length.repr ++ ")> " ++ shown told ++ transcript after rest

-- How a conversation ends after the last line that is fed, by the pieces that are left: what is still written,
-- and the exit code.
inductive Ends (last : Session) : List (List UInt8) → String → UInt8 → Prop where
  | halted (rest : List (List UInt8)) (is : last.machine.halted = true) : Ends last rest "" 0
  | input (runs : last.machine.halted = false) :
      Ends last [] ("REPL(" ++ last.machine.stack.cells.length.repr ++ ")> ") 0
  | invalid (piece : List UInt8) (rest : List (List UInt8)) (runs : last.machine.halted = false)
      (is : text? piece = none) :
      Ends last (piece :: rest) ("REPL(" ++ last.machine.stack.cells.length.repr ++ ")> ") 1

-- A conversation over the given pieces: the first of them are fed as lines, the rest are not. `written` is all that
-- is written.
structure Conversation (start : Session) (pieces fed rest : List (List UInt8)) (lines : List String) (written : String)
    (code : UInt8) : Prop where
  cut : pieces = fed ++ rest
  read : List.Forall₂ ReadAs fed lines
  runs : ∀ n < lines.length, (start.feedAll (lines.take n)).1.machine.halted = false
  ends : ∃ tail, Ends (start.feedAll lines).1 rest tail code ∧ written = transcript start lines ++ tail

theorem prompt_operands (s : Session) : s.prompt = "REPL(" ++ s.machine.stack.cells.length.repr ++ ")> " := rfl

theorem conversation_end (s : Session) (rest : List (List UInt8)) (tail : String) (code : UInt8)
    (ends : Ends s rest tail code) : Conversation s rest [] rest [] tail code :=
  ⟨rfl, .nil, fun _ none => (nomatch none), tail, ends, String.empty_append.symm⟩

theorem conversation_cons (s : Session) (piece : List UInt8) (line : String) (pieces fed rest : List (List UInt8))
    (lines : List String) (written : String) (code : UInt8) (first : ReadAs piece line)
    (runs : s.machine.halted = false) (later : Conversation (s.feed line).1 pieces fed rest lines written code) :
    Conversation s (piece :: pieces) (piece :: fed) rest (line :: lines) (s.prompt ++ shown (s.feed line).2 ++ written)
      code where
  cut := by rw [later.cut, List.cons_append]
  read := .cons first later.read
  runs := by
    intro n earlier
    cases n with
    | zero => exact runs
    | succ n => exact later.runs n (Nat.lt_of_succ_lt_succ earlier)
  ends := by
    obtain ⟨tail, ends, same⟩ := later.ends
    exact ⟨tail, ends, by rw [same, transcript, prompt_operands, ← String.append_assoc]⟩

-- A piece is fed with its line end. `read_as` says that the line without it does the same to any session, so the
-- induction is over what is left after each piece.
theorem converse_conversation (s : Session) (pieces : List (List UInt8))
    (cut : ∀ piece ∈ pieces, piece ≠ [] ∧ 10 ∉ piece.dropLast) (runs : s.machine.halted = false) :
    let (written, code) := converse s (pieces.map fun piece => ⟨piece.toArray⟩)
    ∃ fed rest lines, Conversation s pieces fed rest lines written code := by
  induction pieces generalizing s with
  | nil => exact ⟨[], [], [], conversation_end s [] s.prompt 0 (.input runs)⟩
  | cons piece others ih =>
      obtain ⟨⟨some, within⟩, cut⟩ := List.forall_mem_cons.mp cut
      rw [List.map_cons]
      cases decoded : text? piece with
      | none =>
          rw [converse_invalid s _ _ decoded]
          exact ⟨[], _, [], conversation_end s _ s.prompt 1 (.invalid piece others runs decoded)⟩
      | some text =>
          obtain ⟨line, read, same⟩ := read_as piece text decoded some within
          rw [converse_text s _ _ text decoded, same s]
          dsimp only
          by_cases halted : (s.feed line).1.machine.halted = true
          · have ended := conversation_end _ others "" 0 (.halted others halted)
            rw [if_pos halted]
            exact ⟨_, _, _, String.append_empty ▸ conversation_cons s piece line _ _ _ _ _ _ read runs ended⟩
          · obtain ⟨fed, rest, lines, later⟩ := ih (s.feed line).1 cut (Bool.eq_false_iff.mpr halted)
            rw [if_neg halted]
            exact ⟨piece :: fed, rest, line :: lines, conversation_cons s piece line _ _ _ _ _ _ read runs later⟩

theorem command_line_transcript (scoping maxDepth : Option String) (input : List UInt8) :
    loop (.new (.ofTexts scoping maxDepth)) input = run (.ofTexts scoping maxDepth) input ∧
      ∃ pieces fed rest lines written code, Pieces input pieces ∧
        Conversation (.new (.ofTexts scoping maxDepth)) pieces fed rest lines written code ∧
        run (.ofTexts scoping maxDepth) input = (written, code) := by
  let start := Session.new (.ofTexts scoping maxDepth)
  obtain ⟨pieces, cut, same⟩ := lines_from_pieces [] input List.not_mem_nil
  have conversation := converse_conversation start pieces cut.cut rfl
  rw [← same] at conversation
  obtain ⟨fed, rest, lines, conversation⟩ := conversation
  exact ⟨loop_runs start input rfl, pieces, fed, rest, lines, _, _, cut, conversation, rfl⟩

theorem operands_prompted :
    let input := [0x31, 0x20, 0x32, 0x0A, 0x61, 0x64, 0x64, 0x0A, 0x78]
    let written := ("REPL(0)> REPL(2)> REPL(1)> undefined: 'x' not found\nREPL(1)> ", 0)
    loop (.new (.ofTexts none none)) input = written ∧ run (.ofTexts none none) input = written := by
  intro input written
  let start := Session.new (.ofTexts none none)
  let pushed : Session := { start with machine := (start.machine.push (.integer 1)).push (.integer 2) }
  let added : Session := { start with machine := start.machine.push (.integer 3) }
  have first : start.feed "1 2\n" = (pushed, []) := by
    rw [Session.feed_at 3 "1 2\n" start (by decide +kernel)]
    decide +kernel
  have second : pushed.feed "add\n" = (added, []) := by
    rw [Session.feed_at 2 "add\n" pushed (by decide +kernel)]
    decide +kernel
  have third : added.feed "x" = (added, [.reported (.undefined "x")]) := by
    rw [Session.feed_at 2 "x" added (by decide +kernel)]
    decide +kernel
  have conversed : run (.ofTexts none none) input = written := by
    change converse start [⟨#[0x31, 0x20, 0x32, 0x0A]⟩, ⟨#[0x61, 0x64, 0x64, 0x0A]⟩, ⟨#[0x78]⟩] = _
    rw [converse_text start _ _ "1 2\n" (by decide), first]
    dsimp only
    rw [if_neg (by decide), converse_text pushed _ _ "add\n" (by decide), second]
    dsimp only
    rw [if_neg (by decide), converse_text added _ _ "x" (by decide), third]
    dsimp only
    rw [if_neg (by decide)]
    decide +kernel
  exact ⟨(command_line_transcript none none input).1.trans conversed, conversed⟩

-- White space before a carriage return, then a line that halts, then a byte that no text has.
example : run .default [0x20, 0x0D, 0x0A, 0x71, 0x75, 0x69, 0x74, 0x0A, 0xFF] = ("REPL(0)> REPL(0)> ", 0) := by
  let start := Session.new .default
  let after := Run.step^[2] (Run.ofLine 512 start.machine "quit\n")
  have halts : after.pending = [] ∧ after.machine.halted = true ∧ after.notices = [] := by decide +kernel
  have fed : start.feed "quit\n" = ({ start with machine := after.machine }, []) := by
    rw [Session.feed_at 2 "quit\n" start halts.1, ← List.reverse_nil, ← halts.2.2]
    rfl
  change converse start [⟨#[0x20, 0x0D, 0x0A]⟩, ⟨#[0x71, 0x75, 0x69, 0x74, 0x0A]⟩, ⟨#[0xFF]⟩] = _
  rw [converse_text start _ _ " \r\n" (by decide), feed_skip " \r\n" start (by decide)]
  dsimp only
  rw [if_neg (by decide), converse_text start _ _ "quit\n" (by decide), fed]
  dsimp only
  rw [if_pos halts.2.1]
  decide

end Terminal

end MiniPostScript
