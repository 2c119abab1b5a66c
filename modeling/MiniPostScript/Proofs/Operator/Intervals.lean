import MiniPostScript.Proofs.Operator.Operands

set_option autoImplicit false

namespace MiniPostScript

-- Two texts that differ only in what stands at a place: `old` in the one and `new` in the other.
inductive Spliced (place : Nat) (old new text result : List Char) : Prop where
  | mk (before after : List Char) (here : before.length = place) (was : text = before ++ (old ++ after))
      (is : result = before ++ (new ++ after))

def Lies (place : Nat) (part text : List Char) : Prop := Spliced place part part text text

section Spliced

variable (place : Nat) (old new text result : List Char)

theorem spliced_lies (spliced : Spliced place old new text result) : Lies place new result := by
  obtain ⟨before, after, here, was, is⟩ := spliced
  exact ⟨before, after, here, is, is⟩

theorem spliced_symm (spliced : Spliced place old new text result) : Spliced place new old result text := by
  obtain ⟨before, after, here, was, is⟩ := spliced
  exact ⟨before, after, here, is, was⟩

theorem spliced_other (other : List Char) (spliced : Spliced place old new text result) :
    ∃ final, Spliced place old other text final ∧ Spliced place new other result final := by
  obtain ⟨before, after, here, was, is⟩ := spliced
  exact ⟨_, ⟨before, after, here, was, rfl⟩, ⟨before, after, here, is, rfl⟩⟩

theorem spliced_unique (other final : List Char) (even : old.length = other.length)
    (first : Spliced place old new text result) (second : Spliced place other new text final) :
    old = other ∧ result = final := by
  obtain ⟨before, after, here, was, is⟩ := first
  obtain ⟨front, back, there, same, ends⟩ := second
  obtain ⟨rfl, rest⟩ := List.append_inj (was.symm.trans same) (here.trans there.symm)
  obtain ⟨rfl, rfl⟩ := List.append_inj rest even
  exact ⟨rfl, is.trans ends.symm⟩

theorem spliced_length (even : old.length = new.length) (spliced : Spliced place old new text result) :
    result.length = text.length := by
  obtain ⟨before, after, here, was, is⟩ := spliced
  simp only [was, is, List.length_append, even]

theorem spliced_within (spliced : Spliced place old new text result) : place + old.length ≤ text.length := by
  obtain ⟨before, after, here, was, is⟩ := spliced
  simp only [was, List.length_append]
  omega

theorem spliced_outside (j : Nat) (even : old.length = new.length) (spliced : Spliced place old new text result)
    (outside : j < place ∨ place + new.length ≤ j) : result[j]? = text[j]? := by
  obtain ⟨before, after, here, was, is⟩ := spliced
  rw [was, is]
  rcases outside with ahead | behind
  · rw [List.getElem?_append_left (here ▸ ahead), List.getElem?_append_left (here ▸ ahead)]
  · rw [List.getElem?_append_right (by omega), List.getElem?_append_right (by omega),
      List.getElem?_append_right (by omega), List.getElem?_append_right (by omega), even]

theorem taken_length (count : Nat) (within : place + count ≤ text.length) :
    ((text.drop place).take count).length = count := by
  rw [List.length_take, List.length_drop]
  omega

theorem spliced_cut (count : Nat) (within : place + count ≤ text.length) :
    Spliced place ((text.drop place).take count) new text (text.take place ++ (new ++ text.drop (place + count))) := by
  have whole : text = text.take place ++ ((text.drop place).take count ++ text.drop (place + count)) := by
    rw [← List.drop_drop, List.take_append_drop, List.take_append_drop]
  exact ⟨text.take place, text.drop (place + count), List.length_take_of_le (by omega), whole, rfl⟩

theorem lies_cut (count : Nat) (within : place + count ≤ text.length) :
    Lies place ((text.drop place).take count) text :=
  spliced_lies _ _ _ _ _ (spliced_symm _ _ _ _ _ (spliced_cut place [] text count within))

theorem spliced_read (spliced : Spliced place old new text result) :
    (text.drop place).take old.length = old ∧ text.take place ++ (new ++ text.drop (place + old.length)) = result := by
  have within := spliced_within place old new text result spliced
  have size := taken_length place text old.length within
  exact spliced_unique place _ new text _ _ _ size (spliced_cut place new text old.length within) spliced

theorem lies_char (c : Char) : Lies place [c] text ↔ text[place]? = some c := by
  constructor
  · rintro ⟨before, after, rfl, was, _⟩
    rw [was, List.getElem?_append_right (Nat.le_refl _), Nat.sub_self]
    rfl
  · intro here
    obtain ⟨inside, same⟩ := List.getElem?_eq_some_iff.mp here
    have single : (text.drop place).take 1 = [c] := by
      rw [List.drop_eq_getElem_cons inside, same]
      rfl
    exact single ▸ lies_cut place text 1 inside

end Spliced

namespace Strings

theorem index_ok_iff (op : String) (n : Integer) (place : Nat) : index op n = .ok place ↔ n.toInt = place := by
  rw [index]
  by_cases negative : n.toInt < 0
  · rw [if_pos negative]
    constructor
    · exact fun other => nomatch other
    · omega
  · rw [if_neg negative, Except.ok.injEq]
    omega

theorem index_bind_ok {Result : Type} (op : String) (n : Integer) (next : Nat → Except Error Result) (result : Result) :
    (index op n >>= next) = .ok result ↔ ∃ place : Nat, n.toInt = place ∧ next place = .ok result := by
  cases found : index op n with
  | error error =>
      constructor
      · exact fun other => nomatch other
      · rintro ⟨place, same, _⟩
        cases found.symm.trans ((index_ok_iff op n place).mpr same)
  | ok place =>
      have same := (index_ok_iff op n place).mp found
      constructor
      · exact fun done => ⟨place, same, done⟩
      · rintro ⟨other, again, done⟩
        obtain rfl : place = other := by omega
        exact done

variable (text source : String) (place count : Integer) (value : Value)

theorem get_ok_iff : get (.string text) (.integer place) = .ok value ↔ ∃ (start : Nat) (c : Char),
    place.toInt = start ∧ Lies start [c] text.toList ∧ value = .integer (Integer.ofSize c.toNat) := by
  rw [get, index_bind_ok]
  simp only [lies_char]
  constructor
  · rintro ⟨start, same, found⟩
    cases here : text.toList[start]? with
    | none => simp only [here, reduceCtorEq] at found
    | some c =>
        simp only [here, Except.ok.injEq] at found
        exact ⟨start, c, same, here, found.symm⟩
  · rintro ⟨start, c, same, here, rfl⟩
    exact ⟨start, same, by rw [here]⟩

theorem get_interval_ok_iff : getInterval (.string text) (.integer place) (.integer count) = .ok value ↔
    ∃ (start : Nat) (part : String), place.toInt = start ∧ count.toInt = part.length ∧
      Lies start part.toList text.toList ∧ value = .string part := by
  rw [getInterval, index_bind_ok]
  constructor
  · rintro ⟨start, first, found⟩
    obtain ⟨size, second, found⟩ := (index_bind_ok "getinterval" count _ value).mp found
    by_cases beyond : text.length < start + size
    · rw [if_pos beyond] at found
      cases found
    · rw [if_neg beyond] at found
      have within : start + size ≤ text.toList.length := String.length_toList ▸ Nat.not_lt.mp beyond
      refine ⟨start, _, first, ?_, ?_, (Except.ok.inj found).symm⟩
      · rw [second, String.length_ofList, taken_length start text.toList size within]
      · rw [String.toList_ofList]
        exact lies_cut start text.toList size within
  · rintro ⟨start, part, first, second, lies, rfl⟩
    have within := spliced_within _ _ _ _ _ lies
    have read := (spliced_read _ _ _ _ _ lies).1
    rw [String.length_toList, String.length_toList] at within
    rw [String.length_toList] at read
    refine ⟨start, first, (index_bind_ok "getinterval" count _ _).mpr ⟨part.length, second, ?_⟩⟩
    rw [if_neg (Nat.not_lt.mpr within), read, String.ofList_toList]

theorem put_interval_ok_iff : putInterval (.string text) (.integer place) (.string source) = .ok value ↔
    ∃ (start : Nat) (old : List Char) (result : String), place.toInt = start ∧ old.length = source.length ∧
      Spliced start old source.toList text.toList result.toList ∧ value = .string result := by
  rw [putInterval, index_bind_ok]
  constructor
  · rintro ⟨start, first, found⟩
    by_cases beyond : text.length < start + source.length
    · rw [if_pos beyond] at found
      cases found
    · rw [if_neg beyond] at found
      have within : start + source.length ≤ text.toList.length := String.length_toList ▸ Nat.not_lt.mp beyond
      refine ⟨start, _, _, first, taken_length start text.toList _ within, ?_, (Except.ok.inj found).symm⟩
      rw [String.toList_ofList, List.append_assoc]
      exact spliced_cut start source.toList text.toList source.length within
  · rintro ⟨start, old, result, first, even, spliced, rfl⟩
    have within := spliced_within _ _ _ _ _ spliced
    have read := (spliced_read _ _ _ _ _ spliced).2
    rw [even, String.length_toList] at within
    rw [even] at read
    refine ⟨start, first, ?_⟩
    rw [if_neg (Nat.not_lt.mpr within), List.append_assoc, read, String.ofList_toList]

theorem get_interval_accepts : (∃ value, getInterval (.string text) (.integer place) (.integer count) = .ok value) ↔
    0 ≤ place.toInt ∧ 0 ≤ count.toInt ∧ place.toInt + count.toInt ≤ text.length := by
  simp only [get_interval_ok_iff]
  constructor
  · rintro ⟨value, start, part, first, second, lies, _⟩
    have within := spliced_within _ _ _ _ _ lies
    rw [String.length_toList, String.length_toList] at within
    omega
  · rintro ⟨first, second, within⟩
    have fits : place.toInt.toNat + count.toInt.toNat ≤ text.toList.length := by
      rw [String.length_toList]
      omega
    have length := taken_length _ _ _ fits
    have lies := lies_cut _ _ _ fits
    rw [← String.length_ofList] at length
    rw [← String.toList_ofList (l := (text.toList.drop place.toInt.toNat).take count.toInt.toNat)] at lies
    exact ⟨_, place.toInt.toNat, _, by omega, by omega, lies, rfl⟩

theorem put_interval_accepts : (∃ value, putInterval (.string text) (.integer place) (.string source) = .ok value) ↔
    0 ≤ place.toInt ∧ place.toInt + source.length ≤ text.length := by
  simp only [put_interval_ok_iff]
  constructor
  · rintro ⟨value, start, old, result, first, even, spliced, _⟩
    have within := spliced_within _ _ _ _ _ spliced
    rw [String.length_toList] at within
    omega
  · rintro ⟨first, within⟩
    have fits : place.toInt.toNat + source.length ≤ text.toList.length := by
      rw [String.length_toList]
      omega
    have spliced := spliced_cut _ source.toList _ _ fits
    rw [← String.toList_ofList (l := text.toList.take place.toInt.toNat ++ _)] at spliced
    exact ⟨_, place.toInt.toNat, _, _, by omega, taken_length _ _ _ fits, spliced, rfl⟩

theorem get_accepts : (∃ value, get (.string text) (.integer place) = .ok value) ↔
    0 ≤ place.toInt ∧ place.toInt < text.length := by
  simp only [get_ok_iff, lies_char]
  constructor
  · rintro ⟨value, start, c, first, here, _⟩
    obtain ⟨inside, _⟩ := List.getElem?_eq_some_iff.mp here
    rw [String.length_toList] at inside
    omega
  · rintro ⟨first, within⟩
    have inside : place.toInt.toNat < text.toList.length := by
      rw [String.length_toList]
      omega
    exact ⟨_, place.toInt.toNat, _, by omega, List.getElem?_eq_getElem inside, rfl⟩

theorem get_outside (result : String) (start : Nat) (old new : List Char) (even : old.length = new.length)
    (spliced : Spliced start old new text.toList result.toList) (place : Integer)
    (outside : place.toInt < start ∨ start + new.length ≤ place.toInt) :
    get (.string result) (.integer place) = get (.string text) (.integer place) := by
  rw [get, get, index]
  by_cases negative : place.toInt < 0
  · rw [if_pos negative]
    rfl
  · have same := spliced_outside start old new _ _ place.toInt.toNat even spliced (by omega)
    rw [if_neg negative]
    simp only [bind, Except.bind, same]

end Strings

namespace Operator

theorem ternary_pushes_iff (op : Operator) (name : String) (f : Value → Value → Value → Except Error Value)
    (a b c value : Value) (rule : op.rule = .ternary name f) : op.Pushes [a, b, c] value ↔ f a b c = .ok value :=
  op.outcome_pushes_iff _ _ _ [a, b, c] (f a b c) rule rfl rfl value

structure IntervalLaws (text source : String) (place length size : Integer) : Prop where
  takes : ∀ count : Integer, getInterval.AcceptsIff [.string text, .integer place, .integer count]
    (0 ≤ place.toInt ∧ 0 ≤ count.toInt ∧ place.toInt + count.toInt ≤ length.toInt)
  puts : putInterval.AcceptsIff [.string text, .integer place, .string source]
    (0 ≤ place.toInt ∧ place.toInt + size.toInt ≤ length.toInt)
  put : ∀ value, putInterval.Pushes [.string text, .integer place, .string source] value →
    ∃ result : String, value = .string result ∧
      Operator.length.Pushes [.string result] (.integer length) ∧
      getInterval.Pushes [.string result, .integer place, .integer size] (.string source) ∧
      (∀ other : String, other.length = source.length → ∃ final,
        putInterval.Pushes [.string result, .integer place, .string other] final ∧
        putInterval.Pushes [.string text, .integer place, .string other] final) ∧
      ∀ outside : Integer, outside.toInt < place.toInt ∨ place.toInt + size.toInt ≤ outside.toInt → ∀ code,
        get.Pushes [.string result, .integer outside] code ↔ get.Pushes [.string text, .integer outside] code
  putBack : ∀ (count : Integer) (part : Value), getInterval.Pushes [.string text, .integer place, .integer count] part →
    putInterval.Pushes [.string text, .integer place, part] (.string text)
  gets : get.AcceptsIff [.string text, .integer place] (0 ≤ place.toInt ∧ place.toInt < length.toInt)
  got : ∀ code, get.Pushes [.string text, .integer place] code → ∃ (c : Char) (n : Integer),
    code = .integer n ∧ n.toInt = c.toNat ∧
      getInterval.Pushes [.string text, .integer place, .integer 1] (.string (String.ofList [c]))

section

variable (text source : String) (place size : Integer) (wide : size.toInt = source.length)

include wide

theorem put_laws (value : Value) (pushed : putInterval.Pushes [.string text, .integer place, .string source] value) :
    ∃ result : String, value = .string result ∧ result.length = text.length ∧
      getInterval.Pushes [.string result, .integer place, .integer size] (.string source) ∧
      (∀ other : String, other.length = source.length → ∃ final,
        putInterval.Pushes [.string result, .integer place, .string other] final ∧
        putInterval.Pushes [.string text, .integer place, .string other] final) ∧
      ∀ outside : Integer, outside.toInt < place.toInt ∨ place.toInt + size.toInt ≤ outside.toInt → ∀ code,
        get.Pushes [.string result, .integer outside] code ↔ get.Pushes [.string text, .integer outside] code := by
  have done := (putInterval.ternary_pushes_iff _ _ _ _ _ _ rfl).mp pushed
  obtain ⟨start, old, result, first, even, spliced, rfl⟩ := (Strings.put_interval_ok_iff text source place _).mp done
  have same : old.length = source.toList.length := even.trans String.length_toList.symm
  refine ⟨result, rfl, ?_, ?_, ?_, ?_⟩
  · rw [← String.length_toList, ← String.length_toList]
    exact spliced_length _ _ _ _ _ same spliced
  · refine (getInterval.ternary_pushes_iff _ _ _ _ _ _ rfl).mpr ?_
    exact (Strings.get_interval_ok_iff result place size _).mpr
      ⟨start, source, first, wide, spliced_lies _ _ _ _ _ spliced, rfl⟩
  · intro other equal
    obtain ⟨final, fromText, fromResult⟩ := spliced_other _ _ _ _ _ other.toList spliced
    rw [← String.toList_ofList (l := final)] at fromText fromResult
    refine ⟨.string (String.ofList final), ?_, ?_⟩
    · refine (putInterval.ternary_pushes_iff _ _ _ _ _ _ rfl).mpr ?_
      exact (Strings.put_interval_ok_iff result other place _).mpr
        ⟨start, source.toList, _, first, String.length_toList.trans equal.symm, fromResult, rfl⟩
    · refine (putInterval.ternary_pushes_iff _ _ _ _ _ _ rfl).mpr ?_
      exact (Strings.put_interval_ok_iff text other place _).mpr
        ⟨start, old, _, first, even.trans equal.symm, fromText, rfl⟩
  · intro outside apart code
    have unchanged := Strings.get_outside text result start old source.toList same spliced outside (by
      rw [String.length_toList]
      omega)
    rw [get.binary_pushes_iff _ _ _ _ rfl, get.binary_pushes_iff _ _ _ _ rfl, unchanged]

end

theorem splice_laws (text source : String) (short : text.length ≤ 2147483647) (fits : source.length ≤ 2147483647) :
    ∃ length size : Integer, length.toInt = text.length ∧ size.toInt = source.length ∧
      Operator.length.Pushes [.string text] (.integer length) ∧
      Operator.length.Pushes [.string source] (.integer size) ∧
      ∀ place, IntervalLaws text source place length size := by
  have measured (part : String) (small : part.length ≤ 2147483647) : (Integer.ofSize part.length).toInt = part.length :=
    Int32.toInt_ofNat_of_lt (Nat.lt_succ_of_le small)
  have measure (part : String) : Operator.length.Pushes [.string part] (.integer (Integer.ofSize part.length)) :=
    Operator.length.unary_pushes _ _ (.string part) _ rfl rfl
  have long := measured text short
  have wide := measured source fits
  refine ⟨_, _, long, wide, measure text, measure source, fun place => ?_⟩
  constructor
  case takes =>
    intro count
    have accepts := Strings.get_interval_accepts text place count
    rw [← long] at accepts
    exact getInterval.outcome_accepts _ _ _ _ _ rfl rfl rfl _ accepts
  case puts =>
    have accepts := Strings.put_interval_accepts text source place
    rw [← long, ← wide] at accepts
    exact putInterval.outcome_accepts _ _ _ _ _ rfl rfl rfl _ accepts
  case put =>
    intro value pushed
    obtain ⟨result, rfl, even, rest⟩ := put_laws text source place _ wide value pushed
    exact ⟨result, rfl, even ▸ measure result, rest⟩
  case putBack =>
    intro count part taken
    have done := (getInterval.ternary_pushes_iff _ _ _ _ _ _ rfl).mp taken
    obtain ⟨start, old, first, _, lies, rfl⟩ := (Strings.get_interval_ok_iff text place count _).mp done
    refine (putInterval.ternary_pushes_iff _ _ _ _ _ _ rfl).mpr ?_
    exact (Strings.put_interval_ok_iff text old place _).mpr ⟨start, _, text, first, String.length_toList, lies, rfl⟩
  case gets =>
    have accepts := Strings.get_accepts text place
    rw [← long] at accepts
    exact get.outcome_accepts _ _ _ _ _ rfl rfl rfl _ accepts
  case got =>
    intro code pushed
    have done := (get.binary_pushes_iff _ _ _ _ rfl _).mp pushed
    obtain ⟨start, c, first, lies, rfl⟩ := (Strings.get_ok_iff text place _).mp done
    refine ⟨c, _, rfl, Int32.toInt_ofNat_of_lt ?_, ?_⟩
    · rcases c.valid with low | ⟨_, high⟩
      · exact Nat.lt_trans low (by decide)
      · exact Nat.lt_trans high (by decide)
    · refine (getInterval.ternary_pushes_iff _ _ _ _ _ _ rfl).mpr ?_
      rw [← String.toList_ofList (l := [c])] at lies
      exact (Strings.get_interval_ok_iff text place 1 _).mpr ⟨start, _, first, String.length_ofList.symm ▸ rfl, lies, rfl⟩

theorem wide_characters_replaced :
    "añ😀b".length ≤ 2147483647 ∧ "😀ñ".length ≤ 2147483647 ∧
    ∃ result : String,
      putInterval.Pushes [.string "añ😀b", .integer 1, .string "😀ñ"] (.string result) ∧
      Operator.length.Pushes [.string result] (.integer 4) ∧
      getInterval.Pushes [.string result, .integer 1, .integer 2] (.string "😀ñ") ∧
      (∃ final, putInterval.Pushes [.string result, .integer 1, .string "xy"] final ∧
        putInterval.Pushes [.string "añ😀b", .integer 1, .string "xy"] final) ∧
      (∃ code, get.Pushes [.string "añ😀b", .integer 3] code ∧ get.Pushes [.string result, .integer 3] code) ∧
      (∃ error, getInterval.Fails [.string "añ😀b", .integer 3, .integer 2] error) := by
  obtain ⟨length, size, long, wide, _, _, laws⟩ := splice_laws "añ😀b" "😀ñ" (by decide) (by decide)
  obtain rfl : length = 4 := Int32.toInt_inj.mp (long.trans rfl)
  obtain rfl : size = 2 := Int32.toInt_inj.mp (wide.trans rfl)
  obtain ⟨value, pushed⟩ := (laws 1).puts.done.mpr (by decide)
  obtain ⟨result, rfl, measured, back, override, outside⟩ := (laws 1).put value pushed
  obtain ⟨code, last⟩ := (laws 3).gets.done.mpr (by decide)
  have beyond := ((laws 3).takes 2).refused.mpr (by decide)
  exact ⟨by decide, by decide, result, pushed, measured, back, override "xy" (by decide),
    ⟨code, last, (outside 3 (by decide) code).mpr last⟩, beyond⟩

end Operator

end MiniPostScript
