import Mathlib.Data.List.Forall2
import Mathlib.Data.Nat.Digits.Defs
import YulLowering.Lowering.Literal

/-!
# What literals denote

A literal has a value at a type exactly if its spelling denotes a number below the bound of the type.
What a spelling denotes is said by the places of its digits and bytes, apart from how it is read.
-/

namespace YulLowering

/-! ## Digits -/

/-- The digits up to fifteen. -/
def lowerDigits : List Char :=
  ['0', '1', '2', '3', '4', '5', '6', '7', '8', '9', 'a', 'b', 'c', 'd', 'e', 'f']

/-- The digits up to fifteen, with the letters in upper case. -/
def upperDigits : List Char :=
  ['0', '1', '2', '3', '4', '5', '6', '7', '8', '9', 'A', 'B', 'C', 'D', 'E', 'F']

/-- A character is the digit of a value, in either case, and the base has this digit. -/
def IsDigit (base : Nat) (character : Char) (value : Nat) : Prop :=
  value < base ∧ (lowerDigits[value]? = some character ∨ upperDigits[value]? = some character)

/-- Where a list has the characters of a range in order, each stands as far from the first one as its code
does. -/
theorem getElem?_of_between {digits : List Char} {low high character : Char} {first count : Nat}
    (listed : ∀ offset < count, digits[offset + first]? = some (Char.ofNat (low.toNat + offset)))
    (between : low ≤ character ∧ character ≤ high) (narrow : high.toNat < low.toNat + count) :
    digits[character.toNat - low.toNat + first]? = some character := by
  have above : low.toNat ≤ character.toNat := between.1
  have below : character.toNat ≤ high.toNat := between.2
  rw [listed _ (by omega), Nat.add_sub_cancel' above, Char.ofNat_toNat]

theorem isDigit_of_digit? {base value : Nat} {character : Char}
    (read : digit? base character = some value) : IsDigit base character value := by
  refine ⟨digit?_lt read, ?_⟩
  simp only [digit?, Option.filter_eq_some_iff] at read
  have inRange := read.1
  split at inRange
  next decimal =>
    cases inRange
    have listed : ∀ offset < 10, lowerDigits[offset + 0]? = some (Char.ofNat ('0'.toNat + offset)) := by
      decide
    exact .inl (getElem?_of_between listed decimal (by decide))
  split at inRange
  next lower =>
    cases inRange
    have listed : ∀ offset < 6, lowerDigits[offset + 10]? = some (Char.ofNat ('a'.toNat + offset)) := by
      decide
    exact .inl (getElem?_of_between listed lower (by decide))
  split at inRange
  next upper =>
    cases inRange
    have listed : ∀ offset < 6, upperDigits[offset + 10]? = some (Char.ofNat ('A'.toNat + offset)) := by
      decide
    exact .inr (getElem?_of_between listed upper (by decide))
  · cases inRange

/-- Whether a character is a digit depends on the base only through its bound. -/
theorem digit?_of_lt {base value : Nat} {character : Char} (read : digit? 16 character = some value)
    (small : value < base) : digit? base character = some value := by
  simp only [digit?, Option.filter_eq_some_iff, decide_eq_true_eq] at read ⊢
  exact ⟨read.1, small⟩

/-- The digits of a base are those that are listed. -/
theorem digit?_eq_some_iff {base value : Nat} {character : Char} :
    digit? base character = some value ↔ IsDigit base character value := by
  refine ⟨isDigit_of_digit?, fun ⟨small, listed⟩ => digit?_of_lt ?_ small⟩
  have read {digits : List Char} (inOrder : digits.map (digit? 16) = (List.range 16).map some)
      (found : digits[value]? = some character) : digit? 16 character = some value := by
    have same := congrArg (fun values => values[value]?) inOrder
    simp only [List.getElem?_map, found, Option.map_some] at same
    obtain ⟨place, isPlace, isValue⟩ := Option.map_eq_some_iff.mp same.symm
    obtain ⟨_, rfl⟩ := List.getElem?_eq_some_iff.mp isPlace
    rw [← isValue, List.getElem_range]
  cases listed with
  | inl found => exact read (by decide : lowerDigits.map (digit? 16) = _) found
  | inr found => exact read (by decide : upperDigits.map (digit? 16) = _) found

theorem mapM_digit?_eq_some_iff {base : Nat} {characters : List Char} {digits : List Nat} :
    characters.mapM (digit? base) = some digits ↔ List.Forall₂ (IsDigit base) characters digits := by
  induction characters generalizing digits with
  | nil => simp [eq_comm]
  | cons character rest ih =>
      simp [Option.bind_eq_some_iff, List.forall₂_cons_left_iff, ← digit?_eq_some_iff, ← ih,
        @eq_comm _ digits]

/-! ## Numerals -/

/-- Reading digits from the first to the last counts each by its place. -/
theorem ofDigits_eq (base : Nat) (digits : List Nat) :
    ofDigits base digits = Nat.ofDigits base digits.reverse := by
  rw [Nat.ofDigits_eq_foldr, List.foldr_reverse]
  simp [ofDigits, Nat.mul_comm, Nat.add_comm]

/-- Characters spell a number in a base: there is at least one, all of them are digits, and what these are
worth by their places, the last place being that of units, is the number. -/
def IsNumeral (base : Nat) (characters : List Char) (value : Nat) : Prop :=
  characters ≠ [] ∧ ∃ digits, List.Forall₂ (IsDigit base) characters digits ∧
    value = Nat.ofDigits base digits.reverse

theorem Literal.readDigits?_eq_some_iff {base value : Nat} {characters : List Char} :
    readDigits? base characters = some value ↔ IsNumeral base characters value := by
  simp [readDigits?, IsNumeral, mapM_digit?_eq_some_iff, ofDigits_eq, @eq_comm _ value]

/-- What stands in front of a hexadecimal numeral begins no decimal one. -/
theorem not_isNumeral_of_marked {characters : List Char} {value : Nat} :
    ¬ IsNumeral 10 ('0' :: 'x' :: characters) value := by
  intro isNumeral
  have read := Literal.readDigits?_eq_some_iff.mpr isNumeral
  cases read

/-- A digit as it is usually written, or in upper case. -/
def InEitherCase (digit written : Char) : Prop :=
  written = digit ∨ written = digit.toUpper

/-- The digits that a number is spelled with. -/
theorem exists_digits_toDigits {base : Nat} (above : 1 < base) (value : Nat) :
    ∃ digits : List Nat, Nat.toDigits base value = digits.map Nat.digitChar ∧
      (∀ digit ∈ digits, digit < base) ∧ Nat.ofDigits base digits.reverse = value := by
  induction value using Nat.strongRecOn with
  | ind value ih =>
      rw [Nat.toDigits_eq_if above]
      split
      next small => exact ⟨[value], rfl, by simpa using small, by simp⟩
      next large =>
        have smaller : value / base < value := Nat.div_lt_self (by omega) above
        obtain ⟨digits, isSpelling, small, isValue⟩ := ih _ smaller
        refine ⟨digits ++ [value % base], by simp [isSpelling], ?_, ?_⟩
        · have last : value % base < base := Nat.mod_lt _ (by omega)
          simpa [or_imp, forall_and, last] using small
        · simp [Nat.ofDigits_cons, isValue, Nat.mod_add_div]

/-- A number is denoted by its digits, also with zeros in front and with letters in either case. -/
theorem isNumeral_of_toDigits {base : Nat} (above : 1 < base) (below : base ≤ 16) {value : Nat}
    {characters : List Char}
    (spelled : List.Forall₂ InEitherCase (Nat.toDigits base value) characters) (zeros : Nat) :
    IsNumeral base (List.replicate zeros '0' ++ characters) value := by
  obtain ⟨digits, isSpelling, small, isValue⟩ := exists_digits_toDigits above value
  have listed : ∀ digit < 16, lowerDigits[digit]? = some (Nat.digitChar digit) ∧
      upperDigits[digit]? = some (Nat.digitChar digit).toUpper := by decide
  have areDigits : List.Forall₂ (IsDigit base) characters digits := by
    rw [isSpelling, List.forall₂_map_left_iff] at spelled
    apply List.Forall₂.flip
    apply ((List.forall₂_and_left _ _).mpr ⟨small, spelled⟩).imp
    rintro digit _ ⟨fits, rfl | rfl⟩
    · exact ⟨fits, .inl (listed digit (by omega)).1⟩
    · exact ⟨fits, .inr (listed digit (by omega)).2⟩
  have areZeros : List.Forall₂ (IsDigit base) (List.replicate zeros '0') (List.replicate zeros 0) := by
    have isZero : IsDigit base '0' 0 := ⟨by omega, .inl rfl⟩
    induction zeros with
    | zero => exact .nil
    | succ zeros ih => exact .cons isZero ih
  constructor
  · intro isEmpty
    rw [(List.append_eq_nil_iff.mp isEmpty).2, List.forall₂_nil_right_iff] at spelled
    exact Nat.toDigits_ne_nil spelled
  · refine ⟨List.replicate zeros 0 ++ digits, List.rel_append areZeros areDigits, ?_⟩
    rw [List.reverse_append, List.reverse_replicate, Nat.ofDigits_append_replicate_zero, isValue]

/-! ## Spellings -/

/-- The bytes of a text, character by character. -/
def utf8Bytes (text : String) : List Nat :=
  (text.toList.flatMap String.utf8EncodeChar).map UInt8.toNat

theorem toNat_toUTF8 (text : String) :
    text.toUTF8.data.toList.map UInt8.toNat = utf8Bytes text := by
  rw [utf8Bytes, String.toUTF8_eq_toByteArray, ← String.utf8Encode_toList, List.utf8Encode,
    List.toList_data_toByteArray]

/-- What the spelling of a literal denotes. The bytes of a string are the first ones of a word of 32 bytes, the
others are zero, and the first byte of a word counts most. -/
inductive LiteralKind.Denotes : LiteralKind → String → Nat → Prop where
  | decimal {spelling : String} {value : Nat} :
      IsNumeral 10 spelling.toList value → Denotes .number spelling value
  | hexadecimal {digits : String} {value : Nat} :
      IsNumeral 16 digits.toList value → Denotes .number ("0x" ++ digits) value
  | true : Denotes .boolean "true" 1
  | false : Denotes .boolean "false" 0
  | string {contents : String} : (utf8Bytes contents).length ≤ 32 →
      Denotes .string contents (Nat.ofDigits 256
        (utf8Bytes contents ++ List.replicate (32 - (utf8Bytes contents).length) 0).reverse)

namespace Literal

theorem readNumber?_eq_some_iff {spelling : String} {value : Nat} :
    readNumber? spelling.toList = some value ↔ LiteralKind.Denotes .number spelling value := by
  constructor
  · intro read
    unfold readNumber? at read
    split at read
    next digits marked =>
      obtain rfl : spelling = "0x" ++ String.ofList digits :=
        String.toList_injective (by simpa using marked)
      have isNumeral := readDigits?_eq_some_iff.mp read
      exact .hexadecimal (by simpa using isNumeral)
    · exact .decimal (readDigits?_eq_some_iff.mp read)
  · intro denotes
    cases denotes with
    | @hexadecimal digits _ isNumeral =>
        rw [String.toList_append]
        exact readDigits?_eq_some_iff.mpr isNumeral
    | decimal isNumeral =>
        unfold readNumber?
        split
        next digits marked =>
          rw [marked] at isNumeral
          exact absurd isNumeral not_isNumeral_of_marked
        · exact readDigits?_eq_some_iff.mpr isNumeral

theorem wordOfBytes?_eq_some_iff {contents : String} {value : Nat} :
    wordOfBytes? (contents.toUTF8.data.toList.map UInt8.toNat) = some value ↔
      LiteralKind.Denotes .string contents value := by
  rw [toNat_toUTF8, wordOfBytes?, ofDigits_eq]
  constructor
  · intro read
    split at read
    next short =>
      cases read
      exact .string short
    · cases read
  · intro denotes
    cases denotes with
    | string short => exact if_pos short

/-- A literal has the value that its spelling denotes. -/
theorem value?_eq_some_iff {literal : Literal} {value : Nat} :
    literal.value? = some value ↔ literal.kind.Denotes literal.spelling value := by
  obtain ⟨kind, spelling, typeName⟩ := literal
  cases kind with
  | number => exact readNumber?_eq_some_iff
  | string => exact wordOfBytes?_eq_some_iff
  | boolean =>
      constructor
      · intro read
        simp only [value?] at read
        split at read
        next isTrue =>
          cases read
          exact isTrue ▸ .true
        split at read
        next isFalse =>
          cases read
          exact isFalse ▸ .false
        · cases read
      · intro denotes
        cases denotes with
        | true => rfl
        | false => rfl

/-- A literal that is refused is reported with its spelling. -/
theorem fault_of_valueAt {literal : Literal} {type : Ir.ValueType} {fault : Lowering.Fault}
    (refused : literal.valueAt type = .error fault) : fault = .badLiteral literal.spelling := by
  unfold valueAt at refused
  split at refused
  · cases refused
    rfl
  · split at refused
    · cases refused
    · cases refused
      rfl

/-- A literal is accepted at a type of some width exactly if its spelling denotes a number that fits, which then
is its value. Any other one is refused with its spelling. In particular a number that fits can be written with
its decimal and its hexadecimal digits, with zeros in front and with letters in either case. -/
theorem valueAt_decides_denotation (width : Nat) :
    (∀ literal : Literal,
      (∀ value, literal.valueAt (.int width) = .ok value ↔
        literal.kind.Denotes literal.spelling value ∧ value < 2 ^ width) ∧
      (∀ fault, literal.valueAt (.int width) = .error fault ↔
        fault = .badLiteral literal.spelling ∧
          ¬ ∃ value, literal.kind.Denotes literal.spelling value ∧ value < 2 ^ width)) ∧
    ∀ (value zeros : Nat) (typeName : String), value < 2 ^ width →
      (number (String.ofList (List.replicate zeros '0' ++ Nat.toDigits 10 value)) typeName).valueAt
        (.int width) = .ok value ∧
      ∀ digits, List.Forall₂ InEitherCase (Nat.toDigits 16 value) digits →
        (number ("0x" ++ String.ofList (List.replicate zeros '0' ++ digits)) typeName).valueAt
          (.int width) = .ok value := by
  have accepts (literal : Literal) (value : Nat) : literal.valueAt (.int width) = .ok value ↔
      literal.kind.Denotes literal.spelling value ∧ value < 2 ^ width := by
    rw [valueAt_eq_ok_iff, value?_eq_some_iff, Ir.ValueType.holds_int, Nat.one_shiftLeft]
  constructor
  · intro literal
    refine ⟨accepts literal, fun fault => ?_⟩
    simp only [← accepts]
    constructor
    · intro refused
      exact ⟨fault_of_valueAt refused, by simp [refused]⟩
    · rintro ⟨rfl, refused⟩
      cases outcome : literal.valueAt (.int width) with
      | ok value => exact absurd ⟨value, outcome⟩ refused
      | error fault => rw [fault_of_valueAt outcome]
  · intro value zeros typeName fits
    constructor
    · have spelled : List.Forall₂ InEitherCase (Nat.toDigits 10 value) (Nat.toDigits 10 value) :=
        List.forall₂_same.mpr fun _ _ => .inl rfl
      have decimal : IsNumeral 10 _ value := isNumeral_of_toDigits (by decide) (by decide) spelled zeros
      exact (accepts _ _).mpr ⟨.decimal (by simpa [number] using decimal), fits⟩
    · intro digits spelled
      have hexadecimal : IsNumeral 16 _ value := isNumeral_of_toDigits (by decide) (by decide) spelled zeros
      exact (accepts _ _).mpr ⟨.hexadecimal (by simpa using hexadecimal), fits⟩

theorem valueAt_decides_denotation_widestByte :
    255 < 2 ^ 8 ∧ (number "00255" "u8").valueAt (.int 8) = .ok 255 ∧
      List.Forall₂ InEitherCase (Nat.toDigits 16 255) ['f', 'F'] ∧
      (number "0x0fF" "u8").valueAt (.int 8) = .ok 255 ∧
      ¬ ∃ value, LiteralKind.Denotes .number "0x" value ∧ value < 2 ^ 8 := by
  have fits : 255 < 2 ^ 8 := by decide
  have spelled : List.Forall₂ InEitherCase (Nat.toDigits 16 255) ['f', 'F'] :=
    .cons (.inl rfl) (.cons (.inr rfl) .nil)
  obtain ⟨decides, spellings⟩ := valueAt_decides_denotation 8
  refine ⟨fits, (spellings 255 2 "u8" fits).1, spelled, (spellings 255 1 "u8" fits).2 _ spelled, ?_⟩
  exact (((decides (number "0x" "u8")).2 _).mp rfl).2

/-- A string of 32 bytes is accepted where it takes fewer characters, and one more byte is too much. -/
example : (string "éééééééééééééééé").value?.isSome ∧ (string "éééééééééééééééé ").value? = none := by
  decide +kernel

end Literal

end YulLowering
