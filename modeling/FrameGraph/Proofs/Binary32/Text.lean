import FrameGraph.Proofs.Binary32.Shortest
import FrameGraph.Proofs.Text.Numeral
import Mathlib.Data.List.TakeWhile

/-!
# Numbers survive their text

The text of a number is read as the same number, whatever its sign, its size and its precision,
and what is not a number is read as something that is none either.
-/

namespace FrameGraph.Binary32

open FrameGraph.Text

/-! ## Positional decimals -/

/-- The zeros at the end of a fraction are left out. -/
theorem exists_zeros_fractionDigits (c : Nat) :
    ∃ zeros, fractionDigits c ++ List.replicate zeros '0' = paddedDigits 10 45 (c % 10 ^ 45) := by
  let backwards := (paddedDigits 10 45 (c % 10 ^ 45)).reverse
  have zeros : backwards.takeWhile (· == '0') =
      List.replicate (backwards.takeWhile (· == '0')).length '0' := by
    refine List.eq_replicate_of_mem fun d member => ?_
    have zero := List.all_eq_true.mp List.all_takeWhile d member
    exact beq_iff_eq.mp zero
  refine ⟨(backwards.takeWhile (· == '0')).length, ?_⟩
  rw [← List.reverse_inj, List.reverse_append, List.reverse_replicate, ← zeros, fractionDigits,
    List.reverse_reverse]
  exact List.takeWhile_append_dropWhile

theorem isDigit_of_mem_fractionDigits {c : Nat} {d : Char} (member : d ∈ fractionDigits c) :
    d.isDigit = true := by
  obtain ⟨zeros, padded⟩ := exists_zeros_fractionDigits c
  have inPadded : d ∈ paddedDigits 10 45 (c % 10 ^ 45) := by
    rw [← padded]
    exact List.mem_append_left _ member
  exact isDigit_of_mem_paddedDigits inPadded

/-- The digits behind the point denote the part of the decimal below one. -/
theorem digitsValue_fractionDigits (c : Nat) :
    (fractionDigits c).length ≤ 45 ∧
      digitsValue (fractionDigits c) * 10 ^ (45 - (fractionDigits c).length) = c % 10 ^ 45 := by
  obtain ⟨zeros, padded⟩ := exists_zeros_fractionDigits c
  have lengths := congrArg List.length padded
  have values := congrArg digitsValue padded
  rw [List.length_append, List.length_replicate,
    length_paddedDigits (by decide) (Nat.mod_lt c (Nat.pow_pos (by decide)))] at lengths
  rw [digitsValue_append, digitsValue_replicate_zero, List.length_replicate, Nat.add_zero,
    digitsValue_paddedDigits] at values
  obtain rfl : zeros = 45 - (fractionDigits c).length := by omega
  exact ⟨by omega, values⟩

/-- A positional text has digits and a point only. -/
theorem mem_positional {c : Nat} {d : Char} (member : d ∈ positional c) :
    d.isDigit = true ∨ d = '.' := by
  rcases List.mem_append.mp member with whole | behind
  · exact Or.inl (isDigit_of_mem_toDigits whole)
  · split at behind
    · cases behind
    · rcases List.mem_cons.mp behind with point | fraction
      · exact Or.inr point
      · exact Or.inl (isDigit_of_mem_fractionDigits fraction)

theorem roundDecimal_zero (digits length fraction : Nat) :
    roundDecimal digits length fraction 0 = roundUnits (digits * 2 ^ 149) (10 ^ fraction) := by
  unfold roundDecimal
  have noExponent : max (-((length : Int) + 60)) (min ((length : Int) + 60) 0) = 0 := by omega
  dsimp only
  rw [noExponent, Int.zero_sub, Int.neg_neg, Int.toNat_natCast]
  split
  · next whole =>
      obtain rfl : fraction = 0 := by omega
      rw [Int.natCast_zero, Int.neg_zero, Int.toNat_zero, Nat.pow_zero, Nat.mul_one]
  · rfl

/-- Digits, with or without a point among them, are rounded once. -/
theorem readDecimal?_of_digits {whole fraction tail : List Char} (nonempty : whole ≠ [])
    (wholeDigits : ∀ d ∈ whole, d.isDigit = true)
    (fractionDigits : ∀ d ∈ fraction, d.isDigit = true)
    (tailEq : tail = '.' :: fraction ∨ tail = [] ∧ fraction = []) :
    readDecimal? (whole ++ tail) =
      some (roundUnits (digitsValue (whole ++ fraction) * 2 ^ 149) (10 ^ fraction.length)) := by
  have stop : tail.takeWhile Char.isDigit = [] ∧ tail.dropWhile Char.isDigit = tail := by
    rcases tailEq with rfl | ⟨rfl, -⟩ <;> exact ⟨rfl, rfl⟩
  have filled : (whole.isEmpty && fraction.isEmpty) = false := by
    rw [List.isEmpty_eq_false_iff.mpr nonempty, Bool.false_and]
  rw [readDecimal?, List.takeWhile_append_of_pos wholeDigits,
    List.dropWhile_append_of_pos wholeDigits, stop.1, stop.2, List.append_nil,
    ← roundDecimal_zero _ (whole ++ fraction).length]
  dsimp only
  split
  · next r =>
      obtain rfl : r = fraction := by simpa using tailEq
      dsimp only
      rw [List.takeWhile_eq_self_iff.mpr fractionDigits,
        List.dropWhile_eq_nil_iff.mpr fractionDigits, filled]
      rfl
  · next noPoint =>
      obtain ⟨rfl, rfl⟩ := tailEq.resolve_left (noPoint fraction)
      dsimp only
      rw [filled]
      rfl

/-- A text with the digits of a decimal is rounded as the decimal is. -/
theorem readDecimal?_of_value {c m : Nat} {fraction tail : List Char} (finite : m < infinity)
    (rounds : RoundsTo (c * 2 ^ 149) (10 ^ 45) m)
    (digits : ∀ d ∈ fraction, d.isDigit = true)
    (tailEq : tail = '.' :: fraction ∨ tail = [] ∧ fraction = []) (short : fraction.length ≤ 45)
    (valueEq : digitsValue fraction * 10 ^ (45 - fraction.length) = c % 10 ^ 45) :
    readDecimal? (Nat.toDigits 10 (c / 10 ^ 45) ++ tail) = some m := by
  have positive : 0 < 10 ^ (45 - fraction.length) := Nat.pow_pos (by decide)
  have scaled : 10 ^ fraction.length * 10 ^ (45 - fraction.length) = 10 ^ 45 := by
    rw [← Nat.pow_add, Nat.add_sub_cancel' short]
  have whole : digitsValue (Nat.toDigits 10 (c / 10 ^ 45) ++ fraction) *
      10 ^ (45 - fraction.length) = c := by
    rw [digitsValue_append, digitsValue_toDigits, Nat.add_mul, Nat.mul_assoc, scaled, valueEq,
      Nat.div_add_mod']
  rw [readDecimal?_of_digits Nat.toDigits_ne_nil (fun d => isDigit_of_mem_toDigits) digits tailEq,
    Option.some_inj, roundUnits_eq_iff (Nat.pow_pos (by decide)) finite,
    ← RoundsTo.scale_iff positive, scaled, Nat.mul_right_comm, whole]
  exact rounds

theorem readDecimal?_positional {c m : Nat} (finite : m < infinity)
    (rounds : RoundsTo (c * 2 ^ 149) (10 ^ 45) m) : readDecimal? (positional c) = some m := by
  rw [positional]
  split
  · next whole =>
      refine readDecimal?_of_value finite rounds (fun d member => ?_) (Or.inr ⟨rfl, rfl⟩)
        (Nat.zero_le 45) ?_
      · cases member
      · rw [whole]
        exact Nat.zero_mul _
  · obtain ⟨short, valueEq⟩ := digitsValue_fractionDigits c
    exact readDecimal?_of_value finite rounds (fun d => isDigit_of_mem_fractionDigits)
      (Or.inl rfl) short valueEq

/-! ## Signs and words -/

theorem toLower_of_isDigit {d : Char} (digit : d.isDigit = true) : d.toLower = d := by
  have low : d.toNat ≤ 57 := (Char.isDigit_iff_toNat.mp digit).2
  apply dif_neg
  rintro ⟨above, -⟩
  have letter : 65 ≤ d.toNat := above
  omega

theorem exists_positional_cons (c : Nat) :
    ∃ d rest, positional c = d :: rest ∧ d.isDigit = true := by
  cases digits : Nat.toDigits 10 (c / 10 ^ 45) with
  | nil => exact absurd digits Nat.toDigits_ne_nil
  | cons d rest =>
      refine ⟨d, _, by rw [positional, digits, List.cons_append], ?_⟩
      exact isDigit_of_mem_toDigits (digits ▸ List.mem_cons_self)

/-- What starts with a digit is no word. -/
theorem readMagnitude?_of_isDigit {d : Char} (digit : d.isDigit = true) (rest : List Char) :
    readMagnitude? (d :: rest) = readDecimal? (d :: rest) := by
  have noWord (word : String) (first : ∀ later, word.toList ≠ d :: later) :
      String.ofList ((d :: rest).map Char.toLower) ≠ word := by
    intro same
    refine first (rest.map Char.toLower) ?_
    rw [← same, String.toList_ofList, List.map_cons, toLower_of_isDigit digit]
  have noLetter {letter : Char} (notDigit : letter.isDigit = false) : letter ≠ d := by
    rintro rfl
    rw [notDigit] at digit
    cases digit
  have notInf := noWord "inf" fun later same =>
    noLetter (by decide : 'i'.isDigit = false) (List.cons.inj same).1
  have notInfinity := noWord "infinity" fun later same =>
    noLetter (by decide : 'i'.isDigit = false) (List.cons.inj same).1
  have notNan := noWord "nan" fun later same =>
    noLetter (by decide : 'n'.isDigit = false) (List.cons.inj same).1
  rw [readMagnitude?, if_neg (not_or.mpr ⟨notInf, notInfinity⟩), if_neg notNan]

theorem splitSign_of_isDigit {d : Char} (digit : d.isDigit = true) (rest : List Char) :
    splitSign (d :: rest) = (false, d :: rest) := by
  unfold splitSign
  split
  · next sign =>
      cases sign
      cases digit
  · next sign =>
      cases sign
      cases digit
  · rfl

/-! ## Numbers -/

theorem ofMagnitude_magnitude (x : Binary32) : ofMagnitude x.isNegative x.magnitude = x := by
  have word : x.bits.toNat < 2 ^ 32 := x.bits.toNat_lt
  have bitsEq : x.magnitude + (if x.isNegative = true then 2 ^ 31 else 0) = x.bits.toNat := by
    unfold magnitude isNegative
    split
    · next negative =>
        have high := of_decide_eq_true negative
        omega
    · next positive =>
        rw [decide_eq_true_iff] at positive
        omega
  rw [ofMagnitude, bitsEq, UInt32.ofNat_toNat]

/-- A text without a sign, behind the sign. -/
theorem ofCharacters?_signed {negative : Bool} {s : List Char}
    (unsigned : splitSign s = (false, s)) :
    ofCharacters? ((if negative then ['-'] else []) ++ s) =
      (readMagnitude? s).map (ofMagnitude negative) := by
  cases negative with
  | false =>
      rw [if_neg Bool.false_ne_true, List.nil_append, ofCharacters?, unsigned]
  | true => rfl

/-- Writing and reading a number gives the number. -/
theorem ofCharacters?_characters {x : Binary32} (number : x.isNaN = false) :
    ofCharacters? x.characters = some x := by
  have unsigned {s : List Char} (split : splitSign s = (false, s))
      (read : readMagnitude? s = some x.magnitude) :
      ofCharacters? ((if x.isNegative then ['-'] else []) ++ s) = some x := by
    rw [ofCharacters?_signed split, read, Option.map_some, ofMagnitude_magnitude]
  have atMost : ¬ infinity < x.magnitude := of_decide_eq_false number
  rw [characters, number, if_neg Bool.false_ne_true]
  by_cases infinite : x.isInfinite = true
  · rw [if_pos infinite]
    refine unsigned rfl ?_
    rw [beq_iff_eq.mp infinite]
    rfl
  · have finite : x.magnitude < infinity := by
      have notInfinity : x.magnitude ≠ infinity := fun same => infinite (beq_iff_eq.mpr same)
      omega
    rw [if_neg infinite]
    obtain ⟨d, rest, digits, digit⟩ := exists_positional_cons (shortest x.magnitude)
    have read := readDecimal?_positional finite (roundsTo_shortest x.magnitude)
    rw [digits] at read ⊢
    exact unsigned (splitSign_of_isDigit digit rest)
      ((readMagnitude?_of_isDigit digit rest).trans read)

/-- What is not a number is read as the one word for that. -/
theorem ofCharacters?_characters_nan {x : Binary32} (undefined : x.isNaN = true) :
    ofCharacters? x.characters = some nan := by
  rw [characters, undefined, if_pos rfl]
  rfl

theorem isBlank_of_mem_characters {x : Binary32} {d : Char} (member : d ∈ x.characters) :
    isBlank d = false := by
  have word {letters : List Char} (solid : (letters.all fun d => !isBlank d) = true)
      (inWord : d ∈ letters) : isBlank d = false :=
    Bool.not_eq_true' _ ▸ List.all_eq_true.mp solid d inWord
  rw [characters] at member
  split at member
  · exact word (by decide) member
  · rcases List.mem_append.mp member with sign | unsigned
    · split at sign
      · exact word (by decide) sign
      · cases sign
    · split at unsigned
      · exact word (by decide) unsigned
      · rcases mem_positional unsigned with digit | rfl
        · exact isBlank_of_isDigit digit
        · rfl

/-- The text of a number, without blanks around it, is read as the number. -/
theorem ofCharacters?_trim_text {x : Binary32} :
    ofCharacters? (trim x.text.toList) = some (if x.isNaN then nan else x) := by
  rw [text, String.toList_ofList, trim_eq_self fun d => isBlank_of_mem_characters]
  split
  · next undefined => exact ofCharacters?_characters_nan undefined
  · next number => exact ofCharacters?_characters (Bool.not_eq_true _ ▸ number)

/-- One tenth is no binary32 number, and the nearest one is written as one tenth. -/
example : (⟨0x3dcccccd⟩ : Binary32).characters = ['0', '.', '1'] := by decide

end FrameGraph.Binary32
