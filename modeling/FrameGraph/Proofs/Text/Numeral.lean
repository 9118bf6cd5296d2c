import FrameGraph.Text.Blank
import FrameGraph.Text.Numeral
import Mathlib.Data.List.Basic
import Mathlib.Data.Nat.Digits.Defs

/-!
# Numerals read back

The decimal numeral of a number is read as that number, and trimming leaves it as it is.
-/

namespace FrameGraph.Text

/-! ## Blanks -/

theorem isBlank_of_isDigit {c : Char} (digit : c.isDigit = true) : isBlank c = false := by
  have low : 48 ≤ c.toNat := (Char.isDigit_iff_toNat.mp digit).1
  have high : c.toNat ≤ 57 := (Char.isDigit_iff_toNat.mp digit).2
  simp only [isBlank, blankRanges, List.any_cons, List.any_nil, Bool.or_eq_false_iff,
    Bool.and_eq_false_iff, decide_eq_false_iff_not, and_true]
  omega

theorem dropWhile_isBlank {s : List Char} (solid : ∀ c ∈ s, isBlank c = false) :
    s.dropWhile isBlank = s := by
  cases s with
  | nil => rfl
  | cons c rest => simp [solid c List.mem_cons_self]

theorem trim_eq_self {s : List Char} (solid : ∀ c ∈ s, isBlank c = false) : trim s = s := by
  have backwards : ∀ c ∈ s.reverse, isBlank c = false :=
    fun c member => solid c (List.mem_reverse.mp member)
  rw [trim, dropWhile_isBlank solid, dropWhile_isBlank backwards, List.reverse_reverse]

/-! ## Digits -/

theorem digitsValue_eq_ofDigitChars (s : List Char) :
    digitsValue s = Nat.ofDigitChars 10 s 0 := rfl

@[simp]
theorem digitsValue_toDigits (n : Nat) : digitsValue (Nat.toDigits 10 n) = n :=
  Nat.ofDigitChars_ten_toDigits

theorem digitsValue_append (s t : List Char) :
    digitsValue (s ++ t) = digitsValue s * 10 ^ t.length + digitsValue t := by
  rw [digitsValue_eq_ofDigitChars, digitsValue_eq_ofDigitChars, digitsValue_eq_ofDigitChars,
    Nat.ofDigitChars_append, Nat.ofDigitChars_eq_ofDigitChars_zero, Nat.mul_comm]

@[simp]
theorem digitsValue_replicate_zero (k : Nat) : digitsValue (List.replicate k '0') = 0 := by
  rw [digitsValue_eq_ofDigitChars, Nat.ofDigitChars_replicate_zero, Nat.mul_zero]

/-- Zeros in front of a numeral do not change its value. -/
@[simp]
theorem digitsValue_paddedDigits (width n : Nat) : digitsValue (paddedDigits 10 width n) = n := by
  rw [paddedDigits, digitsValue_append, digitsValue_replicate_zero, digitsValue_toDigits,
    Nat.zero_mul, Nat.zero_add]

theorem length_paddedDigits {width n : Nat} (positive : 0 < width) (fits : n < 10 ^ width) :
    (paddedDigits 10 width n).length = width := by
  rw [paddedDigits, List.length_append, List.length_replicate]
  exact Nat.sub_add_cancel (Nat.toDigits_length 10 n width positive fits)

theorem isDigit_of_mem_toDigits {n : Nat} {c : Char} (member : c ∈ Nat.toDigits 10 n) :
    c.isDigit = true :=
  Nat.isDigit_of_mem_toDigits (by decide) (by decide) member

theorem isDigit_of_mem_paddedDigits {width n : Nat} {c : Char}
    (member : c ∈ paddedDigits 10 width n) : c.isDigit = true := by
  rcases List.mem_append.mp member with zero | digit
  · rw [(List.mem_replicate.mp zero).2]
    rfl
  · exact isDigit_of_mem_toDigits digit

/-- Numerals have no other characters than digits. -/
theorem not_mem_toDigits {c : Char} (notDigit : c.isDigit = false) (n : Nat) :
    c ∉ Nat.toDigits 10 n := by
  intro member
  rw [isDigit_of_mem_toDigits member] at notDigit
  cases notDigit

theorem not_mem_fourDigits {c : Char} (notDigit : c.isDigit = false) (n : Nat) :
    c ∉ (fourDigits n).toList := by
  rw [fourDigits, String.toList_ofList]
  intro member
  rw [isDigit_of_mem_paddedDigits member] at notDigit
  cases notDigit

theorem fourDigits_injective : Function.Injective fourDigits := by
  intro m n same
  have digits : paddedDigits 10 4 m = paddedDigits 10 4 n := String.ofList_injective same
  rw [← digitsValue_paddedDigits 4 m, digits, digitsValue_paddedDigits]

theorem repr_injective : Function.Injective Nat.repr := by
  intro m n same
  have digits : Nat.toDigits 10 m = Nat.toDigits 10 n := String.ofList_injective same
  rw [← digitsValue_toDigits m, digits, digitsValue_toDigits]

theorem readDigits?_toDigits (n : Nat) : readDigits? (Nat.toDigits 10 n) = some n := by
  have digits : (Nat.toDigits 10 n).all Char.isDigit = true :=
    List.all_eq_true.mpr fun c => isDigit_of_mem_toDigits
  rw [readDigits?, if_neg (by simp [Nat.toDigits_ne_nil]), if_pos digits, digitsValue_toDigits]

theorem readWord64?_toDigits {n : Nat} (word : n < 2 ^ 64) :
    readWord64? (Nat.toDigits 10 n) = some n := by
  have unsigned (s : List Char) (digits : ∀ c ∈ s, c.isDigit = true) :
      readWord64? s = (readDigits? s).filter (· < 2 ^ 64) := by
    unfold readWord64?
    split
    · next rest => exact absurd (digits '+' List.mem_cons_self) (by decide)
    · rfl
  rw [unsigned _ fun c => isDigit_of_mem_toDigits, readDigits?_toDigits]
  simp [word]

end FrameGraph.Text
