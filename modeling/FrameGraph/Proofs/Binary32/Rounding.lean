import FrameGraph.Binary32.Basic
import Mathlib.Data.Nat.Dist
import Mathlib.Order.Monotone.Basic

/-!
# Rounding to the nearest number

Magnitudes and the numbers that they denote are in the same order, and a fraction of units is
rounded to the magnitude whose number is nearest, a tie to the even magnitude.
-/

namespace FrameGraph

/-- A quotient is rounded by at most a half, and a half goes to the even number. -/
theorem roundHalfEven_spec (num : Nat) {den : Nat} (positive : 0 < den) :
    2 * (roundHalfEven num den * den) ≤ 2 * num + den ∧
      2 * num ≤ 2 * (roundHalfEven num den * den) + den ∧
      (2 * (roundHalfEven num den * den) = 2 * num + den ∨
        2 * num = 2 * (roundHalfEven num den * den) + den → roundHalfEven num den % 2 = 0) := by
  have split : num / den * den + num % den = num := Nat.div_add_mod' num den
  have small : num % den < den := Nat.mod_lt num positive
  unfold roundHalfEven
  dsimp only
  split
  · rw [Nat.add_mul, Nat.one_mul]
    omega
  · omega

theorem roundHalfEven_bounds (num den : Nat) :
    num / den ≤ roundHalfEven num den ∧ roundHalfEven num den ≤ num / den + 1 := by
  unfold roundHalfEven
  dsimp only
  split <;> omega

namespace Binary32

/-! ## The order of magnitudes -/

/-- A significand of up to 24 bits, scaled by a shift, is the number of the magnitude in which
the shift stands above the significand.  Without its highest bit it cannot be shifted. -/
theorem units_significand {shift s : Nat} (normal : shift = 0 ∨ 2 ^ 23 ≤ s) (short : s ≤ 2 ^ 24) :
    units (shift * 2 ^ 23 + s) = s * 2 ^ shift := by
  unfold units
  split
  · next below =>
      obtain rfl : shift = 0 := by omega
      rw [Nat.zero_mul, Nat.zero_add, Nat.pow_zero, Nat.mul_one]
  · next notBelow =>
      rcases Nat.lt_or_eq_of_le short with below | rfl
      · rw [show (shift * 2 ^ 23 + s) % 2 ^ 23 + 2 ^ 23 = s by omega,
          show (shift * 2 ^ 23 + s) / 2 ^ 23 - 1 = shift by omega]
      · -- A carry out of the significand is one more shift.
        rw [show (shift * 2 ^ 23 + 2 ^ 24) % 2 ^ 23 + 2 ^ 23 = 2 ^ 23 by omega,
          show (shift * 2 ^ 23 + 2 ^ 24) / 2 ^ 23 - 1 = shift + 1 by omega, Nat.pow_succ]
        omega

theorem exists_significand (m : Nat) :
    ∃ shift s, m = shift * 2 ^ 23 + s ∧ (shift = 0 ∨ 2 ^ 23 ≤ s) ∧ s < 2 ^ 24 :=
  ⟨m / 2 ^ 23 - 1, m - (m / 2 ^ 23 - 1) * 2 ^ 23, by omega, by omega, by omega⟩

theorem units_strictMono : StrictMono units := by
  refine strictMono_nat_of_lt_succ fun m => ?_
  obtain ⟨shift, s, rfl, normal, short⟩ := exists_significand m
  rw [Nat.add_assoc, units_significand normal (Nat.le_of_lt short),
    units_significand (by omega) short]
  exact Nat.mul_lt_mul_of_pos_right (Nat.lt_succ_self s) (Nat.two_pow_pos shift)

/-- The number before that of a significand is one place below it, or nearer if it has less
shift. -/
theorem units_pred_significand {shift s : Nat} (normal : shift = 0 ∨ 2 ^ 23 ≤ s)
    (short : s ≤ 2 ^ 24) (nonzero : s ≠ 0) :
    units (shift * 2 ^ 23 + s - 1) + 2 ^ shift = s * 2 ^ shift ∨
      (shift ≠ 0 ∧ s = 2 ^ 23 ∧ units (shift * 2 ^ 23 + s - 1) < s * 2 ^ shift) := by
  by_cases unshifted : shift = 0 ∨ 2 ^ 23 ≤ s - 1
  · rw [Nat.add_sub_assoc (Nat.pos_of_ne_zero nonzero), units_significand unshifted (by omega),
      ← Nat.succ_mul, Nat.succ_eq_add_one, Nat.sub_add_cancel (Nat.pos_of_ne_zero nonzero)]
    exact Or.inl rfl
  · rw [← units_significand normal short]
    exact Or.inr ⟨by omega, by omega, units_strictMono (by omega)⟩

/-- The number after that of a significand is one place above it, or further away if that is a
carry. -/
theorem units_succ_significand {shift s : Nat} (normal : shift = 0 ∨ 2 ^ 23 ≤ s)
    (short : s ≤ 2 ^ 24) :
    units (shift * 2 ^ 23 + s + 1) = s * 2 ^ shift + 2 ^ shift ∨
      (s = 2 ^ 24 ∧ s * 2 ^ shift + 2 ^ shift ≤ units (shift * 2 ^ 23 + s + 1)) := by
  rcases Nat.lt_or_eq_of_le short with below | rfl
  · rw [Nat.add_assoc, units_significand (by omega) below, Nat.succ_mul]
    exact Or.inl rfl
  · rw [show shift * 2 ^ 23 + 2 ^ 24 + 1 = (shift + 1) * 2 ^ 23 + (2 ^ 23 + 1) by omega,
      units_significand (Or.inr (by omega)) (by omega), Nat.pow_succ]
    exact Or.inr ⟨rfl, by omega⟩

/-! ## Rounding intervals -/

/-- The fraction `num / den` of units lies in the rounding interval of a magnitude: between the
midpoints to the two neighbours, and on a midpoint only if the magnitude is even. -/
structure RoundsTo (num den m : Nat) : Prop where
  above : (units (m - 1) + units m) * den ≤ 2 * num
  below : 2 * num ≤ (units m + units (m + 1)) * den
  even : (units (m - 1) + units m) * den = 2 * num ∨
    2 * num = (units m + units (m + 1)) * den → m % 2 = 0

theorem roundsTo_iff {num den m : Nat} (positive : 0 < den) :
    RoundsTo num den m ↔
      ((units (m - 1) + units m) * den < 2 * num ∧ 2 * num < (units m + units (m + 1)) * den) ∨
        (m % 2 = 0 ∧ ((units (m - 1) + units m) * den = 2 * num ∨
          2 * num = (units m + units (m + 1)) * den)) := by
  have wide : (units (m - 1) + units m) * den < (units m + units (m + 1)) * den := by
    refine Nat.mul_lt_mul_of_pos_right ?_ positive
    have order := units_strictMono.monotone (Nat.sub_le m 1)
    have apart := units_strictMono (Nat.lt_add_one m)
    omega
  constructor
  · rintro ⟨above, below, even⟩
    omega
  · rintro (⟨above, below⟩ | ⟨even, tie⟩)
    · exact ⟨by omega, by omega, by omega⟩
    · exact ⟨by omega, by omega, fun _ => even⟩

namespace RoundsTo

variable {num den m n : Nat}

/-- A number lies in its own rounding interval. -/
theorem self (m : Nat) (positive : 0 < den) : RoundsTo (units m * den) den m := by
  have down := Nat.mul_le_mul_right den (units_strictMono.monotone (Nat.sub_le m 1))
  have up := Nat.mul_lt_mul_of_pos_right (units_strictMono (Nat.lt_add_one m)) positive
  constructor <;> rw [Nat.add_mul]
  case above => omega
  case below => omega
  case even =>
    rw [Nat.add_mul]
    rintro (tie | tie)
    · -- Only zero has no number before it.
      rcases Nat.eq_zero_or_pos m with rfl | nonzero
      · rfl
      · have apart := Nat.mul_lt_mul_of_pos_right
          (units_strictMono (Nat.sub_lt nonzero Nat.one_pos)) positive
        omega
    · omega

/-- Rounding intervals are convex. -/
theorem between {low high : Nat} (first : RoundsTo low den m) (last : RoundsTo high den m)
    (above : low ≤ num) (below : num ≤ high) : RoundsTo num den m := by
  have lowAbove := first.above
  have highBelow := last.below
  refine ⟨by omega, by omega, ?_⟩
  rintro (tie | tie)
  · exact first.even (Or.inl (by omega))
  · exact last.even (Or.inr (by omega))

/-- The rounding interval of a magnitude lies below those of the higher ones. -/
theorem not_lt (positive : 0 < den) (low : RoundsTo num den m) (high : RoundsTo num den n) :
    ¬ m < n := by
  intro less
  have ends : units m + units (m + 1) ≤ units (n - 1) + units n :=
    Nat.add_le_add (units_strictMono.monotone (by omega)) (units_strictMono.monotone less)
  have meet := Nat.mul_le_mul_right den ends
  have lowBelow := low.below
  have highAbove := high.above
  have lowEven := low.even (Or.inr (by omega))
  have highEven := high.even (Or.inl (by omega))
  -- Only neighbours share an end, and one of two neighbours is odd.
  have sameEnds : units m + units (m + 1) = units (n - 1) + units n :=
    Nat.eq_of_mul_eq_mul_right positive (by omega)
  have apart : m + 1 < n := by omega
  have stretched := units_strictMono apart
  have before : units m ≤ units (n - 1) := units_strictMono.monotone (by omega)
  omega

theorem unique (positive : 0 < den) (first : RoundsTo num den m) (second : RoundsTo num den n) :
    m = n :=
  Nat.le_antisymm (Nat.not_lt.mp (second.not_lt positive first))
    (Nat.not_lt.mp (first.not_lt positive second))

/-- Only the value of the fraction matters. -/
theorem scale_iff {factor : Nat} (positive : 0 < factor) :
    RoundsTo (num * factor) (den * factor) m ↔ RoundsTo num den m := by
  have twice : 2 * (num * factor) = 2 * num * factor := (Nat.mul_assoc ..).symm
  have scaled (sum : Nat) : sum * (den * factor) = sum * den * factor := (Nat.mul_assoc ..).symm
  constructor
  · rintro ⟨above, below, even⟩
    simp only [twice, scaled, Nat.mul_le_mul_right_iff positive,
      Nat.mul_left_inj (Nat.ne_of_gt positive)] at above below even
    exact ⟨above, below, even⟩
  · rintro ⟨above, below, even⟩
    constructor <;> simp only [twice, scaled, Nat.mul_le_mul_right_iff positive,
      Nat.mul_left_inj (Nat.ne_of_gt positive)] <;> assumption

/-- No number is nearer than that of the magnitude whose rounding interval it is. -/
theorem nearest (rounds : RoundsTo num den m) (n : Nat) :
    Nat.dist (units m * den) num ≤ Nat.dist (units n * den) num := by
  have above := rounds.above
  have below := rounds.below
  rw [Nat.add_mul] at above below
  unfold Nat.dist
  rcases Nat.lt_trichotomy n m with less | rfl | greater
  · have far : units n * den ≤ units (m - 1) * den :=
      Nat.mul_le_mul_right den (units_strictMono.monotone (by omega))
    have order : units (m - 1) * den ≤ units m * den :=
      Nat.mul_le_mul_right den (units_strictMono.monotone (Nat.sub_le m 1))
    omega
  · exact Nat.le_refl _
  · have far : units (m + 1) * den ≤ units n * den :=
      Nat.mul_le_mul_right den (units_strictMono.monotone greater)
    have order : units m * den ≤ units (m + 1) * den :=
      Nat.mul_le_mul_right den (units_strictMono.monotone (Nat.le_succ m))
    omega

/-- A fraction is rounded to a significand that is within half a place of it.  Either the place
is one unit, or the fraction fills 24 places. -/
theorem of_significand {shift s : Nat} (positive : 0 < den) (normal : shift = 0 ∨ 2 ^ 23 ≤ s)
    (short : s ≤ 2 ^ 24) (floor : shift = 0 ∨ 2 ^ 23 * (den * 2 ^ shift) ≤ num)
    (above : 2 * (s * (den * 2 ^ shift)) ≤ 2 * num + den * 2 ^ shift)
    (below : 2 * num ≤ 2 * (s * (den * 2 ^ shift)) + den * 2 ^ shift)
    (even : 2 * (s * (den * 2 ^ shift)) = 2 * num + den * 2 ^ shift ∨
      2 * num = 2 * (s * (den * 2 ^ shift)) + den * 2 ^ shift → s % 2 = 0) :
    RoundsTo num den (shift * 2 ^ 23 + s) := by
  rw [Nat.mul_comm den] at floor above below even
  have here : units (shift * 2 ^ 23 + s) * den = s * (2 ^ shift * den) := by
    rw [units_significand normal short, Nat.mul_assoc]
  have previous : s = 0 ∨
      units (shift * 2 ^ 23 + s - 1) * den + 2 ^ shift * den = s * (2 ^ shift * den) ∨
      units (shift * 2 ^ 23 + s - 1) * den < s * (2 ^ shift * den) ∧
        s * (2 ^ shift * den) ≤ num ∧ s % 2 = 0 := by
    refine or_iff_not_imp_left.mpr fun nonzero => ?_
    rcases units_pred_significand normal short nonzero with close | ⟨shifted, rfl, less⟩
    · rw [← Nat.add_mul, close, Nat.mul_assoc]
      exact Or.inl rfl
    · refine Or.inr ⟨?_, floor.resolve_left shifted, rfl⟩
      rw [← Nat.mul_assoc]
      exact Nat.mul_lt_mul_of_pos_right less positive
  have following :
      units (shift * 2 ^ 23 + s + 1) * den = s * (2 ^ shift * den) + 2 ^ shift * den ∨
      s * (2 ^ shift * den) + 2 ^ shift * den ≤ units (shift * 2 ^ 23 + s + 1) * den ∧
        s % 2 = 0 := by
    rcases units_succ_significand normal short with close | ⟨rfl, far⟩
    · rw [close, Nat.add_mul, Nat.mul_assoc]
      exact Or.inl rfl
    · rw [← Nat.mul_assoc, ← Nat.add_mul]
      exact Or.inr ⟨Nat.mul_le_mul_right den far, rfl⟩
  have zero : s = 0 → units (shift * 2 ^ 23 + s - 1) * den = 0 ∧ s * (2 ^ shift * den) = 0 := by
    rintro rfl
    obtain rfl : shift = 0 := by omega
    exact ⟨Nat.zero_mul den, Nat.zero_mul _⟩
  have parity : (shift * 2 ^ 23 + s) % 2 = s % 2 := by omega
  constructor
  case above =>
    rw [Nat.add_mul, here]
    omega
  case below =>
    rw [Nat.add_mul, here]
    omega
  case even =>
    rw [Nat.add_mul, Nat.add_mul, here, parity]
    intro tie
    omega

end RoundsTo

/-- The significand has 24 bits, unless the fraction is too small for that. -/
theorem exists_roundUnits (num : Nat) {den : Nat} (positive : 0 < den) :
    ∃ m, RoundsTo num den m ∧ roundUnits num den = min m infinity := by
  let shift := (num / den).log2 - 23
  have scaled : num / (den * 2 ^ shift) = num / den / 2 ^ shift :=
    (Nat.div_div_eq_div_mul ..).symm
  obtain ⟨atLeast, atMost⟩ := roundHalfEven_bounds num (den * 2 ^ shift)
  rw [scaled] at atLeast atMost
  have short : num / den / 2 ^ shift < 2 ^ 24 := by
    rw [Nat.div_lt_iff_lt_mul (Nat.two_pow_pos shift), ← Nat.pow_add]
    calc num / den < 2 ^ ((num / den).log2 + 1) := Nat.lt_log2_self
      _ ≤ 2 ^ (24 + shift) := Nat.pow_le_pow_right (by decide) (by omega)
  have long : shift = 0 ∨ 2 ^ 23 * 2 ^ shift ≤ num / den := by
    refine or_iff_not_imp_left.mpr fun shifted => ?_
    have bits : (num / den).log2 = 23 + shift := by omega
    rw [← Nat.pow_add, ← bits]
    refine Nat.log2_self_le fun zero => ?_
    rw [zero, Nat.log2_zero] at bits
    omega
  have fullLength : shift = 0 ∨ 2 ^ 23 ≤ num / den / 2 ^ shift :=
    long.imp_right (Nat.le_div_iff_mul_le (Nat.two_pow_pos shift)).mpr
  have floor : shift = 0 ∨ 2 ^ 23 * (den * 2 ^ shift) ≤ num := by
    rw [Nat.mul_comm den, ← Nat.mul_assoc]
    exact long.imp_right (Nat.le_div_iff_mul_le positive).mp
  obtain ⟨above, below, even⟩ :=
    roundHalfEven_spec num (Nat.mul_pos positive (Nat.two_pow_pos shift))
  exact ⟨_, .of_significand positive (by omega) (by omega) floor above below even, rfl⟩

/-- Rounding takes a fraction to the magnitude in whose interval it lies. -/
theorem roundUnits_eq_iff {num den m : Nat} (positive : 0 < den) (finite : m < infinity) :
    roundUnits num den = m ↔ RoundsTo num den m := by
  obtain ⟨n, rounds, roundedEq⟩ := exists_roundUnits num positive
  rw [roundedEq]
  constructor
  · intro same
    obtain rfl : n = m := by omega
    exact rounds
  · intro others
    obtain rfl := rounds.unique positive others
    exact Nat.min_eq_left (Nat.le_of_lt finite)

end Binary32

end FrameGraph
