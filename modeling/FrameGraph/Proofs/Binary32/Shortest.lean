import FrameGraph.Binary32.Text
import FrameGraph.Proofs.Binary32.Rounding

/-!
# The shortest decimal

The decimal that is written for a number reads back as the number.  It lies on the coarsest grid
of a power of ten that has such a decimal, and no other one on that grid is nearer.
-/

namespace FrameGraph.Binary32

theorem readsBack_iff {m c : Nat} :
    readsBack m c = true ↔ RoundsTo (c * 2 ^ 149) (10 ^ 45) m := by
  have twice : 2 * (c * 2 ^ 149) = c * 2 ^ 150 := by omega
  rw [roundsTo_iff (by decide), twice]
  simp only [readsBack, Bool.or_eq_true, Bool.and_eq_true, decide_eq_true_eq, beq_iff_eq]

/-! ## Grids -/

/-- The last point on the grid of `10 ^ k` that is not above the number. -/
def gridFloor (m k : Nat) : Nat := units m * 10 ^ 45 / 2 ^ 149 / 10 ^ k * 10 ^ k

variable {m k c : Nat}

theorem dvd_gridFloor : 10 ^ k ∣ gridFloor m k := Nat.dvd_mul_left _ _

theorem gridFloor_mul_le : gridFloor m k * 2 ^ 149 ≤ units m * 10 ^ 45 :=
  Nat.le_trans (Nat.mul_le_mul_right _ (Nat.div_mul_le_self _ _)) (Nat.div_mul_le_self _ _)

theorem lt_gridFloor_add : units m * 10 ^ 45 < (gridFloor m k + 10 ^ k) * 2 ^ 149 := by
  rw [← Nat.div_lt_iff_lt_mul (Nat.two_pow_pos 149), gridFloor, ← Nat.succ_mul,
    ← Nat.div_lt_iff_lt_mul (Nat.pow_pos (by decide))]
  exact Nat.lt_succ_self _

/-- No point on a grid lies between the two around the number. -/
theorem le_gridFloor_or_le (grid : 10 ^ k ∣ c) :
    c ≤ gridFloor m k ∨ gridFloor m k + 10 ^ k ≤ c := by
  obtain ⟨place, rfl⟩ := grid
  rw [gridFloor, ← Nat.succ_mul, Nat.mul_comm (10 ^ k)]
  rcases Nat.lt_or_ge (units m * 10 ^ 45 / 2 ^ 149 / 10 ^ k) place with above | below
  · exact Or.inr (Nat.mul_le_mul_right _ above)
  · exact Or.inl (Nat.mul_le_mul_right _ below)

/-- If a decimal below the number reads back, so does the last point on a grid that is not above
the number. -/
theorem readsBack_gridFloor (reads : readsBack m c = true) (low : c ≤ gridFloor m k) :
    readsBack m (gridFloor m k) = true := by
  rw [readsBack_iff] at reads ⊢
  exact reads.between (.self m (by decide)) (Nat.mul_le_mul_right _ low) gridFloor_mul_le

theorem readsBack_gridFloor_add (reads : readsBack m c = true)
    (high : gridFloor m k + 10 ^ k ≤ c) : readsBack m (gridFloor m k + 10 ^ k) = true := by
  rw [readsBack_iff] at reads ⊢
  exact RoundsTo.between (.self m (by decide)) reads (Nat.le_of_lt lt_gridFloor_add)
    (Nat.mul_le_mul_right _ high)

/-- How far a decimal is from a number. -/
def distance (m c : Nat) : Nat := Nat.dist (c * 2 ^ 149) (units m * 10 ^ 45)

theorem distance_gridFloor_le (low : c ≤ gridFloor m k) :
    distance m (gridFloor m k) ≤ distance m c := by
  have order := Nat.mul_le_mul_right (2 ^ 149) low
  rw [distance, distance, Nat.dist_eq_sub_of_le gridFloor_mul_le,
    Nat.dist_eq_sub_of_le (Nat.le_trans order gridFloor_mul_le)]
  exact Nat.sub_le_sub_left order _

theorem distance_gridFloor_add_le (high : gridFloor m k + 10 ^ k ≤ c) :
    distance m (gridFloor m k + 10 ^ k) ≤ distance m c := by
  have order := Nat.mul_le_mul_right (2 ^ 149) high
  have above := Nat.le_of_lt (lt_gridFloor_add (m := m) (k := k))
  rw [distance, distance, Nat.dist_eq_sub_of_le_right above,
    Nat.dist_eq_sub_of_le_right (Nat.le_trans above order)]
  exact Nat.sub_le_sub_right order _

theorem distance_gridFloor_add_le_iff :
    distance m (gridFloor m k + 10 ^ k) ≤ distance m (gridFloor m k) ↔
      (gridFloor m k + (gridFloor m k + 10 ^ k)) * 2 ^ 149 ≤ 2 * (units m * 10 ^ 45) := by
  have below := gridFloor_mul_le (m := m) (k := k)
  have above := lt_gridFloor_add (m := m) (k := k)
  rw [distance, distance, Nat.dist_eq_sub_of_le below,
    Nat.dist_eq_sub_of_le_right (Nat.le_of_lt above), Nat.add_mul]
  omega

/-- A decimal on a grid that reads back, and none that does so is nearer. -/
structure NearestOn (m k c : Nat) : Prop where
  reads : readsBack m c = true
  onGrid : 10 ^ k ∣ c
  nearest : ∀ d, 10 ^ k ∣ d → readsBack m d = true → distance m c ≤ distance m d

theorem gridPoint?_eq (m k : Nat) :
    gridPoint? m k =
      if readsBack m (gridFloor m k) then
        if readsBack m (gridFloor m k + 10 ^ k) &&
            distance m (gridFloor m k + 10 ^ k) ≤ distance m (gridFloor m k) then
          some (gridFloor m k + 10 ^ k)
        else some (gridFloor m k)
      else if readsBack m (gridFloor m k + 10 ^ k) then some (gridFloor m k + 10 ^ k)
      else none := by
  simp only [distance_gridFloor_add_le_iff]
  rfl

theorem nearestOn_of_gridPoint? (point : gridPoint? m k = some c) : NearestOn m k c := by
  have grid : 10 ^ k ∣ gridFloor m k + 10 ^ k := Nat.dvd_add dvd_gridFloor (Nat.dvd_refl _)
  rw [gridPoint?_eq] at point
  split at point
  · next low =>
      split at point
      · next both =>
          obtain ⟨high, nearer⟩ := Bool.and_eq_true_iff.mp both
          cases point
          refine ⟨high, grid, fun d onGrid _ => ?_⟩
          rcases le_gridFloor_or_le onGrid with below | above
          · exact Nat.le_trans (of_decide_eq_true nearer) (distance_gridFloor_le below)
          · exact distance_gridFloor_add_le above
      · next notBoth =>
          cases point
          refine ⟨low, dvd_gridFloor, fun d onGrid reads => ?_⟩
          rcases le_gridFloor_or_le onGrid with below | above
          · exact distance_gridFloor_le below
          · rw [readsBack_gridFloor_add reads above, Bool.true_and, decide_eq_true_iff] at notBoth
            exact Nat.le_trans (Nat.le_of_not_le notBoth) (distance_gridFloor_add_le above)
  · next notLow =>
      split at point
      · next high =>
          cases point
          refine ⟨high, grid, fun d onGrid reads => ?_⟩
          rcases le_gridFloor_or_le onGrid with below | above
          · exact absurd (readsBack_gridFloor reads below) notLow
          · exact distance_gridFloor_add_le above
      · cases point

theorem not_readsBack_of_gridPoint? (noPoint : gridPoint? m k = none) (onGrid : 10 ^ k ∣ c) :
    ¬ readsBack m c = true := by
  intro reads
  rw [gridPoint?_eq] at noPoint
  rcases le_gridFloor_or_le (m := m) onGrid with below | above
  · rw [if_pos (readsBack_gridFloor reads below)] at noPoint
    split at noPoint <;> cases noPoint
  · rw [if_pos (readsBack_gridFloor_add reads above)] at noPoint
    split at noPoint
    · split at noPoint <;> cases noPoint
    · cases noPoint

/-! ## The coarsest grid -/

/-- On the finest grid the points are closer than the midpoints around a number. -/
theorem exists_gridPoint?_zero (nonzero : 0 < m) : ∃ c, gridPoint? m 0 = some c := by
  by_contra noPoint
  have noPoint := Option.eq_none_iff_forall_ne_some.mpr (not_exists.mp noPoint)
  have outside (c : Nat) : ¬ RoundsTo (c * 2 ^ 149) (10 ^ 45) m := by
    rw [← readsBack_iff]
    exact not_readsBack_of_gridPoint? noPoint (Nat.one_dvd c)
  have previous : units (m - 1) < units m := units_strictMono (Nat.sub_lt nonzero Nat.one_pos)
  have following : units m < units (m + 1) := units_strictMono (Nat.lt_add_one m)
  have below : gridFloor m 0 * 2 ^ 149 ≤ units m * 10 ^ 45 := gridFloor_mul_le
  have above : units m * 10 ^ 45 < (gridFloor m 0 + 1) * 2 ^ 149 := lt_gridFloor_add
  have belowOutside := outside (gridFloor m 0)
  have aboveOutside := outside (gridFloor m 0 + 1)
  rw [roundsTo_iff (by decide)] at belowOutside aboveOutside
  omega

/-- A decimal that reads back on the coarsest of the grids up to that of `10 ^ last`, as near as
on that grid possible. -/
theorem exists_nearestOn_coarsest (nonzero : 0 < m) (last : Nat) :
    ∃ k ≤ last, NearestOn m k (coarsest m last) ∧
      ∀ j c, k < j → j ≤ last → 10 ^ j ∣ c → ¬ readsBack m c = true := by
  induction last with
  | zero =>
      obtain ⟨c, point⟩ := exists_gridPoint?_zero nonzero
      refine ⟨0, Nat.le_refl 0, ?_, by omega⟩
      rw [coarsest, point, Option.getD_some]
      exact nearestOn_of_gridPoint? point
  | succ last inductionHypothesis =>
      rw [coarsest]
      cases point : gridPoint? m (last + 1) with
      | some c => exact ⟨last + 1, Nat.le_refl _, nearestOn_of_gridPoint? point, by omega⟩
      | none =>
          obtain ⟨k, early, nearest, coarser⟩ := inductionHypothesis
          refine ⟨k, Nat.le_succ_of_le early, nearest, fun j c above upTo onGrid => ?_⟩
          rcases Nat.lt_or_eq_of_le upTo with before | rfl
          · exact coarser j c above (Nat.le_of_lt_succ before) onGrid
          · exact not_readsBack_of_gridPoint? point onGrid

/-! ## The shortest decimal -/

/-- What is written for a number is rounded to that number. -/
theorem roundsTo_shortest (m : Nat) : RoundsTo (shortest m * 2 ^ 149) (10 ^ 45) m := by
  unfold shortest
  split
  · next zero =>
      have inside : RoundsTo (units 0 * 10 ^ 45) (10 ^ 45) 0 := .self 0 (by decide)
      rw [show units 0 = 0 from rfl, Nat.zero_mul] at inside
      rwa [zero, Nat.zero_mul]
  · next nonzero =>
      obtain ⟨k, -, nearest, -⟩ := exists_nearestOn_coarsest (Nat.pos_of_ne_zero nonzero) 84
      exact readsBack_iff.mp nearest.reads

/-- A decimal that reads back as a finite number is below `10 ^ 40`. -/
theorem lt_of_readsBack (finite : m < infinity) (reads : readsBack m c = true) : c < 10 ^ 85 := by
  have here : units m ≤ units infinity := units_strictMono.monotone (Nat.le_of_lt finite)
  have following : units (m + 1) ≤ units infinity := units_strictMono.monotone finite
  have top : units infinity = 2 ^ 23 * 2 ^ 254 := by
    rw [show infinity = 254 * 2 ^ 23 + 2 ^ 23 from rfl]
    exact units_significand (Or.inr (Nat.le_refl _)) (by decide)
  have below := (readsBack_iff.mp reads).below
  omega

/-- No decimal with fewer digits behind the point, or with more zeros before it, reads back, and
no other one with as many is nearer. -/
theorem exists_nearestOn_shortest (nonzero : 0 < m) (finite : m < infinity) :
    ∃ k, NearestOn m k (shortest m) ∧ ∀ c, 10 ^ (k + 1) ∣ c → ¬ readsBack m c = true := by
  obtain ⟨k, bound, nearest, coarser⟩ := exists_nearestOn_coarsest nonzero 84
  rw [shortest, if_neg (Nat.ne_of_gt nonzero)]
  refine ⟨k, nearest, fun c onGrid reads => ?_⟩
  rcases Nat.lt_or_eq_of_le bound with below | rfl
  · exact coarser (k + 1) c (Nat.lt_succ_self k) below onGrid reads
  · -- Zero is the only decimal that is left, and no other number is rounded to it.
    obtain rfl : c = 0 := Nat.eq_zero_of_dvd_of_lt onGrid (lt_of_readsBack finite reads)
    have above := (readsBack_iff.mp reads).above
    have positive : units 0 < units m := units_strictMono nonzero
    omega

end FrameGraph.Binary32
