import FrameGraph.Registry
import Mathlib.Algebra.Ring.Nat

/-!
# Computations that succeed

A computation that may fail succeeds when all its parts do.  Successful sequences are
taken apart here, with and without a world, and what every successful step keeps is
carried through a fold.
-/

namespace FrameGraph

/-! ## Steps in a row -/

section Chained

variable {α σ : Type}

/-- A step for each element of a list, in order, leads from one state to another. -/
def Chained (step : α → σ → σ → Prop) : List α → σ → σ → Prop
  | [], s, final => s = final
  | a :: rest, s, final => ∃ next, step a s next ∧ Chained step rest next final

namespace Chained

variable {step : α → σ → σ → Prop} {l : List α} {s final : σ}

/-- What every step keeps, where it may depend on the elements that are left, holds at
the end. -/
theorem invariant (Invariant : List α → σ → Prop)
    (keeps : ∀ a rest s next, Invariant (a :: rest) s → step a s next → Invariant rest next)
    (start : Invariant l s) (chained : Chained step l s final) : Invariant [] final := by
  induction l generalizing s with
  | nil =>
      cases chained
      exact start
  | cons a rest inductionHypothesis =>
      obtain ⟨next, first, others⟩ := chained
      exact inductionHypothesis (keeps a rest s next start first) others

/-- Steps can be imitated one by one from a related state. -/
theorem simulate {τ : Type} {other : α → τ → τ → Prop} (Related : σ → τ → Prop)
    (imitate : ∀ a ∈ l, ∀ s next t, Related s t → step a s next →
      ∃ otherNext, other a t otherNext ∧ Related next otherNext)
    {t : τ} (start : Related s t) (chained : Chained step l s final) :
    ∃ otherFinal, Chained other l t otherFinal ∧ Related final otherFinal := by
  induction l generalizing s t with
  | nil =>
      cases chained
      exact ⟨t, rfl, start⟩
  | cons a rest inductionHypothesis =>
      obtain ⟨next, first, others⟩ := chained
      obtain ⟨otherNext, otherFirst, related⟩ :=
        imitate a List.mem_cons_self s next t start first
      obtain ⟨otherFinal, otherRest, relatedFinal⟩ := inductionHypothesis
        (fun b member => imitate b (List.mem_cons_of_mem a member)) related others
      exact ⟨otherFinal, ⟨otherNext, otherFirst, otherRest⟩, relatedFinal⟩

/-- When every step uses up its share of a limited stock, all steps can be taken exactly
when all elements are valid and their shares fit together. -/
theorem exists_iff (Invariant : List α → σ → Prop) (used : σ → Nat) {Valid : α → Prop}
    {need : α → Nat} {limit : Nat}
    (possible : ∀ a rest s, Invariant (a :: rest) s →
      ((∃ next, step a s next) ↔ Valid a ∧ used s + need a ≤ limit))
    (keeps : ∀ a rest s next, Invariant (a :: rest) s → step a s next →
      Invariant rest next ∧ used next = used s + need a)
    (start : Invariant l s) (room : used s ≤ limit) :
    (∃ final, Chained step l s final) ↔
      (∀ a ∈ l, Valid a) ∧ used s + (l.map need).sum ≤ limit := by
  induction l generalizing s with
  | nil => simpa [Chained] using room
  | cons a rest inductionHypothesis =>
      rw [List.forall_mem_cons, List.map_cons, List.sum_cons, ← Nat.add_assoc]
      constructor
      · rintro ⟨final, next, first, others⟩
        have here := (possible a rest s start).mp ⟨next, first⟩
        obtain ⟨kept, usedEq⟩ := keeps a rest s next start first
        have later := (inductionHypothesis kept (usedEq ▸ here.2)).mp ⟨final, others⟩
        rw [usedEq] at later
        exact ⟨⟨here.1, later.1⟩, later.2⟩
      · rintro ⟨⟨valid, allValid⟩, fits⟩
        have fitsHere : used s + need a ≤ limit := Nat.le_of_add_right_le fits
        obtain ⟨next, first⟩ := (possible a rest s start).mpr ⟨valid, fitsHere⟩
        obtain ⟨kept, usedEq⟩ := keeps a rest s next start first
        obtain ⟨final, others⟩ := (inductionHypothesis kept (usedEq ▸ fitsHere)).mpr
          ⟨allValid, usedEq ▸ fits⟩
        exact ⟨final, next, first, others⟩

end Chained

end Chained

/-! ## Without a world -/

section Pure

variable {ε α β : Type}

theorem bind_eq_ok_iff {x : Except ε α} {f : α → Except ε β} {b : β} :
    x >>= f = .ok b ↔ ∃ a, x = .ok a ∧ f a = .ok b := by
  cases x with
  | error fault => simp [bind, Except.bind]
  | ok a => simp [bind, Except.bind]

theorem map_eq_ok_iff {x : Except ε α} {f : α → β} {b : β} :
    x.map f = .ok b ↔ ∃ a, x = .ok a ∧ f a = b := by
  cases x with
  | error fault => simp [Except.map]
  | ok a => simp [Except.map]

theorem map_eq_error_iff {x : Except ε α} {f : α → β} {fault : ε} :
    x.map f = .error fault ↔ x = .error fault := by
  cases x with
  | error other => simp [Except.map]
  | ok a => simp [Except.map]

theorem pure_eq_ok_iff {a b : α} : (pure a : Except ε α) = .ok b ↔ b = a := by
  simp [pure, Except.pure, eq_comm]

/-- A successful fold is a row of successful steps. -/
theorem foldlM_eq_ok_iff {f : β → α → Except ε β} {l : List α} {s final : β} :
    l.foldlM f s = .ok final ↔ Chained (fun a s next => f s a = .ok next) l s final := by
  induction l generalizing s with
  | nil => simp [Chained, pure, Except.pure]
  | cons a rest inductionHypothesis =>
      rw [List.foldlM_cons, bind_eq_ok_iff, Chained]
      simp only [inductionHypothesis]

/-- What every successful step keeps, where it may depend on the elements that are
left, holds at the end of a successful fold. -/
theorem foldlM_ok_invariant {f : β → α → Except ε β} (Invariant : List α → β → Prop)
    (step : ∀ a rest s after, Invariant (a :: rest) s → f s a = .ok after →
      Invariant rest after)
    {l : List α} {s final : β} (start : Invariant l s) (success : l.foldlM f s = .ok final) :
    Invariant [] final :=
  (foldlM_eq_ok_iff.mp success).invariant Invariant step start

end Pure

/-! ## In a world -/

namespace Build

variable {ω α β : Type}

/-- What a computation leads to in a world. -/
def outcome (x : Build ω α) (world : ω) : Except Error α × ω := x.run.run world

/-- The computation succeeds with a value, and leaves a world behind. -/
def Succeeds (x : Build ω α) (world : ω) (a : α) (after : ω) : Prop :=
  x.outcome world = (.ok a, after)

theorem outcome_bind (x : Build ω α) (f : α → Build ω β) (world : ω) :
    (x >>= f).outcome world =
      match x.outcome world with
      | (.ok a, between) => (f a).outcome between
      | (.error fault, between) => (.error fault, between) := by
  simp only [outcome, ExceptT.run_bind, StateT.run_bind]
  rcases x.run.run world with ⟨_ | _, between⟩ <;> rfl

theorem succeeds_bind_iff {x : Build ω α} {f : α → Build ω β} {world after : ω} {b : β} :
    Succeeds (x >>= f) world b after ↔
      ∃ a between, Succeeds x world a between ∧ Succeeds (f a) between b after := by
  unfold Succeeds
  rw [outcome_bind]
  rcases x.outcome world with ⟨fault | a, between⟩ <;> simp [and_assoc]

theorem succeeds_pure_iff {world after : ω} {a b : α} :
    Succeeds (pure a) world b after ↔ a = b ∧ world = after := by
  have opened : (pure a : Build ω α).outcome world = (.ok a, world) := rfl
  simp [Succeeds, opened]

theorem outcome_lift (x : Except Error α) (world : ω) :
    (liftM x : Build ω α).outcome world = (x, world) := by
  cases x <;> rfl

theorem succeeds_lift_iff {x : Except Error α} {world after : ω} {a : α} :
    Succeeds (liftM x : Build ω α) world a after ↔ x = .ok a ∧ world = after := by
  simp [Succeeds, outcome_lift]

/-- A fold that succeeds is a row of steps that succeed, each in the world that the one
before it leaves behind. -/
theorem succeeds_foldlM_iff {f : β → α → Build ω β} {l : List α} {s final : β}
    {world after : ω} :
    Succeeds (l.foldlM f s) world final after ↔
      Chained (fun a now next => Succeeds (f now.1 a) now.2 next.1 next.2) l (s, world)
        (final, after) := by
  induction l generalizing s world with
  | nil => simp [Chained, succeeds_pure_iff]
  | cons a rest inductionHypothesis =>
      rw [List.foldlM_cons, succeeds_bind_iff, Chained, Prod.exists]
      simp only [inductionHypothesis]

theorem foldlM_invariant {f : β → α → Build ω β} (Invariant : List α → β → Prop)
    (step : ∀ a rest s world after next, Invariant (a :: rest) s →
      Succeeds (f s a) world after next → Invariant rest after)
    {l : List α} {s final : β} {world after : ω} (start : Invariant l s)
    (success : Succeeds (l.foldlM f s) world final after) : Invariant [] final :=
  (succeeds_foldlM_iff.mp success).invariant (fun rest now => Invariant rest now.1)
    (fun a rest now next => step a rest now.1 now.2 next.1 next.2) start

end Build

end FrameGraph
