import FrameGraph.Proofs.Compiler.Success

/-!
# Computations that fail

A fold fails with the fault of the first element that has one, where the fault of an element may
depend on the elements before it.
-/

namespace FrameGraph

section FirstFault

variable {α ε σ : Type} {Fault : List α → α → ε → Prop}

/-- A fault of the first element of a list that has one, each element seen behind those before
it. -/
inductive FirstFault (Fault : List α → α → ε → Prop) : List α → List α → ε → Prop
  | here {done rest : List α} {a : α} {fault : ε} (faulty : Fault done a fault) :
      FirstFault Fault done (a :: rest) fault
  | later {done rest : List α} {a : α} {fault : ε} (sound : ∀ other, ¬ Fault done a other)
      (next : FirstFault Fault (done ++ [a]) rest fault) : FirstFault Fault done (a :: rest) fault

theorem FirstFault.exists_split {done l : List α} {fault : ε}
    (first : FirstFault Fault done l fault) :
    ∃ before a after, l = before ++ a :: after ∧ Fault (done ++ before) a fault := by
  induction first with
  | @here done rest a fault faulty =>
      refine ⟨[], a, rest, rfl, ?_⟩
      rw [List.append_nil]
      exact faulty
  | @later done rest a fault sound next inductionHypothesis =>
      obtain ⟨before, b, after, split, faulty⟩ := inductionHypothesis
      refine ⟨a :: before, b, after, congrArg (a :: ·) split, ?_⟩
      rw [List.append_cons]
      exact faulty

theorem bind_eq_error_iff {β : Type} {x : Except ε α} {f : α → Except ε β} {fault : ε} :
    x >>= f = .error fault ↔ x = .error fault ∨ ∃ a, x = .ok a ∧ f a = .error fault := by
  cases x with
  | error other => simp [bind, Except.bind]
  | ok a => simp [bind, Except.bind]

/-! ## Folds -/

variable {f : σ → α → Except ε σ}

/-- What every successful step keeps of the elements done so far. -/
theorem foldlM_ok_done (Invariant : List α → σ → Prop)
    (keeps : ∀ done a s next, Invariant done s → f s a = .ok next → Invariant (done ++ [a]) next)
    {done l : List α} {s final : σ} (start : Invariant done s)
    (success : l.foldlM f s = .ok final) : Invariant (done ++ l) final := by
  induction l generalizing done s with
  | nil =>
      cases success
      rw [List.append_nil]
      exact start
  | cons a rest inductionHypothesis =>
      obtain ⟨next, first, others⟩ := foldlM_eq_ok_iff.mp success
      rw [List.append_cons]
      exact inductionHypothesis (keeps done a s next start first) (foldlM_eq_ok_iff.mpr others)

/-- A fold fails with the first fault of its elements. -/
theorem foldlM_eq_error_iff (Invariant : List α → σ → Prop)
    (fails : ∀ done a s fault, Invariant done s → (f s a = .error fault ↔ Fault done a fault))
    (keeps : ∀ done a s next, Invariant done s → f s a = .ok next → Invariant (done ++ [a]) next)
    {done l : List α} {s : σ} {fault : ε} (start : Invariant done s) :
    l.foldlM f s = .error fault ↔ FirstFault Fault done l fault := by
  induction l generalizing done s with
  | nil =>
      constructor
      · intro failure
        cases failure
      · intro first
        cases first
  | cons a rest inductionHypothesis =>
      rw [List.foldlM_cons, bind_eq_error_iff]
      constructor
      · intro failure
        rcases failure with failure | ⟨next, success, failure⟩
        · exact .here ((fails done a s fault start).mp failure)
        · have sound (other : ε) : ¬ Fault done a other := fun faulty => by
            rw [(fails done a s other start).mpr faulty] at success
            cases success
          exact .later sound ((inductionHypothesis (keeps done a s next start success)).mp failure)
      · intro first
        cases first with
        | here faulty => exact .inl ((fails done a s fault start).mpr faulty)
        | later sound next =>
            cases step : f s a with
            | error other => exact absurd ((fails done a s other start).mp step) (sound other)
            | ok after =>
                exact .inr ⟨after, rfl,
                  (inductionHypothesis (keeps done a s after start step)).mpr next⟩

end FirstFault

end FrameGraph
