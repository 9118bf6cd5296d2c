import FrameGraph.Operation

/-!
# Runs of any program

What holds of a run whether or not its program was compiled: steps that are allowed
beyond its end change nothing, the stack limit stays, and what every write and every call
keeps is kept to the end.
-/

namespace FrameGraph

/-! ## Work in sequence -/

theorem Work.run_bind {α β : Type} (w : Work α) (f : α → Work β)
    (inputs outputs : List Cell) :
    (w.bind f).run inputs outputs =
      (f (w.run inputs outputs).answer).run (w.run inputs outputs).inputs
        (w.run inputs outputs).outputs := by
  induction w generalizing inputs outputs with
  | done a => rfl
  | pop next inductionHypothesis =>
      cases inputs with
      | nil => exact inductionHypothesis none [] outputs
      | cons c rest => exact inductionHypothesis (some c) rest outputs
  | push c next inductionHypothesis => exact inductionHypothesis inputs (c :: outputs)
  | remaining next inductionHypothesis =>
      exact inductionHypothesis inputs.length inputs outputs

namespace Machine

variable {κ : Type}

/-! ## Ended runs -/

/-- A run that has ended stays as it is when more steps are allowed. -/
theorem resume_add {context : Context κ} {program : Program} {steps : Nat} {m : Machine}
    {state : κ} (ended : (resume context program steps m state).exit ≠ .outOfSteps)
    (extra : Nat) :
    resume context program (steps + extra) m state =
      resume context program steps m state := by
  induction steps generalizing m state with
  | zero => exact absurd rfl ended
  | succ steps inductionHypothesis =>
      have budget : steps + 1 + extra = (steps + extra) + 1 := by omega
      rw [budget, resume, resume]
      rw [resume] at ended
      cases stepEq : m.step context program state with
      | ended exit last state => rfl
      | running next state =>
          simp only [stepEq] at ended
          exact inductionHypothesis ended

end Machine

/-! ## What a run keeps -/

section Kept

variable {κ τ : Type} {context : Context κ} {view : κ → τ}

/-- The state that an effect leaves behind. -/
def Effect.state : Effect κ → κ
  | proceed _ state | jump _ _ state | exit _ state => state

/-- What is seen of a state stays as it is when a value slot is written and when an operation
is called. -/
structure Context.Keeps (context : Context κ) (view : κ → τ) : Prop where
  store : ∀ state index c after, context.store state index c = some after →
    view after = view state
  call : ∀ state index inputs outputs,
    view ((context.call state index).run inputs outputs).answer.2 = view state

namespace Instruction

/-- An instruction writes a cell, the top of the stack, to a value slot. -/
def Stores (i : Instruction) (stack : Stack) (slot : Nat) (c : Cell) : Prop :=
  match i with
  | .pop a => a.isTexture = false ∧ a.index = slot ∧ ∃ rest, stack.pop? = some (c, rest)
  | _ => False

theorem state_pushCell (limit offset : Nat) (c : Cell) (stack : Stack) (state : κ) :
    (pushCell limit offset c stack state).state = state := by
  unfold pushCell
  split <;> rfl

theorem state_operate (limit offset arity : Nat) (value? : List Cell → Option Cell)
    (stack : Stack) (state : κ) :
    (operate limit offset arity value? stack state).state = state := by
  unfold operate
  split
  · rfl
  · split
    · rfl
    · exact state_pushCell _ _ _ _ _

theorem view_callOperation {index : Nat} {state : κ}
    (keeps : ∀ inputs, view ((context.call state index).run inputs []).answer.2 = view state)
    (limit offset : Nat) (stack : Stack) :
    view (callOperation context limit offset index stack state).state = view state := by
  unfold callOperation
  split
  · rfl
  · next signature _ =>
      split
      · rfl
      · have kept := keeps (stack.top signature.inputs)
        dsimp only
        split
        · exact kept
        · split
          · exact kept
          · split <;> exact kept

/-- An instruction changes the state by a write or by a call.  What every call keeps is kept
if the write keeps it that the instruction makes. -/
theorem view_perform_of_stores {state : κ}
    (calls : ∀ index inputs,
      view ((context.call state index).run inputs []).answer.2 = view state)
    (i : Instruction) (limit offset : Nat) (stack : Stack)
    (writes : ∀ slot c after, i.Stores stack slot c →
      context.store state slot c = some after → view after = view state) :
    view (i.perform context limit offset stack state).state = view state := by
  cases i with
  | nop | jump target => rfl
  | push a =>
      rw [perform]
      split
      · split
        · rfl
        · rw [state_pushCell]
      · split
        · rfl
        · rw [state_pushCell]
  | pop a =>
      rw [perform]
      split
      · rfl
      · next inValues =>
          split
          · rfl
          · next c rest popped =>
              split
              · rfl
              · next after stored =>
                  exact writes a.index c after ⟨eq_false_of_ne_true inValues, rfl,
                    rest, popped⟩ stored
  | numeric op mode =>
      rw [perform]
      rw [state_operate]
  | logical op =>
      rw [perform]
      rw [state_operate]
  | jumpIf expected target =>
      rw [perform]
      split
      · rfl
      · split <;> rfl
  | call index => exact view_callOperation (calls index.toNat) _ _ _
  | halt =>
      rw [perform]
      split <;> rfl

theorem view_perform (keeps : context.Keeps view) (i : Instruction) (limit offset : Nat)
    (stack : Stack) (state : κ) :
    view (i.perform context limit offset stack state).state = view state := by
  apply view_perform_of_stores
  · intro index inputs
    exact keeps.call state index inputs []
  · intro slot c after _ stored
    exact keeps.store state slot c after stored

end Instruction

namespace Machine

/-- A run keeps the stack limit and what every write and every call keeps. -/
theorem resume_keeps (keeps : context.Keeps view) (program : Program) (steps : Nat)
    (m : Machine) (state : κ) :
    (resume context program steps m state).machine.stackLimit = m.stackLimit ∧
      view (resume context program steps m state).state = view state := by
  induction steps generalizing m state with
  | zero => exact ⟨rfl, rfl⟩
  | succ steps inductionHypothesis =>
      rw [resume, step]
      cases Instruction.decode program.bytes m.pointer with
      | error trap => exact ⟨rfl, rfl⟩
      | ok i =>
          have kept := i.view_perform keeps m.stackLimit m.pointer m.stack state
          cases performed : i.perform context m.stackLimit m.pointer m.stack state with
          | proceed stack next | jump target stack next =>
              rw [performed] at kept
              simp only [performed]
              exact ⟨(inductionHypothesis _ next).1,
                (inductionHypothesis _ next).2.trans kept⟩
          | exit exit final =>
              rw [performed] at kept
              simp only [performed]
              exact ⟨trivial, kept⟩

theorem stackLimit_run (context : Context κ) (program : Program) (steps : Nat) (m : Machine)
    (state : κ) : (m.run context program steps state).machine.stackLimit = m.stackLimit := by
  have nothing : context.Keeps fun _ => () :=
    ⟨fun _ _ _ _ _ => rfl, fun _ _ _ _ => rfl⟩
  exact (resume_keeps nothing program steps m.start state).1

end Machine

end Kept

/-! ## Tables -/

/-- A context over a table of values and a table of textures, with operations that see the
cells handed over to them and neither of the tables. -/
structure Context.Tabled {κ : Type} (context : Context κ) (values textures : κ → Array Cell) :
    Prop where
  load : ∀ state index, context.load state index = (values state)[index]?
  texture : ∀ state index, context.texture state index = (textures state)[index]?
  exists_store : ∀ state index c,
    (context.store state index c).isSome ↔ index < (values state).size
  store : ∀ state index c after, context.store state index c = some after →
    values after = (values state).setIfInBounds index c ∧ textures after = textures state
  call : ∀ state index inputs outputs,
    values ((context.call state index).run inputs outputs).answer.2 = values state ∧
      textures ((context.call state index).run inputs outputs).answer.2 = textures state

/-- No write and no call adds or removes value slots. -/
theorem Context.Tabled.keeps_size {κ : Type} {context : Context κ}
    {values textures : κ → Array Cell} (tabled : context.Tabled values textures) :
    context.Keeps fun state => (values state).size where
  store state index c after stored := by
    rw [(tabled.store state index c after stored).1]
    exact Array.size_setIfInBounds
  call state index inputs outputs :=
    congrArg Array.size (tabled.call state index inputs outputs).1

namespace Tables

variable {ω : Type}

/-- Tables whose operations share a world are reached through such a context. -/
theorem tabled (tables : Tables ω) :
    tables.context.Tabled Memory.values fun _ => tables.textures where
  load _ _ := rfl
  texture _ _ := rfl
  exists_store memory index c := by
    by_cases present : index < memory.values.size
    · simp [context, present]
    · simp [context, present]
  store memory index c after stored := by
    simp only [context] at stored
    split at stored
    · cases stored
      exact ⟨rfl, rfl⟩
    · cases stored
  call memory index inputs outputs := by
    refine ⟨?_, rfl⟩
    cases taskEq : tables.tasks[index]? with
    | none => simp only [context, taskEq, Work.run]
    | some task =>
        simp only [context, taskEq, Work.run_bind]
        rfl

end Tables

end FrameGraph
