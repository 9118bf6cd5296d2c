import FrameGraph.Proofs.Machine.Runs

/-!
# Runs over states that stand for others

A context can be laid over another one, so that its states carry something more than the
states below.  When both answer the same and stay in step, a run is the same over both.
-/

namespace FrameGraph

variable {κ κ' : Type} {context : Context κ} {shown : Context κ'} {view : κ → κ'}

def Effect.map (view : κ → κ') : Effect κ → Effect κ'
  | proceed stack state => proceed stack (view state)
  | jump target stack state => jump target stack (view state)
  | exit how state => exit how (view state)

def Machine.Run.map (view : κ → κ') (r : Machine.Run κ) : Machine.Run κ' :=
  ⟨r.exit, r.machine, view r.state⟩

/-- Every state of a context stands for one of another context, which answers the same there
and goes on with what stands for the next state. -/
structure Context.ShownBy (context : Context κ) (shown : Context κ') (view : κ → κ') :
    Prop where
  load : ∀ state index, shown.load (view state) index = context.load state index
  store : ∀ state index c,
    shown.store (view state) index c = (context.store state index c).map view
  texture : ∀ state index, shown.texture (view state) index = context.texture state index
  signature : ∀ state index,
    shown.signature (view state) index = context.signature state index
  call : ∀ state index inputs outputs,
    (shown.call (view state) index).run inputs outputs =
      let outcome := (context.call state index).run inputs outputs
      ⟨Prod.map id view outcome.answer, outcome.inputs, outcome.outputs⟩

/-! ## One instruction -/

namespace Instruction

theorem pushCell_view (limit offset : Nat) (c : Cell) (stack : Stack) (state : κ) :
    pushCell limit offset c stack (view state) =
      (pushCell limit offset c stack state).map view := by
  unfold pushCell
  split <;> rfl

theorem operate_view (limit offset arity : Nat) (value? : List Cell → Option Cell)
    (stack : Stack) (state : κ) :
    operate limit offset arity value? stack (view state) =
      (operate limit offset arity value? stack state).map view := by
  unfold operate
  split
  · rfl
  · split
    · rfl
    · exact pushCell_view _ _ _ _ _

theorem callOperation_view (shows : context.ShownBy shown view) (limit offset index : Nat)
    (stack : Stack) (state : κ) :
    callOperation shown limit offset index stack (view state) =
      (callOperation context limit offset index stack state).map view := by
  unfold callOperation
  rw [shows.signature]
  cases context.signature state index with
  | none => rfl
  | some signature =>
      dsimp only
      rw [shows.call]
      split
      · rfl
      · dsimp only [Prod.map, id_eq]
        split
        · rfl
        · split
          · rfl
          · split <;> rfl

theorem perform_view (shows : context.ShownBy shown view) (i : Instruction)
    (limit offset : Nat) (stack : Stack) (state : κ) :
    i.perform shown limit offset stack (view state) =
      (i.perform context limit offset stack state).map view := by
  cases i with
  | nop | jump target => rfl
  | push a =>
      rw [perform, perform, shows.texture, shows.load]
      split
      · split
        · rfl
        · exact pushCell_view _ _ _ _ _
      · split
        · rfl
        · exact pushCell_view _ _ _ _ _
  | pop a =>
      rw [perform, perform]
      split
      · rfl
      · split
        · rfl
        · next c rest _ =>
            rw [shows.store]
            cases context.store state a.index c <;> rfl
  | numeric op mode | logical op => exact operate_view _ _ _ _ _ _
  | jumpIf expected target =>
      rw [perform, perform]
      split
      · rfl
      · split <;> rfl
  | call index => exact callOperation_view shows _ _ _ _ _
  | halt =>
      rw [perform, perform]
      split <;> rfl

end Instruction

/-! ## A run -/

/-- A run over the states that stand for others ends as the run over those. -/
theorem Machine.resume_view (shows : context.ShownBy shown view) (program : Program)
    (steps : Nat) (m : Machine) (state : κ) :
    resume shown program steps m (view state) =
      (resume context program steps m state).map view := by
  induction steps generalizing m state with
  | zero => rfl
  | succ steps inductionHypothesis =>
      rw [resume, resume, step, step]
      cases Instruction.decode program.bytes m.pointer with
      | error trap => rfl
      | ok i =>
          dsimp only
          rw [i.perform_view shows]
          cases i.perform context m.stackLimit m.pointer m.stack state with
          | proceed stack next | jump target stack next => exact inductionHypothesis _ next
          | exit exit final => rfl

end FrameGraph
