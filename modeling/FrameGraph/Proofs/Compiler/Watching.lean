import FrameGraph.Proofs.Compiler.Equipment

/-!
# Watched compilations

A watched operation notes every initialization and every release that it receives under the
number with which it was made.  A compilation does the same with watched operations as with the
operations themselves, so that the notes tell what it does with any operations.
-/

namespace FrameGraph

open Compiler

variable {ω : Type}

/-! ## Watching -/

/-- What an operation can receive once in its life; an initialization is noted with the answer
of the operation. -/
inductive LifecycleEvent where
  | init (number : Nat) (accepted : Bool)
  | release (number : Nat)
  deriving DecidableEq, Repr

/-- A world with the number of operations that were made in it and with what happened to
them. -/
structure Watched (ω : Type) where
  world : ω
  made : Nat := 0
  events : List LifecycleEvent := []

def Operation.watched (o : Operation ω) (number : Nat) : Operation (Watched ω) where
  init watch :=
    let (accepted, world) := o.init watch.world
    (accepted,
      { watch with world := world, events := watch.events ++ [.init number accepted] })
  release watch :=
    { watch with
      world := o.release watch.world
      events := watch.events ++ [.release number] }
  bound target watch := { watch with world := o.bound target watch.world }
  execute target watch :=
    (o.execute target watch.world).bind fun (goesOn, world) =>
      .done (goesOn, { watch with world := world })

/-- Numbers the operations in the order in which they are made. -/
def Factory.watched (factory : Factory ω) : Factory (Watched ω) := fun watch =>
  let (operation, world) := factory watch.world
  (operation.watched watch.made, { watch with world := world, made := watch.made + 1 })

def Registry.watched (r : Registry ω) : Registry (Watched ω) :=
  ⟨r.entries.map fun entry => (entry.1, Factory.watched entry.2)⟩

def Task.watched (t : Task ω) (number : Nat) : Task (Watched ω) where
  operation := t.operation.watched number
  signature := t.signature
  target := t.target

def PassSlot.watched (p : PassSlot ω) (number : Nat) : PassSlot (Watched ω) where
  node := p.node
  task := p.task.watched number
  framebuffer := p.framebuffer

def Compiler.Workshop.watched (w : Workshop ω) : Workshop (Watched ω) where
  symbols := w.symbols
  passes := w.passes.mapIdx fun number p => p.watched number
  framebuffers := w.framebuffers

/-- The instance with its operations watched, each under its index. -/
def Instance.watched (i : Instance ω) : Instance (Watched ω) where
  program := i.program
  values := i.values
  textures := i.textures
  passes := i.passes.mapIdx fun number p => p.watched number
  framebuffers := i.framebuffers
  defaultFramebuffer := i.defaultFramebuffer
  symbols := i.symbols
  machine := i.machine
  size := i.size

theorem Registry.find?_watched (r : Registry ω) (identifier : String) :
    r.watched.find? identifier = (r.find? identifier).map Factory.watched := by
  obtain ⟨entries⟩ := r
  unfold watched find?
  induction entries with
  | nil => rfl
  | cons entry rest inductionHypothesis =>
      rw [List.map_cons, List.lookup_cons, List.lookup_cons]
      cases identifier == entry.1 with
      | true => rfl
      | false => exact inductionHypothesis

/-! ## Assembly -/

namespace Compiler

/-- The workshop with one more pass, for which the operation is made already. -/
def placePass (config : Config) (g : Graph) (final n : NodeId) (ports : Nat) (w : Workshop ω)
    (o : Operation ω) : Except Error (Workshop ω) :=
  (addFramebuffer config g final w.symbols w.framebuffers n).bind fun drawn =>
    (w.symbols.allocateOperation n).map fun symbols =>
      ⟨symbols,
        w.passes.push ⟨g.nameOf n, ⟨o, ⟨(g.incoming n).length, ports⟩, {}⟩, drawn.1⟩, drawn.2⟩

/-- The instance that a workshop makes. -/
def finish (config : Config) (g : Graph) (schedule : Schedule) (layout : Layout)
    (w : Workshop ω) : Except Error (Instance ω) :=
  (Emitter.program ⟨g, w.symbols, config.defaultMode⟩ schedule).map fun program => {
    program := program
    values := layout.values
    textures := layout.textures
    passes := w.passes
    framebuffers := w.framebuffers
    defaultFramebuffer := chooseDefault config w schedule.finalNode
    symbols := w.symbols
    machine := { stackLimit := config.stackLimit } }

/-- Everything that a compilation does before it initializes operations. -/
def assemble (registry : Registry ω) (config : Config) (g : Graph) : Build ω (Instance ω) := do
  let plan ← (blueprint config g : Except Error _)
  let w ← plan.layout.passes.toList.foldlM (addPass registry config g plan.schedule.finalNode)
    { symbols := plan.layout.symbols }
  (finish config g plan.schedule plan.layout w : Except Error _)

variable {registry : Registry ω} {config : Config} {g : Graph} {final n : NodeId} {ports : Nat}

/-- A compilation assembles the instance and then initializes its operations. -/
theorem outcome_compile (registry : Registry ω) (config : Config) (g : Graph) (world : ω) :
    (compile registry config g).outcome world =
      match (assemble registry config g).outcome world with
      | (.error e, between) => (.error e, between)
      | (.ok i, between) =>
        match (initAll [] i.passes.toList).outcome between with
        | (.error e, after) => (.error e, after)
        | (.ok (), after) => (.ok i, after) := by
  unfold compile assemble
  rw [Build.outcome_bind, Build.outcome_bind, Build.outcome_lift]
  cases blueprint config g with
  | error e => rfl
  | ok plan =>
      obtain ⟨schedule, layout⟩ := plan
      dsimp only
      rw [Build.outcome_bind, Build.outcome_bind, ← Array.foldlM_toList]
      rcases Build.outcome (layout.passes.toList.foldlM
        (addPass registry config g schedule.finalNode) { symbols := layout.symbols }) world with
        ⟨e | w, between⟩
      · rfl
      · dsimp only
        rw [Build.outcome_bind, Build.outcome_lift, Build.outcome_lift, finish]
        cases Emitter.program ⟨g, w.symbols, config.defaultMode⟩ schedule with
        | error e => rfl
        | ok program =>
            dsimp only [Except.map]
            rw [Build.outcome_bind]
            rcases (initAll [] w.passes.toList).outcome between with ⟨e | ⟨⟩, after⟩ <;> rfl

theorem outcome_addPass (w : Workshop ω) (world : ω) :
    (addPass registry config g final w (n, ports)).outcome world =
      match registry.find? (g.subtype n) with
      | none => (.error (.unknownOperationType (g.subtype n)), world)
      | some factory =>
        (placePass config g final n ports w (factory world).1, (factory world).2) := by
  obtain ⟨symbols, passes, framebuffers⟩ := w
  rw [addPass, Build.outcome_bind]
  unfold Registry.create
  rw [← Graph.subtype]
  cases registry.find? (g.subtype n) with
  | none => rfl
  | some factory =>
      have made : Build.outcome (ω := ω) (fun world =>
          let (operation, world) := factory world
          (.ok operation, world)) world = (.ok (factory world).1, (factory world).2) := rfl
      rw [made]
      dsimp only
      rw [Build.outcome_bind, Build.outcome_lift, placePass]
      cases addFramebuffer config g final symbols framebuffers n with
      | error e => rfl
      | ok drawn =>
          dsimp only
          rw [Build.outcome_bind, Build.outcome_lift]
          cases symbols.allocateOperation n with
          | error e => rfl
          | ok handed => rfl

/-! ## The same with watched operations -/

/-- The number of a new operation is its index among the passes. -/
theorem placePass_watched (w : Workshop ω) (o : Operation ω) :
    placePass config g final n ports w.watched (o.watched w.passes.size) =
      (placePass config g final n ports w o).map Workshop.watched := by
  have symbolsEq : w.watched.symbols = w.symbols := rfl
  have framebuffersEq : w.watched.framebuffers = w.framebuffers := rfl
  unfold placePass
  rw [symbolsEq, framebuffersEq]
  cases addFramebuffer config g final w.symbols w.framebuffers n with
  | error e => rfl
  | ok drawn =>
      cases w.symbols.allocateOperation n with
      | error e => rfl
      | ok symbols =>
          simp only [Except.bind, Except.map, Workshop.watched, Array.mapIdx_push]
          rfl

theorem size_of_placePass {w next : Workshop ω} {o : Operation ω}
    (placed : placePass config g final n ports w o = .ok next) :
    next.passes.size = w.passes.size + 1 := by
  obtain ⟨drawn, -, rest⟩ := bind_eq_ok_iff.mp placed
  obtain ⟨symbols, -, rfl⟩ := map_eq_ok_iff.mp rest
  exact Array.size_push _

/-- An outcome in a watched world that shows an outcome in the world alone, where nothing was
initialized or released. -/
structure Unnoticed {α β : Type} (convert : α → β) (plain : Except Error α × ω)
    (seen : Except Error β × Watched ω) : Prop where
  result : seen.1 = plain.1.map convert
  world : seen.2.world = plain.2
  events : seen.2.events = []

section Unnoticed

variable {α β α' β' : Type} {convert : α → β} {convert' : α' → β'}

theorem Unnoticed.bind {x : Build ω α} {y : Build (Watched ω) β} {f : α → Build ω α'}
    {h : β → Build (Watched ω) β'} {world : ω} {watch : Watched ω}
    (first : Unnoticed convert (x.outcome world) (y.outcome watch))
    (next : ∀ a (later : Watched ω), later.events = [] →
      Unnoticed convert' ((f a).outcome later.world) ((h (convert a)).outcome later)) :
    Unnoticed convert' ((x >>= f).outcome world) ((y >>= h).outcome watch) := by
  rw [Build.outcome_bind, Build.outcome_bind]
  revert first
  obtain ⟨seenResult, later⟩ := y.outcome watch
  obtain ⟨plainResult, between⟩ := x.outcome world
  intro first
  obtain ⟨resultEq, worldEq, noEvents⟩ := first
  dsimp only at resultEq worldEq noEvents
  subst resultEq worldEq
  cases plainResult with
  | error e => exact ⟨rfl, rfl, noEvents⟩
  | ok a => exact next a later noEvents

theorem Unnoticed.exists_eq {plain : Except Error α × ω} {seen : Except Error β × Watched ω}
    (unnoticed : Unnoticed convert plain seen) :
    ∃ watch, seen = (plain.1.map convert, watch) ∧ watch.world = plain.2 ∧ watch.events = [] :=
  ⟨seen.2, Prod.ext unnoticed.result rfl, unnoticed.world, unnoticed.events⟩

theorem unnoticed_lift (x : Except Error α) {watch : Watched ω} (noEvents : watch.events = []) :
    Unnoticed convert (Build.outcome (liftM x) watch.world)
      (Build.outcome (liftM (x.map convert)) watch) := by
  rw [Build.outcome_lift, Build.outcome_lift]
  exact ⟨rfl, rfl, noEvents⟩

end Unnoticed

theorem unnoticed_addPasses (passes : List (NodeId × Nat)) (w : Workshop ω) (world : ω) :
    Unnoticed Workshop.watched
      ((passes.foldlM (addPass registry config g final) w).outcome world)
      ((passes.foldlM (addPass registry.watched config g final) w.watched).outcome
        ⟨world, w.passes.size, []⟩) := by
  induction passes generalizing w world with
  | nil => exact ⟨rfl, rfl, rfl⟩
  | cons entry rest inductionHypothesis =>
      obtain ⟨n, ports⟩ := entry
      rw [List.foldlM_cons, List.foldlM_cons, Build.outcome_bind, Build.outcome_bind,
        outcome_addPass, outcome_addPass, Registry.find?_watched]
      cases registry.find? (g.subtype n) with
      | none => exact ⟨rfl, rfl, rfl⟩
      | some factory =>
          simp only [Option.map_some, Factory.watched, placePass_watched]
          cases placed : placePass config g final n ports w (factory world).1 with
          | error e => exact ⟨rfl, rfl, rfl⟩
          | ok next =>
              simp only [Except.map]
              rw [← size_of_placePass placed]
              exact inductionHypothesis next (factory world).2

theorem chooseDefault_watched (w : Workshop ω) :
    chooseDefault config w.watched final = chooseDefault config w final := by
  have same (index : Nat) : ((w.watched.passes[index]?).bind fun p => p.framebuffer) =
      (w.passes[index]?).bind fun p => p.framebuffer := by
    simp only [Workshop.watched, Array.getElem?_mapIdx, Option.bind_map]
    rfl
  have sameIndex : internalDefault? w.watched.symbols w.watched.passes w.watched.framebuffers
      final = internalDefault? w.symbols w.passes w.framebuffers final := by
    have symbolsEq : w.watched.symbols = w.symbols := rfl
    have framebuffersEq : w.watched.framebuffers = w.framebuffers := rfl
    simp only [internalDefault?, Option.bind_eq_bind, same, symbolsEq, framebuffersEq]
  unfold chooseDefault
  rw [sameIndex]

theorem finish_watched (schedule : Schedule) (layout : Layout) (w : Workshop ω) :
    finish config g schedule layout w.watched =
      (finish config g schedule layout w).map Instance.watched := by
  have symbolsEq : w.watched.symbols = w.symbols := rfl
  unfold finish
  rw [chooseDefault_watched, symbolsEq]
  cases Emitter.program ⟨g, w.symbols, config.defaultMode⟩ schedule <;> rfl

/-- Assembling an instance with watched operations initializes and releases none of them. -/
theorem unnoticed_assemble (registry : Registry ω) (config : Config) (g : Graph) (world : ω) :
    Unnoticed Instance.watched ((assemble registry config g).outcome world)
      ((assemble registry.watched config g).outcome { world := world }) := by
  unfold assemble
  rw [Build.outcome_bind, Build.outcome_bind, Build.outcome_lift, Build.outcome_lift]
  cases blueprint config g with
  | error e => exact ⟨rfl, rfl, rfl⟩
  | ok plan =>
      dsimp only
      have made : Unnoticed Workshop.watched
          (Build.outcome (plan.layout.passes.toList.foldlM
            (addPass registry config g plan.schedule.finalNode)
            { symbols := plan.layout.symbols }) world)
          (Build.outcome (plan.layout.passes.toList.foldlM
            (addPass registry.watched config g plan.schedule.finalNode)
            { symbols := plan.layout.symbols }) { world := world }) :=
        unnoticed_addPasses _ { symbols := plan.layout.symbols } world
      refine made.bind fun w later noEvents => ?_
      rw [finish_watched]
      exact unnoticed_lift _ noEvents

end Compiler

end FrameGraph
