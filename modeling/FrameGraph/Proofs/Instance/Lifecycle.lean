import FrameGraph.Proofs.Compiler.Watching
import FrameGraph.Proofs.Instance.Reachable
import FrameGraph.Proofs.Machine.Views

/-!
# The life of operations

A compilation initializes the operations of an instance in order, and takes back the
initializations before the first that is refused.  From then on no call of the host
initializes or releases an operation until the instance is released, which releases each
operation once.
-/

namespace FrameGraph

open Compiler

variable {ω : Type}

/-! ## Notes about many operations -/

/-- The first operations accept their initialization in order. -/
def acceptances (count : Nat) : List LifecycleEvent :=
  (List.range count).map fun number => .init number true

/-- The first operations are released in order. -/
def releases (count : Nat) : List LifecycleEvent :=
  (List.range count).map .release

/-- Watches passes under consecutive numbers. -/
def watchFrom : Nat → List (PassSlot ω) → List (PassSlot (Watched ω))
  | _, [] => []
  | start, p :: rest => p.watched start :: watchFrom (start + 1) rest

theorem watchFrom_append (start : Nat) (first second : List (PassSlot ω)) :
    watchFrom start (first ++ second) =
      watchFrom start first ++ watchFrom (start + first.length) second := by
  induction first generalizing start with
  | nil => rfl
  | cons p rest inductionHypothesis =>
      have next : start + 1 + rest.length = start + (rest.length + 1) := by omega
      rw [List.cons_append, watchFrom, inductionHypothesis, next]
      rfl

theorem mapIdx_watched (start : Nat) (passes : List (PassSlot ω)) :
    (passes.mapIdx fun number p => p.watched (start + number)) = watchFrom start passes := by
  induction passes generalizing start with
  | nil => rfl
  | cons p rest inductionHypothesis =>
      rw [List.mapIdx_cons, watchFrom, ← inductionHypothesis]
      simp only [Nat.add_zero, Nat.add_assoc, Nat.add_comm 1]

namespace Instance

theorem toList_passes_watched (i : Instance ω) :
    i.watched.passes.toList = watchFrom 0 i.passes.toList := by
  rw [← mapIdx_watched]
  simp only [watched, Array.toList_mapIdx, Nat.zero_add]

end Instance

theorem mapIdx_watched_toArray (passes : List (PassSlot ω)) :
    (passes.toArray.mapIdx fun number p => p.watched number) =
      (watchFrom 0 passes).toArray := by
  rw [← mapIdx_watched]
  simp only [List.mapIdx_toArray, Nat.zero_add]

theorem releaseAll_watchFrom (start : Nat) (passes : List (PassSlot ω)) (watch : Watched ω) :
    releaseAll (watchFrom start passes) watch =
      { watch with
        world := releaseAll passes watch.world
        events := watch.events ++ (List.range' start passes.length).map .release } := by
  induction passes generalizing start watch with
  | nil => simp [releaseAll, watchFrom]
  | cons p rest inductionHypothesis =>
      unfold releaseAll at inductionHypothesis ⊢
      rw [watchFrom, List.foldl_cons, inductionHypothesis]
      simp [PassSlot.watched, Task.watched, Operation.watched, List.range'_succ]

/-! ## Initialization -/

/-- Either all operations accept, or all of them up to one that refuses and those before it
are released. -/
theorem outcome_initAll_watchFrom (done rest : List (PassSlot ω)) (watch : Watched ω)
    (accepted : watch.events = acceptances done.length) :
    (∃ left, (initAll done.reverse rest).outcome watch.world = (.ok (), left.world) ∧
      (initAll (watchFrom 0 done).reverse (watchFrom done.length rest)).outcome watch =
        (.ok (), left) ∧
      left.events = acceptances (done ++ rest).length) ∨
    ∃ k p left, (done ++ rest)[k]? = some p ∧
      (initAll done.reverse rest).outcome watch.world =
        (.error (.operationInitFailed p.node), left.world) ∧
      (initAll (watchFrom 0 done).reverse (watchFrom done.length rest)).outcome watch =
        (.error (.operationInitFailed p.node), left) ∧
      left.events = acceptances k ++ .init k false :: releases k := by
  induction rest generalizing done watch with
  | nil =>
      refine Or.inl ⟨watch, rfl, rfl, ?_⟩
      rw [List.append_nil]
      exact accepted
  | cons p rest inductionHypothesis =>
      have answer : (p.watched done.length).task.operation.init watch =
          ((p.task.operation.init watch.world).1,
            { watch with
              world := (p.task.operation.init watch.world).2
              events := watch.events ++
                [.init done.length (p.task.operation.init watch.world).1] }) := rfl
      rw [watchFrom, outcome_initAll_cons, outcome_initAll_cons, answer]
      rcases p.task.operation.init watch.world with ⟨accepts, after⟩
      cases accepts with
      | false =>
          simp only [List.reverse_reverse, releaseAll_watchFrom]
          refine Or.inr ⟨done.length, p, _, by simp, rfl, rfl, ?_⟩
          rw [accepted, ← List.range_eq_range', List.append_assoc]
          rfl
      | true =>
          have goesOn := inductionHypothesis (done ++ [p])
            { watch with world := after, events := watch.events ++ [.init done.length true] }
            (by simp [accepted, acceptances, List.range_succ])
          rw [watchFrom_append] at goesOn
          simpa [watchFrom] using goesOn

theorem outcome_initAll_watched (i : Instance ω) {watch : Watched ω}
    (noEvents : watch.events = []) :
    (∃ left, (initAll [] i.passes.toList).outcome watch.world = (.ok (), left.world) ∧
      (initAll [] i.watched.passes.toList).outcome watch = (.ok (), left) ∧
      left.events = acceptances i.passes.size) ∨
    ∃ k p left, i.passes[k]? = some p ∧
      (initAll [] i.passes.toList).outcome watch.world =
        (.error (.operationInitFailed p.node), left.world) ∧
      (initAll [] i.watched.passes.toList).outcome watch =
        (.error (.operationInitFailed p.node), left) ∧
      left.events = acceptances k ++ .init k false :: releases k := by
  rw [i.toList_passes_watched]
  simpa [watchFrom] using outcome_initAll_watchFrom [] i.passes.toList watch noEvents

/-! ## Calls of the host -/

/-- The world of a watch replaced, and value memory beside it. -/
def Watched.memory (watch : Watched ω) (memory : Memory ω) : Memory (Watched ω) :=
  ⟨memory.values, { watch with world := memory.world }⟩

namespace Instance

variable (i : Instance ω)

theorem shownBy_watched (watch : Watched ω) :
    i.tables.context.ShownBy i.watched.tables.context watch.memory := by
  have taskEq (index : Nat) : i.watched.tables.tasks[index]? =
      (i.tables.tasks[index]?).map fun task => task.watched index := by
    simp only [tables, watched, Array.getElem?_map, Array.getElem?_mapIdx, Option.map_map]
    rfl
  constructor
  · exact fun _ _ => rfl
  · intro state index c
    simp only [Tables.context, Watched.memory]
    split <;> rfl
  · exact fun _ _ => rfl
  · intro state index
    simp only [Tables.context, taskEq, Option.map_map]
    rfl
  · intro state index inputs outputs
    simp only [Tables.context, taskEq]
    cases i.tables.tasks[index]? with
    | none => rfl
    | some task =>
        simp only [Option.map_some, Task.watched, Operation.watched, Work.run_bind, Work.run]
        rfl

/-- A frame of a watched instance is the frame of the instance, and nothing is noted. -/
theorem execute_watched (watch : Watched ω) :
    i.watched.execute watch =
      ⟨(i.execute watch.world).exit, (i.execute watch.world).after.watched,
        { watch with world := (i.execute watch.world).world }⟩ := by
  have ran : i.watched.machine.run i.watched.tables.context i.watched.program
      i.watched.program.size ⟨i.watched.values, watch⟩ =
        (i.machine.run i.tables.context i.program i.program.size ⟨i.values, watch.world⟩).map
          watch.memory :=
    Machine.resume_view (i.shownBy_watched watch) i.program i.program.size i.machine.start
      ⟨i.values, watch.world⟩
  unfold execute
  rw [ran]
  rfl

theorem setConstant_watched (index : Nat) (c : Cell) :
    i.watched.setConstant index c = (i.setConstant index c).map watched := by
  have valuesEq : i.watched.values = i.values := rfl
  unfold setConstant
  rw [valuesEq]
  split <;> rfl

theorem bindTargets_watchFrom (targetOf : PassSlot ω → RenderTarget)
    {targetOf' : PassSlot (Watched ω) → RenderTarget}
    (same : ∀ p number, targetOf' (p.watched number) = targetOf p) (start : Nat)
    (passes : List (PassSlot ω)) (watch : Watched ω) :
    bindTargets targetOf' (watchFrom start passes) watch =
      (watchFrom start (bindTargets targetOf passes watch.world).1,
        { watch with world := (bindTargets targetOf passes watch.world).2 }) := by
  induction passes generalizing start watch with
  | nil => rfl
  | cons p rest inductionHypothesis =>
      have bound : (p.watched start).task.bind (targetOf p) watch =
          ((p.task.bind (targetOf p) watch.world).1.watched start,
            { watch with world := (p.task.bind (targetOf p) watch.world).2 }) := rfl
      rw [watchFrom, bindTargets, bindTargets, same, bound]
      dsimp only
      rw [inductionHypothesis]
      rfl

variable {δ : Type} [Device δ]

/-- A resize of a watched instance is the resize of the instance, and nothing is noted. -/
theorem resize_watched (device : δ) (watch : Watched ω) (width height : Nat) :
    i.watched.resize device watch width height =
      let (made, world) := i.resize device watch.world width height
      (⟨made.owner.watched, made.device, made.failure⟩, { watch with world := world }) := by
  unfold resize
  split
  · rfl
  · have texturesEq : i.watched.textures = i.textures := rfl
    have framebuffersEq : i.watched.framebuffers = i.framebuffers := rfl
    rw [texturesEq, framebuffersEq]
    rcases resizeTextures width height i.textures.toList device with ⟨textures, device, _ | e⟩
    · dsimp only
      rcases resizeFramebuffers textures.toArray width height i.framebuffers.toList device
        with ⟨framebuffers, device, _ | e⟩
      · let next : Instance ω :=
          { i with textures := textures.toArray, framebuffers := framebuffers.toArray }
        dsimp only
        rw [toList_passes_watched,
          bindTargets_watchFrom fun p => ⟨next.targetHandle p, width, height⟩]
        · rw [← mapIdx_watched_toArray]
          rfl
        · exact fun _ _ => rfl
      · rfl
    · rfl

/-- The release of a watched instance releases every operation once, in order. -/
theorem release_watched (device : δ) (watch : Watched ω) :
    i.watched.release device watch =
      ((i.release device watch.world).1,
        { watch with
          world := (i.release device watch.world).2
          events := watch.events ++ releases i.passes.size }) := by
  have givenUp (κ : Type) (j : Instance κ) (world : κ) :
      (j.release device world).2 = releaseAll j.passes.toList world := by
    rw [releaseAll, Array.foldl_toList]
    rfl
  refine Prod.ext rfl ?_
  rw [givenUp, givenUp, toList_passes_watched, releaseAll_watchFrom, Array.length_toList,
    ← List.range_eq_range']
  rfl

/-! ## A whole life -/

/-- What becomes of an instance and of its watched world under any calls of the host before
its release.  Every resize may find another device, and the world may change between the
calls. -/
inductive Lived (compiled : Instance (Watched ω)) (left : Watched ω) :
    Instance (Watched ω) → Watched ω → Prop where
  | compiled : Lived compiled left compiled left
  | setConstant {j after : Instance (Watched ω)} {watch : Watched ω} {index : Nat} {c : Cell}
      (earlier : Lived compiled left j watch) (success : j.setConstant index c = .ok after) :
      Lived compiled left after watch
  | execute {j : Instance (Watched ω)} {watch : Watched ω}
      (earlier : Lived compiled left j watch) :
      Lived compiled left (j.execute watch).after (j.execute watch).world
  | resize {j : Instance (Watched ω)} {watch : Watched ω} {δ : Type} [Device δ]
      (earlier : Lived compiled left j watch) (device : δ) (width height : Nat) :
      Lived compiled left (j.resize device watch width height).1.owner
        (j.resize device watch width height).2
  | elsewhere {j : Instance (Watched ω)} {watch : Watched ω}
      (earlier : Lived compiled left j watch) (world : ω) :
      Lived compiled left j { watch with world := world }

variable {i} {left : Watched ω}

/-- A watched instance becomes what the instance becomes, and nothing is noted on the
way. -/
theorem Lived.reachable {j : Instance (Watched ω)} {watch : Watched ω}
    (lived : i.watched.Lived left j watch) :
    ∃ plain, i.Reachable plain ∧ j = plain.watched ∧
      watch = { left with world := watch.world } := by
  induction lived with
  | compiled => exact ⟨i, .compiled, rfl, rfl⟩
  | setConstant _ success inductionHypothesis =>
      obtain ⟨plain, reachable, rfl, watchEq⟩ := inductionHypothesis
      rw [setConstant_watched] at success
      obtain ⟨next, written, rfl⟩ := map_eq_ok_iff.mp success
      exact ⟨next, reachable.setConstant written, rfl, watchEq⟩
  | execute _ inductionHypothesis =>
      obtain ⟨plain, reachable, rfl, watchEq⟩ := inductionHypothesis
      rw [execute_watched]
      refine ⟨_, reachable.execute _, rfl, ?_⟩
      rw [watchEq]
  | resize _ device width height inductionHypothesis =>
      obtain ⟨plain, reachable, rfl, watchEq⟩ := inductionHypothesis
      rw [resize_watched]
      refine ⟨_, reachable.resize device _ width height, rfl, ?_⟩
      rw [watchEq]
  | elsewhere _ world inductionHypothesis =>
      obtain ⟨plain, reachable, rfl, watchEq⟩ := inductionHypothesis
      refine ⟨plain, reachable, rfl, ?_⟩
      rw [watchEq]

/-- Whatever the instance can become can be watched. -/
theorem Reachable.lived {plain : Instance ω} (reachable : i.Reachable plain) (world : ω) :
    i.watched.Lived left plain.watched { left with world := world } := by
  induction reachable generalizing world with
  | compiled => exact .elsewhere .compiled world
  | setConstant _ success inductionHypothesis =>
      have written := (setConstant_watched _ _ _).trans (congrArg (Except.map watched) success)
      exact .setConstant (inductionHypothesis world) written
  | execute _ before inductionHypothesis =>
      have next := Lived.execute (inductionHypothesis before)
      rw [execute_watched] at next
      exact next.elsewhere world
  | resize _ device before width height inductionHypothesis =>
      have next := Lived.resize (inductionHypothesis before) device width height
      rw [resize_watched] at next
      exact next.elsewhere world

/-- The life of a watched instance is the life of the instance. -/
theorem lived_watched_iff {j : Instance (Watched ω)} {watch : Watched ω} :
    i.watched.Lived left j watch ↔
      ∃ plain, i.Reachable plain ∧ j = plain.watched ∧
        watch = { left with world := watch.world } := by
  refine ⟨Lived.reachable, ?_⟩
  rintro ⟨plain, reachable, rfl, watchEq⟩
  rw [watchEq]
  exact reachable.lived watch.world

/-- Until its release an instance initializes and releases nothing. -/
theorem Lived.events {j : Instance (Watched ω)} {watch : Watched ω}
    (lived : i.watched.Lived left j watch) :
    watch.events = left.events ∧ ∀ (δ : Type) [Device δ] (device : δ),
      (j.release device watch).2.events = left.events ++ releases i.passes.size := by
  obtain ⟨plain, reachable, rfl, watchEq⟩ := lived.reachable
  have eventsEq : watch.events = left.events := by rw [watchEq]
  have sizeEq : plain.passes.size = i.passes.size := by
    simpa using congrArg List.length reachable.sameShape.signatures
  refine ⟨eventsEq, fun δ _ device => ?_⟩
  rw [release_watched, eventsEq, sizeEq]

end Instance

namespace Compiler

variable {registry : Registry ω} {config : Config} {g : Graph} {world between : ω}
  {i : Instance ω}

/-- The operations of an assembled instance are in the order of the passes. -/
theorem nodes_of_assemble
    (assembled : (assemble registry config g).outcome world = (.ok i, between)) :
    i.passes.toList.map PassSlot.node =
      (g.nodesOfKind fun kind => kind = .pass).map g.nameOf := by
  obtain ⟨plan, _, planned, assembled⟩ := Build.succeeds_bind_iff.mp assembled
  obtain ⟨w, _, made, finished⟩ := Build.succeeds_bind_iff.mp assembled
  obtain ⟨plannedEq, -⟩ := Build.succeeds_lift_iff.mp planned
  obtain ⟨finishedEq, -⟩ := Build.succeeds_lift_iff.mp finished
  obtain ⟨program, -, rfl⟩ := map_eq_ok_iff.mp finishedEq
  obtain ⟨sink, -, -, laidOut⟩ := blueprint_eq_ok_iff.mp plannedEq
  have listed := Layout.listed_ofGraph laidOut
  have furnished := Workshop.furnished_of_listed listed made
  have nodesEq := congrArg (List.map Prod.fst) furnished.signatures
  rw [List.map_map, List.map_map] at nodesEq
  rw [← listed.passes, List.map_map]
  exact nodesEq

end Compiler

/-- The operations of a graph are initialized in order once everything else has succeeded.
If one refuses, those before it are released; otherwise all of them are released with the
instance and not before. -/
theorem initializations_match_releases (registry : Registry ω) (config : Config) (g : Graph)
    (world : ω) :
    let plain := (compile registry config g).outcome world
    let seen := (compile registry.watched config g).outcome { world := world }
    seen.1 = plain.1.map Instance.watched ∧ seen.2.world = plain.2 ∧
      match (assemble registry config g).outcome world with
      | (.error e, _) => plain.1 = .error e ∧ seen.2.events = []
      | (.ok i, _) =>
        i.passes.toList.map PassSlot.node =
            (g.nodesOfKind fun kind => kind = .pass).map g.nameOf ∧
          ((∃ k p, i.passes[k]? = some p ∧
              plain.1 = .error (.operationInitFailed p.node) ∧
              seen.2.events = acceptances k ++ .init k false :: releases k) ∨
            plain.1 = .ok i ∧ seen.2.events = acceptances i.passes.size ∧
              ∀ j watch, i.watched.Lived seen.2 j watch →
                watch.events = acceptances i.passes.size ∧
                ∀ (δ : Type) [Device δ] (device : δ),
                  (j.release device watch).2.events =
                    acceptances i.passes.size ++ releases i.passes.size) := by
  obtain ⟨watch, seenEq, worldEq, noEvents⟩ :=
    (unnoticed_assemble registry config g world).exists_eq
  rw [outcome_compile, outcome_compile, seenEq]
  rcases assembled : (assemble registry config g).outcome world with ⟨e | i, between⟩
  · rw [assembled] at worldEq
    exact ⟨rfl, worldEq, rfl, noEvents⟩
  · obtain rfl : watch.world = between := by rw [worldEq, assembled]
    have placed := nodes_of_assemble assembled
    dsimp only [Except.map]
    rcases outcome_initAll_watched i noEvents with
      ⟨left, plainEq, seenEq, noted⟩ | ⟨k, p, left, position, plainEq, seenEq, noted⟩
    · rw [plainEq, seenEq]
      refine ⟨rfl, rfl, placed, Or.inr ⟨rfl, noted, fun j later lived => ?_⟩⟩
      obtain ⟨kept, released⟩ := lived.events
      rw [← noted]
      exact ⟨kept, released⟩
    · rw [plainEq, seenEq]
      exact ⟨rfl, rfl, placed, Or.inl ⟨k, p, position, rfl, noted⟩⟩

/-! ## A refusal -/

/-- One operation accepts its initialization and another one refuses it. -/
def calmAndFussy : Registry Unit :=
  ⟨[("calm", fun world => ({ execute := fun _ world => .done (true, world) }, world)),
    ("fussy", fun world => ({
      init := fun world => (false, world)
      execute := fun _ world => .done (true, world) }, world))]⟩

def fussySecond : Graph where
  nodes := #[.pass "first" "calm", .pass "second" "fussy", .present "out"]
  edges := #[(⟨0⟩, .withPorts ⟨1⟩ 0 ⟨2⟩ 0)]

example : ((compile calmAndFussy.watched {} fussySecond).outcome { world := () }).2.events =
    [.init 0 true, .init 1 false, .release 0] := by
  decide +kernel

end FrameGraph
