import FrameGraph.Compiler.Compile
import FrameGraph.Proofs.Compiler.Allocation

/-!
# Passes that can be made

A compilation makes one operation for every pass, in the order of the nodes, and at most
one framebuffer.  This succeeds exactly when every pass names a registered kind of
operation, no pass that renders into the host's framebuffer has another output, and a call
can name all operations.  At the end every operation must accept its initialization.
-/

namespace FrameGraph

variable {ω : Type}

/-! ## Making and initializing operations -/

/-- The operations that a registry makes for identifiers, one after the other, and the
world that this leaves behind.  Unknown identifiers are passed over. -/
def Registry.makeAll (r : Registry ω) : List String → ω → List (Operation ω) × ω
  | [], world => ([], world)
  | identifier :: rest, world =>
    match r.find? identifier with
    | none => r.makeAll rest world
    | some factory =>
      let (operation, world) := factory world
      let (others, world) := r.makeAll rest world
      (operation :: others, world)

/-- Initializes operations in order, up to the first that refuses, and tells whether all
of them accepted. -/
def Operation.initAll : List (Operation ω) → ω → Bool × ω
  | [], world => (true, world)
  | operation :: rest, world =>
    match operation.init world with
    | (true, world) => initAll rest world
    | (false, world) => (false, world)

/-- The kinds of operations that the passes of a graph name; a pass that names none asks
for the kind without a name. -/
def Graph.subtype (g : Graph) (n : NodeId) : String := (g.metadata? n subtypeKey).getD ""

def Graph.subtypes (g : Graph) : List String :=
  (g.nodesOfKind fun kind => kind = .pass).map g.subtype

namespace Compiler

variable {registry : Registry ω} {config : Config} {g : Graph} {final n : NodeId}
  {ports : Nat}

theorem succeeds_create_iff {identifier : String} {operation : Operation ω}
    {world after : ω} :
    Build.Succeeds (registry.create identifier) world operation after ↔
      ∃ factory, registry.find? identifier = some factory ∧
        factory world = (operation, after) := by
  unfold Build.Succeeds Registry.create
  cases registry.find? identifier with
  | none =>
      have thrown : (throw (.unknownOperationType identifier) :
          Build ω (Operation ω)).outcome world =
            (.error (.unknownOperationType identifier), world) := rfl
      simp [thrown]
  | some factory =>
      have made : Build.outcome (ω := ω) (fun world =>
          let (operation, world) := factory world
          (.ok operation, world)) world = (.ok (factory world).1, (factory world).2) := rfl
      rw [made]
      simp [Prod.ext_iff]

theorem outcome_initAll_cons (earlier : List (PassSlot ω)) (p : PassSlot ω)
    (rest : List (PassSlot ω)) (world : ω) :
    (initAll earlier (p :: rest)).outcome world =
      match p.task.operation.init world with
      | (true, world) => (initAll (p :: earlier) rest).outcome world
      | (false, world) =>
        (.error (.operationInitFailed p.node), releaseAll earlier.reverse world) := by
  rw [initAll]
  unfold Build.outcome
  cases initEq : p.task.operation.init world with
  | mk accepted next => cases accepted <;> simp [ExceptT.run, StateT.run, initEq]

/-- Initialization succeeds when every operation accepts it. -/
theorem succeeds_initAll_iff (earlier : List (PassSlot ω)) {passes : List (PassSlot ω)}
    {world after : ω} :
    Build.Succeeds (initAll earlier passes) world () after ↔
      Operation.initAll (passes.map fun p => p.task.operation) world = (true, after) := by
  induction passes generalizing earlier world with
  | nil => simp [initAll, Operation.initAll, Build.succeeds_pure_iff]
  | cons p rest inductionHypothesis =>
      rw [Build.Succeeds, outcome_initAll_cons, List.map_cons, Operation.initAll]
      cases p.task.operation.init world with
      | mk accepted next =>
          cases accepted with
          | false => simp
          | true => exact inductionHypothesis _

/-! ## One pass -/

/-- The framebuffer that a pass is given: none if it renders into the host's framebuffer
or renders no texture, and otherwise one over the textures that it renders. -/
def Draws (config : Config) (g : Graph) (final : NodeId) (symbols : Symbols)
    (framebuffers : Array Framebuffer) (n : NodeId) : Option Nat → Prop
  | none => writesDefault config g final n = true ∨ renderedSlots g symbols n = []
  | some index =>
    writesDefault config g final n = false ∧ renderedSlots g symbols n ≠ [] ∧
      (framebuffers[index]?).map Framebuffer.textures = some (renderedSlots g symbols n)

theorem exists_addFramebuffer_iff (symbols : Symbols) (framebuffers : Array Framebuffer) :
    (∃ made, addFramebuffer config g final symbols framebuffers n = .ok made) ↔
      (writesDefault config g final n = true → (g.outgoing n).length = 1) := by
  unfold addFramebuffer
  by_cases host : writesDefault config g final n = true
  · by_cases single : (g.outgoing n).length = 1
    · simp [host, single]
    · simp [host, single]
  · rw [if_neg host]
    refine iff_of_true ?_ fun claimed => absurd claimed host
    cases renderedSlots g symbols n with
    | nil => exact ⟨_, rfl⟩
    | cons slot slots => exact ⟨_, rfl⟩

/-- The framebuffers grow at their end, and the pass draws into the one it is given. -/
theorem draws_of_addFramebuffer {symbols : Symbols} {framebuffers after : Array Framebuffer}
    {framebuffer : Option Nat}
    (success : addFramebuffer config g final symbols framebuffers n =
      .ok (framebuffer, after)) :
    Draws config g final symbols after n framebuffer ∧
      ∀ (index : Nat) (f : Framebuffer), framebuffers[index]? = some f →
        after[index]? = some f := by
  unfold addFramebuffer at success
  by_cases host : writesDefault config g final n = true
  · rw [if_pos host] at success
    by_cases single : (g.outgoing n).length = 1
    · rw [if_pos single] at success
      cases success
      exact ⟨Or.inl host, fun _ _ found => found⟩
    · rw [if_neg single] at success
      cases success
  · rw [if_neg host] at success
    cases slotsEq : renderedSlots g symbols n with
    | nil =>
        simp only [slotsEq] at success
        cases success
        exact ⟨Or.inr slotsEq, fun _ _ found => found⟩
    | cons slot slots =>
        simp only [slotsEq] at success
        cases success
        refine ⟨⟨by simpa using host, by simp [slotsEq], ?_⟩, ?_⟩
        · rw [Array.getElem?_push_size, slotsEq]
          rfl
        · exact fun index f found => getElem?_push_of_some found

theorem succeeds_addPass_iff {w next : Workshop ω} {world after : ω} :
    Build.Succeeds (addPass registry config g final w (n, ports)) world next after ↔
      ∃ factory operation framebuffer framebuffers symbols,
        registry.find? (g.subtype n) = some factory ∧
        factory world = (operation, after) ∧
        addFramebuffer config g final w.symbols w.framebuffers n =
          .ok (framebuffer, framebuffers) ∧
        w.symbols.allocateOperation n = .ok symbols ∧
        next = ⟨symbols, w.passes.push
          ⟨g.nameOf n, ⟨operation, ⟨(g.incoming n).length, ports⟩, {}⟩, framebuffer⟩,
          framebuffers⟩ := by
  obtain ⟨symbols, passes, framebuffers⟩ := w
  rw [addPass]
  simp only [Build.succeeds_bind_iff, Build.succeeds_lift_iff, Build.succeeds_pure_iff,
    succeeds_create_iff, Graph.subtype]
  constructor
  · rintro ⟨operation, _, ⟨factory, found, made⟩, ⟨framebuffer, others⟩, _,
      ⟨added, rfl⟩, after, _, ⟨allocated, rfl⟩, nextEq, rfl⟩
    exact ⟨factory, operation, framebuffer, others, after, found, made, added, allocated,
      nextEq.symm⟩
  · rintro ⟨factory, operation, framebuffer, others, after, found, made, added, allocated,
      nextEq⟩
    exact ⟨operation, _, ⟨factory, found, made⟩, ⟨framebuffer, others⟩, _, ⟨added, rfl⟩,
      after, _, ⟨allocated, rfl⟩, nextEq.symm, rfl⟩

/-! ## All passes -/

/-- All passes can be made exactly when each of them names a registered kind and has no
output beside the host's framebuffer, and a call can name all of them. -/
theorem exists_addPasses_iff {passes : List (NodeId × Nat)} {w : Workshop ω} {world : ω}
    (room : w.symbols.operationCount ≤ Symbols.operationSpaceSize) :
    (∃ made after, Build.Succeeds (passes.foldlM (addPass registry config g final) w) world
        made after) ↔
      (∀ p ∈ passes, registry.contains (g.subtype p.1) = true ∧
        (writesDefault config g final p.1 = true → (g.outgoing p.1).length = 1)) ∧
      w.symbols.operationCount + passes.length ≤ Symbols.operationSpaceSize := by
  have oneEach : (passes.map fun _ => 1).sum = passes.length := by simp
  rw [← oneEach]
  simp only [Build.succeeds_foldlM_iff, ← Prod.exists']
  refine Chained.exists_iff (fun _ _ => True)
    (fun now : Workshop ω × ω => now.1.symbols.operationCount) ?_ ?_ trivial room
  · rintro ⟨n, ports⟩ rest ⟨now, between⟩ -
    rw [← Symbols.exists_allocateOperation_iff (n := n), Registry.contains,
      Option.isSome_iff_exists, ← exists_addFramebuffer_iff now.symbols now.framebuffers]
    simp only [succeeds_addPass_iff]
    constructor
    · rintro ⟨next, factory, operation, framebuffer, framebuffers, symbols, found, -, added,
        allocated, -⟩
      exact ⟨⟨⟨factory, found⟩, _, added⟩, symbols, allocated⟩
    · rintro ⟨⟨⟨factory, found⟩, ⟨framebuffer, framebuffers⟩, added⟩, symbols, allocated⟩
      exact ⟨⟨_, (factory between).2⟩, factory, _, framebuffer, framebuffers, symbols,
        found, rfl, added, allocated, rfl⟩
  · rintro ⟨n, ports⟩ rest ⟨now, between⟩ ⟨next, after⟩ - success
    obtain ⟨factory, operation, framebuffer, framebuffers, symbols, -, -, -, allocated,
      nextEq⟩ := succeeds_addPass_iff.mp success
    have symbolsEq : next.symbols = symbols := congrArg Workshop.symbols nextEq
    refine ⟨trivial, ?_⟩
    rw [symbolsEq, (Symbols.allocateOperation_eq_ok allocated).2]

/-- What making passes in order has done: the passes stand in order behind their operation
indices, each with the framebuffer that it is given, and nothing but operation indices was
handed out. -/
structure Workshop.Furnished (registry : Registry ω) (config : Config) (g : Graph)
    (final : NodeId) (symbols : Symbols) (passes : List (NodeId × Nat)) (world : ω)
    (w : Workshop ω) (after : ω) : Prop where
  size : w.passes.size = passes.length
  operations : registry.makeAll (passes.map fun p => g.subtype p.1) world =
    (w.passes.toList.map fun p => p.task.operation, after)
  slots : w.symbols.slots.size = symbols.slots.size
  values : ∀ n, (w.symbols.slotsOf n).start = (symbols.slotsOf n).start ∧
    (w.symbols.slotsOf n).stop = (symbols.slotsOf n).stop
  textures : ∀ n, (w.symbols.slotsOf n).texture = (symbols.slotsOf n).texture
  pass : ∀ k n ports, passes[k]? = some (n, ports) →
    (w.symbols.slotsOf n).operation = some k ∧
      ∃ p, w.passes[k]? = some p ∧ p.node = g.nameOf n ∧
        p.task.signature = ⟨(g.incoming n).length, ports⟩ ∧ p.task.target = {} ∧
        Draws config g final symbols w.framebuffers n p.framebuffer

/-- The passes have the names and the signatures of their nodes, in order. -/
theorem Workshop.Furnished.signatures {symbols : Symbols} {passes : List (NodeId × Nat)}
    {w : Workshop ω} {world after : ω}
    (furnished : w.Furnished registry config g final symbols passes world after) :
    w.passes.toList.map (fun p => (p.node, p.task.signature)) =
      passes.map fun p => (g.nameOf p.1, ⟨(g.incoming p.1).length, p.2⟩) := by
  refine List.ext_getElem? fun k => ?_
  rw [List.getElem?_map, List.getElem?_map, Array.getElem?_toList]
  cases position : passes[k]? with
  | none =>
      have beyond : w.passes.size ≤ k := by
        rw [furnished.size]
        exact List.getElem?_eq_none_iff.mp position
      rw [Array.getElem?_eq_none beyond]
      rfl
  | some entry =>
      obtain ⟨-, p, here, nodeEq, signatureEq, -⟩ := furnished.pass k entry.1 entry.2 position
      rw [here, Option.map_some, Option.map_some, nodeEq, signatureEq]

theorem makeAll_append {first second : List String} {world : ω} :
    registry.makeAll (first ++ second) world =
      ((registry.makeAll first world).1 ++
          (registry.makeAll second (registry.makeAll first world).2).1,
        (registry.makeAll second (registry.makeAll first world).2).2) := by
  induction first generalizing world with
  | nil => rfl
  | cons identifier rest inductionHypothesis =>
      rw [List.cons_append, Registry.makeAll, Registry.makeAll]
      cases registry.find? identifier with
      | none => exact inductionHypothesis
      | some factory => simp only [inductionHypothesis, List.cons_append]

theorem Draws.mono {symbols : Symbols} {framebuffers later : Array Framebuffer}
    {framebuffer : Option Nat} (draws : Draws config g final symbols framebuffers n framebuffer)
    (kept : ∀ (index : Nat) (f : Framebuffer), framebuffers[index]? = some f →
      later[index]? = some f) :
    Draws config g final symbols later n framebuffer := by
  cases framebuffer with
  | none => exact draws
  | some index =>
      obtain ⟨f, found, texturesEq⟩ := Option.map_eq_some_iff.mp draws.2.2
      refine ⟨draws.1, draws.2.1, ?_⟩
      rw [kept index f found, Option.map_some, texturesEq]

/-- Operation indices do not matter to the textures that a pass renders. -/
theorem renderedSlots_congr {symbols others : Symbols}
    (textures : ∀ n, (others.slotsOf n).texture = (symbols.slotsOf n).texture) :
    renderedSlots g others n = renderedSlots g symbols n := by
  simp only [renderedSlots, textures]

theorem Draws.congr {symbols others : Symbols} {framebuffers : Array Framebuffer}
    {framebuffer : Option Nat} (draws : Draws config g final others framebuffers n framebuffer)
    (textures : ∀ n, (others.slotsOf n).texture = (symbols.slotsOf n).texture) :
    Draws config g final symbols framebuffers n framebuffer := by
  have slotsEq := renderedSlots_congr (g := g) (n := n) textures
  cases framebuffer with
  | none => exact draws.imp_right fun none => slotsEq.symm.trans none
  | some index => exact ⟨draws.1, slotsEq ▸ draws.2⟩

theorem Workshop.furnished_start (symbols : Symbols) (world : ω) :
    Workshop.Furnished registry config g final symbols [] world
      ({ symbols := symbols } : Workshop ω) world where
  size := rfl
  operations := rfl
  slots := rfl
  values _ := ⟨rfl, rfl⟩
  textures _ := rfl
  pass k n ports found := by simp at found

/-- Making one more pass goes on behind those that were made. -/
theorem Workshop.Furnished.addPass {symbols : Symbols} {passes : List (NodeId × Nat)}
    {w next : Workshop ω} {start world after : ω}
    (furnished : w.Furnished registry config g final symbols passes start world)
    (new : n ∉ passes.map Prod.fst) (inside : n.index < symbols.slots.size)
    (indexEq : w.symbols.operationCount = passes.length)
    (success : Build.Succeeds (Compiler.addPass registry config g final w (n, ports)) world
      next after) :
    next.Furnished registry config g final symbols (passes ++ [(n, ports)]) start after := by
  obtain ⟨factory, operation, framebuffer, framebuffers, handed, found, made, added,
    allocated, rfl⟩ := succeeds_addPass_iff.mp success
  obtain ⟨draws, kept⟩ := draws_of_addFramebuffer added
  have here : n.index < w.symbols.slots.size := furnished.slots.symm ▸ inside
  have slotsEq := Symbols.slotsOf_allocateOperation allocated
  constructor
  · simp [furnished.size]
  · rw [List.map_append, makeAll_append, furnished.operations]
    simp [Registry.makeAll, found, made]
  · rw [(Symbols.allocateOperation_eq_ok allocated).2]
    exact (Array.size_modify ..).trans furnished.slots
  · intro other
    rw [slotsEq]
    split <;> exact furnished.values other
  · intro other
    rw [slotsEq]
    split <;> exact furnished.textures other
  · intro k other otherPorts position
    rw [slotsEq]
    -- Earlier passes keep what they have; the last one is the new pass.
    rcases Nat.lt_or_ge k passes.length with earlier | notEarlier
    · rw [List.getElem?_append_left earlier] at position
      obtain ⟨operationEq, p, pHere, nodeEq, signatureEq, targetEq, pDraws⟩ :=
        furnished.pass k other otherPorts position
      have different : n ≠ other := by
        rintro rfl
        exact new (List.mem_map_of_mem (List.mem_of_getElem? position))
      rw [if_neg fun both => different both.1]
      exact ⟨operationEq, p, getElem?_push_of_some pHere, nodeEq, signatureEq, targetEq,
        pDraws.mono kept⟩
    · obtain rfl : k = passes.length := by
        obtain ⟨bound, -⟩ := List.getElem?_eq_some_iff.mp position
        rw [List.length_append, List.length_singleton] at bound
        omega
      rw [List.getElem?_concat_length] at position
      cases position
      rw [if_pos ⟨rfl, here⟩, indexEq, ← furnished.size]
      exact ⟨rfl, _, Array.getElem?_push_size, rfl, rfl, rfl,
        draws.congr furnished.textures⟩

/-- Making all passes furnishes a workshop for all of them. -/
theorem Workshop.furnished_foldlM {symbols : Symbols} {passes : List (NodeId × Nat)}
    {w : Workshop ω} {world after : ω} (nodup : (passes.map Prod.fst).Nodup)
    (inside : ∀ p ∈ passes, p.1.index < symbols.slots.size)
    (start : symbols.operationCount = 0)
    (success : Build.Succeeds
      (passes.foldlM (Compiler.addPass registry config g final) { symbols := symbols })
      world w after) :
    w.Furnished registry config g final symbols passes world after := by
  have invariant := (Build.succeeds_foldlM_iff.mp success).invariant
    (fun rest now => ∃ done, passes = done ++ rest ∧
      now.1.symbols.operationCount = done.length ∧
      now.1.Furnished registry config g final symbols done world now.2)
    ?_ ⟨[], rfl, start, furnished_start symbols world⟩
  · obtain ⟨done, passesEq, -, furnished⟩ := invariant
    rw [passesEq, List.append_nil]
    exact furnished
  · rintro ⟨n, ports⟩ rest ⟨now, between⟩ ⟨next, later⟩ ⟨done, passesEq, countEq, furnished⟩
      added
    have new : n ∉ done.map Prod.fst := by
      rw [passesEq, List.map_append, List.map_cons] at nodup
      obtain ⟨-, -, apart⟩ := List.nodup_append.mp nodup
      exact fun member => apart n member n List.mem_cons_self rfl
    have nInside := inside (n, ports) (by simp [passesEq])
    refine ⟨done ++ [(n, ports)], by simp [passesEq], ?_,
      furnished.addPass new nInside countEq added⟩
    obtain ⟨factory, operation, framebuffer, framebuffers, handed, -, -, -, allocated,
      rfl⟩ := succeeds_addPass_iff.mp added
    simp only at countEq ⊢
    rw [(Symbols.allocateOperation_eq_ok allocated).2, List.length_append, countEq]
    rfl

/-- Making the passes of a layout furnishes a workshop for all of them. -/
theorem Workshop.furnished_of_complete {aliased : Option NodeId} {l : Layout}
    {w : Workshop ω} {world after : ω} (complete : l.Complete g aliased)
    (success : Build.Succeeds
      (l.passes.toList.foldlM (Compiler.addPass registry config g final)
        { symbols := l.symbols }) world w after) :
    w.Furnished registry config g final l.symbols l.passes.toList world after := by
  have nodesEq : l.passes.toList.map Prod.fst = g.nodesOfKind fun kind => kind = .pass := by
    rw [complete.passes, List.map_map]
    exact List.map_id _
  refine Workshop.furnished_foldlM ?_ ?_ complete.sound.operations success
  · rw [nodesEq]
    exact g.nodup_nodesOfKind _
  · intro p member
    have isPass := (complete.sound.passes p (Array.mem_toList_iff.mp member)).1
    rw [complete.sound.nodes]
    exact Graph.index_lt_of_kind? isPass

/-- The passes of a layout can be made exactly when each of them names a registered kind
and has no output beside the host's framebuffer, and a call can name all of them. -/
theorem exists_addPasses_of_complete_iff {aliased : Option NodeId} {l : Layout} {world : ω}
    (complete : l.Complete g aliased) :
    (∃ w after, Build.Succeeds
        (l.passes.toList.foldlM (Compiler.addPass registry config g final)
          { symbols := l.symbols }) world w after) ↔
      (∀ n ∈ g.nodesOfKind fun kind => kind = .pass,
        registry.contains (g.subtype n) = true ∧
          (writesDefault config g final n = true → (g.outgoing n).length = 1)) ∧
      (g.nodesOfKind fun kind => kind = .pass).length ≤ Symbols.operationSpaceSize := by
  have fresh : l.symbols.operationCount = 0 := complete.sound.operations
  have room : l.symbols.operationCount ≤ Symbols.operationSpaceSize := by
    rw [fresh]
    exact Nat.zero_le _
  rw [exists_addPasses_iff room, complete.passes]
  simp only [List.forall_mem_map, List.length_map, fresh, Nat.zero_add]

/-- The operations of a furnished workshop are those that the registry makes for the passes
of the graph. -/
theorem makeAll_of_complete {aliased : Option NodeId} {l : Layout} {w : Workshop ω}
    {world after : ω} (complete : l.Complete g aliased)
    (furnished : w.Furnished registry config g final l.symbols l.passes.toList world after) :
    registry.makeAll g.subtypes world =
      (w.passes.toList.map fun p => p.task.operation, after) := by
  have subtypesEq : l.passes.toList.map (fun p => g.subtype p.1) = g.subtypes := by
    rw [complete.passes, List.map_map]
    rfl
  rw [← subtypesEq]
  exact furnished.operations

/-! ## The whole compilation -/

theorem blueprint_eq_ok_iff {schedule : Schedule} {layout : Layout} :
    blueprint config g = .ok ⟨schedule, layout⟩ ↔
      ∃ sink, g.presentNode = .ok sink ∧ g.schedule sink = .ok schedule ∧
        Layout.ofGraph g (aliased? config g schedule.finalNode) = .ok layout := by
  simp only [blueprint, bind_eq_ok_iff, pure_eq_ok_iff]
  constructor
  · rintro ⟨sink, present, _, scheduled, _, laidOut, same⟩
    cases same
    exact ⟨sink, present, scheduled, laidOut⟩
  · rintro ⟨sink, present, scheduled, laidOut⟩
    exact ⟨sink, present, schedule, scheduled, layout, laidOut, rfl⟩

/-- The parts of a successful compilation. -/
theorem succeeds_compile_iff {i : Instance ω} {world after : ω} :
    Build.Succeeds (compile registry config g) world i after ↔
      ∃ schedule layout w between program,
        blueprint config g = .ok ⟨schedule, layout⟩ ∧
        Build.Succeeds (layout.passes.toList.foldlM
          (addPass registry config g schedule.finalNode) { symbols := layout.symbols })
          world w between ∧
        Emitter.program ⟨g, w.symbols, config.defaultMode⟩ schedule = .ok program ∧
        Build.Succeeds (initAll [] w.passes.toList) between () after ∧
        i = {
          program := program
          values := layout.values
          textures := layout.textures
          passes := w.passes
          framebuffers := w.framebuffers
          defaultFramebuffer := chooseDefault config w schedule.finalNode
          symbols := w.symbols
          machine := { stackLimit := config.stackLimit } } := by
  constructor
  · intro success
    obtain ⟨⟨schedule, layout⟩, _, planned, success⟩ := Build.succeeds_bind_iff.mp success
    obtain ⟨w, between, made, success⟩ := Build.succeeds_bind_iff.mp success
    obtain ⟨program, _, emitted, success⟩ := Build.succeeds_bind_iff.mp success
    obtain ⟨_, _, initialized, success⟩ := Build.succeeds_bind_iff.mp success
    obtain ⟨rfl, rfl⟩ := Build.succeeds_pure_iff.mp success
    obtain ⟨plannedEq, rfl⟩ := Build.succeeds_lift_iff.mp planned
    obtain ⟨emittedEq, rfl⟩ := Build.succeeds_lift_iff.mp emitted
    rw [← Array.foldlM_toList] at made
    exact ⟨schedule, layout, w, between, program, plannedEq, made, emittedEq, initialized,
      rfl⟩
  · rintro ⟨schedule, layout, w, between, program, planned, made, emitted, initialized, rfl⟩
    rw [Array.foldlM_toList] at made
    exact Build.succeeds_bind_iff.mpr ⟨_, _, Build.succeeds_lift_iff.mpr ⟨planned, rfl⟩,
      Build.succeeds_bind_iff.mpr ⟨w, between, made,
        Build.succeeds_bind_iff.mpr ⟨_, _, Build.succeeds_lift_iff.mpr ⟨emitted, rfl⟩,
          Build.succeeds_bind_iff.mpr ⟨(), after, initialized,
            Build.succeeds_pure_iff.mpr ⟨rfl, rfl⟩⟩⟩⟩⟩

/-- The symbols before any pass has an operation. -/
def unassigned (s : Symbols) : Symbols :=
  { s with
    slots := s.slots.map fun t => { t with operation := none }
    operationCount := 0 }

/-- A compilation yields an instance if the plan of the graph fits it and its passes can be made
and initialized. -/
theorem succeeds_compile_of_plan {i : Instance ω} {world between after : ω}
    (schedule : Schedule) (passes : Array (NodeId × Nat))
    (planned : blueprint config g =
      .ok ⟨schedule, ⟨unassigned i.symbols, i.values, i.textures, passes⟩⟩)
    (made : Build.Succeeds (passes.toList.foldlM (addPass registry config g schedule.finalNode)
      { symbols := unassigned i.symbols }) world ⟨i.symbols, i.passes, i.framebuffers⟩ between)
    (emitted : Emitter.program ⟨g, i.symbols, config.defaultMode⟩ schedule = .ok i.program)
    (initialized : Build.Succeeds (initAll [] i.passes.toList) between () after)
    (front : i.defaultFramebuffer =
      chooseDefault config ⟨i.symbols, i.passes, i.framebuffers⟩ schedule.finalNode)
    (machine : i.machine = { stackLimit := config.stackLimit }) (unsized : i.size = none) :
    Build.Succeeds (compile registry config g) world i after := by
  refine succeeds_compile_iff.mpr ⟨schedule, _, _, between, _, planned, made, emitted,
    initialized, ?_⟩
  rw [← front, ← machine, ← unsized]

end Compiler

end FrameGraph
