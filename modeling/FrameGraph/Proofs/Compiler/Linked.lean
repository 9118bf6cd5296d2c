import FrameGraph.Compiler.Compile
import FrameGraph.Proofs.Compiler.Layout

/-!
# Linked instances

What an execution relies on: the program is the code of the schedule, the slots it
addresses exist, and every operation that it calls has the stack effect of its node.
A successful compilation hands over a linked instance.
-/

namespace FrameGraph

variable {ω : Type}

/-- The program and the tables of an instance belong to a graph and its schedule. -/
structure Instance.Linked (config : Config) (g : Graph) (schedule : Schedule)
    (i : Instance ω) : Prop where
  symbols : i.symbols.Sound
  values : i.values.size = i.symbols.valueCount
  textures : i.textures.size = i.symbols.textureCount
  passes : ∀ n index, (i.symbols.slotsOf n).operation = some index →
    g.kind? n = some .pass ∧ (i.symbols.slotsOf n).count = g.neededPorts n ∧
      (i.passes[index]?).map (fun p => p.task.signature) =
        some ⟨(g.incoming n).length, g.neededPorts n⟩
  code : ∃ code, Emitter.code ⟨g, i.symbols, config.defaultMode⟩ schedule.evaluationOrder =
    .ok code ∧ Program.assemble code = .ok i.program
  limit : i.machine.stackLimit = config.stackLimit

/-- Two instances run the same program over tables of the same size, with operations of
the same stack effect under the same indices.  The cells, the native objects and what
the operations do may differ. -/
structure Instance.SameShape (i compiled : Instance ω) : Prop where
  program : i.program = compiled.program
  symbols : i.symbols = compiled.symbols
  values : i.values.size = compiled.values.size
  textures : i.textures.size = compiled.textures.size
  signatures : i.passes.toList.map (fun p => p.task.signature) =
    compiled.passes.toList.map (fun p => p.task.signature)
  limit : i.machine.stackLimit = compiled.machine.stackLimit

theorem Instance.SameShape.refl (i : Instance ω) : i.SameShape i :=
  ⟨rfl, rfl, rfl, rfl, rfl, rfl⟩

theorem Instance.SameShape.trans {i j k : Instance ω} (first : i.SameShape j)
    (second : j.SameShape k) : i.SameShape k where
  program := first.program.trans second.program
  symbols := first.symbols.trans second.symbols
  values := first.values.trans second.values
  textures := first.textures.trans second.textures
  signatures := first.signatures.trans second.signatures
  limit := first.limit.trans second.limit

/-- Only the shape of an instance decides whether it is linked. -/
theorem Instance.Linked.of_sameShape {config : Config} {g : Graph} {schedule : Schedule}
    {i compiled : Instance ω} (linked : compiled.Linked config g schedule)
    (shape : i.SameShape compiled) : i.Linked config g schedule := by
  obtain ⟨programEq, symbolsEq, valuesEq, texturesEq, signaturesEq, limitEq⟩ := shape
  constructor
  · rw [symbolsEq]
    exact linked.symbols
  · rw [symbolsEq, valuesEq]
    exact linked.values
  · rw [symbolsEq, texturesEq]
    exact linked.textures
  · intro n index found
    rw [symbolsEq] at found ⊢
    obtain ⟨kind, countEq, signatureEq⟩ := linked.passes n index found
    have same := congrArg (fun signatures => signatures[index]?) signaturesEq
    simp only [List.getElem?_map, Array.getElem?_toList] at same
    exact ⟨kind, countEq, same.trans signatureEq⟩
  · rw [symbolsEq, programEq]
    exact linked.code
  · rw [limitEq]
    exact linked.limit

namespace Compiler

variable {config : Config} {g : Graph} {l : Layout}

/-! ## Passes -/

/-- The passes made so far have their operation indices, and nothing else of the layout
has changed. -/
structure Workshop.Sound (g : Graph) (l : Layout) (w : Workshop ω) : Prop where
  symbols : w.symbols.Sound
  valueCount : w.symbols.valueCount = l.symbols.valueCount
  textureCount : w.symbols.textureCount = l.symbols.textureCount
  counts : ∀ n, (w.symbols.slotsOf n).count = (l.symbols.slotsOf n).count
  operations : w.passes.size = w.symbols.operationCount
  signatures : ∀ n index, (w.symbols.slotsOf n).operation = some index →
    ∃ ports, (n, ports) ∈ l.passes ∧
      (w.passes[index]?).map (fun p => p.task.signature) =
        some ⟨(g.incoming n).length, ports⟩

theorem Workshop.sound_start (sound : l.Sound g) :
    Workshop.Sound g l ({ symbols := l.symbols } : Workshop ω) where
  symbols := sound.symbols
  valueCount := rfl
  textureCount := rfl
  counts _ := rfl
  operations := sound.operations.symm
  signatures n index found := by
    have below := sound.symbols.operations n index found
    rw [sound.operations] at below
    exact absurd below (Nat.not_lt_zero index)

theorem Workshop.Sound.addPass {registry : Registry ω} {final n : NodeId} {ports : Nat}
    {w next : Workshop ω} {world after : ω} (sound : w.Sound g l)
    (member : (n, ports) ∈ l.passes)
    (success : Build.Succeeds (addPass registry config g final w (n, ports)) world next
      after) : next.Sound g l := by
  obtain ⟨operation, _, -, success⟩ := Build.succeeds_bind_iff.mp success
  obtain ⟨⟨framebuffer, framebuffers⟩, _, -, success⟩ := Build.succeeds_bind_iff.mp success
  obtain ⟨symbols, _, allocated, success⟩ := Build.succeeds_bind_iff.mp success
  obtain ⟨rfl, -⟩ := Build.succeeds_pure_iff.mp success
  obtain ⟨allocated, -⟩ := Build.succeeds_lift_iff.mp allocated
  have symbolsSound := sound.symbols.allocateOperation allocated
  have slotsEq := Symbols.slotsOf_allocateOperation allocated
  obtain ⟨-, rfl⟩ := Symbols.allocateOperation_eq_ok allocated
  refine ⟨symbolsSound, sound.valueCount, sound.textureCount, ?_, ?_, ?_⟩
  · intro other
    rw [slotsEq, ← sound.counts other]
    split <;> rfl
  · rw [Array.size_push, sound.operations]
  · intro other index
    rw [slotsEq]
    split
    · next here =>
        rintro ⟨⟩
        refine ⟨ports, here.1 ▸ member, ?_⟩
        rw [← sound.operations, Array.getElem?_push_size, here.1]
        rfl
    · intro found
      obtain ⟨otherPorts, otherMember, signature⟩ := sound.signatures other index found
      have below := sound.symbols.operations other index found
      rw [← sound.operations] at below
      refine ⟨otherPorts, otherMember, ?_⟩
      rw [Array.getElem?_push_lt below, ← Array.getElem?_eq_getElem below]
      exact signature

/-! ## The whole compilation -/

theorem Workshop.Sound.foldlM {registry : Registry ω} {final : NodeId} {w : Workshop ω}
    {world after : ω} (sound : l.Sound g)
    (success : Build.Succeeds
      (l.passes.foldlM (Compiler.addPass registry config g final) { symbols := l.symbols })
      world w after) : w.Sound g l := by
  rw [← Array.foldlM_toList] at success
  refine (Build.foldlM_invariant
    (fun rest now => rest ⊆ l.passes.toList ∧ now.Sound g l)
    ?_ ⟨List.Subset.refl _, Workshop.sound_start sound⟩ success).2
  rintro ⟨n, ports⟩ rest now world after next ⟨subset, nowSound⟩ added
  have member : (n, ports) ∈ l.passes := Array.mem_toList_iff.mp (subset List.mem_cons_self)
  exact ⟨fun _ later => subset (List.mem_cons_of_mem _ later),
    nowSound.addPass member added⟩

end Compiler

/-- A successful compilation schedules the present node and hands over a linked
instance. -/
theorem Instance.linked_of_compile {registry : Registry ω} {config : Config} {g : Graph}
    {i : Instance ω} {world after : ω} (word : g.neededValues < 2 ^ 64)
    (success : Build.Succeeds (compile registry config g) world i after) :
    ∃ sink schedule, g.presentNode = .ok sink ∧ g.schedule sink = .ok schedule ∧
      i.Linked config g schedule := by
  obtain ⟨⟨schedule, layout⟩, _, planned, success⟩ := Build.succeeds_bind_iff.mp success
  obtain ⟨w, _, made, success⟩ := Build.succeeds_bind_iff.mp success
  obtain ⟨program, _, emitted, success⟩ := Build.succeeds_bind_iff.mp success
  obtain ⟨_, _, -, success⟩ := Build.succeeds_bind_iff.mp success
  obtain ⟨rfl, -⟩ := Build.succeeds_pure_iff.mp success
  obtain ⟨planned, -⟩ := Build.succeeds_lift_iff.mp planned
  obtain ⟨emitted, -⟩ := Build.succeeds_lift_iff.mp emitted
  obtain ⟨sink, present, planned⟩ := bind_eq_ok_iff.mp planned
  obtain ⟨_, scheduled, planned⟩ := bind_eq_ok_iff.mp planned
  obtain ⟨_, laidOut, planned⟩ := bind_eq_ok_iff.mp planned
  cases planned
  have layoutSound := Layout.sound_ofGraph word laidOut
  have sound := Compiler.Workshop.Sound.foldlM layoutSound made
  refine ⟨sink, schedule, present, scheduled, ?_⟩
  constructor
  · exact sound.symbols
  · exact layoutSound.values.trans sound.valueCount.symm
  · exact layoutSound.textures.trans sound.textureCount.symm
  · intro n index found
    obtain ⟨ports, member, signature⟩ := sound.signatures n index found
    obtain ⟨kind, needed, countEq⟩ := layoutSound.passes _ member
    simp only at kind needed countEq
    subst needed
    exact ⟨kind, (sound.counts n).trans countEq, signature⟩
  · exact bind_eq_ok_iff.mp emitted
  · rfl

end FrameGraph
