import FrameGraph.Proofs.Compiler.Allocation
import FrameGraph.Proofs.Compiler.Emission
import FrameGraph.Proofs.Compiler.Ports

/-!
# Nodes that have code

A node has code exactly when its inputs can be found: their target ports are in order, and
each of them comes from an output port, through one texture at most, or is a texture that
nothing produces.  An operator must have as many inputs as its arity, and the mode that it
names must exist.
-/

namespace FrameGraph

namespace Graph

/-! ## Readable inputs -/

/-- The source port of an edge can be read and is an output port of its source. -/
def Offers (g : Graph) (e : Edge) : Prop :=
  ∃ port, e.sourcePort = .ok port ∧ port < g.outputCount e.source

/-- An edge brings a value: from an output port, or through one texture from an output
port, or as a texture that nothing produces. -/
def Readable (g : Graph) (e : Edge) : Prop :=
  if g.kind? e.source = some .texture then
    g.incoming e.source = [] ∨ ∃ hop, g.incoming e.source = [hop] ∧ g.Offers hop
  else g.Offers e

/-- A node has what its code needs.  Constants, textures and the sink need nothing. -/
def Supplied (g : Graph) (n : NodeId) : Prop :=
  match g.kind? n with
  | some (.operator op) =>
    g.PortsInOrder n ∧ (g.incoming n).length = op.arity ∧
      (∀ raw, g.metadata? n modeKey = some raw → ∃ mode, NumericMode.ofName? raw = some mode) ∧
      ∀ e ∈ g.incoming n, g.Readable e
  | some .pass => g.PortsInOrder n ∧ ∀ e ∈ g.incoming n, g.Readable e
  | some .float | some .texture | some .present | none => True

end Graph

namespace Emitter

/-- The symbols give every output port a value slot and every pass an operation. -/
structure Furnished (m : Emitter) : Prop where
  symbols : m.symbols.Sound
  counts : ∀ n, (m.symbols.slotsOf n).count = m.graph.outputCount n
  operations : ∀ n, m.graph.kind? n = some .pass →
    ∃ index, (m.symbols.slotsOf n).operation = some index

variable {m : Emitter} {n consumer : NodeId}

/-! ## Addresses -/

theorem exists_valueAddress_iff (furnished : m.Furnished) (n : NodeId) (port : Nat) :
    (∃ a, m.valueAddress n port = .ok a) ↔ port < m.graph.outputCount n := by
  rw [← furnished.counts]
  unfold valueAddress Slots.value?
  by_cases inside : port < (m.symbols.slotsOf n).count
  · have countEq : (m.symbols.slotsOf n).count =
      (m.symbols.slotsOf n).stop - (m.symbols.slotsOf n).start := rfl
    have below := furnished.symbols.values n
    have bound := furnished.symbols.values_bound
    have addressable : (m.symbols.slotsOf n).start + port < Address.spaceSize := by omega
    simp [inside, Address.value?, addressable]
  · simp [inside]

theorem exists_resolveProducer_iff (furnished : m.Furnished) {port : Nat} {e : Edge} :
    (∃ a, m.resolveProducer consumer port e = .ok a) ↔ m.graph.Offers e := by
  unfold resolveProducer Graph.Offers
  cases e.sourcePort with
  | error raw => simp
  | ok output =>
      simp only [Except.ok.injEq, exists_eq_left']
      have addressed := exists_valueAddress_iff furnished e.source output
      have noOutputs (none : m.graph.outputCount e.source = 0) :
          ¬ output < m.graph.outputCount e.source := by omega
      cases kindEq : m.graph.kind? e.source with
      | none => exact iff_of_false (by simp) (noOutputs (by simp [Graph.outputCount, kindEq]))
      | some kind =>
          cases kind with
          | float | operator op | pass => exact addressed
          | texture | present =>
              exact iff_of_false (by simp) (noOutputs (by simp [Graph.outputCount, kindEq]))

/-- An edge is resolved exactly when it brings a value, if a texture that nothing produces
has storage. -/
theorem exists_resolve_iff (furnished : m.Furnished) (consumer : NodeId) (port : Nat)
    {e : Edge} (stored : m.graph.kind? e.source = some .texture → m.graph.incoming e.source = [] →
      ∃ slot, (m.symbols.slotsOf e.source).texture = some slot) :
    (∃ a, m.resolve consumer port e = .ok a) ↔ m.graph.Readable e := by
  unfold resolve Graph.Readable
  by_cases isTexture : m.graph.kind? e.source = some .texture
  · rw [if_pos isTexture, if_pos isTexture]
    rcases incomingEq : m.graph.incoming e.source with _ | ⟨hop, _ | ⟨other, rest⟩⟩
    · obtain ⟨slot, slotEq⟩ := stored isTexture incomingEq
      have below := furnished.symbols.textures _ _ slotEq
      have bound := furnished.symbols.textures_bound
      have addressable : slot < Address.spaceSize := Nat.lt_of_lt_of_le below bound
      simp [slotEq, Address.texture?, addressable]
    · by_cases isIndirect : m.graph.kind? hop.source = some .texture
      · have nothing : m.graph.outputCount hop.source = 0 := by
          simp [Graph.outputCount, isIndirect]
        simp [isIndirect, Graph.Offers, nothing]
      · simpa [isIndirect] using exists_resolveProducer_iff furnished
    · simp
  · rw [if_neg isTexture, if_neg isTexture]
    exact exists_resolveProducer_iff furnished

/-! ## Pushes and pops -/

theorem exists_pushes_iff (furnished : m.Furnished) (port : Nat) {edges : List Edge}
    (stored : ∀ e ∈ edges, m.graph.kind? e.source = some .texture →
      m.graph.incoming e.source = [] →
        ∃ slot, (m.symbols.slotsOf e.source).texture = some slot) :
    (∃ code, m.pushes consumer port edges = .ok code) ↔
      ∀ e ∈ edges, m.graph.Readable e := by
  induction edges generalizing port with
  | nil => simp [pushes]
  | cons e rest inductionHypothesis =>
      have here := exists_resolve_iff furnished consumer port
        (stored e List.mem_cons_self)
      have later := inductionHypothesis (port + 1)
        fun f member => stored f (List.mem_cons_of_mem e member)
      rw [List.forall_mem_cons, ← here, ← later]
      simp only [pushes, bind_eq_ok_iff, pure_eq_ok_iff]
      constructor
      · rintro ⟨code, a, resolved, others, emitted, -⟩
        exact ⟨⟨a, resolved⟩, others, emitted⟩
      · rintro ⟨⟨a, resolved⟩, others, emitted⟩
        exact ⟨_, a, resolved, others, emitted, rfl⟩

theorem exists_pops (furnished : m.Furnished) {count : Nat}
    (room : count ≤ m.graph.outputCount n) : ∃ code, m.pops n count = .ok code := by
  induction count with
  | zero => exact ⟨[], rfl⟩
  | succ port inductionHypothesis =>
      obtain ⟨a, addressed⟩ := (exists_valueAddress_iff furnished _ _).mpr room
      obtain ⟨others, popped⟩ := inductionHypothesis (Nat.le_of_succ_le room)
      exact ⟨.pop a :: others, bind_eq_ok_iff.mpr ⟨a, addressed,
        bind_eq_ok_iff.mpr ⟨others, popped, rfl⟩⟩⟩

theorem exists_mode_iff :
    (∃ mode, m.mode n = .ok mode) ↔
      ∀ raw, m.graph.metadata? n modeKey = some raw →
        ∃ mode, NumericMode.ofName? raw = some mode := by
  unfold mode
  cases m.graph.metadata? n modeKey with
  | none => simp
  | some raw =>
      cases named : NumericMode.ofName? raw with
      | none => simp [named]
      | some mode => simp [named]

/-! ## Code -/

section Code

variable (furnished : m.Furnished)
  (stored : ∀ e ∈ m.graph.incoming n, m.graph.kind? e.source = some .texture →
    m.graph.incoming e.source = [] →
      ∃ slot, (m.symbols.slotsOf e.source).texture = some slot)

include furnished stored

/-- Accepted inputs are pushed exactly when all edges into the node bring values. -/
private theorem exists_inputPushes_iff {edges : List Edge}
    (edgesEq : m.graph.inputs n = .ok edges) :
    (∃ code, m.pushes n 0 edges = .ok code) ↔
      ∀ e ∈ m.graph.incoming n, m.graph.Readable e := by
  have permutation := (Graph.inputs_eq_ok edgesEq).1
  rw [exists_pushes_iff furnished 0 fun e member =>
    stored e (permutation.mem_iff.mp member)]
  exact forall_congr' fun e => by rw [permutation.mem_iff]

theorem exists_operatorCode_iff {op : Operator}
    (kind : m.graph.kind? n = some (.operator op)) :
    (∃ code, m.operatorCode n op = .ok code) ↔ m.graph.Supplied n := by
  simp only [Graph.Supplied, kind]
  constructor
  · rintro ⟨code, success⟩
    obtain ⟨edges, mode, pushCode, output, edgesEq, arityEq, modeEq, pushed, -, -⟩ :=
      operatorCode_eq_ok success
    have lengthEq := (Graph.inputs_eq_ok edgesEq).1.length_eq
    exact ⟨Graph.exists_inputs_iff.mp ⟨edges, edgesEq⟩, lengthEq.symm.trans arityEq,
      exists_mode_iff.mp ⟨mode, modeEq⟩,
      (exists_inputPushes_iff furnished stored edgesEq).mp ⟨pushCode, pushed⟩⟩
  · rintro ⟨inOrder, arityEq, modeNamed, readable⟩
    obtain ⟨edges, edgesEq⟩ := Graph.exists_inputs_iff.mpr inOrder
    obtain ⟨mode, modeEq⟩ := exists_mode_iff.mpr modeNamed
    obtain ⟨pushCode, pushed⟩ :=
      (exists_inputPushes_iff furnished stored edgesEq).mpr readable
    have oneOutput : 0 < m.graph.outputCount n := by
      rw [Graph.outputCount_of_operator kind]
      exact Nat.zero_lt_one
    obtain ⟨output, addressed⟩ := (exists_valueAddress_iff furnished _ _).mpr oneOutput
    have lengthEq : edges.length = op.arity :=
      (Graph.inputs_eq_ok edgesEq).1.length_eq.trans arityEq
    refine ⟨pushCode ++ [op.instruction mode, .pop output], ?_⟩
    simp [operatorCode, edgesEq, lengthEq, modeEq, pushed, addressed, bind, Except.bind, pure,
      Except.pure]

theorem exists_passCode_iff (kind : m.graph.kind? n = some .pass) :
    (∃ code, m.passCode n = .ok code) ↔ m.graph.Supplied n := by
  simp only [Graph.Supplied, kind]
  constructor
  · rintro ⟨code, success⟩
    obtain ⟨edges, pushCode, index, popCode, edgesEq, pushed, -, -, -⟩ :=
      passCode_eq_ok success
    exact ⟨Graph.exists_inputs_iff.mp ⟨edges, edgesEq⟩,
      (exists_inputPushes_iff furnished stored edgesEq).mp ⟨pushCode, pushed⟩⟩
  · rintro ⟨inOrder, readable⟩
    obtain ⟨edges, edgesEq⟩ := Graph.exists_inputs_iff.mpr inOrder
    obtain ⟨pushCode, pushed⟩ :=
      (exists_inputPushes_iff furnished stored edgesEq).mpr readable
    obtain ⟨index, operationEq⟩ := furnished.operations n kind
    obtain ⟨popCode, popped⟩ :=
      exists_pops (n := n) furnished (Nat.le_of_eq (furnished.counts n))
    refine ⟨pushCode ++ .call (UInt16.ofNat index) :: popCode, ?_⟩
    simp [passCode, edgesEq, pushed, operationEq, popped, bind, Except.bind, pure,
      Except.pure]

end Code

/-- A node has code exactly when it has what the code needs, if textures that nothing
produces have storage. -/
theorem exists_nodeCode_iff (furnished : m.Furnished)
    (stored : m.graph.kind? n ≠ some .present → ∀ e ∈ m.graph.incoming n,
      m.graph.kind? e.source = some .texture → m.graph.incoming e.source = [] →
        ∃ slot, (m.symbols.slotsOf e.source).texture = some slot) :
    (∃ code, m.nodeCode n = .ok code) ↔ m.graph.Supplied n := by
  unfold nodeCode
  cases kindEq : m.graph.kind? n with
  | none => simp [Graph.Supplied, kindEq]
  | some kind =>
      cases kind with
      | operator op =>
          exact exists_operatorCode_iff furnished (stored (by simp [kindEq])) kindEq
      | pass => exact exists_passCode_iff furnished (stored (by simp [kindEq])) kindEq
      | float | texture | present => simp [Graph.Supplied, kindEq]

theorem exists_code_iff {order : List NodeId} :
    (∃ code, m.code order = .ok code) ↔ ∀ n ∈ order, ∃ code, m.nodeCode n = .ok code := by
  induction order with
  | nil => simp [code]
  | cons n rest inductionHypothesis =>
      rw [List.forall_mem_cons, ← inductionHypothesis]
      simp only [code, bind_eq_ok_iff, pure_eq_ok_iff]
      constructor
      · rintro ⟨whole, first, firstEmitted, others, othersEmitted, -⟩
        exact ⟨⟨first, firstEmitted⟩, others, othersEmitted⟩
      · rintro ⟨⟨first, firstEmitted⟩, others, othersEmitted⟩
        exact ⟨_, first, firstEmitted, others, othersEmitted, rfl⟩

/-- The code of nodes ends with a halt. -/
theorem getLast?_code {order : List NodeId} {code : List Instruction}
    (success : m.code order = .ok code) : code.getLast? = some .halt := by
  induction order generalizing code with
  | nil =>
      cases success
      rfl
  | cons n rest inductionHypothesis =>
      obtain ⟨first, -, success⟩ := bind_eq_ok_iff.mp success
      obtain ⟨others, othersEmitted, success⟩ := bind_eq_ok_iff.mp success
      cases success
      rw [List.getLast?_append, inductionHypothesis othersEmitted]
      rfl

/-- Code is never empty, so that it always makes a program. -/
theorem exists_program_iff {schedule : Schedule} :
    (∃ program, m.program schedule = .ok program) ↔
      ∃ code, m.code schedule.evaluationOrder = .ok code := by
  simp only [program, bind_eq_ok_iff]
  constructor
  · rintro ⟨_, code, emitted, -⟩
    exact ⟨code, emitted⟩
  · rintro ⟨code, emitted⟩
    have nonempty : code ≠ [] := by
      rintro rfl
      cases getLast?_code emitted
    obtain ⟨program, assembled⟩ := Program.exists_assemble nonempty
    exact ⟨program, code, emitted, assembled⟩

end Emitter

end FrameGraph
