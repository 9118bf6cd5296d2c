import FrameGraph.Proofs.Compiler.Equipment
import FrameGraph.Proofs.Instance.Constants

/-!
# Single assignment

The machine takes from memory whatever a push names and stores wherever a pop says.  That this
is always what was meant is a property of the code: it runs straight to its one halt, no slot
is popped into twice, no slot is pushed before it has been popped into, and the operation of a
pass is called once or, if the pass does not reach the sink, never.
-/

namespace FrameGraph

open Instruction

variable {ω : Type}

/-! ## Calls in code -/

namespace Instruction

/-- The operations that code calls, in order. -/
def calledOperations (code : List Instruction) : List Nat :=
  code.filterMap fun
    | .call index => some index.toNat
    | _ => none

@[simp]
theorem calledOperations_append (first second : List Instruction) :
    calledOperations (first ++ second) = calledOperations first ++ calledOperations second :=
  List.filterMap_append

@[simp]
theorem calledOperations_call_cons (index : UInt16) (rest : List Instruction) :
    calledOperations (.call index :: rest) = index.toNat :: calledOperations rest := rfl

theorem calledOperations_instruction (op : Operator) (mode : NumericMode) (output : Address) :
    calledOperations [op.instruction mode, .pop output] = [] := by
  cases op <;> rfl

/-- An instruction behind which the next one in line follows, if it does not end the run. -/
def Straight (i : Instruction) : Prop := i ≠ .halt ∧ i.target? = none

end Instruction

namespace Emitter

variable {m : Emitter} {n consumer : NodeId} {code : List Instruction} {i : Instruction}

/-! ## What is emitted -/

/-- The instructions that the code of a node consists of. -/
inductive Emits (m : Emitter) (n : NodeId) : Instruction → Prop where
  | push {e : Edge} {port : Nat} {a : Address} (incoming : e ∈ m.graph.incoming n)
      (resolved : m.resolve n port e = .ok a) : Emits m n (.push a)
  | numeric (op : NumericOperator) (mode : NumericMode) : Emits m n (.numeric op mode)
  | logical (op : LogicalOperator) : Emits m n (.logical op)
  | call (index : UInt16) : Emits m n (.call index)
  | pop {port : Nat} {a : Address} (addressed : m.valueAddress n port = .ok a) :
      Emits m n (.pop a)

theorem exists_push_of_mem_pushes {port : Nat} {edges : List Edge}
    (success : m.pushes consumer port edges = .ok code) (member : i ∈ code) :
    ∃ e ∈ edges, ∃ port a, i = .push a ∧ m.resolve consumer port e = .ok a := by
  induction edges generalizing port code with
  | nil =>
      cases success
      cases member
  | cons e rest inductionHypothesis =>
      obtain ⟨a, resolved, success⟩ := bind_eq_ok_iff.mp success
      obtain ⟨others, emitted, success⟩ := bind_eq_ok_iff.mp success
      cases success
      rcases List.mem_cons.mp member with rfl | later
      · exact ⟨e, List.mem_cons_self, port, a, rfl, resolved⟩
      · obtain ⟨f, inRest, found⟩ := inductionHypothesis emitted later
        exact ⟨f, List.mem_cons_of_mem e inRest, found⟩

theorem exists_pop_of_mem_pops {count : Nat} (success : m.pops n count = .ok code)
    (member : i ∈ code) : ∃ port a, i = .pop a ∧ m.valueAddress n port = .ok a := by
  induction count generalizing code with
  | zero =>
      cases success
      cases member
  | succ last inductionHypothesis =>
      obtain ⟨a, addressed, success⟩ := bind_eq_ok_iff.mp success
      obtain ⟨others, popped, success⟩ := bind_eq_ok_iff.mp success
      cases success
      rcases List.mem_cons.mp member with rfl | later
      · exact ⟨last, a, rfl, addressed⟩
      · exact inductionHypothesis popped later

theorem emits_of_mem_nodeCode (success : m.nodeCode n = .ok code) (member : i ∈ code) :
    m.Emits n i := by
  have pushed {edges : List Edge} {pushCode : List Instruction}
      (edgesEq : m.graph.inputs n = .ok edges) (emitted : m.pushes n 0 edges = .ok pushCode)
      (isPush : i ∈ pushCode) : m.Emits n i := by
    obtain ⟨e, inEdges, port, a, rfl, resolved⟩ := exists_push_of_mem_pushes emitted isPush
    exact .push ((Graph.inputs_eq_ok edgesEq).1.mem_iff.mp inEdges) resolved
  unfold nodeCode at success
  split at success
  · next op _ =>
      obtain ⟨edges, mode, pushCode, output, edgesEq, -, -, emitted, addressed, rfl⟩ :=
        operatorCode_eq_ok success
      simp only [List.mem_append, List.mem_cons, List.not_mem_nil, or_false] at member
      rcases member with isPush | rfl | rfl
      · exact pushed edgesEq emitted isPush
      · cases op with
        | numeric op => exact .numeric op mode
        | logical op => exact .logical op
      · exact .pop addressed
  · obtain ⟨edges, pushCode, index, popCode, edgesEq, emitted, -, popped, rfl⟩ :=
      passCode_eq_ok success
    simp only [List.mem_append, List.mem_cons] at member
    rcases member with isPush | rfl | isPop
    · exact pushed edgesEq emitted isPush
    · exact .call _
    · obtain ⟨port, a, rfl, addressed⟩ := exists_pop_of_mem_pops popped isPop
      exact .pop addressed
  all_goals
    cases success
    cases member

/-- The code of nodes in order is what is emitted for them, and a halt. -/
theorem exists_body_of_code {order : List NodeId} (success : m.code order = .ok code) :
    ∃ body, code = body ++ [.halt] ∧ ∀ i ∈ body, ∃ n ∈ order, m.Emits n i := by
  induction order generalizing code with
  | nil =>
      cases success
      exact ⟨[], rfl, fun _ member => absurd member List.not_mem_nil⟩
  | cons n rest inductionHypothesis =>
      obtain ⟨first, firstEmitted, success⟩ := bind_eq_ok_iff.mp success
      obtain ⟨others, othersEmitted, success⟩ := bind_eq_ok_iff.mp success
      cases success
      obtain ⟨body, rfl, emitted⟩ := inductionHypothesis othersEmitted
      refine ⟨first ++ body, (List.append_assoc ..).symm, ?_⟩
      intro i member
      rcases List.mem_append.mp member with here | later
      · exact ⟨n, List.mem_cons_self, emits_of_mem_nodeCode firstEmitted here⟩
      · obtain ⟨p, inRest, emits⟩ := emitted i later
        exact ⟨p, List.mem_cons_of_mem n inRest, emits⟩

theorem emits_of_mem_code {order : List NodeId} (success : m.code order = .ok code)
    (member : i ∈ code) (notHalt : i ≠ .halt) : ∃ n ∈ order, m.Emits n i := by
  obtain ⟨body, rfl, emitted⟩ := exists_body_of_code success
  refine emitted i ((List.mem_append.mp member).resolve_right ?_)
  intro isHalt
  exact notHalt (List.mem_singleton.mp isHalt)

theorem Emits.straight (emits : m.Emits n i) : i.Straight := by
  cases emits <;> exact ⟨Instruction.noConfusion, rfl⟩

theorem Emits.isTexture_of_pop {a : Address} (emits : m.Emits n (.pop a)) :
    a.isTexture = false := by
  cases emits with
  | pop addressed => exact (valueAddress_eq_ok addressed).1

/-- A resolved texture address belongs to the source of the edge. -/
theorem texture_of_resolve {port : Nat} {e : Edge} {a : Address}
    (success : m.resolve consumer port e = .ok a) (isTexture : a.isTexture = true) :
    m.graph.kind? e.source = some .texture ∧
      (m.symbols.slotsOf e.source).texture = some a.index := by
  have notProduced {e : Edge} : m.resolveProducer consumer port e ≠ .ok a := by
    intro resolved
    obtain ⟨output, -, addressed⟩ := resolveProducer_eq_ok resolved
    rw [(valueAddress_eq_ok addressed).1] at isTexture
    cases isTexture
  rcases resolve_eq_ok success with ⟨-, direct⟩ | ⟨-, hop, -, behind⟩ | ⟨kind, -, -, slotEq⟩
  · exact absurd direct notProduced
  · exact absurd behind notProduced
  · exact ⟨kind, slotEq⟩

theorem Emits.texture_of_push {a : Address} (emits : m.Emits n (.push a))
    (isTexture : a.isTexture = true) :
    ∃ p, m.graph.kind? p = some .texture ∧ (m.symbols.slotsOf p).texture = some a.index := by
  cases emits with
  | push incoming resolved => exact ⟨_, texture_of_resolve resolved isTexture⟩

/-! ## Pops -/

/-- The pops of a node go through its slots from the last one to the first one. -/
theorem poppedSlots_pops {count : Nat} (success : m.pops n count = .ok code) :
    poppedSlots code =
      (List.range count).reverse.map fun port => (m.symbols.slotsOf n).start + port := by
  induction count generalizing code with
  | zero =>
      cases success
      rfl
  | succ last inductionHypothesis =>
      obtain ⟨a, addressed, success⟩ := bind_eq_ok_iff.mp success
      obtain ⟨others, popped, success⟩ := bind_eq_ok_iff.mp success
      cases success
      have indexEq := (Slots.value?_eq_some_iff.mp (valueAddress_eq_ok addressed).2).1
      rw [poppedSlots_pop_cons, inductionHypothesis popped, indexEq, List.range_succ,
        List.reverse_append]
      rfl

theorem nodup_poppedSlots_nodeCode (success : m.nodeCode n = .ok code) :
    (poppedSlots code).Nodup := by
  unfold nodeCode at success
  split at success
  · obtain ⟨edges, mode, pushCode, output, -, -, -, pushed, -, rfl⟩ :=
      operatorCode_eq_ok success
    rw [poppedSlots_append, poppedSlots_pushes pushed, poppedSlots_instruction]
    exact List.nodup_singleton output.index
  · obtain ⟨edges, pushCode, index, popCode, -, pushed, -, popped, rfl⟩ :=
      passCode_eq_ok success
    rw [poppedSlots_append, poppedSlots_pushes pushed, poppedSlots_call_cons,
      poppedSlots_pops popped]
    exact (List.nodup_reverse.mpr List.nodup_range).map fun _ _ same =>
      Nat.add_left_cancel same
  all_goals
    cases success
    exact List.nodup_nil

/-- With one owner for each slot, the code of different nodes pops into different slots. -/
theorem nodup_poppedSlots_code {order : List NodeId} (sound : m.symbols.Sound)
    (nodup : order.Nodup) (success : m.code order = .ok code) : (poppedSlots code).Nodup := by
  induction order generalizing code with
  | nil =>
      cases success
      exact List.nodup_nil
  | cons n rest inductionHypothesis =>
      obtain ⟨notLater, restNodup⟩ := List.nodup_cons.mp nodup
      obtain ⟨first, firstEmitted, success⟩ := bind_eq_ok_iff.mp success
      obtain ⟨others, othersEmitted, success⟩ := bind_eq_ok_iff.mp success
      cases success
      rw [poppedSlots_append]
      refine List.nodup_append.mpr ⟨nodup_poppedSlots_nodeCode firstEmitted,
        inductionHypothesis restNodup othersEmitted, ?_⟩
      rintro slot here _ later rfl
      obtain ⟨p, inRest, -, otherOwns⟩ := exists_owner_of_mem_code othersEmitted later
      have owns := (owns_of_mem_nodeCode firstEmitted here).2
      rw [sound.owner_unique owns otherOwns] at notLater
      exact notLater inRest

/-- The slots that code pops into are those of the operators and passes among the nodes. -/
theorem mem_poppedSlots_code_iff {order : List NodeId} {slot : Nat}
    (frugal : m.symbols.Frugal m.graph) (success : m.code order = .ok code) :
    slot ∈ poppedSlots code ↔ ∃ n ∈ order, m.graph.HasCode n ∧ m.symbols.Owns n slot := by
  constructor
  · exact exists_owner_of_mem_code success
  · rintro ⟨n, member, hasCode, owns⟩
    obtain ⟨piece, later, rfl, -, popped⟩ :=
      exists_piece_of_endIn 0 frugal success member hasCode.kind?_ne_float
    rw [poppedSlots_append]
    exact List.mem_append_left _ (popped slot owns)

/-! ## Calls -/

/-- The operation of a node, if the node is a pass. -/
def operation? (m : Emitter) (n : NodeId) : Option Nat :=
  if m.graph.kind? n = some .pass then (m.symbols.slotsOf n).operation else none

theorem operation?_eq_some_iff {index : Nat} :
    m.operation? n = some index ↔
      m.graph.kind? n = some .pass ∧ (m.symbols.slotsOf n).operation = some index := by
  unfold operation?
  by_cases kind : m.graph.kind? n = some .pass
  · rw [if_pos kind]
    exact (and_iff_right kind).symm
  · rw [if_neg kind]
    exact iff_of_false (by simp) fun both => kind both.1

theorem calledOperations_pushes {port : Nat} {edges : List Edge}
    (success : m.pushes consumer port edges = .ok code) : calledOperations code = [] := by
  refine List.filterMap_eq_nil_iff.mpr fun i member => ?_
  obtain ⟨e, -, port, a, rfl, -⟩ := exists_push_of_mem_pushes success member
  rfl

theorem calledOperations_pops {count : Nat} (success : m.pops n count = .ok code) :
    calledOperations code = [] := by
  refine List.filterMap_eq_nil_iff.mpr fun i member => ?_
  obtain ⟨port, a, rfl, -⟩ := exists_pop_of_mem_pops success member
  rfl

/-- The code of a pass calls its operation once; no other node calls one. -/
theorem calledOperations_nodeCode (sound : m.symbols.Sound)
    (success : m.nodeCode n = .ok code) :
    calledOperations code = (m.operation? n).toList := by
  unfold nodeCode at success
  split at success
  · next op kind =>
      obtain ⟨edges, mode, pushCode, output, -, -, -, pushed, -, rfl⟩ :=
        operatorCode_eq_ok success
      rw [calledOperations_append, calledOperations_pushes pushed,
        calledOperations_instruction, operation?, if_neg (by simp [kind])]
      rfl
  · next kind =>
      obtain ⟨edges, pushCode, index, popCode, -, pushed, operationEq, popped, rfl⟩ :=
        passCode_eq_ok success
      have bound : index < 2 ^ 16 := Nat.lt_of_lt_of_le
        (sound.operations n index operationEq) sound.operations_bound
      have indexEq : (UInt16.ofNat index).toNat = index := by
        rw [UInt16.toNat_ofNat']
        omega
      rw [calledOperations_append, calledOperations_pushes pushed,
        calledOperations_call_cons, calledOperations_pops popped, indexEq,
        operation?_eq_some_iff.mpr ⟨kind, operationEq⟩]
      rfl
  all_goals
    next kind =>
      cases success
      rw [operation?, if_neg (by simp [kind])]
      rfl

/-- The code of nodes calls the operations of the passes among them, in their order. -/
theorem calledOperations_code {order : List NodeId} (sound : m.symbols.Sound)
    (success : m.code order = .ok code) :
    calledOperations code = order.filterMap m.operation? := by
  induction order generalizing code with
  | nil =>
      cases success
      rfl
  | cons n rest inductionHypothesis =>
      obtain ⟨first, firstEmitted, success⟩ := bind_eq_ok_iff.mp success
      obtain ⟨others, othersEmitted, success⟩ := bind_eq_ok_iff.mp success
      cases success
      rw [calledOperations_append, calledOperations_nodeCode sound firstEmitted,
        inductionHypothesis othersEmitted, List.filterMap_cons]
      cases m.operation? n <;> rfl

theorem nodup_calledOperations_code {order : List NodeId} (sound : m.symbols.Sound)
    (nodup : order.Nodup) (success : m.code order = .ok code) :
    (calledOperations code).Nodup := by
  rw [calledOperations_code sound success]
  refine nodup.filterMap ?_
  intro n p index operationEq otherEq
  exact sound.operations_apart n p index (operation?_eq_some_iff.mp operationEq).2
    (operation?_eq_some_iff.mp otherEq).2

theorem mem_calledOperations_code_iff {order : List NodeId} {index : Nat}
    (sound : m.symbols.Sound) (success : m.code order = .ok code) :
    index ∈ calledOperations code ↔ ∃ n ∈ order, m.graph.kind? n = some .pass ∧
      (m.symbols.slotsOf n).operation = some index := by
  rw [calledOperations_code sound success, List.mem_filterMap]
  simp only [operation?_eq_some_iff]

/-! ## Pushes -/

/-- A value slot that the code of a schedule pushes is the one of a constant, or that of an
operator or a pass and popped into before. -/
theorem filled_of_push {schedule : Schedule} {sink : NodeId} {before after : List Instruction}
    {a : Address} (covers : schedule.Covers m.graph sink) (frugal : m.symbols.Frugal m.graph)
    (success : m.code schedule.evaluationOrder = .ok (before ++ .push a :: after))
    (isValue : a.isTexture = false) :
    (∃ n, m.symbols.Owns n a.index ∧ m.graph.kind? n = some .float) ∨
      a.index ∈ poppedSlots before := by
  have reads := readsWithin_code covers frugal (List.nil_append _).symm success
  rcases (readsWithin_append.mp reads).2.1 isValue with ⟨n, owns, isFloat | absent⟩ | popped
  · exact Or.inl ⟨n, owns, isFloat⟩
  · exact absurd absent List.not_mem_nil
  · exact Or.inr popped

end Emitter

/-! ## Compiled code -/

namespace Instance

/-- Code assigns each value slot at most once, and before anything reads it.  What it names
belongs to nodes of the graph, and what it assigns and calls to nodes that reach the sink. -/
structure SingleAssignment (g : Graph) (sink : NodeId) (i : Instance ω)
    (code : List Instruction) : Prop where
  straight : ∃ body, code = body ++ [.halt] ∧ ∀ next ∈ body, next.Straight
  pop_value : ∀ a, .pop a ∈ code → a.isTexture = false
  popped_once : (poppedSlots code).Nodup
  popped_iff : ∀ slot, slot ∈ poppedSlots code ↔
    ∃ n, g.HasCode n ∧ Reaches g.edgeList n sink ∧ i.symbols.Owns n slot
  push_value : ∀ before a after, code = before ++ .push a :: after → a.isTexture = false →
    (∃ n, i.symbols.Owns n a.index ∧ (g.kind? n = some .float ∨ g.HasCode n)) ∧
      ∀ n, g.HasCode n → i.symbols.Owns n a.index → a.index ∈ poppedSlots before
  push_texture : ∀ a, .push a ∈ code → a.isTexture = true → a.index < i.textures.size ∧
    ∃ n, g.kind? n = some .texture ∧ (i.symbols.slotsOf n).texture = some a.index
  call_pass : ∀ index ∈ calledOperations code, ∃ n, g.kind? n = some .pass ∧
    Reaches g.edgeList n sink ∧ (i.symbols.slotsOf n).operation = some index
  pass_called : ∀ n, g.kind? n = some .pass → ∃ index,
    (i.symbols.slotsOf n).operation = some index ∧
      (∀ other, (i.symbols.slotsOf other).operation = some index → other = n) ∧
      (Reaches g.edgeList n sink → (calledOperations code).count index = 1) ∧
      (¬ Reaches g.edgeList n sink → (calledOperations code).count index = 0)

/-- Every pass of an equipped instance has an operation. -/
theorem Equipped.exists_operation {config : Config} {g : Graph} {final n : NodeId}
    {i : Instance ω} (equipped : i.Equipped config g final) (isPass : g.kind? n = some .pass) :
    ∃ index, (i.symbols.slotsOf n).operation = some index := by
  have member : n ∈ g.nodesOfKind fun kind => kind = .pass :=
    Graph.mem_nodesOfKind.mpr ⟨.pass, isPass, rfl⟩
  obtain ⟨index, position⟩ := List.mem_iff_getElem?.mp member
  exact ⟨index, (equipped.pass index n position).1⟩

/-- The code of a schedule, over sound and frugal symbols, is of single assignment. -/
theorem SingleAssignment.of_code {config : Config} {g : Graph} {sink final : NodeId}
    {schedule : Schedule} {i : Instance ω} {code : List Instruction}
    (covers : schedule.Covers g sink) (frugal : i.symbols.Frugal g)
    (sound : i.symbols.Sound) (textures : i.textures.size = i.symbols.textureCount)
    (equipped : i.Equipped config g final)
    (coded : Emitter.code ⟨g, i.symbols, config.defaultMode⟩ schedule.evaluationOrder =
      .ok code) : i.SingleAssignment g sink code := by
  have nodup := covers.nodup_evaluationOrder
  have popped (slot : Nat) : slot ∈ poppedSlots code ↔
      ∃ n, g.HasCode n ∧ Reaches g.edgeList n sink ∧ i.symbols.Owns n slot := by
    rw [Emitter.mem_poppedSlots_code_iff frugal coded]
    refine exists_congr fun n => ?_
    rw [covers.mem_evaluationOrder, and_left_comm]
  have called (index : Nat) : index ∈ calledOperations code ↔
      ∃ n, g.kind? n = some .pass ∧ Reaches g.edgeList n sink ∧
        (i.symbols.slotsOf n).operation = some index := by
    rw [Emitter.mem_calledOperations_code_iff sound coded]
    refine exists_congr fun n => ?_
    rw [covers.mem_evaluationOrder, and_left_comm]
  constructor
  case straight =>
    obtain ⟨body, split, emitted⟩ := Emitter.exists_body_of_code coded
    refine ⟨body, split, fun next member => ?_⟩
    obtain ⟨n, -, emits⟩ := emitted next member
    exact emits.straight
  case pop_value =>
    intro a member
    obtain ⟨n, -, emits⟩ := Emitter.emits_of_mem_code coded member Instruction.noConfusion
    exact emits.isTexture_of_pop
  case popped_once => exact Emitter.nodup_poppedSlots_code sound nodup coded
  case popped_iff => exact popped
  case push_value =>
    rintro before a after rfl isValue
    rcases Emitter.filled_of_push covers frugal coded isValue with
      ⟨p, floatOwns, isFloat⟩ | earlier
    · refine ⟨⟨p, floatOwns, Or.inl isFloat⟩, fun n hasCode owns => ?_⟩
      rw [sound.owner_unique owns floatOwns] at hasCode
      exact absurd isFloat hasCode.kind?_ne_float
    · obtain ⟨n, hasCode, -, owns⟩ := (popped a.index).mp (by simp [earlier])
      exact ⟨⟨n, owns, Or.inr hasCode⟩, fun _ _ _ => earlier⟩
  case push_texture =>
    intro a member isTexture
    obtain ⟨n, -, emits⟩ := Emitter.emits_of_mem_code coded member Instruction.noConfusion
    obtain ⟨p, kind, slotEq⟩ := emits.texture_of_push isTexture
    rw [textures]
    exact ⟨sound.textures p a.index slotEq, p, kind, slotEq⟩
  case call_pass => exact fun index member => (called index).mp member
  case pass_called =>
    intro n isPass
    obtain ⟨index, operationEq⟩ := equipped.exists_operation isPass
    have only (other : NodeId) (otherEq : (i.symbols.slotsOf other).operation = some index) :
        other = n := sound.operations_apart other n index otherEq operationEq
    refine ⟨index, operationEq, only, fun reaches => ?_, fun aside => ?_⟩
    · exact List.count_eq_one_of_mem (Emitter.nodup_calledOperations_code sound nodup coded)
        ((called index).mpr ⟨n, isPass, reaches, operationEq⟩)
    · refine List.count_eq_zero_of_not_mem fun member => ?_
      obtain ⟨p, -, reaches, otherEq⟩ := (called index).mp member
      rw [only p otherEq] at reaches
      exact aside reaches

end Instance

/-- A compiled program decodes, from its first byte to its last, into code of single assignment.
If the value slots of the graph fit a word, the code is straight up to its one halt.  It pops
once into each slot of the operators and passes that reach the present node, and into no other
slot.  It pushes such a slot only behind its pop, and a texture only from a slot that there is.
It calls the operation of each pass that reaches the present node once, and no other one. -/
theorem compiled_code_assigns_once {registry : Registry ω} {config : Config} {g : Graph}
    {compiled : Instance ω} {before after : ω} (word : g.neededValues < 2 ^ 64)
    (success : Build.Succeeds (compile registry config g) before compiled after) :
    ∃ sink code, g.presentNode = .ok sink ∧
      compiled.program.items = List.zipWith Program.Item.instruction (offsets 0 code) code ∧
      compiled.program.size = codeLength code ∧ compiled.SingleAssignment g sink code := by
  obtain ⟨sink, schedule, code, present, scheduled, covers, frugal, coded, assembled⟩ :=
    Instance.code_of_compile success
  obtain ⟨_, _, -, -, linked⟩ := Instance.linked_of_compile word success
  obtain ⟨_, _, -, -, equipped, -⟩ := Instance.equipped_of_compile success
  exact ⟨sink, code, present, Program.items_of_assemble assembled,
    Program.size_of_assemble assembled,
    .of_code covers frugal linked.symbols linked.textures equipped coded⟩

namespace Sample

/-- Gives two outputs. -/
def pair : Operation Unit where
  execute _ world := .push ⟨1⟩ (.push ⟨2⟩ (.done (true, world)))

/-- A pass reads a texture and gives two outputs, whose difference is shown.  A second pass of
the same kind is connected to nothing. -/
def difference : Graph where
  nodes := #[.texture "t" "RGBA8", .pass "p" "pair", .operator "d" (.numeric .sub),
    .present "out", .pass "idle" "pair"]
  edges := #[(⟨0⟩, .withPorts ⟨0⟩ 0 ⟨1⟩ 0), (⟨1⟩, .withPorts ⟨1⟩ 0 ⟨2⟩ 0),
    (⟨2⟩, .withPorts ⟨1⟩ 1 ⟨2⟩ 1), (⟨3⟩, .withPorts ⟨2⟩ 0 ⟨3⟩ 0)]

def differenceCompiled : Instance Unit where
  program := ⟨#[1, 128, 0, 80, 0, 0, 2, 0, 2, 2, 0, 1, 1, 0, 1, 1, 0, 2, 17, 1, 2, 0, 0, 255],
    by decide⟩
  values := #[.zero, .zero, .zero]
  textures := #[{ format := .rgba8 }]
  passes := #[⟨"p", ⟨pair, ⟨1, 2⟩, {}⟩, none⟩, ⟨"idle", ⟨pair, ⟨0, 0⟩, {}⟩, none⟩]
  framebuffers := #[]
  defaultFramebuffer := .unbound
  symbols :=
    ⟨#["t", "p", "d", "out", "idle"],
      #[⟨0, 0, some 0, none⟩, ⟨1, 3, none, some 0⟩, ⟨0, 1, none, none⟩, {},
        ⟨3, 3, none, some 1⟩], 3, 1, 2⟩
  machine := { stackLimit := 2 }

theorem succeeds_compile_difference :
    Build.Succeeds (compile ⟨[("pair", fun world => (pair, world))]⟩
      { framebuffer := .internal, stackLimit := 2, defaultMode := .int } difference) ()
      differenceCompiled () :=
  Compiler.succeeds_compile_of_plan ⟨[⟨3⟩, ⟨2⟩, ⟨1⟩, ⟨0⟩], ⟨2⟩⟩ #[(⟨1⟩, 2), (⟨4⟩, 0)]
    (by decide +kernel) (by with_unfolding_all exact rfl) rfl rfl rfl rfl rfl

end Sample

theorem difference_assigns_once :
    ∃ code, Sample.differenceCompiled.program.items =
        List.zipWith Program.Item.instruction (offsets 0 code) code ∧
      Sample.differenceCompiled.program.size = codeLength code ∧
      Sample.differenceCompiled.SingleAssignment Sample.difference ⟨3⟩ code := by
  obtain ⟨sink, code, present, decoded, size, assigns⟩ :=
    compiled_code_assigns_once (by decide) Sample.succeeds_compile_difference
  obtain rfl : sink = ⟨3⟩ := (Except.ok.inj present).symm
  exact ⟨code, decoded, size, assigns⟩

end FrameGraph
