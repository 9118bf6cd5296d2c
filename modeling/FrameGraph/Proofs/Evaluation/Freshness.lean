import FrameGraph.Proofs.Compiler.Passes
import FrameGraph.Proofs.Compiler.Resolution
import FrameGraph.Proofs.Evaluation.Dataflow
import FrameGraph.Proofs.Machine.Agreement

/-!
# No frame sees the values of an earlier one

The code of a schedule reads the slots of constants and slots that it has popped into
before.  What the slots of operators and passes held before a frame therefore makes no
difference to it.  If the outputs of operations depend on their inputs only, a frame that
follows a completed one computes the same values again.
-/

namespace FrameGraph

open Instruction

variable {ω : Type}

/-! ## Slots of nodes that are no passes -/

/-- Every node that is no pass has no more value slots than outputs. -/
def Symbols.Frugal (g : Graph) (s : Symbols) : Prop :=
  ∀ n, g.kind? n ≠ some .pass → (s.slotsOf n).count ≤ g.outputCount n

namespace Symbols

variable {g : Graph} {s after : Symbols} {n : NodeId}

theorem frugal_ofGraph (g : Graph) : (ofGraph g).Frugal g := by
  intro n _
  rw [slotsOf_ofGraph]
  exact Nat.zero_le _

/-- Also a number of slots that passes a word keeps this, since the count of the slots only
gets smaller. -/
theorem Frugal.allocateValues {count : Nat} (frugal : s.Frugal g)
    (fits : g.kind? n ≠ some .pass → count ≤ g.outputCount n)
    (success : s.allocateValues n count = .ok after) : after.Frugal g := by
  unfold Symbols.allocateValues at success
  simp only at success
  split at success
  · cases success
  · cases success
    intro other notPass
    rw [slotsOf_modify]
    split
    · next here =>
        have wrapped := Nat.mod_le (s.valueCount + count) (2 ^ 64)
        have enough := fits (here.1 ▸ notPass)
        rw [here.1] at enough
        simp only [Slots.count]
        omega
    · exact frugal other notPass

/-- A node without outputs that is no pass owns no slot. -/
theorem Frugal.not_owns (frugal : s.Frugal g) (notPass : g.kind? n ≠ some .pass)
    (noOutput : g.outputCount n = 0) (slot : Nat) : ¬ s.Owns n slot := by
  intro owns
  obtain ⟨port, inside, -⟩ := owns.exists_port
  have few := frugal n notPass
  omega

/-- A node with one output that is no pass owns at most its first slot. -/
theorem Frugal.eq_start_of_owns {slot : Nat} (frugal : s.Frugal g)
    (notPass : g.kind? n ≠ some .pass) (oneOutput : g.outputCount n = 1)
    (owns : s.Owns n slot) : slot = (s.slotsOf n).start := by
  obtain ⟨port, inside, rfl⟩ := owns.exists_port
  have one := frugal n notPass
  omega

theorem Frugal.allocateTexture (frugal : s.Frugal g)
    (success : s.allocateTexture n = .ok after) : after.Frugal g := by
  intro other notPass
  rw [slotsOf_allocateTexture success]
  split
  · exact frugal other notPass
  · exact frugal other notPass

theorem Frugal.allocateOperation (frugal : s.Frugal g)
    (success : s.allocateOperation n = .ok after) : after.Frugal g := by
  intro other notPass
  rw [slotsOf_allocateOperation success]
  split
  · exact frugal other notPass
  · exact frugal other notPass

end Symbols

namespace Layout

variable {g : Graph} {l : Layout}

private theorem frugal_foldlM {add : Layout → NodeId → Except Error Layout}
    {nodes : List NodeId} {after : Layout}
    (step : ∀ n ∈ nodes, ∀ l after : Layout, l.symbols.Frugal g → add l n = .ok after →
      after.symbols.Frugal g)
    (frugal : l.symbols.Frugal g) (success : nodes.foldlM add l = .ok after) :
    after.symbols.Frugal g := by
  refine (foldlM_ok_invariant
    (fun rest (now : Layout) => rest ⊆ nodes ∧ now.symbols.Frugal g)
    ?_ ⟨List.Subset.refl nodes, frugal⟩ success).2
  intro n rest now next ⟨subset, nowFrugal⟩ added
  exact ⟨fun _ member => subset (List.mem_cons_of_mem n member),
    step n (subset List.mem_cons_self) now next nowFrugal added⟩

/-- The layout of a graph is frugal, however many value slots the graph needs. -/
theorem frugal_ofGraph {aliased : Option NodeId} (success : ofGraph g aliased = .ok l) :
    l.symbols.Frugal g := by
  rw [ofGraph_eq] at success
  obtain ⟨values, valuesMade, texturesAdded⟩ := bind_eq_ok_iff.mp success
  obtain ⟨floats, operators, floatsAdded, operatorsAdded, passesAdded⟩ :=
    valued_eq_ok_iff.mp valuesMade
  have floatsFrugal : floats.symbols.Frugal g := by
    refine frugal_foldlM ?_ (Symbols.frugal_ofGraph g) floatsAdded
    intro n member l after frugal added
    obtain ⟨symbols, c, allocated, -, rfl⟩ := addFloat_eq_ok_iff.mp added
    refine frugal.allocateValues (fun _ => ?_) allocated
    rw [Graph.outputCount_of_float (Graph.kind?_of_mem_nodesOfKind member)]
  have operatorsFrugal : operators.symbols.Frugal g := by
    refine frugal_foldlM ?_ floatsFrugal operatorsAdded
    intro n member l after frugal added
    obtain ⟨op, kind⟩ := Graph.exists_operator_of_mem member
    obtain ⟨symbols, allocated, rfl⟩ := addOperator_eq_ok_iff.mp added
    refine frugal.allocateValues (fun _ => ?_) allocated
    rw [Graph.outputCount_of_operator kind]
  have passesFrugal : values.symbols.Frugal g := by
    refine frugal_foldlM ?_ operatorsFrugal passesAdded
    intro n member l after frugal added
    obtain ⟨ports, symbols, -, allocated, rfl⟩ := addPass_eq_ok_iff.mp added
    refine frugal.allocateValues (fun notPass => ?_) allocated
    exact absurd (Graph.kind?_of_mem_nodesOfKind member) notPass
  refine frugal_foldlM ?_ passesFrugal texturesAdded
  intro n member l after frugal added
  obtain ⟨format, symbols, -, allocated, rfl⟩ := addTexture_eq_ok_iff.mp added
  exact frugal.allocateTexture allocated

end Layout

/-- What a compiled instance is, whether or not its value slots fit a word: the code of a
schedule, over frugal symbols. -/
theorem Instance.code_of_compile {registry : Registry ω} {config : Config} {g : Graph}
    {compiled : Instance ω} {world after : ω}
    (success : Build.Succeeds (compile registry config g) world compiled after) :
    ∃ sink schedule code, g.presentNode = .ok sink ∧ g.schedule sink = .ok schedule ∧
      schedule.Covers g sink ∧ compiled.symbols.Frugal g ∧
      Emitter.code ⟨g, compiled.symbols, config.defaultMode⟩ schedule.evaluationOrder =
        .ok code ∧ Program.assemble code = .ok compiled.program := by
  obtain ⟨schedule, layout, w, between, program, planned, made, emitted, -, rfl⟩ :=
    Compiler.succeeds_compile_iff.mp success
  obtain ⟨sink, present, scheduled, laidOut⟩ := Compiler.blueprint_eq_ok_iff.mp planned
  obtain ⟨code, coded, assembled⟩ := bind_eq_ok_iff.mp emitted
  refine ⟨sink, schedule, code, present, scheduled, Schedule.covers_of_schedule scheduled,
    ?_, coded, assembled⟩
  refine Build.foldlM_invariant (fun _ (now : Compiler.Workshop ω) => now.symbols.Frugal g)
    ?_ (Layout.frugal_ofGraph laidOut) made
  rintro ⟨n, ports⟩ rest now world after next frugal added
  obtain ⟨-, -, -, -, symbols, -, -, -, allocated, rfl⟩ :=
    Compiler.succeeds_addPass_iff.mp added
  exact frugal.allocateOperation allocated

namespace Emitter

variable {m : Emitter} {n consumer : NodeId}

/-! ## What code pops into -/

@[simp]
theorem poppedSlots_append (first second : List Instruction) :
    poppedSlots (first ++ second) = poppedSlots first ++ poppedSlots second :=
  List.filterMap_append

/-- An operator pops once, into its output. -/
theorem poppedSlots_instruction (op : Operator) (mode : NumericMode) (output : Address) :
    poppedSlots [op.instruction mode, .pop output] = [output.index] := by
  cases op <;> rfl

theorem owns_of_valueAddress {port : Nat} {a : Address}
    (addressed : m.valueAddress n port = .ok a) : m.symbols.Owns n a.index := by
  obtain ⟨indexEq, inside⟩ := Slots.value?_eq_some_iff.mp (valueAddress_eq_ok addressed).2
  exact ⟨by omega, inside⟩

theorem readsWithin_pops {count : Nat} {code : List Instruction} {slots : Nat → Prop}
    (success : m.pops n count = .ok code) : ReadsWithin slots code := by
  induction count generalizing code slots with
  | zero =>
      cases success
      trivial
  | succ last inductionHypothesis =>
      obtain ⟨a, -, success⟩ := bind_eq_ok_iff.mp success
      obtain ⟨others, popped, success⟩ := bind_eq_ok_iff.mp success
      cases success
      have othersRead : ReadsWithin (fun slot => slots slot ∨ slot = a.index) others :=
        inductionHypothesis popped
      exact othersRead

theorem mem_poppedSlots_of_pops {count port : Nat} {code : List Instruction}
    (success : m.pops n count = .ok code) (inside : port < count) :
    (m.symbols.slotsOf n).start + port ∈ poppedSlots code := by
  induction count generalizing code with
  | zero => exact absurd inside (Nat.not_lt_zero port)
  | succ last inductionHypothesis =>
      obtain ⟨a, addressed, success⟩ := bind_eq_ok_iff.mp success
      obtain ⟨others, popped, success⟩ := bind_eq_ok_iff.mp success
      cases success
      have indexEq := (Slots.value?_eq_some_iff.mp (valueAddress_eq_ok addressed).2).1
      rw [poppedSlots_pop_cons, List.mem_cons, indexEq]
      by_cases isLast : port = last
      · exact Or.inl (congrArg _ isLast)
      · have earlier : port < last := by omega
        exact Or.inr (inductionHypothesis popped earlier)

/-- The code of a node pops into all its value slots, unless it is a constant. -/
theorem mem_poppedSlots_of_owns {code : List Instruction} {slot : Nat}
    (frugal : m.symbols.Frugal m.graph) (success : m.nodeCode n = .ok code)
    (computed : m.graph.kind? n ≠ some .float) (owns : m.symbols.Owns n slot) :
    slot ∈ poppedSlots code := by
  unfold nodeCode at success
  split at success
  · next op kind =>
      obtain ⟨edges, mode, pushCode, output, -, -, -, -, addressed, rfl⟩ :=
        operatorCode_eq_ok success
      have indexEq : output.index = (m.symbols.slotsOf n).start :=
        (Slots.value?_eq_some_iff.mp (valueAddress_eq_ok addressed).2).1
      have isStart : slot = (m.symbols.slotsOf n).start :=
        frugal.eq_start_of_owns (by simp [kind]) (Graph.outputCount_of_operator kind) owns
      rw [poppedSlots_append, poppedSlots_instruction, isStart, ← indexEq]
      exact List.mem_append_right _ (List.mem_singleton.mpr rfl)
  · next kind =>
      obtain ⟨edges, pushCode, index, popCode, -, -, -, popped, rfl⟩ := passCode_eq_ok success
      obtain ⟨port, inside, rfl⟩ := owns.exists_port
      rw [poppedSlots_append, poppedSlots_call_cons]
      exact List.mem_append_right _ (mem_poppedSlots_of_pops popped inside)
  · next kind => exact absurd kind computed
  -- Textures, the sink and positions without a node own nothing.
  all_goals
    next kind =>
      have noOutput : m.graph.outputCount n = 0 := by simp [Graph.outputCount, kind]
      exact absurd owns (frugal.not_owns (by simp [kind]) noOutput slot)

/-! ## What code reads -/

/-- The slots of constants and of nodes that are done. -/
def Filled (m : Emitter) (done : List NodeId) (slot : Nat) : Prop :=
  ∃ n, m.symbols.Owns n slot ∧ (m.graph.kind? n = some .float ∨ n ∈ done)

/-- A resolved value address belongs to the source of the edge or, behind a texture, to
the source of the edge into the texture. -/
theorem owns_of_resolve {port : Nat} {e : Edge} {a : Address}
    (success : m.resolve consumer port e = .ok a) (isValue : a.isTexture = false) :
    m.symbols.Owns e.source a.index ∨
      ∃ hop ∈ m.graph.incoming e.source, m.symbols.Owns hop.source a.index := by
  have produced {e : Edge} (resolved : m.resolveProducer consumer port e = .ok a) :
      m.symbols.Owns e.source a.index := by
    obtain ⟨output, -, addressed⟩ := resolveProducer_eq_ok resolved
    exact owns_of_valueAddress addressed
  rcases resolve_eq_ok success with ⟨-, direct⟩ | ⟨-, hop, incomingEq, behind⟩ |
    ⟨-, -, isTexture, -⟩
  · exact Or.inl (produced direct)
  · exact Or.inr ⟨hop, by simp [incomingEq], produced behind⟩
  · rw [isTexture] at isValue
    cases isValue

theorem readsWithin_pushes {slots : Nat → Prop} {port : Nat} {edges : List Edge}
    {code : List Instruction} (success : m.pushes consumer port edges = .ok code)
    (filled : ∀ e ∈ edges, ∀ port a, m.resolve consumer port e = .ok a →
      a.isTexture = false → slots a.index) : ReadsWithin slots code := by
  induction edges generalizing port code with
  | nil =>
      cases success
      trivial
  | cons e rest inductionHypothesis =>
      obtain ⟨a, resolved, success⟩ := bind_eq_ok_iff.mp success
      obtain ⟨others, emitted, success⟩ := bind_eq_ok_iff.mp success
      cases success
      exact ⟨filled e List.mem_cons_self port a resolved,
        inductionHypothesis emitted fun f member =>
          filled f (List.mem_cons_of_mem e member)⟩

/-- The code of a node reads within the slots from which its inputs are resolved. -/
theorem readsWithin_nodeCode {slots : Nat → Prop} {code : List Instruction}
    (success : m.nodeCode n = .ok code)
    (filled : ∀ e ∈ m.graph.incoming n, ∀ port a, m.resolve n port e = .ok a →
      a.isTexture = false → slots a.index) : ReadsWithin slots code := by
  have pushed {edges : List Edge} {pushCode : List Instruction}
      (edgesEq : m.graph.inputs n = .ok edges)
      (emitted : m.pushes n 0 edges = .ok pushCode) : ReadsWithin slots pushCode :=
    readsWithin_pushes emitted fun e member =>
      filled e ((Graph.inputs_eq_ok edgesEq).1.mem_iff.mp member)
  unfold nodeCode at success
  split at success
  · next op _ =>
      obtain ⟨edges, mode, pushCode, output, edgesEq, -, -, emitted, -, rfl⟩ :=
        operatorCode_eq_ok success
      refine readsWithin_append.mpr ⟨pushed edgesEq emitted, ?_⟩
      cases op <;> trivial
  · obtain ⟨edges, pushCode, index, popCode, edgesEq, emitted, -, popped, rfl⟩ :=
      passCode_eq_ok success
    have popsRead : ReadsWithin (fun slot => slots slot ∨ slot ∈ poppedSlots pushCode)
        popCode := readsWithin_pops popped
    exact readsWithin_append.mpr ⟨pushed edgesEq emitted, popsRead⟩
  all_goals
    cases success
    trivial

theorem filled_of_owns {schedule : Schedule} {sink : NodeId} {done rest : List NodeId}
    (covers : schedule.Covers m.graph sink)
    (orderEq : schedule.evaluationOrder = done ++ n :: rest) {e : Edge}
    (incoming : e ∈ m.graph.incoming n) {slot : Nat}
    (owns : m.symbols.Owns e.source slot ∨
      ∃ hop ∈ m.graph.incoming e.source, m.symbols.Owns hop.source slot) :
    m.Filled done slot := by
  obtain ⟨sourceDone, hopsDone⟩ := covers.sources_done orderEq incoming
  rcases owns with direct | ⟨hop, hopIncoming, behind⟩
  · exact ⟨e.source, direct, Or.inr sourceDone⟩
  · exact ⟨hop.source, behind, Or.inr (hopsDone hop hopIncoming)⟩

/-- The code of scheduled nodes reads slots of constants and slots that the code of
earlier nodes has popped into. -/
theorem readsWithin_code {schedule : Schedule} {sink : NodeId} {done rest : List NodeId}
    {code : List Instruction} (covers : schedule.Covers m.graph sink)
    (frugal : m.symbols.Frugal m.graph) (orderEq : schedule.evaluationOrder = done ++ rest)
    (success : m.code rest = .ok code) : ReadsWithin (m.Filled done) code := by
  induction rest generalizing done code with
  | nil =>
      cases success
      trivial
  | cons n rest inductionHypothesis =>
      obtain ⟨first, firstEmitted, success⟩ := bind_eq_ok_iff.mp success
      obtain ⟨others, othersEmitted, success⟩ := bind_eq_ok_iff.mp success
      cases success
      have firstReads : ReadsWithin (m.Filled done) first := by
        refine readsWithin_nodeCode firstEmitted fun e incoming port a resolved isValue => ?_
        exact filled_of_owns covers orderEq incoming (owns_of_resolve resolved isValue)
      have laterEq : schedule.evaluationOrder = (done ++ [n]) ++ rest := by simp [orderEq]
      have othersRead := inductionHypothesis laterEq othersEmitted
      refine readsWithin_append.mpr ⟨firstReads, othersRead.mono ?_⟩
      rintro slot ⟨p, owns, isFloat | isDone⟩
      · exact Or.inl ⟨p, owns, Or.inl isFloat⟩
      · rcases List.mem_append.mp isDone with before | here
        · exact Or.inl ⟨p, owns, Or.inr before⟩
        · rw [List.mem_singleton.mp here] at owns
          by_cases isFloat : m.graph.kind? n = some .float
          · exact Or.inl ⟨n, owns, Or.inl isFloat⟩
          · exact Or.inr (mem_poppedSlots_of_owns frugal firstEmitted isFloat owns)

/-! ## Where the code of a node ends -/

/-- The offset behind the code of a node, in the code of nodes in order that starts at a
given offset. -/
def endIn (m : Emitter) : Nat → List NodeId → NodeId → Nat
  | offset, [], _ => offset
  | offset, n :: rest, target =>
    let behind := offset + codeLength ((m.nodeCode n).toOption.getD [])
    if n = target then behind else m.endIn behind rest target

/-- The code up to the end of a node pops into all its slots. -/
theorem exists_piece_of_endIn {order : List NodeId} {code : List Instruction} (offset : Nat)
    (frugal : m.symbols.Frugal m.graph) (success : m.code order = .ok code)
    (member : n ∈ order) (computed : m.graph.kind? n ≠ some .float) :
    ∃ piece later, code = piece ++ later ∧ offset + codeLength piece = m.endIn offset order n ∧
      ∀ slot, m.symbols.Owns n slot → slot ∈ poppedSlots piece := by
  induction order generalizing code offset with
  | nil => cases member
  | cons head rest inductionHypothesis =>
      obtain ⟨first, firstEmitted, success⟩ := bind_eq_ok_iff.mp success
      obtain ⟨others, othersEmitted, success⟩ := bind_eq_ok_iff.mp success
      cases success
      have behind : codeLength ((m.nodeCode head).toOption.getD []) = codeLength first := by
        rw [firstEmitted]
        rfl
      by_cases here : head = n
      · subst here
        refine ⟨first, others, rfl, ?_, fun slot owns =>
          mem_poppedSlots_of_owns frugal firstEmitted computed owns⟩
        simp only [endIn, if_pos, behind]
      · have inRest := (List.mem_cons.mp member).resolve_left (Ne.symm here)
        obtain ⟨piece, later, split, endEq, popped⟩ := inductionHypothesis
          (offset + codeLength first) othersEmitted inRest
        refine ⟨first ++ piece, later, by simp [split], ?_, ?_⟩
        · rw [endIn, if_neg here, behind, ← endEq, codeLength_append, Nat.add_assoc]
        · intro slot owns
          rw [poppedSlots_append]
          exact List.mem_append_right _ (popped slot owns)

end Emitter

end FrameGraph
