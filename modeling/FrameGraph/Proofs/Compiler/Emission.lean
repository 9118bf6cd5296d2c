import FrameGraph.Proofs.Compiler.Inputs
import FrameGraph.Proofs.Compiler.Slots
import FrameGraph.Proofs.Machine.Code

/-!
# Emitted code

The code of a node, when it is emitted, is the pushes of its inputs, the instruction that
computes or calls, and the pops of its outputs.  The address of an output port is that of
a value slot of the node.
-/

namespace FrameGraph

namespace Emitter

open Instruction

variable {m : Emitter} {n : NodeId}

theorem valueAddress_eq_ok {port : Nat} {a : Address}
    (success : m.valueAddress n port = .ok a) :
    a.isTexture = false ∧ (m.symbols.slotsOf n).value? port = some a.index := by
  unfold valueAddress at success
  split at success
  · next found =>
      cases success
      obtain ⟨slot, slotEq, addressEq⟩ := Option.bind_eq_some_iff.mp found
      obtain ⟨isValue, indexEq⟩ := Address.isTexture_value addressEq
      exact ⟨isValue, indexEq ▸ slotEq⟩
  · cases success

/-- What a producer gives is found in the slot of the output that the edge starts from. -/
theorem resolveProducer_eq_ok {port : Nat} {e : Edge} {a : Address}
    (success : m.resolveProducer n port e = .ok a) :
    ∃ output, e.sourcePort = .ok output ∧ m.valueAddress e.source output = .ok a := by
  unfold resolveProducer at success
  split at success
  · cases success
  · next output outputEq =>
      refine ⟨output, outputEq, ?_⟩
      split at success <;> first | exact success | cases success

/-- An input is read from the producer that the edge comes from.  Behind a texture it is read
from the one producer of the texture or, if there is none, from the texture itself. -/
theorem resolve_eq_ok {port : Nat} {e : Edge} {a : Address}
    (success : m.resolve n port e = .ok a) :
    (m.graph.kind? e.source ≠ some .texture ∧ m.resolveProducer n port e = .ok a) ∨
    (m.graph.kind? e.source = some .texture ∧ ∃ hop, m.graph.incoming e.source = [hop] ∧
      m.resolveProducer n port hop = .ok a) ∨
    (m.graph.kind? e.source = some .texture ∧ m.graph.incoming e.source = [] ∧
      a.isTexture = true ∧ (m.symbols.slotsOf e.source).texture = some a.index) := by
  unfold resolve at success
  by_cases isTexture : m.graph.kind? e.source = some .texture
  · rw [if_pos isTexture] at success
    rcases incomingEq : m.graph.incoming e.source with _ | ⟨hop, _ | ⟨other, rest⟩⟩
    · simp only [incomingEq] at success
      split at success
      · next found =>
          cases success
          obtain ⟨slot, slotEq, addressEq⟩ := Option.bind_eq_some_iff.mp found
          obtain ⟨ofTexture, indexEq⟩ := Address.isTexture_texture addressEq
          exact Or.inr (Or.inr ⟨isTexture, rfl, ofTexture, indexEq ▸ slotEq⟩)
      · cases success
    · simp only [incomingEq] at success
      split at success
      · cases success
      · exact Or.inr (Or.inl ⟨isTexture, hop, rfl, success⟩)
    · simp [incomingEq] at success
  · rw [if_neg isTexture] at success
    exact Or.inl ⟨isTexture, success⟩

/-- A push takes three bytes. -/
theorem codeLength_pushes {port : Nat} {edges : List Edge} {code : List Instruction}
    (success : m.pushes n port edges = .ok code) : codeLength code = 3 * edges.length := by
  induction edges generalizing port code with
  | nil =>
      cases success
      rfl
  | cons e rest inductionHypothesis =>
      obtain ⟨a, -, success⟩ := bind_eq_ok_iff.mp success
      obtain ⟨others, emitted, success⟩ := bind_eq_ok_iff.mp success
      cases success
      have restLength := inductionHypothesis emitted
      rw [codeLength_cons, restLength, List.length_cons]
      simp only [encodedLength]
      omega

theorem operatorCode_eq_ok {op : Operator} {code : List Instruction}
    (success : m.operatorCode n op = .ok code) :
    ∃ edges mode pushCode output, m.graph.inputs n = .ok edges ∧
      edges.length = op.arity ∧ m.mode n = .ok mode ∧
      m.pushes n 0 edges = .ok pushCode ∧ m.valueAddress n 0 = .ok output ∧
      code = pushCode ++ [op.instruction mode, .pop output] := by
  obtain ⟨edges, edgesEq, success⟩ := bind_eq_ok_iff.mp success
  by_cases arityEq : edges.length = op.arity
  · rw [if_neg (not_not_intro arityEq)] at success
    obtain ⟨mode, modeEq, success⟩ := bind_eq_ok_iff.mp success
    obtain ⟨pushCode, pushed, success⟩ := bind_eq_ok_iff.mp success
    obtain ⟨output, addressed, success⟩ := bind_eq_ok_iff.mp success
    cases success
    exact ⟨edges, mode, pushCode, output, edgesEq, arityEq, modeEq, pushed, addressed, rfl⟩
  · rw [if_pos arityEq] at success
    cases success

theorem passCode_eq_ok {code : List Instruction} (success : m.passCode n = .ok code) :
    ∃ edges pushCode index popCode, m.graph.inputs n = .ok edges ∧
      m.pushes n 0 edges = .ok pushCode ∧
      (m.symbols.slotsOf n).operation = some index ∧
      m.pops n (m.symbols.slotsOf n).count = .ok popCode ∧
      code = pushCode ++ .call (UInt16.ofNat index) :: popCode := by
  obtain ⟨edges, edgesEq, success⟩ := bind_eq_ok_iff.mp success
  obtain ⟨pushCode, pushed, success⟩ := bind_eq_ok_iff.mp success
  cases operationEq : (m.symbols.slotsOf n).operation with
  | none =>
      simp only [operationEq] at success
      cases success
  | some index =>
      simp only [operationEq] at success
      obtain ⟨popCode, popped, success⟩ := bind_eq_ok_iff.mp success
      cases success
      exact ⟨edges, pushCode, index, popCode, edgesEq, pushed, rfl, popped, rfl⟩

end Emitter

end FrameGraph
