import FrameGraph.Proofs.Machine.Code
import Mathlib.Algebra.Ring.Nat

/-!
# Programs read back

Instructions that are assembled are found again by linear reading: each of them, in order, at
the offset that the assembler gave for it, and nothing behind the last one.  Hence the bytes
of a program determine its instructions.
-/

namespace FrameGraph

open Instruction

/-! ## Offsets -/

namespace Instruction

theorem codeLength_eq_sum (code : List Instruction) :
    codeLength code = (code.map encodedLength).sum := by
  induction code with
  | nil => rfl
  | cons i rest inductionHypothesis =>
      rw [codeLength_cons, List.map_cons, List.sum_cons, inductionHypothesis]

/-- An instruction starts behind the bytes of those before it. -/
theorem offsets_eq_map (start : Nat) (code : List Instruction) :
    offsets start code =
      (List.range code.length).map fun k => start + codeLength (code.take k) := by
  induction code generalizing start with
  | nil => rfl
  | cons i rest inductionHypothesis =>
      rw [offsets, inductionHypothesis, List.length_cons, List.range_succ_eq_map,
        List.map_cons, List.map_map]
      simp [Function.comp_def, Nat.add_assoc]

end Instruction

/-- The assembler gives for each instruction the offset at which it starts. -/
theorem Assembler.offsets_emitAll (a : Assembler) (code : List Instruction) :
    (a.emitAll code).1 = offsets a.position code := by
  induction code generalizing a with
  | nil => rfl
  | cons i rest inductionHypothesis =>
      have next : (a.emit i).2.position = a.position + i.encodedLength := by
        simp [emit, position, length_encode]
      rw [emitAll, offsets, ← next]
      exact congrArg _ (inductionHypothesis _)

/-! ## Bytes determine code -/

namespace Instruction

theorem eq_nil_of_codeLength {code : List Instruction} (noBytes : codeLength code = 0) :
    code = [] := by
  have shorter := length_le_codeLength code
  exact List.eq_nil_of_length_eq_zero (by omega)

/-- At most one code of a given length stands at an offset. -/
theorem StandsAt.unique {bytes : Array UInt8} {start : Nat} {code other : List Instruction}
    (stands : StandsAt bytes start code) (otherStands : StandsAt bytes start other)
    (sameLength : codeLength code = codeLength other) : code = other := by
  induction code generalizing start other with
  | nil => exact (eq_nil_of_codeLength sameLength.symm).symm
  | cons i rest inductionHypothesis =>
      cases other with
      | nil => exact eq_nil_of_codeLength sameLength
      | cons j others =>
          have same : i = j := Except.ok.inj (stands.1.symm.trans otherStands.1)
          subst same
          rw [codeLength_cons, codeLength_cons] at sameLength
          have sameRest := inductionHypothesis stands.2 otherStands.2 (by omega)
          rw [sameRest]

/-- No two codes have the same bytes. -/
theorem encode_injective : Function.Injective fun code : List Instruction =>
    code.flatMap encode := by
  intro code other same
  have sameBytes : code.flatMap encode = other.flatMap encode := same
  have stands := standsAt_encode [] [] code
  have otherStands := standsAt_encode [] [] other
  rw [← sameBytes] at otherStands
  apply stands.unique otherStands
  rw [← length_flatMap_encode, ← length_flatMap_encode]
  exact congrArg List.length sameBytes

end Instruction

/-- Assembling undone by reading.  The assembler gives for each instruction the number of bytes
of those before it, and its position is the number of all bytes.  Linear reading of the program
finds the instructions at these offsets and no trap, and no other code has the same bytes. -/
theorem assembled_code_reads_back {code : List Instruction} (nonempty : code ≠ []) :
    let emitted := (Assembler.mk #[]).emitAll code
    emitted.1 = (List.range code.length).map
        (fun k => ((code.take k).map encodedLength).sum) ∧
      emitted.2.position = (code.map encodedLength).sum ∧
      (∃ p, emitted.2.finish = .ok p ∧
        p.items = List.zipWith Program.Item.instruction emitted.1 code) ∧
      ∀ other, ((Assembler.mk #[]).emitAll other).2.bytes = emitted.2.bytes →
        other = code := by
  intro emitted
  have bytesEq (code : List Instruction) :
      ((Assembler.mk #[]).emitAll code).2.bytes = (code.flatMap encode).toArray := by
    rw [Assembler.bytes_emitAll, Array.empty_append]
  have offsetsEq : emitted.1 = offsets 0 code := Assembler.offsets_emitAll ⟨#[]⟩ code
  refine ⟨?_, ?_, ?_, ?_⟩
  · simp only [offsetsEq, offsets_eq_map, codeLength_eq_sum, Nat.zero_add]
  · rw [← codeLength_eq_sum, ← length_flatMap_encode, Assembler.position, bytesEq,
      List.size_toArray]
  · obtain ⟨p, assembled⟩ := Program.exists_assemble nonempty
    rw [offsetsEq]
    exact ⟨p, assembled, Program.items_of_assemble assembled⟩
  · intro other sameBytes
    rw [bytesEq, bytesEq] at sameBytes
    apply encode_injective
    exact congrArg Array.toList sameBytes

namespace Sample

/-- Code with an operand of every layout, the largest jump target among them. -/
def mixedCode : List Instruction :=
  [.push ⟨0x8003⟩, .numeric .fma .float, .jumpIf false 0xffff, .call 0x0102, .pop ⟨0x7fff⟩, .halt]

end Sample

theorem mixedCode_reads_back :
    ∃ p, ((Assembler.mk #[]).emitAll Sample.mixedCode).2.finish = .ok p ∧
      p.items = [.instruction 0 (.push ⟨0x8003⟩), .instruction 3 (.numeric .fma .float),
        .instruction 5 (.jumpIf false 0xffff), .instruction 8 (.call 0x0102),
        .instruction 11 (.pop ⟨0x7fff⟩), .instruction 14 .halt] ∧
      ((Assembler.mk #[]).emitAll Sample.mixedCode).2.position = 15 ∧
      ∀ other, ((Assembler.mk #[]).emitAll other).2.bytes =
        ((Assembler.mk #[]).emitAll Sample.mixedCode).2.bytes → other = Sample.mixedCode := by
  have nonempty : Sample.mixedCode ≠ [] := List.cons_ne_nil _ _
  obtain ⟨-, position, ⟨p, finished, items⟩, unique⟩ := assembled_code_reads_back nonempty
  exact ⟨p, finished, items, position, unique⟩

end FrameGraph
