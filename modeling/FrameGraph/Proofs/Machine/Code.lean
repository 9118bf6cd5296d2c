import FrameGraph.Program
import Mathlib.Data.List.Basic

/-!
# Code in a byte stream

Instructions stand in a byte stream when each of them is decoded right behind the one
before it.  Encoded instructions stand where their bytes were put, so that the code
from which a program was assembled stands at its first byte and is all that linear
reading finds there.
-/

namespace FrameGraph

/-! ## Operands -/

namespace Address

theorem isTexture_value {index : Nat} {a : Address} (found : value? index = some a) :
    a.isTexture = false ∧ a.index = index := by
  unfold value? at found
  split at found
  · next bound =>
      cases found
      have exact : (UInt16.ofNat index).toNat = index := by
        rw [UInt16.toNat_ofNat']
        simp only [spaceSize] at bound
        omega
      constructor
      · rw [isTexture, exact, decide_eq_false_iff_not]
        exact Nat.not_le_of_lt bound
      · rw [Address.index, exact, Nat.mod_eq_of_lt bound]
  · cases found

theorem isTexture_texture {index : Nat} {a : Address} (found : texture? index = some a) :
    a.isTexture = true ∧ a.index = index := by
  unfold texture? at found
  split at found
  · next bound =>
      cases found
      have exact : (UInt16.ofNat (spaceSize + index)).toNat = spaceSize + index := by
        rw [UInt16.toNat_ofNat']
        simp only [spaceSize] at bound ⊢
        omega
      constructor
      · rw [isTexture, exact, decide_eq_true_eq]
        exact Nat.le_add_right spaceSize index
      · rw [Address.index, exact, Nat.add_mod_left, Nat.mod_eq_of_lt bound]
  · cases found

end Address

theorem Opcode.ofByte?_byte (op : Opcode) : Opcode.ofByte? op.byte = some op := by
  cases op with
  | numeric op => cases op <;> decide
  | logical op => cases op <;> decide
  | jumpIf expected => cases expected <;> decide
  | nop | push | pop | jump | call | halt => decide

theorem NumericMode.ofByte?_byte (mode : NumericMode) :
    NumericMode.ofByte? mode.byte = some mode := by
  cases mode <;> decide

namespace Instruction

theorem wordOfBytes_wordBytes (w : UInt16) :
    wordOfBytes (UInt8.ofNat (w.toNat / 256)) (UInt8.ofNat (w.toNat % 256)) = w := by
  have bound := w.toNat_lt
  apply UInt16.toNat_inj.mp
  simp only [wordOfBytes, UInt8.toNat_ofNat', UInt16.toNat_ofNat']
  omega

/-! ## One instruction -/

theorem length_encode (i : Instruction) : i.encode.length = i.encodedLength := by
  cases i <;> rfl

/-- What is encoded is decoded, whatever stands around it. -/
theorem decode_encode (before after : List UInt8) (i : Instruction) :
    decode (before ++ (i.encode ++ after)).toArray before.length = .ok i := by
  have opcodeHere : (before ++ (i.encode ++ after)).toArray[before.length]? =
      some i.opcode.byte := by
    simp [encode]
  simp only [decode, opcodeHere, Opcode.ofByte?_byte]
  cases i with
  | nop | logical _ | halt => rfl
  | numeric op mode =>
      simp [decodeOperand, decodeMode, opcode, encode, operandBytes,
        NumericMode.ofByte?_byte, Except.map]
  | push a | pop a | jump w | jumpIf e w | call w =>
      simp [decodeOperand, decodeWord, opcode, encode, operandBytes, wordBytes,
        wordOfBytes_wordBytes, Except.map]

/-! ## Code -/

/-- The number of bytes of instructions. -/
def codeLength : List Instruction → Nat
  | [] => 0
  | i :: rest => i.encodedLength + codeLength rest

@[simp]
theorem codeLength_nil : codeLength [] = 0 := rfl

@[simp]
theorem codeLength_cons (i : Instruction) (rest : List Instruction) :
    codeLength (i :: rest) = i.encodedLength + codeLength rest := rfl

theorem codeLength_append (first second : List Instruction) :
    codeLength (first ++ second) = codeLength first + codeLength second := by
  induction first with
  | nil => simp
  | cons i rest inductionHypothesis =>
      rw [List.cons_append, codeLength_cons, codeLength_cons, inductionHypothesis,
        Nat.add_assoc]

theorem length_flatMap_encode (code : List Instruction) :
    (code.flatMap encode).length = codeLength code := by
  induction code with
  | nil => rfl
  | cons i rest inductionHypothesis =>
      rw [List.flatMap_cons, List.length_append, length_encode, inductionHypothesis,
        codeLength_cons]

theorem length_le_codeLength (code : List Instruction) : code.length ≤ codeLength code := by
  induction code with
  | nil => exact Nat.le_refl 0
  | cons i rest inductionHypothesis =>
      have positive := i.encodedLength_pos
      simp only [List.length_cons, codeLength_cons]
      omega

/-- The instructions are decoded one behind the other from an offset on. -/
def StandsAt (bytes : Array UInt8) : Nat → List Instruction → Prop
  | _, [] => True
  | offset, i :: rest =>
      decode bytes offset = .ok i ∧ StandsAt bytes (offset + i.encodedLength) rest

/-- Encoded instructions stand where their bytes are. -/
theorem standsAt_encode (before after : List UInt8) (code : List Instruction) :
    StandsAt (before ++ (code.flatMap encode ++ after)).toArray before.length code := by
  induction code generalizing before with
  | nil => trivial
  | cons i rest inductionHypothesis =>
      rw [List.flatMap_cons, List.append_assoc]
      refine ⟨decode_encode before _ i, ?_⟩
      have later := inductionHypothesis (before ++ i.encode)
      rw [List.length_append, length_encode, List.append_assoc] at later
      exact later

/-- The offsets of instructions that stand one behind the other. -/
def offsets : Nat → List Instruction → List Nat
  | _, [] => []
  | offset, i :: rest => offset :: offsets (offset + i.encodedLength) rest

@[simp]
theorem length_offsets (start : Nat) (code : List Instruction) :
    (offsets start code).length = code.length := by
  induction code generalizing start with
  | nil => rfl
  | cons i rest inductionHypothesis => exact congrArg Nat.succ (inductionHypothesis _)

theorem le_of_mem_offsets {start offset : Nat} {code : List Instruction}
    (member : offset ∈ offsets start code) : start ≤ offset := by
  induction code generalizing start with
  | nil => exact absurd member List.not_mem_nil
  | cons i rest inductionHypothesis =>
      rcases List.mem_cons.mp member with same | later
      · exact Nat.le_of_eq same.symm
      · exact Nat.le_trans (Nat.le_add_right _ _) (inductionHypothesis later)

/-- Offsets increase, so that none occurs twice. -/
theorem pairwise_offsets (start : Nat) (code : List Instruction) :
    (offsets start code).Pairwise (· < ·) := by
  induction code generalizing start with
  | nil => exact List.Pairwise.nil
  | cons i rest inductionHypothesis =>
      refine List.pairwise_cons.mpr ⟨?_, inductionHypothesis _⟩
      intro offset later
      have positive := i.encodedLength_pos
      have bound := le_of_mem_offsets later
      omega

end Instruction

/-! ## Assembled programs -/

open Instruction

theorem Assembler.bytes_emitAll (a : Assembler) (code : List Instruction) :
    (a.emitAll code).2.bytes = a.bytes ++ (code.flatMap encode).toArray := by
  induction code generalizing a with
  | nil => simp [emitAll]
  | cons i rest inductionHypothesis => simp [emitAll, emit, inductionHypothesis]

namespace Program

theorem bytes_of_assemble {code : List Instruction} {p : Program}
    (assembled : assemble code = .ok p) : p.bytes = (code.flatMap encode).toArray := by
  have bytesEq := Assembler.bytes_emitAll ⟨#[]⟩ code
  unfold assemble Assembler.finish ofBytes at assembled
  split at assembled
  · cases assembled
    simpa using bytesEq
  · cases assembled

/-- Some code makes a program, because no instruction is without bytes. -/
theorem exists_assemble {code : List Instruction} (nonempty : code ≠ []) :
    ∃ p, assemble code = .ok p := by
  have bytesEq := Assembler.bytes_emitAll ⟨#[]⟩ code
  have shorter := length_le_codeLength code
  have positive := List.length_pos_of_ne_nil nonempty
  have someBytes : ((Assembler.mk #[]).emitAll code).2.bytes.size ≠ 0 := by
    rw [bytesEq, Array.size_append, List.size_toArray, List.size_toArray,
      length_flatMap_encode]
    omega
  unfold assemble Assembler.finish ofBytes
  rw [dif_pos someBytes]
  exact ⟨_, rfl⟩

theorem standsAt_of_assemble {code : List Instruction} {p : Program}
    (assembled : assemble code = .ok p) : StandsAt p.bytes 0 code := by
  rw [bytes_of_assemble assembled]
  simpa using standsAt_encode [] [] code

theorem size_of_assemble {code : List Instruction} {p : Program}
    (assembled : assemble code = .ok p) : p.size = codeLength code := by
  rw [size, bytes_of_assemble assembled, List.size_toArray, length_flatMap_encode]

/-- Linear reading from where code stands, with nothing behind it, finds that code. -/
theorem items_of_standsAt {bytes : Array UInt8} {start : Nat} {code : List Instruction}
    (stands : StandsAt bytes start code) (fills : start + codeLength code = bytes.size) :
    itemsFrom bytes start = List.zipWith Item.instruction (offsets start code) code := by
  induction code generalizing start with
  | nil =>
      rw [codeLength_nil, Nat.add_zero] at fills
      rw [itemsFrom, if_neg (Nat.not_lt_of_le (Nat.le_of_eq fills.symm))]
      rfl
  | cons i rest inductionHypothesis =>
      have positive := i.encodedLength_pos
      rw [codeLength_cons] at fills
      rw [itemsFrom, if_pos (by omega), stands.1, offsets, List.zipWith_cons_cons]
      exact congrArg _ (inductionHypothesis stands.2 (by omega))

theorem items_of_assemble {code : List Instruction} {p : Program}
    (assembled : assemble code = .ok p) :
    p.items = List.zipWith Item.instruction (offsets 0 code) code := by
  have fills : 0 + codeLength code = p.bytes.size := by
    rw [Nat.zero_add, ← size_of_assemble assembled, size]
  exact items_of_standsAt (standsAt_of_assemble assembled) fills

/-- The offsets at which linear reading finds instructions. -/
def instructionOffsets (p : Program) : List Nat :=
  p.items.filterMap fun
    | .instruction offset _ => some offset
    | .trap _ => none

theorem instructionOffsets_of_assemble {code : List Instruction} {p : Program}
    (assembled : assemble code = .ok p) : p.instructionOffsets = offsets 0 code := by
  rw [instructionOffsets, items_of_assemble assembled, ← List.map_uncurry_zip_eq_zipWith,
    List.filterMap_map]
  have each : (fun
      | .instruction offset _ => some offset
      | .trap _ => none) ∘ Function.uncurry Item.instruction = some ∘ Prod.fst := rfl
  rw [each, List.filterMap_eq_map, List.map_fst_zip (Nat.le_of_eq (length_offsets 0 code))]

end Program

end FrameGraph
