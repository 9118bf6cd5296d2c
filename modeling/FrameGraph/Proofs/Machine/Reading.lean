import FrameGraph.Proofs.Compiler.Success
import FrameGraph.Proofs.Machine.Code

/-!
# Reading any byte stream

Whatever the bytes of a program are, linear reading finds instructions that follow each other
from the first byte on and whose encodings are the bytes read so far.  Where it stops before the
end of the stream, one fault explains why no instruction starts there.
-/

namespace FrameGraph

open Instruction

/-! ## Opcodes and modes of bytes -/

theorem Opcode.ofByte?_eq_some_iff {b : UInt8} {op : Opcode} :
    ofByte? b = some op ↔ op.byte = b := by
  constructor
  · intro found
    have passes := List.find?_some found
    exact of_decide_eq_true passes
  · rintro rfl
    exact ofByte?_byte op

theorem Opcode.ofByte?_eq_none_iff {b : UInt8} :
    ofByte? b = none ↔ ∀ op : Opcode, op.byte ≠ b := by
  rw [Option.eq_none_iff_forall_ne_some]
  simp only [ne_eq, ofByte?_eq_some_iff]

theorem NumericMode.ofByte?_eq_some_iff {b : UInt8} {mode : NumericMode} :
    ofByte? b = some mode ↔ mode.byte = b := by
  constructor
  · intro found
    have passes := List.find?_some found
    exact of_decide_eq_true passes
  · rintro rfl
    exact ofByte?_byte mode

/-- The modes have the first three bytes. -/
theorem NumericMode.ofByte?_eq_none_iff {b : UInt8} : ofByte? b = none ↔ 2 < b.toNat := by
  rw [Option.eq_none_iff_forall_ne_some]
  simp only [ne_eq, ofByte?_eq_some_iff]
  constructor
  · intro noMode
    have notUInt : b.toNat ≠ 0 := fun same => noMode .uint (UInt8.toNat_inj.mp same.symm)
    have notInt : b.toNat ≠ 1 := fun same => noMode .int (UInt8.toNat_inj.mp same.symm)
    have notFloat : b.toNat ≠ 2 := fun same => noMode .float (UInt8.toNat_inj.mp same.symm)
    omega
  · rintro above mode rfl
    cases mode <;> simp [byte] at above

namespace Instruction

theorem wordBytes_wordOfBytes (high low : UInt8) :
    wordBytes (wordOfBytes high low) = [high, low] := by
  have highBound := high.toNat_lt
  have lowBound := low.toNat_lt
  have word : (wordOfBytes high low).toNat = high.toNat * 256 + low.toNat := by
    rw [wordOfBytes, UInt16.toNat_ofNat']
    omega
  rw [wordBytes, word]
  congr 1
  · apply UInt8.toNat_inj.mp
    rw [UInt8.toNat_ofNat']
    omega
  · congr 1
    apply UInt8.toNat_inj.mp
    rw [UInt8.toNat_ofNat']
    omega

/-! ## Why no instruction starts at an offset -/

/-- What is wrong at an offset inside a byte stream where no instruction starts. -/
inductive Fault (bytes : Array UInt8) (offset : Nat) : Trap → Prop
  /-- The byte there is no opcode. -/
  | opcode (b : UInt8) (here : bytes[offset]? = some b) (unknown : ∀ op : Opcode, op.byte ≠ b) :
      Fault bytes offset (.invalidOpcode offset b)
  /-- An instruction with the opcode there does not fit in front of the end. -/
  | truncated (i : Instruction) (here : bytes[offset]? = some i.opcode.byte)
      (short : bytes.size < offset + i.encodedLength) :
      Fault bytes offset (.truncatedInstruction offset)
  /-- The opcode takes a mode, and the byte behind it is above all modes. -/
  | mode (op : NumericOperator) (b : UInt8) (here : bytes[offset]? = some (Opcode.numeric op).byte)
      (next : bytes[offset + 1]? = some b) (above : 2 < b.toNat) :
      Fault bytes offset (.invalidMode offset b)

variable {bytes : Array UInt8} {offset : Nat}

theorem Fault.inside {t : Trap} (fault : Fault bytes offset t) : offset < bytes.size := by
  cases fault with
  | opcode _ here | truncated _ here | mode _ _ here =>
      exact (Array.getElem?_eq_some_iff.mp here).1

theorem decodeWord_eq_ok_iff {w : UInt16} :
    decodeWord bytes offset = .ok w ↔ ∃ high low, bytes[offset + 1]? = some high ∧
      bytes[offset + 2]? = some low ∧ wordOfBytes high low = w := by
  unfold decodeWord
  cases highEq : bytes[offset + 1]? with
  | none => simp
  | some high =>
      cases lowEq : bytes[offset + 2]? with
      | none => simp
      | some low => simp

theorem decodeWord_eq_error_iff {t : Trap} :
    decodeWord bytes offset = .error t ↔
      bytes.size < offset + 3 ∧ t = .truncatedInstruction offset := by
  unfold decodeWord
  rcases Nat.lt_or_ge (offset + 2) bytes.size with inside | outside
  · simp only [Array.getElem?_eq_getElem inside,
      Array.getElem?_eq_getElem (Nat.lt_of_succ_lt inside), reduceCtorEq, false_iff]
    omega
  · have short : bytes.size < offset + 3 := by omega
    simp only [Array.getElem?_eq_none outside, short, true_and]
    cases bytes[offset + 1]? <;> simp [eq_comm]

theorem decodeMode_eq_ok_iff {mode : NumericMode} :
    decodeMode bytes offset = .ok mode ↔ bytes[offset + 1]? = some mode.byte := by
  unfold decodeMode
  cases byteEq : bytes[offset + 1]? with
  | none => simp
  | some b =>
      have named : some b = some mode.byte ↔ NumericMode.ofByte? b = some mode := by
        rw [NumericMode.ofByte?_eq_some_iff, Option.some.injEq, eq_comm]
      rw [named]
      cases modeEq : NumericMode.ofByte? b <;> simp [modeEq]

theorem decodeMode_eq_error_iff {t : Trap} :
    decodeMode bytes offset = .error t ↔
      (bytes.size < offset + 2 ∧ t = .truncatedInstruction offset) ∨
        ∃ b, bytes[offset + 1]? = some b ∧ 2 < b.toNat ∧ t = .invalidMode offset b := by
  unfold decodeMode
  cases byteEq : bytes[offset + 1]? with
  | none =>
      have short : bytes.size < offset + 2 :=
        Nat.lt_succ_of_le (Array.getElem?_eq_none_iff.mp byteEq)
      simp [short, eq_comm]
  | some b =>
      obtain ⟨inside, -⟩ := Array.getElem?_eq_some_iff.mp byteEq
      have fits : ¬ bytes.size < offset + 2 := by omega
      simp only [fits, false_and, false_or, Option.some.injEq, exists_eq_left',
        ← NumericMode.ofByte?_eq_none_iff]
      cases NumericMode.ofByte? b <;> simp [eq_comm]

theorem fault_of_decodeOperand {op : Opcode} {t : Trap} (here : bytes[offset]? = some op.byte)
    (failure : decodeOperand bytes offset op = .error t) : Fault bytes offset t := by
  have word (i : Instruction) (same : i.opcode = op) (long : i.encodedLength = 3)
      (short : decodeWord bytes offset = .error t) : Fault bytes offset t := by
    obtain ⟨ends, rfl⟩ := decodeWord_eq_error_iff.mp short
    exact .truncated i (same ▸ here) (long ▸ ends)
  cases op with
  | nop | logical _ | halt => cases failure
  | push => exact word (.push ⟨0⟩) rfl rfl (map_eq_error_iff.mp failure)
  | pop => exact word (.pop ⟨0⟩) rfl rfl (map_eq_error_iff.mp failure)
  | jump => exact word (.jump 0) rfl rfl (map_eq_error_iff.mp failure)
  | jumpIf expected => exact word (.jumpIf expected 0) rfl rfl (map_eq_error_iff.mp failure)
  | call => exact word (.call 0) rfl rfl (map_eq_error_iff.mp failure)
  | numeric op =>
      rcases decodeMode_eq_error_iff.mp (map_eq_error_iff.mp failure) with
        ⟨ends, rfl⟩ | ⟨b, next, above, rfl⟩
      · exact .truncated (.numeric op .float) here ends
      · exact .mode op b here next above

/-- Decoding fails inside a byte stream exactly for a fault. -/
theorem decode_eq_error_iff {t : Trap} (inside : offset < bytes.size) :
    decode bytes offset = .error t ↔ Fault bytes offset t := by
  constructor
  · intro failure
    have here := Array.getElem?_eq_getElem inside
    rw [decode, here] at failure
    cases opcodeEq : Opcode.ofByte? bytes[offset] with
    | none =>
        simp only [opcodeEq, Except.error.injEq] at failure
        subst failure
        exact .opcode _ here (Opcode.ofByte?_eq_none_iff.mp opcodeEq)
    | some op =>
        simp only [opcodeEq] at failure
        rw [← Opcode.ofByte?_eq_some_iff.mp opcodeEq] at here
        exact fault_of_decodeOperand here failure
  · intro fault
    cases fault with
    | opcode b here unknown =>
        simp only [decode, here, Opcode.ofByte?_eq_none_iff.mpr unknown]
    | truncated i here short =>
        obtain ⟨inside, -⟩ := Array.getElem?_eq_some_iff.mp here
        simp only [decode, here, Opcode.ofByte?_byte]
        cases i with
        | nop | logical _ | halt =>
            rw [encodedLength] at short
            omega
        | push _ | pop _ | jump _ | jumpIf _ _ | call _ =>
            rw [encodedLength] at short
            simp only [opcode, decodeOperand]
            rw [decodeWord_eq_error_iff.mpr ⟨short, rfl⟩]
            rfl
        | numeric op mode =>
            rw [encodedLength] at short
            simp only [opcode, decodeOperand]
            rw [decodeMode_eq_error_iff.mpr (Or.inl ⟨short, rfl⟩)]
            rfl
    | mode op b here next above =>
        simp only [decode, here, Opcode.ofByte?_byte, decodeOperand]
        rw [decodeMode_eq_error_iff.mpr (Or.inr ⟨b, next, above, rfl⟩)]
        rfl

/-! ## The bytes of what is decoded -/

theorem drop_eq_cons {b : UInt8} (here : bytes[offset]? = some b) :
    bytes.toList.drop offset = b :: bytes.toList.drop (offset + 1) := by
  obtain ⟨inside, rfl⟩ := Array.getElem?_eq_some_iff.mp here
  rw [List.drop_eq_getElem_cons (by simpa using inside), Array.getElem_toList]

theorem wordBytes_prefix {w : UInt16} (found : decodeWord bytes offset = .ok w) :
    wordBytes w <+: bytes.toList.drop (offset + 1) := by
  obtain ⟨high, low, first, second, rfl⟩ := decodeWord_eq_ok_iff.mp found
  rw [wordBytes_wordOfBytes, drop_eq_cons first, drop_eq_cons second]
  exact List.prefix_append [high, low] _

theorem operandBytes_prefix {op : Opcode} {i : Instruction}
    (found : decodeOperand bytes offset op = .ok i) :
    i.opcode = op ∧ i.operandBytes <+: bytes.toList.drop (offset + 1) := by
  cases op with
  | nop | logical _ | halt =>
      cases found
      exact ⟨rfl, List.nil_prefix⟩
  | push | pop | jump | jumpIf _ | call =>
      obtain ⟨w, word, rfl⟩ := map_eq_ok_iff.mp found
      exact ⟨rfl, wordBytes_prefix word⟩
  | numeric op =>
      obtain ⟨mode, named, rfl⟩ := map_eq_ok_iff.mp found
      refine ⟨rfl, ?_⟩
      rw [drop_eq_cons (decodeMode_eq_ok_iff.mp named)]
      exact List.prefix_append [mode.byte] _

/-- Encoding gives the bytes from which an instruction was decoded. -/
theorem encode_prefix_of_decode {i : Instruction} (found : decode bytes offset = .ok i) :
    i.encode <+: bytes.toList.drop offset := by
  unfold decode at found
  split at found
  · cases found
  · next b here =>
      split at found
      · cases found
      · next op opcodeEq =>
          obtain ⟨same, operands⟩ := operandBytes_prefix found
          rw [drop_eq_cons here, encode, same, Opcode.ofByte?_eq_some_iff.mp opcodeEq]
          exact (List.cons_prefix_cons).mpr ⟨rfl, operands⟩

/-- Code that stands at an offset has the bytes from there on. -/
theorem StandsAt.encode_prefix {code : List Instruction} (stands : StandsAt bytes offset code) :
    code.flatMap encode <+: bytes.toList.drop offset := by
  induction code generalizing offset with
  | nil => exact List.nil_prefix
  | cons i rest inductionHypothesis =>
      obtain ⟨after, split⟩ := encode_prefix_of_decode stands.1
      have later := inductionHypothesis stands.2
      rw [← length_encode, ← List.drop_drop, ← split, List.drop_left] at later
      rw [List.flatMap_cons, ← split]
      exact (List.prefix_append_right_inj _).mpr later

theorem StandsAt.codeLength_le {code : List Instruction} (stands : StandsAt bytes offset code)
    (inside : offset ≤ bytes.size) : offset + codeLength code ≤ bytes.size := by
  have shorter := stands.encode_prefix.length_le
  rw [length_flatMap_encode, List.length_drop, Array.length_toList] at shorter
  omega

end Instruction

/-! ## Linear reading -/

namespace Program

/-- Linear reading finds the code that stands at an offset, and where that ends in front of
the end of the stream, the one fault there. -/
theorem exists_itemsFrom {bytes : Array UInt8} {start : Nat} (inside : start ≤ bytes.size) :
    ∃ (code : List Instruction) (fault : Option Trap),
      itemsFrom bytes start =
        List.zipWith Item.instruction (offsets start code) code ++ (fault.map Item.trap).toList ∧
      StandsAt bytes start code ∧
      (fault = none ↔ start + codeLength code = bytes.size) ∧
      ∀ t, fault = some t ↔ Fault bytes (start + codeLength code) t := by
  fun_induction itemsFrom bytes start with
  | case1 offset here t failure =>
      have fault := (decode_eq_error_iff here).mp failure
      refine ⟨[], some t, rfl, trivial, ?_, fun other => ?_⟩
      · simp only [reduceCtorEq, codeLength_nil, false_iff]
        omega
      · rw [codeLength_nil, Nat.add_zero, ← decode_eq_error_iff here, failure]
        simp
  | case2 offset here i found inductionHypothesis =>
      have first : StandsAt bytes offset [i] := ⟨found, trivial⟩
      obtain ⟨code, fault, items, stands, ends, explained⟩ :=
        inductionHypothesis (first.codeLength_le inside)
      refine ⟨i :: code, fault, ?_, ⟨found, stands⟩, ?_, ?_⟩
      · rw [items]
        rfl
      · rw [codeLength_cons, ← Nat.add_assoc]
        exact ends
      · rw [codeLength_cons, ← Nat.add_assoc]
        exact explained
  | case3 offset outside =>
      have atEnd : offset = bytes.size := by omega
      refine ⟨[], none, rfl, trivial, by simp [atEnd], fun t => ?_⟩
      simp only [reduceCtorEq, false_iff, codeLength_nil, Nat.add_zero]
      exact fun fault => outside fault.inside

end Program

/-- Encoding undoes reading.  Whatever the bytes of a program are, linear reading finds
instructions that follow each other from the first byte on, whose encodings are the bytes up to
where it stops.  It finds nothing else if that is the end of the stream, and otherwise one trap,
the last item, which is the fault at that place. -/
theorem encoding_undoes_reading (p : Program) :
    ∃ (code : List Instruction) (fault : Option Trap),
      p.items = List.zipWith Program.Item.instruction (offsets 0 code) code ++
        (fault.map Program.Item.trap).toList ∧
      p.items.length ≤ p.size ∧
      code.flatMap encode = p.bytes.toList.take (codeLength code) ∧
      codeLength code ≤ p.size ∧
      (fault = none ↔ codeLength code = p.size) ∧
      (∀ t, fault = some t ↔ Fault p.bytes (codeLength code) t) ∧
      ∀ offset, Program.Item.trap (.pointerOutOfRange offset) ∉ p.items := by
  obtain ⟨code, fault, items, stands, ends, explained⟩ :=
    Program.exists_itemsFrom (Nat.zero_le p.bytes.size)
  have within := stands.codeLength_le (Nat.zero_le _)
  rw [Nat.zero_add] at ends explained within
  refine ⟨code, fault, items, ?_, ?_, within, ends, explained, ?_⟩
  · have few := length_le_codeLength code
    have split : p.items.length = code.length + (fault.map Program.Item.trap).toList.length := by
      rw [Program.items, items, List.length_append, List.length_zipWith, length_offsets,
        Nat.min_self]
    rw [split, Program.size]
    cases fault with
    | none => exact Nat.le_trans few within
    | some t =>
        have early := ((explained t).mp rfl).inside
        exact Nat.le_trans (Nat.succ_le_succ few) early
  · have bytesEq := List.prefix_iff_eq_take.mp stands.encode_prefix
    rwa [List.drop_zero, length_flatMap_encode] at bytesEq
  · intro offset member
    rw [Program.items, items, List.mem_append] at member
    rcases member with instruction | trap
    · obtain ⟨k, _, same⟩ := List.mem_iff_getElem.mp instruction
      rw [List.getElem_zipWith] at same
      cases same
    · have same : fault = some (.pointerOutOfRange offset) := by
        cases fault with
        | none => cases trap
        | some t =>
            cases List.mem_singleton.mp trap
            rfl
      cases (explained _).mp same

end FrameGraph
