import FrameGraph.Proofs.Machine.Reading
import FrameGraph.Proofs.Text.Numeral

/-!
# Faithful disassembly

The lines of a disassembly can be told apart and read back: a line ends at its first line break,
the offset and the mnemonic at the first blank behind them, and the operand is what is left.  A
disassembly without a trap therefore belongs to one program only.
-/

namespace FrameGraph

/-! ## Texts of instructions -/

/-- What stands in front of a separator is determined when the separator is not part of it. -/
theorem append_cons_inj {α : Type} {a : α} {first second firstRest secondRest : List α}
    (firstFree : a ∉ first) (secondFree : a ∉ second) :
    first ++ a :: firstRest = second ++ a :: secondRest ↔
      first = second ∧ firstRest = secondRest := by
  constructor
  · intro same
    induction first generalizing second with
    | nil =>
        cases second with
        | nil => exact ⟨rfl, (List.cons.inj same).2⟩
        | cons b others =>
            exact absurd ((List.cons.inj same).1 ▸ List.mem_cons_self) secondFree
    | cons b rest inductionHypothesis =>
        cases second with
        | nil => exact absurd ((List.cons.inj same).1 ▸ List.mem_cons_self) firstFree
        | cons c others =>
            obtain ⟨headEq, tailEq⟩ := List.cons.inj same
            obtain ⟨restEq, laterEq⟩ := inductionHypothesis
              (fun member => firstFree (List.mem_cons_of_mem b member))
              (fun member => secondFree (List.mem_cons_of_mem c member)) tailEq
            exact ⟨by rw [headEq, restEq], laterEq⟩
  · rintro ⟨rfl, rfl⟩
    rfl

/-- The index and the space determine the word of an address. -/
theorem Address.ext_index {a b : Address} (sameSpace : a.isTexture = b.isTexture)
    (sameIndex : a.index = b.index) : a = b := by
  obtain ⟨a⟩ := a
  obtain ⟨b⟩ := b
  have aBound := a.toNat_lt
  have bBound := b.toNat_lt
  have sameSide : spaceSize ≤ a.toNat ↔ spaceSize ≤ b.toNat := decide_eq_decide.mp sameSpace
  simp only [index, spaceSize] at sameSide sameIndex
  congr 1
  apply UInt16.toNat_inj.mp
  omega

theorem Address.text_injective : Function.Injective Address.text := by
  intro a b same
  have characters := congrArg String.toList same
  simp only [text, Nat.toString_eq_repr, String.toList_append] at characters
  have index (space : a.isTexture = b.isTexture)
      (digits : a.index.repr.toList = b.index.repr.toList) : a = b :=
    ext_index space (Text.repr_injective (String.toList_injective digits))
  cases aSpace : a.isTexture <;> cases bSpace : b.isTexture <;>
    simp only [aSpace, bSpace] at characters index
  case false.false | true.true => exact index trivial (List.append_cancel_left characters)
  case false.true | true.false => cases (List.cons.inj characters).1

namespace Opcode

theorem ofMnemonic?_mnemonic (op : Opcode) : ofMnemonic? op.mnemonic = some op := by
  cases op with
  | numeric op => cases op <;> decide
  | logical op => cases op <;> decide
  | jumpIf expected => cases expected <;> decide
  | nop | push | pop | jump | call | halt => decide

theorem mnemonic_injective : Function.Injective mnemonic := by
  intro first second same
  have found := ofMnemonic?_mnemonic first
  rw [same, ofMnemonic?_mnemonic] at found
  exact (Option.some.inj found).symm

theorem isUpper_of_mem_mnemonic (op : Opcode) :
    ∀ c ∈ op.mnemonic.toList, c.isUpper = true := by
  refine List.all_eq_true.mp ?_
  cases op with
  | numeric op => cases op <;> rfl
  | logical op => cases op <;> rfl
  | jumpIf expected => cases expected <;> rfl
  | nop | push | pop | jump | call | halt => rfl

end Opcode

theorem NumericMode.suffix_injective : Function.Injective NumericMode.suffix := by
  intro first second same
  cases first <;> cases second <;> simp [suffix] at same ⊢

namespace Instruction

/-- What stands behind the mnemonic. -/
def operandText : Instruction → String
  | .push a | .pop a => " " ++ a.text
  | .jump w | .jumpIf _ w => " @" ++ Text.fourDigits w.toNat
  | .call w => " " ++ toString w.toNat
  | .numeric _ mode => "." ++ mode.suffix
  | .nop | .logical _ | .halt => ""

theorem text_eq (i : Instruction) : i.text = i.opcode.mnemonic ++ i.operandText := by
  cases i <;> simp [text, operandText, String.append_assoc]

/-- An operand starts with a blank or a point, if there is one. -/
theorem takeWhile_operandText (i : Instruction) :
    i.operandText.toList.takeWhile Char.isUpper = [] := by
  cases i <;> simp [operandText, String.toList_append]

/-- The capitals at the start of the text are the mnemonic. -/
theorem takeWhile_text (i : Instruction) :
    i.text.toList.takeWhile Char.isUpper = i.opcode.mnemonic.toList := by
  rw [text_eq, String.toList_append,
    List.takeWhile_append_of_pos (Opcode.isUpper_of_mem_mnemonic i.opcode),
    takeWhile_operandText, List.append_nil]

/-- No two instructions have the same text. -/
theorem text_injective : Function.Injective text := by
  intro i j same
  have sameOpcode : i.opcode = j.opcode := by
    apply Opcode.mnemonic_injective
    apply String.toList_inj.mp
    rw [← takeWhile_text, ← takeWhile_text, same]
  have sameOperand : i.operandText = j.operandText := by
    rw [text_eq, text_eq, sameOpcode] at same
    exact (String.append_right_inj _).mp same
  cases i <;> cases j <;> cases sameOpcode <;> simp only [operandText] at sameOperand
  case nop.nop.refl | logical.logical.refl | halt.halt.refl => rfl
  case push.push.refl a b | pop.pop.refl a b =>
    rw [Address.text_injective ((String.append_right_inj _).mp sameOperand)]
  case jump.jump.refl w v | jumpIf.jumpIf.refl w v =>
    have digits := Text.fourDigits_injective ((String.append_right_inj _).mp sameOperand)
    rw [UInt16.toNat_inj.mp digits]
  case call.call.refl w v =>
    have digits := Text.repr_injective ((String.append_right_inj _).mp sameOperand)
    rw [UInt16.toNat_inj.mp digits]
  case numeric.numeric.refl op mode other =>
    rw [NumericMode.suffix_injective ((String.append_right_inj _).mp sameOperand)]

/-- A text stands on one line. -/
theorem break_not_mem_text (i : Instruction) : '\n' ∉ i.text.toList := by
  rw [text_eq, String.toList_append, List.mem_append]
  rintro (inMnemonic | inOperand)
  · exact absurd (Opcode.isUpper_of_mem_mnemonic i.opcode _ inMnemonic) (by decide)
  · cases i with
    | nop | logical op | halt => exact absurd inOperand List.not_mem_nil
    | numeric op mode => cases mode <;> simp [operandText, NumericMode.suffix] at inOperand
    | push a | pop a =>
        cases space : a.isTexture <;>
          simp [operandText, Address.text, space, Text.not_mem_toDigits] at inOperand
    | jump w | jumpIf expected w =>
        simp [operandText, Text.not_mem_fourDigits] at inOperand
    | call w => simp [operandText, Text.not_mem_toDigits] at inOperand

end Instruction

/-! ## Lines -/

namespace Program

theorem toList_line_instruction (offset : Nat) (i : Instruction) :
    (Item.instruction offset i).line.toList =
      (Text.fourDigits offset).toList ++ ' ' :: i.text.toList ++ ['\n'] := by
  simp [Item.line]

theorem toList_line_trap (t : Trap) :
    (Item.trap t).line.toList = '<' :: (t.message.toList ++ ['>', '\n']) := by
  simp [Item.line]

/-- The line of an instruction in front of any text gives the instruction, its offset and that
text. -/
theorem line_instruction_inj {offset other : Nat} {i j : Instruction} {later others : List Char}
    (same : (Item.instruction offset i).line.toList ++ later =
      (Item.instruction other j).line.toList ++ others) :
    Item.instruction offset i = Item.instruction other j ∧ later = others := by
  have noBreak (offset : Nat) (i : Instruction) :
      '\n' ∉ (Text.fourDigits offset).toList ++ ' ' :: i.text.toList := by
    simp [Text.not_mem_fourDigits, i.break_not_mem_text]
  rw [toList_line_instruction, toList_line_instruction, ← List.append_cons, ← List.append_cons,
    append_cons_inj (noBreak offset i) (noBreak other j),
    append_cons_inj (Text.not_mem_fourDigits (by decide) offset)
      (Text.not_mem_fourDigits (by decide) other)] at same
  obtain ⟨⟨sameOffset, sameText⟩, sameLater⟩ := same
  rw [Text.fourDigits_injective (String.toList_injective sameOffset),
    Instruction.text_injective (String.toList_injective sameText)]
  exact ⟨rfl, sameLater⟩

/-- The line of a trap is no line of an instruction. -/
theorem line_trap_ne {offset : Nat} {i : Instruction} {t : Trap} {later others : List Char} :
    (Item.instruction offset i).line.toList ++ later ≠ (Item.trap t).line.toList ++ others := by
  rw [toList_line_instruction, toList_line_trap]
  intro same
  cases digits : (Text.fourDigits offset).toList with
  | nil =>
      rw [digits] at same
      cases (List.cons.inj same).1
  | cons first rest =>
      rw [digits] at same
      have notDigit : '<' ∉ (Text.fourDigits offset).toList :=
        Text.not_mem_fourDigits (by decide) offset
      rw [digits, (List.cons.inj same).1] at notDigit
      exact notDigit List.mem_cons_self

theorem line_ne_nil (item : Item) : item.line.toList ≠ [] := by
  cases item with
  | instruction offset i => simp [toList_line_instruction]
  | trap t => simp [toList_line_trap]

/-- Lines of instructions belong to these instructions only. -/
theorem items_eq_of_lines {items others : List Item} (clean : ∀ t, Item.trap t ∉ items)
    (same : items.flatMap (fun item => item.line.toList) =
      others.flatMap fun item => item.line.toList) : items = others := by
  induction items generalizing others with
  | nil =>
      cases others with
      | nil => rfl
      | cons item rest =>
          rw [List.flatMap_nil, List.flatMap_cons, eq_comm, List.append_eq_nil_iff] at same
          exact absurd same.1 (line_ne_nil item)
  | cons item rest inductionHypothesis =>
      cases others with
      | nil =>
          rw [List.flatMap_nil, List.flatMap_cons, List.append_eq_nil_iff] at same
          exact absurd same.1 (line_ne_nil item)
      | cons other later =>
          rw [List.flatMap_cons, List.flatMap_cons] at same
          cases item with
          | trap t => exact absurd List.mem_cons_self (clean t)
          | instruction offset i =>
              cases other with
              | trap t => exact absurd same line_trap_ne
              | instruction otherOffset j =>
                  obtain ⟨sameItem, sameRest⟩ := line_instruction_inj same
                  rw [sameItem, inductionHypothesis
                    (fun t member => clean t (List.mem_cons_of_mem _ member)) sameRest]

/-! ## Bytes of items -/

/-- The bytes from which an item was read; a trap stands for none. -/
def Item.bytes : Item → List UInt8
  | .instruction _ i => i.encode
  | .trap _ => []

theorem flatMap_bytes_instructions (start : Nat) (code : List Instruction) :
    (List.zipWith Item.instruction (Instruction.offsets start code) code).flatMap Item.bytes =
      code.flatMap Instruction.encode := by
  induction code generalizing start with
  | nil => rfl
  | cons i rest inductionHypothesis =>
      rw [Instruction.offsets, List.zipWith_cons_cons, List.flatMap_cons, List.flatMap_cons,
        inductionHypothesis]
      rfl

/-- Without a trap all bytes are those of the items. -/
theorem bytes_of_clean {p : Program} (clean : ∀ t, Item.trap t ∉ p.items) :
    p.bytes.toList = p.items.flatMap Item.bytes := by
  obtain ⟨code, fault, items, stands, ends, -⟩ := exists_itemsFrom (Nat.zero_le p.bytes.size)
  have noFault : fault = none := by
    refine Option.eq_none_iff_forall_ne_some.mpr fun t same => clean t ?_
    rw [Program.items, items, same]
    exact List.mem_append_right _ List.mem_cons_self
  rw [noFault, Option.map_none, Option.toList_none, List.append_nil] at items
  rw [Program.items, items, flatMap_bytes_instructions]
  have whole := ends.mp noFault
  refine (stands.encode_prefix.eq_of_length ?_).symm
  rw [Instruction.length_flatMap_encode, List.drop_zero, Array.length_toList]
  omega

end Program

/-- Faithful disassembly.  A program that is read without a trap shares its disassembly with no
other program; what prints like it has the same bytes, and no trap either. -/
theorem disassembly_determines_bytes {p q : Program} (clean : ∀ t, .trap t ∉ p.items)
    (same : p.text = q.text) : p.bytes = q.bytes ∧ ∀ t, .trap t ∉ q.items := by
  have sameItems : p.items = q.items := by
    apply Program.items_eq_of_lines clean
    have lines (p : Program) :
        p.text.toList = p.items.flatMap fun item => item.line.toList := by
      rw [Program.text, String.toList_join, List.flatMap_map]
    rw [← lines, ← lines, same]
  have otherClean : ∀ t, Program.Item.trap t ∉ q.items := sameItems ▸ clean
  refine ⟨Array.toList_inj.mp ?_, otherClean⟩
  rw [Program.bytes_of_clean clean, Program.bytes_of_clean otherClean, sameItems]

namespace Sample

/-- Bytes with an operand of every layout and jump targets of four and five digits. -/
def printed : Program where
  bytes :=
    #[0x01, 0x80, 0x03, 0x16, 0x02, 0x42, 0xff, 0xff, 0x40, 0x00, 0x07, 0x50, 0x01, 0x02, 0xff]
  bytes_ne_empty := by decide

def printedCode : List Instruction :=
  [.push ⟨0x8003⟩, .numeric .fma .float, .jumpIf false 0xffff, .jump 7, .call 0x0102, .halt]

end Sample

/-- What is assembled to the same disassembly has the same bytes. -/
theorem printed_bytes_of_assembled :
    (∀ t, .trap t ∉ Sample.printed.items) ∧
      Sample.printed.text = "0000 PUSH t3\n0003 FMA.f\n0005 JMPF @65535\n0008 JMP @0007\n" ++
        "0011 CALL 258\n0014 HALT\n" ∧
      ∃ q, Program.assemble Sample.printedCode = .ok q ∧ Sample.printed.text = q.text ∧
        Sample.printed.bytes = q.bytes := by
  have items : Sample.printed.items = List.zipWith Program.Item.instruction
      (Instruction.offsets 0 Sample.printedCode) Sample.printedCode := by decide +kernel
  have clean : ∀ t, Program.Item.trap t ∉ Sample.printed.items := by
    simp [items, Sample.printedCode, Instruction.offsets]
  have nonempty : Sample.printedCode ≠ [] := List.cons_ne_nil _ _
  obtain ⟨q, assembled⟩ := Program.exists_assemble nonempty
  have same : Sample.printed.text = q.text := by
    rw [Program.text, Program.text, items, Program.items_of_assemble assembled]
  exact ⟨clean, by decide +kernel, q, assembled, same,
    (disassembly_determines_bytes clean same).1⟩

end FrameGraph
