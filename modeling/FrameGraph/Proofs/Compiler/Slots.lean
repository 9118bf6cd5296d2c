import FrameGraph.Compiler.Symbols
import Mathlib.Data.List.Basic

/-!
# Handing out slots

Every slot is handed out once.  Value slots of different nodes are apart and below the
value count, and so are texture slots and operation indices.  Each way of handing out
slots keeps this invariant; value slots need that their number does not pass a
64-bit word.
-/

namespace FrameGraph

/-- An entry of a table stays where it is when the table grows. -/
theorem getElem?_push_of_some {α : Type} {table : Array α} {index : Nat} {a b : α}
    (found : table[index]? = some a) : (table.push b)[index]? = some a := by
  obtain ⟨inside, -⟩ := Array.getElem?_eq_some_iff.mp found
  rw [Array.getElem?_push_lt inside, ← Array.getElem?_eq_getElem inside]
  exact found

/-- The slots lie below the counts, and no slot belongs to two nodes. -/
structure Symbols.Sound (s : Symbols) : Prop where
  values_bound : s.valueCount ≤ Address.spaceSize
  values : ∀ n, (s.slotsOf n).stop ≤ s.valueCount
  values_apart : ∀ n other slot, (s.slotsOf n).start ≤ slot → slot < (s.slotsOf n).stop →
    (s.slotsOf other).start ≤ slot → slot < (s.slotsOf other).stop → n = other
  textures_bound : s.textureCount ≤ Address.spaceSize
  textures : ∀ n slot, (s.slotsOf n).texture = some slot → slot < s.textureCount
  operations_bound : s.operationCount ≤ Symbols.operationSpaceSize
  operations : ∀ n index, (s.slotsOf n).operation = some index → index < s.operationCount
  operations_apart : ∀ n other index, (s.slotsOf n).operation = some index →
    (s.slotsOf other).operation = some index → n = other

namespace Slots

theorem value?_eq_some_iff {s : Slots} {port slot : Nat} :
    s.value? port = some slot ↔ slot = s.start + port ∧ slot < s.stop := by
  have countEq : s.count = s.stop - s.start := rfl
  by_cases bound : port < s.count
  · rw [value?, if_pos bound, Option.some.injEq]
    omega
  · rw [value?, if_neg bound]
    refine iff_of_false (by simp) ?_
    omega

end Slots

namespace Symbols

/-! ## Slots of a node -/

/-- Changing the slots of a node of the table changes those of no other node. -/
theorem slotsOf_modify (names : Array String) (slots : Array Slots)
    (values textures operations : Nat) (n other : NodeId) (f : Slots → Slots) :
    slotsOf ⟨names, slots.modify n.index f, values, textures, operations⟩ other =
      if n = other ∧ n.index < slots.size then f ((slots[other.index]?).getD {})
      else (slots[other.index]?).getD {} := by
  obtain ⟨index⟩ := n
  obtain ⟨otherIndex⟩ := other
  simp only [slotsOf, Array.getElem?_modify, NodeId.mk.injEq]
  by_cases same : index = otherIndex
  · subst same
    by_cases inside : index < slots.size
    · simp [inside]
    · simp [inside]
  · simp [same]

@[simp]
theorem slotsOf_ofGraph (g : Graph) (n : NodeId) : (ofGraph g).slotsOf n = {} := by
  simp only [slotsOf, ofGraph, Array.getElem?_replicate]
  split <;> rfl

theorem sound_ofGraph (g : Graph) : (ofGraph g).Sound := by
  constructor
  case values_bound | textures_bound | operations_bound => exact Nat.zero_le _
  all_goals simp

/-! ## Value slots -/

theorem allocateValues_eq_ok {s after : Symbols} {n : NodeId} {count : Nat}
    (word : s.valueCount + count < 2 ^ 64) (success : s.allocateValues n count = .ok after) :
    s.valueCount + count ≤ Address.spaceSize ∧
      after = { s with
        slots := s.slots.modify n.index fun t =>
          { t with start := s.valueCount, stop := s.valueCount + count }
        valueCount := s.valueCount + count } := by
  unfold allocateValues at success
  simp only [Nat.mod_eq_of_lt word] at success
  split at success
  · cases success
  · next bound => exact ⟨Nat.le_of_not_lt bound, (Except.ok.inj success).symm⟩

theorem slotsOf_allocateValues {s after : Symbols} {n : NodeId} {count : Nat}
    (word : s.valueCount + count < 2 ^ 64) (success : s.allocateValues n count = .ok after)
    (other : NodeId) :
    after.slotsOf other =
      if n = other ∧ n.index < s.slots.size then
        ⟨s.valueCount, s.valueCount + count, (s.slotsOf other).texture,
          (s.slotsOf other).operation⟩
      else s.slotsOf other := by
  obtain ⟨-, rfl⟩ := allocateValues_eq_ok word success
  exact slotsOf_modify ..

theorem Sound.allocateValues {s after : Symbols} {n : NodeId} {count : Nat} (sound : s.Sound)
    (word : s.valueCount + count < 2 ^ 64) (success : s.allocateValues n count = .ok after) :
    after.Sound := by
  have slotsEq := slotsOf_allocateValues word success
  have below := sound.values
  have apart := sound.values_apart
  obtain ⟨bound, rfl⟩ := allocateValues_eq_ok word success
  constructor
  · exact bound
  · intro other
    rw [slotsEq]
    split
    · exact Nat.le_refl _
    · exact Nat.le_trans (below other) (Nat.le_add_right _ _)
  · intro first second slot
    rw [slotsEq, slotsEq]
    have firstBelow := below first
    have secondBelow := below second
    -- The new slots are not below the old value count, where all the others are.
    split
    · next here =>
        split
        · next there => exact fun _ _ _ _ => here.1.symm.trans there.1
        · intro low _ _ high
          exact absurd low (Nat.not_le_of_lt (Nat.lt_of_lt_of_le high secondBelow))
    · split
      · intro _ high low _
        exact absurd low (Nat.not_le_of_lt (Nat.lt_of_lt_of_le high firstBelow))
      · exact apart first second slot
  · exact sound.textures_bound
  · intro other slot
    rw [slotsEq]
    split <;> exact sound.textures other slot
  · exact sound.operations_bound
  · intro other index
    rw [slotsEq]
    split <;> exact sound.operations other index
  · intro first second index
    rw [slotsEq, slotsEq]
    split <;> split <;> exact sound.operations_apart first second index

/-! ## Texture slots -/

theorem allocateTexture_eq_ok {s after : Symbols} {n : NodeId}
    (success : s.allocateTexture n = .ok after) :
    s.textureCount < Address.spaceSize ∧
      after = { s with
        slots := s.slots.modify n.index fun t => { t with texture := some s.textureCount }
        textureCount := s.textureCount + 1 } := by
  unfold allocateTexture at success
  simp only at success
  split at success
  · cases success
  · next bound => exact ⟨Nat.lt_of_not_le bound, (Except.ok.inj success).symm⟩

theorem slotsOf_allocateTexture {s after : Symbols} {n : NodeId}
    (success : s.allocateTexture n = .ok after) (other : NodeId) :
    after.slotsOf other =
      if n = other ∧ n.index < s.slots.size then
        ⟨(s.slotsOf other).start, (s.slotsOf other).stop, some s.textureCount,
          (s.slotsOf other).operation⟩
      else s.slotsOf other := by
  obtain ⟨-, rfl⟩ := allocateTexture_eq_ok success
  exact slotsOf_modify ..

theorem Sound.allocateTexture {s after : Symbols} {n : NodeId} (sound : s.Sound)
    (success : s.allocateTexture n = .ok after) : after.Sound := by
  have slotsEq := slotsOf_allocateTexture success
  obtain ⟨bound, rfl⟩ := allocateTexture_eq_ok success
  constructor
  · exact sound.values_bound
  · intro other
    rw [slotsEq]
    split <;> exact sound.values other
  · intro first second slot
    rw [slotsEq, slotsEq]
    split <;> split <;> exact sound.values_apart first second slot
  · exact bound
  · intro other slot
    rw [slotsEq]
    split
    · rintro ⟨⟩
      exact Nat.lt_succ_self _
    · intro found
      exact Nat.lt_succ_of_lt (sound.textures other slot found)
  · exact sound.operations_bound
  · intro other index
    rw [slotsEq]
    split <;> exact sound.operations other index
  · intro first second index
    rw [slotsEq, slotsEq]
    split <;> split <;> exact sound.operations_apart first second index

/-! ## Operation indices -/

theorem allocateOperation_eq_ok {s after : Symbols} {n : NodeId}
    (success : s.allocateOperation n = .ok after) :
    s.operationCount < operationSpaceSize ∧
      after = { s with
        slots := s.slots.modify n.index fun t =>
          { t with operation := some s.operationCount }
        operationCount := s.operationCount + 1 } := by
  unfold allocateOperation at success
  simp only at success
  split at success
  · cases success
  · next bound => exact ⟨Nat.lt_of_not_le bound, (Except.ok.inj success).symm⟩

theorem slotsOf_allocateOperation {s after : Symbols} {n : NodeId}
    (success : s.allocateOperation n = .ok after) (other : NodeId) :
    after.slotsOf other =
      if n = other ∧ n.index < s.slots.size then
        ⟨(s.slotsOf other).start, (s.slotsOf other).stop, (s.slotsOf other).texture,
          some s.operationCount⟩
      else s.slotsOf other := by
  obtain ⟨-, rfl⟩ := allocateOperation_eq_ok success
  exact slotsOf_modify ..

theorem Sound.allocateOperation {s after : Symbols} {n : NodeId} (sound : s.Sound)
    (success : s.allocateOperation n = .ok after) : after.Sound := by
  have slotsEq := slotsOf_allocateOperation success
  have below := sound.operations
  obtain ⟨bound, rfl⟩ := allocateOperation_eq_ok success
  constructor
  · exact sound.values_bound
  · intro other
    rw [slotsEq]
    split <;> exact sound.values other
  · intro first second slot
    rw [slotsEq, slotsEq]
    split <;> split <;> exact sound.values_apart first second slot
  · exact sound.textures_bound
  · intro other slot
    rw [slotsEq]
    split <;> exact sound.textures other slot
  · exact bound
  · intro other index
    rw [slotsEq]
    split
    · rintro ⟨⟩
      exact Nat.lt_succ_self _
    · intro found
      exact Nat.lt_succ_of_lt (below other index found)
  · intro first second index
    rw [slotsEq, slotsEq]
    -- The new index is the old operation count, which no other node has.
    split
    · next here =>
        rintro ⟨⟩
        split
        · next there => exact fun _ => here.1.symm.trans there.1
        · intro found
          exact absurd (below second _ found) (Nat.lt_irrefl _)
    · intro found
      split
      · rintro ⟨⟩
        exact absurd (below first _ found) (Nat.lt_irrefl _)
      · exact sound.operations_apart first second index found

end Symbols

end FrameGraph
