import FrameGraph.Entries

/-!
# Tables of native objects

A table keeps a record under the number of every live object, in the order in which the objects
were added.
-/

namespace FrameGraph

/-- Records by number; every number stands once. -/
structure HandleTable (ρ : Type) where
  entries : List (Nat × ρ) := []
  once : (entries.map Prod.fst).Nodup := by exact List.Pairwise.nil

namespace HandleTable

variable {ρ : Type}

instance : EmptyCollection (HandleTable ρ) := ⟨{}⟩

/-- The records with their numbers, in the order of addition. -/
def toList (t : HandleTable ρ) : List (Nat × ρ) := t.entries

def size (t : HandleTable ρ) : Nat := t.entries.length

def isEmpty (t : HandleTable ρ) : Bool := t.entries.isEmpty

instance : Membership Nat (HandleTable ρ) := ⟨fun t number => number ∈ t.entries.map Prod.fst⟩

instance (t : HandleTable ρ) (number : Nat) : Decidable (number ∈ t) :=
  inferInstanceAs (Decidable (number ∈ t.entries.map Prod.fst))

instance : GetElem? (HandleTable ρ) Nat ρ fun t number => number ∈ t where
  getElem t number member :=
    (t.entries.lookup number).get (Entries.isSome_lookup_iff.mpr member)
  getElem? t number := t.entries.lookup number

/-- Adds a record behind the others; a number that is there already keeps its place. -/
def insert (t : HandleTable ρ) (number : Nat) (record : ρ) : HandleTable ρ :=
  ⟨Entries.insertInto number record t.entries, Entries.nodup_insertInto t.once record⟩

/-- Takes out the record of a number; the others keep their order. -/
def erase (t : HandleTable ρ) (number : Nat) : HandleTable ρ :=
  ⟨t.entries.filter fun p => p.1 ≠ number, t.once.sublist (List.filter_sublist.map _)⟩

variable {t : HandleTable ρ} {number : Nat} {record : ρ}

theorem ext {first second : HandleTable ρ} (same : first.toList = second.toList) :
    first = second := by
  cases first
  cases second
  cases same
  rfl

/-! ## Lookups and lists -/

theorem mem_iff : number ∈ t ↔ number ∈ t.toList.map Prod.fst := Iff.rfl

theorem getElem?_eq_some_iff : t[number]? = some record ↔ (number, record) ∈ t.toList :=
  Entries.lookup_eq_some_iff_mem t.once

theorem isSome_getElem?_iff_mem : t[number]?.isSome ↔ number ∈ t := Entries.isSome_lookup_iff

theorem not_mem_empty : number ∉ (∅ : HandleTable ρ) := List.not_mem_nil

theorem isEmpty_iff : t.isEmpty = true ↔ ∀ number, number ∉ t := by
  rw [isEmpty, List.isEmpty_iff, ← List.map_eq_nil_iff, List.eq_nil_iff_forall_not_mem]
  exact Iff.rfl

/-! ## Insertion and erasure -/

/-- A new number stands behind all others. -/
theorem toList_insert (new : number ∉ t) (record : ρ) :
    (t.insert number record).toList = t.toList ++ [(number, record)] :=
  Entries.insertInto_of_notMem new record

theorem toList_erase (t : HandleTable ρ) (number : Nat) :
    (t.erase number).toList = t.toList.filter fun p => p.1 ≠ number := rfl

theorem getElem?_insert (t : HandleTable ρ) (number : Nat) (record : ρ) (other : Nat) :
    (t.insert number record)[other]? = if number = other then some record else t[other]? :=
  Entries.lookup_insertInto record other

theorem getElem?_erase (t : HandleTable ρ) (number other : Nat) :
    (t.erase number)[other]? = if number = other then none else t[other]? := by
  apply Option.ext
  intro record
  rw [getElem?_eq_some_iff, toList_erase, List.mem_filter, decide_eq_true_iff]
  by_cases same : number = other
  · rw [if_pos same]
    exact iff_of_false (fun kept => kept.2 same.symm) nofun
  · rw [if_neg same, getElem?_eq_some_iff]
    exact and_iff_left (Ne.symm same)

theorem mem_insert {other : Nat} :
    other ∈ t.insert number record ↔ number = other ∨ other ∈ t := by
  rw [← isSome_getElem?_iff_mem, getElem?_insert]
  by_cases same : number = other
  · rw [if_pos same]
    exact iff_of_true rfl (Or.inl same)
  · rw [if_neg same, isSome_getElem?_iff_mem]
    exact (or_iff_right same).symm

theorem mem_erase {other : Nat} : other ∈ t.erase number ↔ number ≠ other ∧ other ∈ t := by
  rw [← isSome_getElem?_iff_mem, getElem?_erase]
  by_cases same : number = other
  · rw [if_pos same]
    exact iff_of_false nofun fun kept => kept.1 same
  · rw [if_neg same, isSome_getElem?_iff_mem]
    exact (and_iff_right same).symm

/-- There is nothing to take out under an unknown number. -/
theorem erase_eq_self (unknown : number ∉ t) : t.erase number = t := by
  apply ext
  rw [toList_erase, List.filter_eq_self]
  intro p listed
  exact decide_eq_true fun same => unknown (same ▸ List.mem_map_of_mem listed)

end HandleTable

end FrameGraph
