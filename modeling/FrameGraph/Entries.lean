/-!
# Keyed entries

Values under keys, in the order in which the keys were first set.
-/

namespace FrameGraph.Entries

variable {κ ν : Type} [DecidableEq κ]

/-- Gives the key a value in place, or behind the others if it is new. -/
def insertInto (key : κ) (value : ν) : List (κ × ν) → List (κ × ν)
  | [] => [(key, value)]
  | (k, v) :: rest =>
    if k = key then (key, value) :: rest else (k, v) :: insertInto key value rest

variable {key : κ} {entries : List (κ × ν)}

/-- A new key stands behind all others. -/
theorem insertInto_of_notMem (new : key ∉ entries.map Prod.fst) (value : ν) :
    insertInto key value entries = entries ++ [(key, value)] := by
  induction entries with
  | nil => rfl
  | cons p rest inductionHypothesis =>
      rw [List.map_cons, List.mem_cons, not_or] at new
      rw [insertInto, if_neg (Ne.symm new.1), inductionHypothesis new.2, List.cons_append]

/-- A key that was set before keeps its place. -/
theorem map_fst_insertInto_of_mem (known : key ∈ entries.map Prod.fst) (value : ν) :
    (insertInto key value entries).map Prod.fst = entries.map Prod.fst := by
  induction entries with
  | nil => cases known
  | cons p rest inductionHypothesis =>
      rw [insertInto]
      by_cases here : p.1 = key
      · rw [if_pos here, List.map_cons, List.map_cons, here]
      · rw [List.map_cons, List.mem_cons] at known
        have later := known.resolve_left (Ne.symm here)
        rw [if_neg here, List.map_cons, List.map_cons, inductionHypothesis later]

theorem nodup_insertInto (once : (entries.map Prod.fst).Nodup) (value : ν) :
    ((insertInto key value entries).map Prod.fst).Nodup := by
  by_cases known : key ∈ entries.map Prod.fst
  · rw [map_fst_insertInto_of_mem known]
    exact once
  · rw [insertInto_of_notMem known, List.map_append]
    refine List.nodup_append.mpr ⟨once, List.pairwise_singleton _ _, ?_⟩
    rintro k listed _ isNew rfl
    rw [List.mem_singleton.mp isNew] at listed
    exact known listed

/-! ## Lookups -/

theorem lookup_cons_of_eq {k : κ} {p : κ × ν} {rest : List (κ × ν)} (same : k = p.1) :
    (p :: rest).lookup k = some p.2 := by
  rw [List.lookup_cons, beq_iff_eq.mpr same]

theorem lookup_cons_of_ne {k : κ} {p : κ × ν} {rest : List (κ × ν)} (different : k ≠ p.1) :
    (p :: rest).lookup k = rest.lookup k := by
  rw [List.lookup_cons, beq_eq_false_iff_ne.mpr different]

theorem lookup_insertInto (value : ν) (k : κ) :
    (insertInto key value entries).lookup k =
      if key = k then some value else entries.lookup k := by
  induction entries with
  | nil =>
      rw [insertInto]
      by_cases same : key = k
      · rw [if_pos same, lookup_cons_of_eq same.symm]
      · rw [if_neg same, lookup_cons_of_ne (Ne.symm same)]
  | cons p rest inductionHypothesis =>
      rw [insertInto]
      by_cases same : key = k
      · rw [if_pos same] at inductionHypothesis ⊢
        by_cases here : p.1 = key
        · rw [if_pos here, lookup_cons_of_eq same.symm]
        · have elsewhere : k ≠ p.1 := fun eq => here (eq.symm.trans same.symm)
          rw [if_neg here, lookup_cons_of_ne elsewhere, inductionHypothesis]
      · rw [if_neg same] at inductionHypothesis ⊢
        by_cases here : p.1 = key
        · have elsewhere : k ≠ p.1 := fun eq => same (here.symm.trans eq.symm)
          rw [if_pos here, lookup_cons_of_ne (Ne.symm same), lookup_cons_of_ne elsewhere]
        · rw [if_neg here, List.lookup_cons, List.lookup_cons, inductionHypothesis]

/-- With every key once, the value of a key is the one that stands beside it. -/
theorem lookup_eq_some_iff_mem (once : (entries.map Prod.fst).Nodup) {value : ν} :
    entries.lookup key = some value ↔ (key, value) ∈ entries := by
  induction entries with
  | nil => exact iff_of_false nofun List.not_mem_nil
  | cons p rest inductionHypothesis =>
      obtain ⟨absent, restOnce⟩ := List.nodup_cons.mp once
      rw [List.mem_cons, Prod.ext_iff]
      by_cases here : key = p.1
      · have notLater : (key, value) ∉ rest := fun later =>
          absent (here ▸ List.mem_map_of_mem (f := Prod.fst) later)
        rw [lookup_cons_of_eq here, Option.some.injEq, eq_comm]
        exact ⟨fun same => Or.inl ⟨here, same⟩, fun listed => (listed.resolve_right notLater).2⟩
      · rw [lookup_cons_of_ne here, inductionHypothesis restOnce]
        exact (or_iff_right fun same => here same.1).symm

theorem isSome_lookup_iff : (entries.lookup key).isSome ↔ key ∈ entries.map Prod.fst := by
  induction entries with
  | nil => exact iff_of_false nofun List.not_mem_nil
  | cons p rest inductionHypothesis =>
      rw [List.map_cons, List.mem_cons]
      by_cases here : key = p.1
      · rw [lookup_cons_of_eq here]
        exact iff_of_true rfl (Or.inl here)
      · rw [lookup_cons_of_ne here, inductionHypothesis]
        exact (or_iff_right here).symm

end FrameGraph.Entries
