import FrameGraph.Proofs.Compiler.Ports

/-!
# Reported port faults

Target ports that are not 0, 1, 2, … without gap or repetition are refused, and the refusal names
one port.  It is the first one that is bound twice or stands behind a port that is not bound.
Such a port need not be the one that is wrong: behind a gap a port that is in range and bound once
is named, while another one further up is out of range or bound twice.
-/

namespace FrameGraph

namespace Graph

variable {g : Graph} {n : NodeId}

/-! ## Bound ports -/

/-- The number of edges into a node that name a port as their target port. -/
def timesBound (g : Graph) (n : NodeId) (port : Nat) : Nat :=
  (g.incoming n).countP fun e => e.targetPort.toOption = some port

/-- A bound port that is not below the number of edges into the node, or is bound twice. -/
def PortAtFault (g : Graph) (n : NodeId) (port : Nat) : Prop :=
  g.timesBound n port ≠ 0 ∧ ((g.incoming n).length ≤ port ∨ 2 ≤ g.timesBound n port)

/-- A bound port that is bound twice or has an unbound port in front of it. -/
def PortMisplaced (g : Graph) (n : NodeId) (port : Nat) : Prop :=
  g.timesBound n port ≠ 0 ∧
    (2 ≤ g.timesBound n port ∨ ∃ gap, gap < port ∧ g.timesBound n gap = 0)

instance (g : Graph) (n : NodeId) (port : Nat) : Decidable (g.PortAtFault n port) :=
  inferInstanceAs (Decidable (_ ∧ _))

/-- The ports that were read count the edges. -/
theorem timesBound_eq_count {ports : List (Nat × Edge)}
    (success : g.targetPorts n (g.incoming n) = .ok ports) (port : Nat) :
    g.timesBound n port = (ports.map Prod.fst).count port := by
  obtain ⟨edgesEq, portsEq⟩ := targetPorts_eq_ok success
  rw [timesBound, ← edgesEq, List.count, List.countP_map, List.countP_map]
  refine List.countP_congr fun p member => ?_
  simp [portsEq p member, Except.toOption]

/-- Ports are complete exactly when none of them is at fault. -/
theorem perm_range_iff {ports : List Nat} :
    ports.Perm (List.range ports.length) ↔
      ∀ port ∈ ports, port < ports.length ∧ ports.count port < 2 := by
  constructor
  · intro complete port member
    rw [complete.count_eq]
    exact ⟨List.mem_range.mp (complete.mem_iff.mp member),
      Nat.lt_succ_of_le (List.nodup_iff_count_le_one.mp List.nodup_range port)⟩
  · intro faultless
    have once : ports.Nodup := by
      refine List.nodup_iff_count_le_one.mpr fun port => ?_
      by_cases member : port ∈ ports
      · exact Nat.le_of_lt_succ (faultless port member).2
      · rw [List.count_eq_zero_of_not_mem member]
        exact Nat.zero_le 1
    have inRange : ports ⊆ List.range ports.length :=
      fun port member => List.mem_range.mpr (faultless port member).1
    exact (List.subperm_of_subset once inRange).perm_of_length_le (by rw [List.length_range])

/-! ## The first port out of place -/

/-- A fault is found behind ports that count up as they should. -/
theorem exists_range_of_portFault? {due port : Nat} {ports : List (Nat × Edge)}
    (fault : portFault? due ports = some port) :
    ∃ count later, ports.map Prod.fst = List.range' due count ++ port :: later ∧
      port ≠ due + count := by
  induction ports generalizing due with
  | nil => cases fault
  | cons p rest inductionHypothesis =>
      rw [portFault?] at fault
      split at fault
      · next same =>
          obtain ⟨count, later, split, different⟩ := inductionHypothesis fault
          refine ⟨count + 1, later, ?_, by omega⟩
          rw [List.map_cons, split, same, List.range'_succ, List.cons_append]
      · next different =>
          cases fault
          exact ⟨0, rest.map Prod.fst, rfl, different⟩

variable {count port : Nat} {later : List Nat}

/-- In front of the fault every port that is due is bound once, and no other. -/
theorem count_of_lt (sorted : (List.range count ++ port :: later).Pairwise (· ≤ ·))
    {smaller : Nat} (below : smaller < port) :
    (List.range count ++ port :: later).count smaller = if smaller < count then 1 else 0 := by
  have behind : smaller ∉ port :: later := by
    intro member
    have lowest := (List.pairwise_cons.mp (List.pairwise_append.mp sorted).2.1).1
    rcases List.mem_cons.mp member with rfl | further
    · exact Nat.lt_irrefl _ below
    · exact Nat.not_lt_of_le (lowest smaller further) below
  rw [List.count_append, List.count_eq_zero_of_not_mem behind, Nat.add_zero]
  split
  · next inside => exact List.count_eq_one_of_mem List.nodup_range (List.mem_range.mpr inside)
  · next outside =>
      exact List.count_eq_zero_of_not_mem fun member => outside (List.mem_range.mp member)

/-- A fault below the port that is due repeats a port. -/
theorem two_le_count_of_lt (below : port < count) :
    2 ≤ (List.range count ++ port :: later).count port := by
  have early : 1 ≤ (List.range count).count port :=
    List.one_le_count_iff.mpr (List.mem_range.mpr below)
  rw [List.count_append, List.count_cons_self]
  omega

/-! ## Refused inputs -/

/-- Inputs with readable ports are refused for the port at which the sorted ports stop counting
up. -/
theorem exists_range_of_inputs {failure : Error}
    (readable : ∀ e ∈ g.incoming n, ∃ port, e.targetPort = .ok port)
    (refused : g.inputs n = .error failure) :
    ∃ count port later, failure = .invalidPort (g.nameOf n) port ∧ port ≠ count ∧
      (List.range count ++ port :: later).Pairwise (· ≤ ·) ∧
      (g.incoming n).length = (List.range count ++ port :: later).length ∧
      ∀ tested, g.timesBound n tested = (List.range count ++ port :: later).count tested := by
  obtain ⟨ports, success⟩ := exists_targetPorts_iff.mpr readable
  have permutation := perm_sortByPort ports
  have refusedEq := refused
  rw [inputs, success] at refusedEq
  cases fault : portFault? 0 (sortByPort ports) with
  | none =>
      simp only [fault, bind, Except.bind] at refusedEq
      cases refusedEq
  | some port =>
      simp only [fault, bind, Except.bind] at refusedEq
      cases refusedEq
      obtain ⟨count, later, split, different⟩ := exists_range_of_portFault? fault
      rw [← List.range_eq_range'] at split
      refine ⟨count, port, later, rfl, by omega, ?_, ?_, fun tested => ?_⟩
      · rw [← split]
        exact List.pairwise_map.mpr (pairwise_sortByPort ports)
      · rw [← split, List.length_map, permutation.length_eq, ← (targetPorts_eq_ok success).1,
          List.length_map]
      · rw [timesBound_eq_count success, ← split]
        exact ((permutation.map Prod.fst).count_eq tested).symm

/-- Inputs with readable ports are accepted exactly when no port is at fault. -/
theorem exists_inputs_iff_faultless
    (readable : ∀ e ∈ g.incoming n, ∃ port, e.targetPort = .ok port) :
    (∃ edges, g.inputs n = .ok edges) ↔ ∀ port, ¬ g.PortAtFault n port := by
  obtain ⟨ports, success⟩ := exists_targetPorts_iff.mpr readable
  obtain ⟨edgesEq, portsEq⟩ := targetPorts_eq_ok success
  have mapped : (g.incoming n).map Edge.targetPort = (ports.map Prod.fst).map Except.ok := by
    rw [← edgesEq, List.map_map, List.map_map]
    exact List.map_congr_left portsEq
  have lengthEq : (g.incoming n).length = (ports.map Prod.fst).length := by
    rw [← edgesEq, List.length_map, List.length_map]
  have injective : Function.Injective (Except.ok (ε := String) (α := Nat)) :=
    fun _ _ same => Except.ok.inj same
  rw [exists_inputs_iff, PortsInOrder, mapped, lengthEq, List.map_perm_map_iff injective,
    perm_range_iff]
  refine forall_congr' fun port => ?_
  rw [PortAtFault, timesBound_eq_count success, lengthEq, ne_eq, List.count_eq_zero, not_not,
    not_and, not_or, not_le, not_le]

end Graph

/-- The port that a refusal names.  A node whose target ports can all be read is refused exactly
when a port is at fault, that is out of range or bound twice.  The refusal names the first port
that is bound twice or stands behind a port that is not bound: it is at fault itself if every
smaller port is bound, and in any case a port from there on is. -/
theorem reported_port_is_first_misplaced {g : Graph} {n : NodeId}
    (readable : ∀ e ∈ g.incoming n, ∃ port, e.targetPort = .ok port) :
    ((∃ edges, g.inputs n = .ok edges) ↔ ∀ port, ¬ g.PortAtFault n port) ∧
      ∀ failure, g.inputs n = .error failure → ∃ port,
        failure = .invalidPort (g.nameOf n) port ∧
          g.PortMisplaced n port ∧
          (∀ smaller, smaller < port → ¬ g.PortMisplaced n smaller) ∧
          ((∀ smaller, smaller < port → g.timesBound n smaller ≠ 0) → g.PortAtFault n port) ∧
          ∃ culprit, port ≤ culprit ∧ g.PortAtFault n culprit := by
  have acceptedIff := Graph.exists_inputs_iff_faultless readable
  refine ⟨acceptedIff, fun failure refused => ?_⟩
  obtain ⟨count, port, later, rfl, different, sorted, lengthEq, timesEq⟩ :=
    Graph.exists_range_of_inputs readable refused
  have inFront {smaller : Nat} (below : smaller < port) :
      g.timesBound n smaller = if smaller < count then 1 else 0 :=
    (timesEq smaller).trans (Graph.count_of_lt sorted below)
  have bound : g.timesBound n port ≠ 0 := by
    rw [timesEq, ne_eq, List.count_eq_zero]
    simp
  have twiceOrGap : 2 ≤ g.timesBound n port ∨ ∃ gap, gap < port ∧ g.timesBound n gap = 0 := by
    rcases Nat.lt_or_gt_of_ne different with repeated | skipped
    · rw [timesEq]
      exact Or.inl (Graph.two_le_count_of_lt repeated)
    · exact Or.inr ⟨count, skipped, by rw [inFront skipped, if_neg (Nat.lt_irrefl count)]⟩
  refine ⟨port, rfl, ⟨bound, twiceOrGap⟩, ?_, ?_, ?_⟩
  · rintro smaller below ⟨smallerBound, misplaced⟩
    have early : smaller < count := by
      by_contra late
      exact smallerBound (by rw [inFront below, if_neg late])
    rcases misplaced with twice | ⟨gap, before, free⟩
    · rw [inFront below, if_pos early] at twice
      omega
    · rw [inFront (Nat.lt_trans before below), if_pos (Nat.lt_trans before early)] at free
      omega
  · intro noGap
    have twice := twiceOrGap.resolve_right fun ⟨gap, below, free⟩ => noGap gap below free
    exact ⟨bound, Or.inr twice⟩
  · have faulty : ∃ culprit, g.PortAtFault n culprit := by
      by_contra none
      obtain ⟨edges, accepted⟩ := acceptedIff.mpr (not_exists.mp none)
      cases refused.symm.trans accepted
    obtain ⟨culprit, culpritBound, wrong⟩ := faulty
    refine ⟨culprit, ?_, culpritBound, wrong⟩
    -- In front of the named port, bound ports are bound once and in range.
    by_contra below
    rw [inFront (Nat.lt_of_not_le below)] at culpritBound wrong
    split at culpritBound
    · next early =>
        rw [if_pos early, lengthEq, List.length_append, List.length_range] at wrong
        omega
    · exact culpritBound rfl

namespace Sample

/-- A pass with inputs at the ports 1 and 2 and none at port 0. -/
def gapped : Graph where
  nodes := #[.float "a" ⟨0⟩, .pass "p" "fill"]
  edges := #[(⟨0⟩, .withPorts ⟨0⟩ 0 ⟨1⟩ 1), (⟨1⟩, .withPorts ⟨0⟩ 0 ⟨1⟩ 2)]

end Sample

/-- Port 1 is named, which is in range and bound once; the port at fault is port 2. -/
theorem gapped_port_is_blamed :
    Sample.gapped.inputs ⟨1⟩ = .error (.invalidPort "p" 1) ∧
      (∀ smaller, smaller < 1 → ¬ Sample.gapped.PortMisplaced ⟨1⟩ smaller) ∧
      ¬ Sample.gapped.PortAtFault ⟨1⟩ 1 ∧ Sample.gapped.PortAtFault ⟨1⟩ 2 := by
  have refused : Sample.gapped.inputs ⟨1⟩ = .error (.invalidPort "p" 1) := by decide
  have readable : ∀ e ∈ Sample.gapped.incoming ⟨1⟩, ∃ port, e.targetPort = .ok port := by
    have incomingEq : Sample.gapped.incoming ⟨1⟩ =
        [.withPorts ⟨0⟩ 0 ⟨1⟩ 1, .withPorts ⟨0⟩ 0 ⟨1⟩ 2] := by decide
    simp only [incomingEq, List.forall_mem_cons]
    exact ⟨⟨1, by decide⟩, ⟨2, by decide⟩, fun e member => absurd member List.not_mem_nil⟩
  obtain ⟨port, failureEq, -, first, -⟩ :=
    (reported_port_is_first_misplaced readable).2 _ refused
  cases failureEq
  exact ⟨refused, first, by decide, by decide⟩

end FrameGraph
