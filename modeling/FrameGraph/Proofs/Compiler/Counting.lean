import FrameGraph.Proofs.Compiler.Failure
import FrameGraph.Proofs.Compiler.Placement

/-!
# Counting value slots

Value slots are counted with 64-bit words.  If the source ports leave room for the slots in front
of them, no count wraps around, and the layout fails at the first node whose slots do not fit,
unless an earlier node, or its own source ports, cannot be read.
-/

namespace FrameGraph

/-! ## Ports that can be counted -/

namespace Graph

variable {g : Graph}

/-- Every source port leaves room in a 64-bit word for the value slots that may stand in front of
it. -/
def PortsFit (g : Graph) : Prop :=
  ∀ e ∈ g.edgeList, ∀ port, e.sourcePort = .ok port → port + 1 + Address.spaceSize < 2 ^ 64

theorem PortsFit.neededPorts_add_lt (ports : g.PortsFit) (n : NodeId) :
    g.neededPorts n + Address.spaceSize < 2 ^ 64 := by
  have start : Address.spaceSize < 2 ^ 64 := by decide
  have one (e : Edge) (member : e ∈ g.edgeList) : e.neededPorts < 2 ^ 64 - Address.spaceSize := by
    unfold Edge.neededPorts
    cases read : e.sourcePort with
    | error raw => exact Nat.sub_pos_of_lt start
    | ok port => exact Nat.lt_sub_of_add_lt (ports e member port read)
  have all (edges : List Edge) (subset : edges ⊆ g.edgeList) :
      (edges.map Edge.neededPorts).foldr max 0 < 2 ^ 64 - Address.spaceSize := by
    induction edges with
    | nil => exact Nat.sub_pos_of_lt start
    | cons e rest inductionHypothesis =>
        rw [List.map_cons, List.foldr_cons]
        apply Nat.max_lt.mpr
        exact ⟨one e (subset List.mem_cons_self),
          inductionHypothesis fun _ member => subset (List.mem_cons_of_mem e member)⟩
  exact Nat.add_lt_of_lt_sub (all (g.outgoing n) (List.filter_subset_self _))

theorem outputCount_le (g : Graph) (n : NodeId) : g.outputCount n ≤ max 1 (g.neededPorts n) := by
  unfold outputCount
  cases g.kind? n with
  | none => exact Nat.zero_le _
  | some kind =>
      cases kind with
      | float | operator op => exact Nat.le_max_left ..
      | pass => exact Nat.le_max_right ..
      | present | texture => exact Nat.zero_le _

theorem PortsFit.outputCount_add_lt (ports : g.PortsFit) (n : NodeId) :
    g.outputCount n + Address.spaceSize < 2 ^ 64 := by
  have size : Address.spaceSize = 2 ^ 15 := rfl
  have needed := ports.neededPorts_add_lt n
  have bound := g.outputCount_le n
  omega

end Graph

theorem Symbols.allocateValues_eq_error_iff {s : Symbols} {n : NodeId} {count : Nat}
    {fault : Error} (word : s.valueCount + count < 2 ^ 64) :
    s.allocateValues n count = .error fault ↔
      Address.spaceSize < s.valueCount + count ∧ fault = .addressSpaceExhausted .value := by
  unfold allocateValues
  simp only [Nat.mod_eq_of_lt word]
  by_cases full : Address.spaceSize < s.valueCount + count
  · simp [full, eq_comm]
  · simp [full]

/-- A count that reaches `2 ^ 64` wraps around, and the slots count as none. -/
theorem Symbols.allocateValues_of_wrap {s : Symbols} {n : NodeId} {count : Nat}
    (wraps : s.valueCount + count = 2 ^ 64) :
    ∃ after, s.allocateValues n count = .ok after ∧ after.valueCount = 0 := by
  unfold allocateValues
  simp only [wraps, Nat.mod_self]
  exact ⟨_, rfl, rfl⟩

namespace Layout

variable {g : Graph} {done : List NodeId} {n : NodeId} {l next : Layout} {fault : Error}

/-! ## Why a node gets no value slots -/

/-- What is wrong with giving value slots to a node behind others.  The slots of a constant are
counted before its value is read, those of a pass when its ports have been read. -/
inductive ValueFault (g : Graph) (done : List NodeId) (n : NodeId) : Error → Prop
  | exhausted (counted : g.kind? n = some .pass → ∃ count, g.outputPorts n = .ok count)
      (full : Address.spaceSize < (done.map g.outputCount).sum + g.outputCount n) :
      ValueFault g done n (.addressSpaceExhausted .value)
  | constant {fault : Error} (kind : g.kind? n = some .float)
      (room : (done.map g.outputCount).sum + g.outputCount n ≤ Address.spaceSize)
      (unreadable : g.floatValue n = .error fault) : ValueFault g done n fault
  | ports {fault : Error} (kind : g.kind? n = some .pass)
      (unreadable : g.outputPorts n = .error fault) : ValueFault g done n fault

/-- The value slots of the nodes so far are counted exactly. -/
structure Counts (g : Graph) (done : List NodeId) (l : Layout) : Prop where
  sound : l.Sound g
  valueCount : l.symbols.valueCount = (done.map g.outputCount).sum

theorem counts_start (g : Graph) : Counts g [] { symbols := .ofGraph g } := ⟨sound_start g, rfl⟩

/-- A node without value slots is no fault. -/
theorem Counts.no_fault (counts : l.Counts g done) (noFloat : g.kind? n ≠ some .float)
    (noPass : g.kind? n ≠ some .pass) (none : g.outputCount n = 0) :
    ¬ ValueFault g done n fault := by
  intro faulty
  cases faulty with
  | exhausted counted full =>
      rw [none, ← counts.valueCount] at full
      exact Nat.not_le_of_lt full counts.sound.symbols.values_bound
  | constant kind room unreadable => exact noFloat kind
  | ports kind unreadable => exact noPass kind

theorem outputPorts_eq_outputCount (ports : g.PortsFit) (kind : g.kind? n = some .pass)
    {count : Nat} (counted : g.outputPorts n = .ok count) : count = g.outputCount n := by
  have fits := ports.neededPorts_add_lt n
  rw [Graph.outputCount_of_pass kind]
  exact Graph.outputPorts_eq_neededPorts counted (by omega)

/-! ## One node -/

section Steps

variable (ports : g.PortsFit) (counts : l.Counts g done)

include ports counts

theorem Counts.valueCount_add_lt (n : NodeId) :
    l.symbols.valueCount + g.outputCount n < 2 ^ 64 := by
  have bounded := counts.sound.symbols.values_bound
  have fits := ports.outputCount_add_lt n
  omega

/-- A node that gets its value slots is counted. -/
theorem Counts.addValues (added : l.addValues g n = .ok next) :
    next.Counts g (done ++ [n]) ∧
      next.symbols.valueCount = l.symbols.valueCount + g.outputCount n := by
  have word := counts.valueCount_add_lt ports n
  have step : next.Sound g ∧
      next.symbols.valueCount = l.symbols.valueCount + g.outputCount n := by
    unfold Layout.addValues at added
    unfold Graph.outputCount at word ⊢
    cases kind : g.kind? n with
    | none =>
        rw [kind] at added
        cases added
        exact ⟨counts.sound, rfl⟩
    | some nodeKind =>
        rw [kind] at added word
        cases nodeKind with
        | float => exact counts.sound.addFloat kind word added
        | operator op => exact counts.sound.addOperator kind word added
        | pass => exact counts.sound.addPass kind word added
        | texture | present =>
            cases added
            exact ⟨counts.sound, rfl⟩
  refine ⟨⟨step.1, ?_⟩, step.2⟩
  rw [step.2, counts.valueCount, List.map_append, List.sum_append, List.map_singleton,
    List.sum_singleton]

theorem Counts.allocateValues_eq_error_iff {count : Nat} (same : count = g.outputCount n) :
    l.symbols.allocateValues n count = .error fault ↔
      Address.spaceSize < (done.map g.outputCount).sum + g.outputCount n ∧
        fault = .addressSpaceExhausted .value := by
  rw [same, Symbols.allocateValues_eq_error_iff (counts.valueCount_add_lt ports n),
    counts.valueCount]

theorem Counts.addFloat_eq_error_iff (kind : g.kind? n = some .float) :
    l.addFloat g n = .error fault ↔ ValueFault g done n fault := by
  have count := (Graph.outputCount_of_float kind).symm
  have opened : l.addFloat g n = .error fault ↔
      l.symbols.allocateValues n 1 = .error fault ∨
        ∃ symbols, l.symbols.allocateValues n 1 = .ok symbols ∧ g.floatValue n = .error fault := by
    simp [addFloat, bind_eq_error_iff, pure, Except.pure]
  rw [opened, counts.allocateValues_eq_error_iff ports count]
  constructor
  · intro failure
    rcases failure with ⟨full, rfl⟩ | ⟨symbols, allocated, unreadable⟩
    · apply ValueFault.exhausted _ full
      intro isPass
      cases kind.symm.trans isPass
    · apply ValueFault.constant kind _ unreadable
      apply Nat.le_of_not_lt
      intro full
      have refused := (counts.allocateValues_eq_error_iff ports count).mpr ⟨full, rfl⟩
      rw [refused] at allocated
      cases allocated
  · intro faulty
    cases faulty with
    | exhausted counted full => exact .inl ⟨full, rfl⟩
    | constant _ room unreadable =>
        cases allocated : l.symbols.allocateValues n 1 with
        | error other =>
            have full := ((counts.allocateValues_eq_error_iff ports count).mp allocated).1
            exact absurd room (Nat.not_le_of_lt full)
        | ok symbols => exact .inr ⟨symbols, rfl, unreadable⟩
    | ports isPass unreadable => cases kind.symm.trans isPass

theorem Counts.addOperator_eq_error_iff {op : Operator} (kind : g.kind? n = some (.operator op)) :
    l.addOperator n = .error fault ↔ ValueFault g done n fault := by
  have count := (Graph.outputCount_of_operator kind).symm
  have opened : l.addOperator n = .error fault ↔
      l.symbols.allocateValues n 1 = .error fault := by
    simp [addOperator, bind_eq_error_iff, pure, Except.pure]
  rw [opened, counts.allocateValues_eq_error_iff ports count]
  constructor
  · rintro ⟨full, rfl⟩
    apply ValueFault.exhausted _ full
    intro isPass
    cases kind.symm.trans isPass
  · intro faulty
    cases faulty with
    | exhausted counted full => exact ⟨full, rfl⟩
    | constant isFloat room unreadable => cases kind.symm.trans isFloat
    | ports isPass unreadable => cases kind.symm.trans isPass

theorem Counts.addPass_eq_error_iff (kind : g.kind? n = some .pass) :
    l.addPass g n = .error fault ↔ ValueFault g done n fault := by
  have opened : l.addPass g n = .error fault ↔
      g.outputPorts n = .error fault ∨ ∃ count, g.outputPorts n = .ok count ∧
        l.symbols.allocateValues n count = .error fault := by
    simp [addPass, bind_eq_error_iff, pure, Except.pure]
  rw [opened]
  constructor
  · intro failure
    rcases failure with unreadable | ⟨count, counted, refused⟩
    · exact .ports kind unreadable
    · have same := outputPorts_eq_outputCount ports kind counted
      obtain ⟨full, rfl⟩ := (counts.allocateValues_eq_error_iff ports same).mp refused
      exact .exhausted (fun _ => ⟨count, counted⟩) full
  · intro faulty
    cases faulty with
    | exhausted counted full =>
        obtain ⟨count, counted⟩ := counted kind
        have same := outputPorts_eq_outputCount ports kind counted
        exact .inr ⟨count, counted,
          (counts.allocateValues_eq_error_iff ports same).mpr ⟨full, rfl⟩⟩
    | constant isFloat room unreadable => cases kind.symm.trans isFloat
    | ports _ unreadable => exact .inl unreadable

/-- A node gets no value slots for its fault. -/
theorem Counts.addValues_eq_error_iff :
    l.addValues g n = .error fault ↔ ValueFault g done n fault := by
  unfold Layout.addValues
  cases kind : g.kind? n with
  | none =>
      apply iff_of_false (by simp)
      apply counts.no_fault <;> simp [kind, Graph.outputCount]
  | some nodeKind =>
      cases nodeKind with
      | float => exact counts.addFloat_eq_error_iff ports kind
      | operator op => exact counts.addOperator_eq_error_iff ports kind
      | pass => exact counts.addPass_eq_error_iff ports kind
      | texture | present =>
          apply iff_of_false (by simp)
          apply counts.no_fault <;> simp [kind, Graph.outputCount]

end Steps

/-! ## All nodes -/

section Runs

variable (ports : g.PortsFit)

include ports

theorem counts_of_nodes (success : done.foldlM (addValues g) { symbols := .ofGraph g } = .ok l) :
    l.Counts g done := by
  have counts := foldlM_ok_done (Counts g)
    (fun done n l next counts added => (counts.addValues ports added).1) (counts_start g) success
  rw [List.nil_append] at counts
  exact counts

theorem nodes_eq_error_iff :
    done.foldlM (addValues g) { symbols := .ofGraph g } = .error fault ↔
      FirstFault (ValueFault g) [] done fault := by
  apply foldlM_eq_error_iff (Counts g)
  · exact fun done n l fault counts => counts.addValues_eq_error_iff ports
  · exact fun done n l next counts added => (counts.addValues ports added).1
  · exact counts_start g

/-- If the slots of some nodes do not fit, one of them is at fault. -/
theorem exists_fault_of_full (full : Address.spaceSize < (done.map g.outputCount).sum) :
    ∃ fault, done.foldlM (addValues g) { symbols := .ofGraph g } = .error fault := by
  cases result : done.foldlM (addValues g) { symbols := .ofGraph g } with
  | error fault => exact ⟨fault, rfl⟩
  | ok l =>
      have counts := counts_of_nodes ports result
      have bounded := counts.sound.symbols.values_bound
      rw [counts.valueCount] at bounded
      exact absurd bounded (Nat.not_le_of_lt full)

end Runs

/-- If nothing before the first node whose slots do not fit is unreadable, the slots are the
fault. -/
theorem eq_exhausted_of_firstFault
    (first : FirstFault (ValueFault g) [] (done ++ [n]) fault)
    (full : Address.spaceSize < (done.map g.outputCount).sum + g.outputCount n)
    (constants : ∀ m ∈ done, g.kind? m = some .float → ∃ c, g.floatValue m = .ok c)
    (passes : ∀ m ∈ done ++ [n], g.kind? m = some .pass → ∃ count, g.outputPorts m = .ok count) :
    fault = .addressSpaceExhausted .value := by
  obtain ⟨before, m, after, split, faulty⟩ := first.exists_split
  rw [List.nil_append] at faulty
  cases faulty with
  | exhausted counted late => rfl
  | ports kind unreadable =>
      have listed : m ∈ done ++ [n] := by
        rw [split]
        exact List.mem_append_right before List.mem_cons_self
      obtain ⟨count, counted⟩ := passes m listed kind
      rw [counted] at unreadable
      cases unreadable
  | constant kind room unreadable =>
      rcases List.eq_nil_or_concat after with rfl | ⟨rest, last, rfl⟩
      · -- The last node does not fit, so its value was never looked at.
        obtain ⟨rfl, same⟩ := List.append_inj' split rfl
        obtain rfl : n = m := List.singleton_inj.mp same
        exact absurd room (Nat.not_le_of_lt full)
      · have listed : done = before ++ m :: rest := by
          have shape : done ++ [n] = (before ++ m :: rest) ++ [last] := by
            rw [split]
            simp
          exact (List.append_inj' shape rfl).1
        have member : m ∈ done := by
          rw [listed]
          exact List.mem_append_right before List.mem_cons_self
        obtain ⟨c, readable⟩ := constants m member kind
        rw [readable] at unreadable
        cases unreadable

end Layout

/-! ## Compilation -/

/-- The error of the value slots is the error of the compilation; no operation is made. -/
theorem compile_of_values_error {ω : Type} {g : Graph} {sink : NodeId} {schedule : Schedule}
    {fault : Error} (present : g.presentNode = .ok sink)
    (scheduled : g.schedule sink = .ok schedule) (failure : Layout.valued g = .error fault)
    (registry : Registry ω) (config : Config) (world : ω) :
    (compile registry config g).run.run world = (.error fault, world) := by
  apply compile_of_blueprint_error
  simp [Compiler.blueprint, present, scheduled, Layout.ofGraph_eq, failure, bind, Except.bind]

/-- A layout gives value slots to one node after the other.  If the source ports fit, the slots
are counted exactly, no sum reaches `2 ^ 64`, and each node that is not at fault adds its slots to
those before.  Once there are a present node and a schedule, a graph whose slots do not fit is
refused at the first node whose slots do not, for want of value slots unless an earlier node, or
its own source ports, cannot be read. -/
theorem value_slots_are_counted_exactly {g : Graph} (ports : g.PortsFit) {done rest : List NodeId}
    {n : NodeId} (split : Layout.valueNodes g = done ++ n :: rest) :
    (∀ aliased, Layout.ofGraph g aliased = do
      let l ← done.foldlM (Layout.addValues g) { symbols := .ofGraph g }
      let l ← (n :: rest).foldlM (Layout.addValues g) l
      (g.storedTextures aliased).foldlM (Layout.addTexture g) l) ∧
    (∀ l, done.foldlM (Layout.addValues g) { symbols := .ofGraph g } = .ok l →
      l.symbols.valueCount = (done.map g.outputCount).sum ∧
      l.symbols.valueCount + g.outputCount n < 2 ^ 64 ∧
      l.values.size + g.outputCount n < 2 ^ 64 ∧
      (∀ count, g.kind? n = some .pass → g.outputPorts n = .ok count →
        count = g.outputCount n) ∧
      (∀ fault, l.addValues g n = .error fault ↔ Layout.ValueFault g done n fault) ∧
      ∀ next, l.addValues g n = .ok next →
        next.symbols.valueCount = l.symbols.valueCount + g.outputCount n) ∧
    (Address.spaceSize < (done.map g.outputCount).sum + g.outputCount n →
      ∀ sink schedule, g.presentNode = .ok sink → g.schedule sink = .ok schedule →
      ∀ {ω : Type} (registry : Registry ω) (config : Config) (world : ω), ∃ fault,
        (compile registry config g).run.run world = (.error fault, world) ∧
        FirstFault (Layout.ValueFault g) [] (done ++ [n]) fault ∧
        ((∀ m ∈ done, g.kind? m = some .float → ∃ c, g.floatValue m = .ok c) →
          (∀ m ∈ done ++ [n], g.kind? m = some .pass → ∃ count, g.outputPorts m = .ok count) →
          fault = .addressSpaceExhausted .value)) := by
  refine ⟨fun aliased => ?_, ?_, ?_⟩
  · rw [Layout.ofGraph_eq, Layout.valued_eq, split, List.foldlM_append, bind_assoc]
  · intro l success
    have counts := Layout.counts_of_nodes ports success
    have word := counts.valueCount_add_lt ports n
    refine ⟨counts.valueCount, word, ?_, fun count kind counted =>
      Layout.outputPorts_eq_outputCount ports kind counted,
      fun fault => counts.addValues_eq_error_iff ports,
      fun next added => (counts.addValues ports added).2⟩
    rw [counts.sound.values]
    exact word
  · intro full sink schedule present scheduled ω registry config world
    have total : ((done ++ [n]).map g.outputCount).sum =
        (done.map g.outputCount).sum + g.outputCount n := by simp
    obtain ⟨fault, failure⟩ := Layout.exists_fault_of_full ports (total ▸ full)
    have first := (Layout.nodes_eq_error_iff ports).mp failure
    refine ⟨fault, ?_, first, Layout.eq_exhausted_of_firstFault first full⟩
    apply compile_of_values_error present scheduled
    rw [Layout.valued_eq, split, List.append_cons, List.foldlM_append, failure]
    rfl

/-- A constant that is shown, next to a pass whose one output has a port that does not fit behind
the constant. -/
def crowded : Graph where
  nodes := #[.float "x" ⟨0⟩, .pass "p" "fill", .texture "t" "rgba8", .present "out"]
  edges := #[(⟨0⟩, .withPorts ⟨0⟩ 0 ⟨3⟩ 0), (⟨1⟩, .withPorts ⟨1⟩ 32767 ⟨2⟩ 0)]

theorem portsFit_crowded : crowded.PortsFit := by
  have read : ∀ e ∈ crowded.edgeList, e.sourcePort = .ok 0 ∨ e.sourcePort = .ok 32767 := by decide
  intro e member port isPort
  rcases read e member with same | same
  · rw [same] at isPort
    cases isPort
    decide
  · rw [same] at isPort
    cases isPort
    decide

theorem crowded_is_refused :
    crowded.PortsFit ∧ Layout.valueNodes crowded = [⟨0⟩] ++ [⟨1⟩] ∧
      (compile ({} : Registry Unit) {} crowded).run.run () =
        (.error (.addressSpaceExhausted .value), ()) := by
  have split : Layout.valueNodes crowded = [⟨0⟩] ++ [⟨1⟩] := by decide
  have full : Address.spaceSize <
      ([⟨0⟩].map crowded.outputCount).sum + crowded.outputCount ⟨1⟩ := by decide
  have present : crowded.presentNode = .ok ⟨3⟩ := by rfl
  have scheduled : crowded.schedule ⟨3⟩ = .ok ⟨[⟨3⟩, ⟨0⟩], ⟨0⟩⟩ := by decide +kernel
  refine ⟨portsFit_crowded, split, ?_⟩
  obtain ⟨fault, refused, -, exhausted⟩ :=
    (value_slots_are_counted_exactly portsFit_crowded split).2.2 full ⟨3⟩ _ present scheduled
      ({} : Registry Unit) {} ()
  rw [refused, exhausted]
  · intro m member isFloat
    rw [List.mem_singleton.mp member]
    exact ⟨_, rfl⟩
  · intro m member isPass
    rcases List.mem_cons.mp member with rfl | member
    · cases isPass
    · rw [List.mem_singleton.mp member]
      exact ⟨32768, by decide⟩

end FrameGraph
