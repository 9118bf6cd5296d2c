import FrameGraph.Proofs.Evaluation.Frames
import FrameGraph.Proofs.Instance.Resizing
import FrameGraph.Proofs.Machine.Containment

/-!
# Constants persist

The code of a schedule pops into the slots of its operators and passes and nowhere else, and
operations have no way to value memory.  Whatever a host does with an instance, and however
its executions end, all other slots hold what the host has written to them last, or what
compilation has put there.  The code that reads a constant finds that value.
-/

namespace FrameGraph

open Instruction

variable {ω : Type}

/-! ## What code writes -/

/-- The nodes that have code: operators and passes. -/
def Graph.HasCode (g : Graph) (n : NodeId) : Prop :=
  (∃ op, g.kind? n = some (.operator op)) ∨ g.kind? n = some .pass

theorem Graph.HasCode.kind?_ne_float {g : Graph} {n : NodeId} (hasCode : g.HasCode n) :
    g.kind? n ≠ some .float := by
  rcases hasCode with ⟨op, kind⟩ | kind
  · simp [kind]
  · simp [kind]

/-- With one owner for each slot, no operator or pass that reaches the sink shares a slot with
a constant or with a node that does not reach it. -/
theorem Symbols.Sound.not_owns_of_idle {s : Symbols} (sound : s.Sound) {g : Graph}
    {n p sink : NodeId} {slot : Nat} (owns : s.Owns n slot)
    (idle : g.kind? n = some .float ∨ ¬ Reaches g.edgeList n sink) (hasCode : g.HasCode p)
    (reaches : Reaches g.edgeList p sink) : ¬ s.Owns p slot := by
  intro other
  obtain rfl := sound.owner_unique other owns
  rcases idle with isFloat | apart
  · exact hasCode.kind?_ne_float isFloat
  · exact apart reaches

namespace Emitter

variable {m : Emitter} {n consumer : NodeId} {slot : Nat}

theorem poppedSlots_pushes {port : Nat} {edges : List Edge} {code : List Instruction}
    (success : m.pushes consumer port edges = .ok code) : poppedSlots code = [] := by
  induction edges generalizing port code with
  | nil =>
      cases success
      rfl
  | cons e rest inductionHypothesis =>
      obtain ⟨a, -, success⟩ := bind_eq_ok_iff.mp success
      obtain ⟨others, emitted, success⟩ := bind_eq_ok_iff.mp success
      cases success
      rw [poppedSlots_push_cons]
      exact inductionHypothesis emitted

theorem owns_of_mem_pops {count : Nat} {code : List Instruction}
    (success : m.pops n count = .ok code) (member : slot ∈ poppedSlots code) :
    m.symbols.Owns n slot := by
  induction count generalizing code with
  | zero =>
      cases success
      cases member
  | succ last inductionHypothesis =>
      obtain ⟨a, addressed, success⟩ := bind_eq_ok_iff.mp success
      obtain ⟨others, popped, success⟩ := bind_eq_ok_iff.mp success
      cases success
      rw [poppedSlots_pop_cons] at member
      rcases List.mem_cons.mp member with rfl | later
      · exact owns_of_valueAddress addressed
      · exact inductionHypothesis popped later

/-- The code of a node pops into slots of that node. -/
theorem owns_of_mem_nodeCode {code : List Instruction} (success : m.nodeCode n = .ok code)
    (member : slot ∈ poppedSlots code) : m.graph.HasCode n ∧ m.symbols.Owns n slot := by
  unfold nodeCode at success
  split at success
  · next op kind =>
      obtain ⟨edges, mode, pushCode, output, -, -, -, pushed, addressed, rfl⟩ :=
        operatorCode_eq_ok success
      rw [poppedSlots_append, poppedSlots_pushes pushed, poppedSlots_instruction] at member
      rw [List.mem_singleton.mp member]
      exact ⟨Or.inl ⟨op, kind⟩, owns_of_valueAddress addressed⟩
  · next kind =>
      obtain ⟨edges, pushCode, index, popCode, -, pushed, -, popped, rfl⟩ :=
        passCode_eq_ok success
      rw [poppedSlots_append, poppedSlots_pushes pushed, poppedSlots_call_cons] at member
      exact ⟨Or.inr kind, owns_of_mem_pops popped member⟩
  all_goals
    cases success
    cases member

theorem exists_owner_of_mem_code {order : List NodeId} {code : List Instruction}
    (success : m.code order = .ok code) (member : slot ∈ poppedSlots code) :
    ∃ n ∈ order, m.graph.HasCode n ∧ m.symbols.Owns n slot := by
  induction order generalizing code with
  | nil =>
      cases success
      cases member
  | cons n rest inductionHypothesis =>
      obtain ⟨first, firstEmitted, success⟩ := bind_eq_ok_iff.mp success
      obtain ⟨others, othersEmitted, success⟩ := bind_eq_ok_iff.mp success
      cases success
      rw [poppedSlots_append] at member
      rcases List.mem_append.mp member with here | later
      · obtain ⟨hasCode, owns⟩ := owns_of_mem_nodeCode firstEmitted here
        exact ⟨n, List.mem_cons_self, hasCode, owns⟩
      · obtain ⟨p, inRest, owner⟩ := inductionHypothesis othersEmitted later
        exact ⟨p, List.mem_cons_of_mem n inRest, owner⟩

/-! ## What code reads -/

/-- Pushes that are emitted have resolved each of their edges for its port. -/
theorem exists_resolve_of_pushes {port k : Nat} {edges : List Edge} {e : Edge}
    {code : List Instruction} (success : m.pushes consumer port edges = .ok code)
    (here : edges[k]? = some e) : ∃ a, m.resolve consumer (port + k) e = .ok a := by
  induction edges generalizing port k code with
  | nil => cases here
  | cons head rest inductionHypothesis =>
      obtain ⟨a, resolved, success⟩ := bind_eq_ok_iff.mp success
      obtain ⟨others, emitted, -⟩ := bind_eq_ok_iff.mp success
      cases k with
      | zero =>
          cases here
          exact ⟨a, resolved⟩
      | succ k =>
          have later := inductionHypothesis emitted here
          rw [Nat.add_right_comm] at later
          exact later

/-- The code of an operator or a pass has pushes for its inputs. -/
theorem exists_pushes_of_nodeCode {code : List Instruction}
    (success : m.nodeCode n = .ok code) (hasCode : m.graph.HasCode n) :
    ∃ edges pushCode, m.graph.inputs n = .ok edges ∧ m.pushes n 0 edges = .ok pushCode := by
  unfold nodeCode at success
  rcases hasCode with ⟨op, kind⟩ | kind
  · rw [kind] at success
    obtain ⟨edges, mode, pushCode, output, edgesEq, -, -, pushed, -, rfl⟩ :=
      operatorCode_eq_ok success
    exact ⟨edges, pushCode, edgesEq, pushed⟩
  · rw [kind] at success
    obtain ⟨edges, pushCode, index, popCode, edgesEq, pushed, -, -, rfl⟩ :=
      passCode_eq_ok success
    exact ⟨edges, pushCode, edgesEq, pushed⟩

end Emitter

/-- An edge brings the value of a node, directly or through one texture. -/
def Graph.Brings (g : Graph) (e : Edge) (n : NodeId) : Prop :=
  if g.kind? e.source = some .texture then
    ∃ hop, g.incoming e.source = [hop] ∧ hop.source = n
  else e.source = n

namespace Evaluator

variable {v : Evaluator ω} {memory : Memory ω} {n reader : NodeId} {slot : Nat} {c : Cell}

/-- Every push of the code of a node that is there for an input from another node pushes
the given cell. -/
def Sees (v : Evaluator ω) (memory : Memory ω) (reader n : NodeId) (c : Cell) : Prop :=
  ∃ edges, v.graph.inputs reader = .ok edges ∧ ∀ port e, edges[port]? = some e →
    v.graph.Brings e n → ∃ a, v.emitter.resolve reader port e = .ok a ∧
      ∀ limit offset stack, (Instruction.push a).perform v.tables.context limit offset stack
        memory = pushCell limit offset c stack memory

theorem output?_of_float (frugal : v.symbols.Frugal v.graph)
    (isFloat : v.graph.kind? n = some .float) (owns : v.symbols.Owns n slot)
    (here : memory.values[slot]? = some c) {e : Edge} (source : e.source = n) {found : Cell}
    (output : v.output? memory e = some found) : found = c := by
  obtain ⟨port, -, output⟩ := Option.bind_eq_some_iff.mp output
  obtain ⟨other, otherEq, output⟩ := Option.bind_eq_some_iff.mp output
  rw [source] at otherEq
  obtain ⟨indexEq, inside⟩ := Slots.value?_eq_some_iff.mp otherEq
  -- A constant has one slot only, so both are its first one.
  have start {slot : Nat} (owns : v.symbols.Owns n slot) :
      slot = (v.symbols.slotsOf n).start :=
    frugal.eq_start_of_owns (by simp [isFloat]) (Graph.outputCount_of_float isFloat) owns
  have otherOwns : v.symbols.Owns n other := ⟨by omega, inside⟩
  rw [start otherOwns, ← start owns, here] at output
  exact (Option.some.inj output).symm

theorem read?_of_float (frugal : v.symbols.Frugal v.graph)
    (isFloat : v.graph.kind? n = some .float) (owns : v.symbols.Owns n slot)
    (here : memory.values[slot]? = some c) {e : Edge} (brings : v.graph.Brings e n)
    {found : Cell} (read : v.read? memory e = some found) : found = c := by
  unfold Graph.Brings at brings
  unfold read? at read
  by_cases isTexture : v.graph.kind? e.source = some .texture
  · rw [if_pos isTexture] at brings read
    obtain ⟨hop, incomingEq, source⟩ := brings
    rw [incomingEq] at read
    exact output?_of_float frugal isFloat owns here source read
  · rw [if_neg isTexture] at brings read
    exact output?_of_float frugal isFloat owns here brings read

/-- The code of a node sees the cell in the slot of a constant. -/
theorem sees_of_nodeCode {code : List Instruction} (fits : v.Fits memory)
    (frugal : v.symbols.Frugal v.graph) (success : v.emitter.nodeCode reader = .ok code)
    (hasCode : v.graph.HasCode reader) (isFloat : v.graph.kind? n = some .float)
    (owns : v.symbols.Owns n slot) (here : memory.values[slot]? = some c) :
    v.Sees memory reader n c := by
  obtain ⟨edges, pushCode, edgesEq, pushed⟩ :=
    Emitter.exists_pushes_of_nodeCode success hasCode
  refine ⟨edges, edgesEq, ?_⟩
  intro port e inputEq brings
  obtain ⟨a, resolved⟩ := Emitter.exists_resolve_of_pushes pushed inputEq
  rw [Nat.zero_add] at resolved
  obtain ⟨found, read, pushes⟩ := perform_push_of_resolve fits resolved
  obtain rfl := read?_of_float frugal isFloat owns here brings read
  exact ⟨a, resolved, pushes⟩

end Evaluator

namespace Instance

/-! ## One execution -/

/-- The memories in which an execution performs its instructions, in order. -/
def memories (i : Instance ω) (world : ω) : List (Memory ω) :=
  (i.machine.start.trace i.tables.context i.program i.program.size ⟨i.values, world⟩).map
    Prod.snd

section Execution

variable {i : Instance ω} {world : ω}

/-- Each of them is contained in the execution up to it. -/
theorem exists_contained {memory : Memory ω} (member : memory ∈ i.memories world) :
    ∃ past now, past ⊆ i.machine.start.trace i.tables.context i.program i.program.size
        ⟨i.values, world⟩ ∧
      Machine.Contained i.program Memory.values (fun _ => i.tables.textures)
        i.machine.stackLimit ⟨i.values, world⟩ past now memory := by
  obtain ⟨⟨now, _⟩, inTrace, rfl⟩ := List.mem_map.mp member
  obtain ⟨k, here⟩ := List.getElem?_of_mem inTrace
  have within := (Machine.contained_run i.tables.tabled i.program i.machine ⟨i.values, world⟩
    i.program.size).1
  exact ⟨_, now, List.take_subset k _, within k now _ here⟩

variable {code : List Instruction} {slots : Nat → Prop} {slot : Nat}
  (assembled : Program.assemble code = .ok i.program) (ends : code.getLast? = some .halt)
  (reads : ReadsWithin slots code) (unpopped : slot ∉ poppedSlots code)

include assembled ends reads unpopped

theorem not_writes_of_mem_trace {config : Machine × Memory ω}
    (member : config ∈ i.machine.start.trace i.tables.context i.program i.program.size
      ⟨i.values, world⟩) : ¬ config.1.Writes i.program slot := by
  rintro ⟨j, c, decoded, stores⟩
  obtain ⟨k, inCode, there⟩ := Machine.decode_of_mem_trace i.program.size
    (Program.standsAt_of_assemble assembled) ends reads member
  obtain rfl : j = k := Except.ok.inj (decoded.symm.trans there)
  cases j with
  | pop a =>
      obtain ⟨-, rfl, -⟩ := stores
      exact unpopped (List.mem_filterMap.mpr ⟨.pop a, inCode, rfl⟩)
  | nop | push a | numeric op mode | logical op | jump target | jumpIf expected target
  | call index | halt => exact stores

/-- Slots that code does not pop into hold their cells all through an execution, whatever the
operations do. -/
theorem value_of_mem_memories {memory : Memory ω} (member : memory ∈ i.memories world) :
    memory.values[slot]? = i.value? slot := by
  obtain ⟨past, now, inTrace, contained⟩ := exists_contained member
  by_contra changed
  obtain ⟨config, before, writes⟩ := contained.slots slot changed
  exact not_writes_of_mem_trace assembled ends reads unpopped (inTrace before) writes

/-- They hold them at its end, however it ends. -/
theorem value?_execute (world : ω) :
    (i.execute world).after.value? slot = i.value? slot := by
  have final := (Machine.contained_run i.tables.tabled i.program i.machine ⟨i.values, world⟩
    i.program.size).2
  by_contra changed
  obtain ⟨config, member, writes⟩ := final.slots slot changed
  exact not_writes_of_mem_trace assembled ends reads unpopped member writes

/-- All through it, the nodes with code see the cell of a constant. -/
theorem sees_of_mem_memories {config : Config} {g : Graph} {schedule : Schedule}
    {order : List NodeId} (linked : i.Linked config g schedule)
    (frugal : i.symbols.Frugal g)
    (coded : (i.evaluator config g).emitter.code order = .ok code)
    {n : NodeId} (isFloat : g.kind? n = some .float) (owns : i.symbols.Owns n slot) {c : Cell}
    (here : i.value? slot = some c) {memory : Memory ω} (member : memory ∈ i.memories world)
    {reader : NodeId} (ordered : reader ∈ order) (hasCode : g.HasCode reader) :
    (i.evaluator config g).Sees memory reader n c := by
  obtain ⟨_, _, -, contained⟩ := exists_contained member
  have fits := (linked.fits world).of_size_eq contained.size
  have kept := value_of_mem_memories assembled ends reads unpopped member
  obtain ⟨readerCode, emitted⟩ := Emitter.exists_code_iff.mp ⟨code, coded⟩ reader ordered
  exact Evaluator.sees_of_nodeCode fits frugal emitted hasCode isFloat owns (kept.trans here)

end Execution

theorem Linked.exists_value {i : Instance ω} {config : Config} {g : Graph}
    {schedule : Schedule} (linked : i.Linked config g schedule) {n : NodeId} {slot : Nat}
    (owns : i.symbols.Owns n slot) : ∃ c, i.value? slot = some c := by
  have inside : slot < i.values.size := by
    rw [linked.values]
    exact Nat.lt_of_lt_of_le owns.2 (linked.symbols.values n)
  exact ⟨i.values[slot], Array.getElem?_eq_getElem inside⟩

/-! ## Calls of a host -/

/-- What a host can do with an instance.  Every execution may find another world and every
resize another device. -/
inductive HostCall (ω : Type) : Type 1 where
  | setConstant (index : Nat) (c : Cell)
  | execute (world : ω)
  | resize {δ : Type} [native : Device δ] (device : δ) (world : ω) (width height : Nat)

theorem setConstant_of_size_le {i : Instance ω} {index : Nat} (c : Cell)
    (missing : i.values.size ≤ index) : i.setConstant index c = .error (.invalidSlot index) := by
  unfold setConstant
  rw [if_neg (Nat.not_lt_of_le missing)]

/-- What a call makes of an instance.  A write to a slot that does not exist fails. -/
def call (i : Instance ω) : HostCall ω → Instance ω
  | .setConstant index c =>
    match i.setConstant index c with
    | .ok after => after
    | .error _ => i
  | .execute world => (i.execute world).after
  | @HostCall.resize _ _ _ device world width height =>
    (i.resize device world width height).1.owner

def callAll (i : Instance ω) (calls : List (HostCall ω)) : Instance ω := calls.foldl call i

/-- The cell that a call writes to a slot, if it succeeds. -/
def written? (i : Instance ω) (slot : Nat) : HostCall ω → Option Cell
  | .setConstant index c =>
    match i.setConstant index c with
    | .ok _ => if index = slot then some c else none
    | .error _ => none
  | .execute _ | @HostCall.resize _ _ _ _ _ _ _ => none

/-- The cell that was last written to a slot by a call that succeeded, if there was one. -/
def lastWrite (slot : Nat) : Instance ω → List (HostCall ω) → Option Cell
  | _, [] => none
  | i, c :: rest => (lastWrite slot (i.call c) rest).or (i.written? slot c)

theorem values_resize {δ : Type} [Device δ] (i : Instance ω) (device : δ) (world : ω)
    (width height : Nat) : (i.resize device world width height).1.owner.values = i.values := by
  rcases i.resize_cases device width height world with
    ⟨e, stopped⟩ | ⟨e, stopped⟩ | ⟨e, -, stopped⟩ | ⟨-, -, done⟩
  · rw [stopped]
  · rw [stopped]
  · rw [stopped]
    rfl
  · rw [done]
    rfl

theorem sameShape_call (i : Instance ω) (c : HostCall ω) : (i.call c).SameShape i := by
  cases c with
  | setConstant index c =>
      rw [call]
      split
      · next after success => exact sameShape_setConstant success
      · exact .refl i
  | execute world => exact sameShape_execute i world
  | resize device world width height => exact sameShape_resize i device world width height

theorem sameShape_callAll (i : Instance ω) (calls : List (HostCall ω)) :
    (i.callAll calls).SameShape i := by
  unfold callAll
  induction calls generalizing i with
  | nil => exact .refl i
  | cons c rest inductionHypothesis =>
      exact (inductionHypothesis (i.call c)).trans (sameShape_call i c)

section Persistence

variable {compiled : Instance ω} {code : List Instruction} {slots : Nat → Prop} {slot : Nat}
  (assembled : Program.assemble code = .ok compiled.program)
  (ends : code.getLast? = some .halt) (reads : ReadsWithin slots code)
  (unpopped : slot ∉ poppedSlots code)

include assembled ends reads unpopped

/-- A slot that no code pops into changes by a write only. -/
theorem value?_call {i : Instance ω} (shape : i.SameShape compiled) (c : HostCall ω) :
    (i.call c).value? slot = (i.written? slot c).or (i.value? slot) := by
  cases c with
  | setConstant index c =>
      rw [call, written?]
      cases success : i.setConstant index c with
      | error e => rfl
      | ok after =>
          obtain rfl := eq_of_setConstant success
          have exists_slot : index < i.values.size := by
            by_contra missing
            rw [setConstant_of_size_le c (Nat.le_of_not_lt missing)] at success
            cases success
          by_cases here : index = slot
          · subst here
            simp [value?, exists_slot]
          · simp [value?, here, Array.getElem?_setIfInBounds_ne here]
  | execute world =>
      rw [← shape.program] at assembled
      exact value?_execute assembled ends reads unpopped world
  | resize device world width height =>
      rw [call, value?, values_resize]
      rfl

/-- After any calls it holds what was last written to it. -/
theorem value?_callAll {i : Instance ω} (shape : i.SameShape compiled)
    (calls : List (HostCall ω)) :
    (i.callAll calls).value? slot = (i.lastWrite slot calls).or (i.value? slot) := by
  unfold callAll
  induction calls generalizing i with
  | nil => rfl
  | cons c rest inductionHypothesis =>
      have next := inductionHypothesis ((sameShape_call i c).trans shape)
      have here := value?_call assembled ends reads unpopped shape c
      rw [List.foldl_cons, next, here, lastWrite, Option.or_assoc]

end Persistence

end Instance

/-- Whatever a host does, a slot that is of no scheduled operator or pass holds what was last
written to it, or else what compilation has put there, and a write to a slot that does not
exist fails and changes nothing.  If the value slots fit a word, this is so for the slots of
constants and of all nodes that do not reach the present node, and all code that reads a
constant sees that value in the next execution. -/
theorem constants_persist {registry : Registry ω} {config : Config} {g : Graph}
    {compiled : Instance ω} {before after : ω}
    (success : Build.Succeeds (compile registry config g) before compiled after)
    (calls : List (Instance.HostCall ω)) :
    let now := compiled.callAll calls
    ∃ sink, g.presentNode = .ok sink ∧
      (∀ slot, (∀ n, g.HasCode n → Reaches g.edgeList n sink →
          ¬ compiled.symbols.Owns n slot) →
        now.value? slot = (compiled.lastWrite slot calls).or (compiled.value? slot)) ∧
      (∀ index c, now.values.size ≤ index →
        now.setConstant index c = .error (.invalidSlot index) ∧
          now.call (.setConstant index c) = now) ∧
      (g.neededValues < 2 ^ 64 →
        (∀ n slot, compiled.symbols.Owns n slot →
          g.kind? n = some .float ∨ ¬ Reaches g.edgeList n sink →
          now.value? slot = (compiled.lastWrite slot calls).or (compiled.value? slot)) ∧
        ∀ n slot, g.kind? n = some .float → compiled.symbols.Owns n slot →
          ∃ c, (compiled.lastWrite slot calls).or (compiled.value? slot) = some c ∧
            ∀ world, ∀ memory ∈ now.memories world, ∀ reader, g.HasCode reader →
              Reaches g.edgeList reader sink →
                (now.evaluator config g).Sees memory reader n c) := by
  intro now
  obtain ⟨sink, schedule, code, present, scheduled, covers, frugal, coded, assembled⟩ :=
    Instance.code_of_compile success
  have shape : now.SameShape compiled := compiled.sameShape_callAll calls
  have ends := Emitter.getLast?_code coded
  have reads := Emitter.readsWithin_code covers frugal (List.nil_append _).symm coded
  have unpopped {slot : Nat}
      (unowned : ∀ n, g.HasCode n → Reaches g.edgeList n sink →
        ¬ compiled.symbols.Owns n slot) : slot ∉ poppedSlots code := by
    intro popped
    obtain ⟨n, member, hasCode, owns⟩ := Emitter.exists_owner_of_mem_code coded popped
    exact unowned n hasCode (covers.mem_evaluationOrder.mp member) owns
  have persists {slot : Nat}
      (unowned : ∀ n, g.HasCode n → Reaches g.edgeList n sink →
        ¬ compiled.symbols.Owns n slot) :
      now.value? slot = (compiled.lastWrite slot calls).or (compiled.value? slot) :=
    Instance.value?_callAll assembled ends reads (unpopped unowned) (.refl compiled) calls
  refine ⟨sink, present, fun slot unowned => persists unowned, ?_, ?_⟩
  · intro index c missing
    have refused := Instance.setConstant_of_size_le c missing
    refine ⟨refused, ?_⟩
    rw [Instance.call, refused]
  · intro word
    obtain ⟨_, _, -, -, -, linked⟩ := shape.linked word success
    have sound : compiled.symbols.Sound := shape.symbols ▸ linked.symbols
    have unowned {n : NodeId} {slot : Nat} (owns : compiled.symbols.Owns n slot)
        (idle : g.kind? n = some .float ∨ ¬ Reaches g.edgeList n sink) (p : NodeId)
        (hasCode : g.HasCode p) (reaches : Reaches g.edgeList p sink) :
        ¬ compiled.symbols.Owns p slot :=
      sound.not_owns_of_idle owns idle hasCode reaches
    refine ⟨fun n slot owns idle => persists (unowned owns idle), ?_⟩
    intro n slot isFloat owns
    have alone := unowned owns (Or.inl isFloat)
    rw [← persists alone]
    rw [← shape.symbols] at frugal owns coded
    obtain ⟨c, here⟩ := linked.exists_value owns
    refine ⟨c, here, ?_⟩
    intro world memory member reader hasCode reaches
    exact Instance.sees_of_mem_memories (shape.program ▸ assembled) ends reads
      (unpopped alone) linked frugal coded isFloat owns here member
      (covers.mem_evaluationOrder.mpr reaches) hasCode

namespace Sample

/-- An execution, a write to the constant, a write past the last slot, a resize that is
refused and another execution. -/
def tuning : List (Instance.HostCall Unit) :=
  [.execute (), .setConstant 0 ⟨5⟩, .setConstant 3 ⟨9⟩,
    .resize ({} : HeadlessDevice) () 0 4, .execute ()]

theorem reaches_relay : Reaches relay.edgeList ⟨1⟩ ⟨3⟩ := by
  have first : Feeds relay.edgeList ⟨1⟩ ⟨2⟩ := ⟨⟨⟨1⟩, ⟨2⟩, {}⟩, by decide, rfl, rfl⟩
  have second : Feeds relay.edgeList ⟨2⟩ ⟨3⟩ := ⟨⟨⟨2⟩, ⟨3⟩, {}⟩, by decide, rfl, rfl⟩
  exact .tail (.single first) second

end Sample

theorem constant_of_relay_persists :
    let now := Sample.relayed.callAll Sample.tuning
    now.value? 0 = some ⟨5⟩ ∧ now.setConstant 3 ⟨9⟩ = .error (.invalidSlot 3) ∧
      ∀ memory ∈ now.memories (),
        (now.evaluator Sample.config Sample.relay).Sees memory ⟨1⟩ ⟨0⟩ ⟨5⟩ := by
  intro now
  obtain ⟨sink, present, -, refused, persists⟩ :=
    constants_persist Sample.succeeds_compile_relay Sample.tuning
  obtain rfl : sink = ⟨3⟩ := (Except.ok.inj present).symm
  have word : Sample.relay.neededValues < 2 ^ 64 := by decide
  have owns : Sample.relayed.symbols.Owns ⟨0⟩ 0 := ⟨by decide, by decide⟩
  have lastWrite : Sample.relayed.lastWrite 0 Sample.tuning = some ⟨5⟩ := by decide +kernel
  obtain ⟨values, readers⟩ := persists word
  have kept := values ⟨0⟩ 0 owns (Or.inl rfl)
  rw [lastWrite] at kept
  obtain ⟨c, written, sees⟩ := readers ⟨0⟩ 0 rfl owns
  rw [lastWrite] at written
  obtain rfl : ⟨5⟩ = c := Option.some.inj written
  refine ⟨kept, (refused 3 ⟨9⟩ ?_).1, ?_⟩
  · decide +kernel
  · intro memory member
    exact sees () memory member ⟨1⟩ (Or.inr rfl) Sample.reaches_relay

end FrameGraph
