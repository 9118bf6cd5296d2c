import FrameGraph.Proofs.Machine.Containment
import FrameGraph.Proofs.Machine.Listing

/-!
# Bytes and indices in lockstep

A list of instructions can be run without its bytes, by a machine whose pointer is an index
into the list.  If every jump leads to where an instruction of the list starts or to the end
of the bytes, the machine that decodes the assembled bytes takes the same steps.  Its pointer
is always the offset of the instruction at the index, and so are the offsets that it reports.
-/

namespace FrameGraph

open Instruction

variable {κ : Type}

/-! ## Offsets and indices -/

namespace Instruction

/-- The offset at which the instruction at an index starts; behind the last one, the number of
all bytes. -/
def startOf (code : List Instruction) (index : Nat) : Nat := codeLength (code.take index)

/-- The index of the instruction that starts at an offset, or the index behind the last one
if none starts there. -/
def indexAt (code : List Instruction) (offset : Nat) : Nat := (offsets 0 code).idxOf offset

/-- Every jump leads to the start of an instruction or to the end of the bytes. -/
def JumpsToStarts (code : List Instruction) : Prop :=
  ∀ i ∈ code, ∀ target ∈ i.target?, target ∈ offsets 0 code ∨ target = codeLength code

instance (code : List Instruction) : Decidable (JumpsToStarts code) :=
  inferInstanceAs (Decidable (∀ i ∈ code, ∀ target ∈ i.target?,
    target ∈ offsets 0 code ∨ target = codeLength code))

variable {code : List Instruction} {i : Instruction} {index : Nat}

theorem startOf_length (code : List Instruction) :
    startOf code code.length = codeLength code := by
  rw [startOf, List.take_length]

theorem startOf_succ (found : code[index]? = some i) :
    startOf code (index + 1) = startOf code index + i.encodedLength := by
  rw [startOf, startOf, List.take_add_one, found, codeLength_append]
  rfl

theorem indexAt_le_length (code : List Instruction) (offset : Nat) :
    indexAt code offset ≤ code.length := by
  rw [← length_offsets 0 code]
  exact List.idxOf_le_length

/-- An offset to which a jump may lead is the start of what stands at its index. -/
theorem startOf_indexAt {offset : Nat}
    (start : offset ∈ offsets 0 code ∨ offset = codeLength code) :
    startOf code (indexAt code offset) = offset := by
  by_cases member : offset ∈ offsets 0 code
  · have inside : indexAt code offset < (offsets 0 code).length :=
      List.idxOf_lt_length_iff.mpr member
    have found : (offsets 0 code)[indexAt code offset] = offset := List.getElem_idxOf inside
    simp only [offsets_eq_map, List.getElem_map, List.getElem_range, Nat.zero_add] at found
    exact found
  · have behind : indexAt code offset = code.length := by
      rw [indexAt, List.idxOf_eq_length member, length_offsets]
    rw [behind, startOf_length]
    exact (start.resolve_left member).symm

/-- Each instruction of code that stands in a byte stream is decoded where it starts. -/
theorem StandsAt.decode_startOf {bytes : Array UInt8} {start : Nat}
    (stands : StandsAt bytes start code) (found : code[index]? = some i) :
    decode bytes (start + startOf code index) = .ok i := by
  induction code generalizing start index with
  | nil => cases found
  | cons first rest inductionHypothesis =>
      cases index with
      | zero =>
          cases found
          exact stands.1
      | succ index =>
          have later := inductionHypothesis stands.2 found
          rwa [Nat.add_assoc] at later

end Instruction

/-! ## Moving the pointer -/

/-- The same trap, reported at another place. -/
def Trap.relocate (place : Nat → Nat) : Trap → Trap
  | pointerOutOfRange offset => .pointerOutOfRange (place offset)
  | truncatedInstruction offset => .truncatedInstruction (place offset)
  | invalidOpcode offset opcode => .invalidOpcode (place offset) opcode
  | invalidMode offset mode => .invalidMode (place offset) mode
  | stackUnderflow offset => .stackUnderflow (place offset)
  | stackOverflow offset limit => .stackOverflow (place offset) limit
  | texturePop offset => .texturePop (place offset)
  | valueAddressOutOfRange offset index => .valueAddressOutOfRange (place offset) index
  | textureAddressOutOfRange offset index => .textureAddressOutOfRange (place offset) index
  | unknownOperation offset index => .unknownOperation (place offset) index
  | outputCountMismatch offset index expected found =>
    .outputCountMismatch (place offset) index expected found
  | divisionByZero offset => .divisionByZero (place offset)
  | unbalancedStack offset depth => .unbalancedStack (place offset) depth

def Exit.relocate (place : Nat → Nat) : Exit → Exit
  | halted => .halted
  | aborted operation offset => .aborted operation (place offset)
  | trapped trap => .trapped (trap.relocate place)
  | outOfSteps => .outOfSteps

/-- The same effect with its exit reported at another place.  The target of a jump is no place
where something was performed and stays as it is. -/
def Effect.relocate (place : Nat → Nat) : Effect κ → Effect κ
  | proceed stack state => .proceed stack state
  | jump target stack state => .jump target stack state
  | exit how state => .exit (how.relocate place) state

namespace Machine

def relocate (place : Nat → Nat) (m : Machine) : Machine :=
  { m with pointer := place m.pointer }

def Step.relocate (place : Nat → Nat) : Step κ → Step κ
  | running m state => .running (m.relocate place) state
  | ended exit m state => .ended (exit.relocate place) (m.relocate place) state

def Run.relocate (place : Nat → Nat) (r : Run κ) : Run κ :=
  ⟨r.exit.relocate place, r.machine.relocate place, r.state⟩

end Machine

namespace Instruction

variable (context : Context κ) (place : Nat → Nat) (limit offset : Nat) (stack : Stack)
  (state : κ)

theorem pushCell_relocate (c : Cell) :
    pushCell limit (place offset) c stack state =
      (pushCell limit offset c stack state).relocate place := by
  unfold pushCell
  split <;> rfl

theorem operate_relocate (arity : Nat) (value? : List Cell → Option Cell) :
    operate limit (place offset) arity value? stack state =
      (operate limit offset arity value? stack state).relocate place := by
  unfold operate
  split
  · rfl
  · split
    · rfl
    · exact pushCell_relocate _ _ _ _ _ _

theorem callOperation_relocate (index : Nat) :
    callOperation context limit (place offset) index stack state =
      (callOperation context limit offset index stack state).relocate place := by
  unfold callOperation
  split
  · rfl
  · split
    · rfl
    · dsimp only
      split
      · rfl
      · split
        · rfl
        · split <;> rfl

/-- What an instruction does depends on its offset only where it reports it. -/
theorem perform_relocate (i : Instruction) :
    i.perform context limit (place offset) stack state =
      (i.perform context limit offset stack state).relocate place := by
  cases i with
  | nop | jump target => rfl
  | push a =>
      rw [perform, perform]
      split
      · split
        · rfl
        · exact pushCell_relocate _ _ _ _ _ _
      · split
        · rfl
        · exact pushCell_relocate _ _ _ _ _ _
  | pop a =>
      rw [perform, perform]
      split
      · rfl
      · split
        · rfl
        · split <;> rfl
  | numeric op mode | logical op => exact operate_relocate _ _ _ _ _ _ _
  | jumpIf expected target =>
      rw [perform, perform]
      split
      · rfl
      · split <;> rfl
  | call index => exact callOperation_relocate _ _ _ _ _ _ _
  | halt =>
      rw [perform, perform]
      split <;> rfl

end Instruction

/-! ## Machines over a list of instructions -/

namespace Machine.Indexed

/-- Performs the instruction at an index.  There is nothing to decode, and a jump goes to the
index of the instruction that starts at its target. -/
def step (context : Context κ) (code : List Instruction) (m : Machine) (state : κ) : Step κ :=
  match code[m.pointer]? with
  | none => .ended (.trapped (.pointerOutOfRange m.pointer)) (m.ended m.pointer) state
  | some i =>
    match i.perform context m.stackLimit m.pointer m.stack state with
    | .proceed stack state =>
      .running { m with pointer := m.pointer + 1, stack := stack } state
    | .jump target stack state =>
      .running { m with pointer := indexAt code target, stack := stack } state
    | .exit exit state => .ended exit (m.ended (m.pointer + 1)) state

/-- Takes at most the given number of steps. -/
def resume (context : Context κ) (code : List Instruction) : Nat → Machine → κ → Run κ
  | 0, m, state => ⟨.outOfSteps, m, state⟩
  | steps + 1, m, state =>
    match step context code m state with
    | .running m state => resume context code steps m state
    | .ended exit m state => ⟨exit, m, state⟩

/-- Runs code from its first instruction for at most the given number of steps. -/
def run (context : Context κ) (code : List Instruction) (steps : Nat) (m : Machine)
    (state : κ) : Run κ :=
  resume context code steps m.start state

/-- The configurations from which at most the given number of steps are taken, in order. -/
def trace (context : Context κ) (code : List Instruction) :
    Nat → Machine → κ → List (Machine × κ)
  | 0, _, _ => []
  | steps + 1, m, state =>
    (m, state) ::
      match step context code m state with
      | .running m state => trace context code steps m state
      | .ended _ _ _ => []

/-- The call made in a configuration, if one is made. -/
def call? (context : Context κ) (code : List Instruction) (m : Machine) (state : κ) :
    Option Call :=
  (code[m.pointer]?).bind fun i => i.call? context m.stack state

/-- The calls that at most the given number of steps make, in order. -/
def calls (context : Context κ) (code : List Instruction) (steps : Nat) (m : Machine)
    (state : κ) : List Call :=
  (trace context code steps m state).filterMap fun c => call? context code c.1 c.2

/-- A step that ends is the last one of a run that comes to it. -/
theorem resume_of_mem_trace {context : Context κ} {code : List Instruction} {steps : Nat}
    {m now last : Machine} {state after final : κ} {exit : Exit}
    (member : (now, after) ∈ trace context code steps m state)
    (ends : step context code now after = .ended exit last final) :
    resume context code steps m state = ⟨exit, last, final⟩ := by
  induction steps generalizing m state with
  | zero => cases member
  | succ steps inductionHypothesis =>
      rw [trace] at member
      rw [resume]
      rcases List.mem_cons.mp member with here | later
      · cases here
        rw [ends]
      · cases stepEq : step context code m state with
        | running next state =>
            rw [stepEq] at later
            exact inductionHypothesis later
        | ended exit next state =>
            rw [stepEq] at later
            cases later

/-- A run that comes to stand behind the last instruction ends there. -/
theorem exit_of_mem_trace {context : Context κ} {code : List Instruction} {steps : Nat}
    {m : Machine} {state : κ} {c : Machine × κ} (member : c ∈ trace context code steps m state)
    (behind : c.1.pointer = code.length) :
    (resume context code steps m state).exit = .trapped (.pointerOutOfRange code.length) := by
  have nothing : code[c.1.pointer]? = none :=
    List.getElem?_eq_none (Nat.le_of_eq behind.symm)
  have ends : step context code c.1 c.2 =
      .ended (.trapped (.pointerOutOfRange code.length)) (c.1.ended c.1.pointer) c.2 := by
    rw [step, nothing, behind]
  rw [resume_of_mem_trace member ends]

end Machine.Indexed

/-! ## Traps of decoding -/

/-- A trap that is found before an instruction is performed. -/
def Trap.OfDecoding : Trap → Prop
  | pointerOutOfRange _ | truncatedInstruction _ | invalidOpcode _ _ | invalidMode _ _ => True
  | stackUnderflow _ | stackOverflow _ _ | texturePop _ | valueAddressOutOfRange _ _
  | textureAddressOutOfRange _ _ | unknownOperation _ _ | outputCountMismatch _ _ _ _
  | divisionByZero _ | unbalancedStack _ _ => False

/-- If the effect is a trap, then none of decoding. -/
def Effect.PastDecoding : Effect κ → Prop
  | .exit (.trapped trap) _ => ¬ trap.OfDecoding
  | .exit .halted _ | .exit (.aborted _ _) _ | .exit .outOfSteps _ => True
  | .proceed _ _ | .jump _ _ _ => True

namespace Instruction

variable (context : Context κ) (limit offset : Nat) (stack : Stack) (state : κ)

theorem pastDecoding_pushCell (c : Cell) :
    (pushCell limit offset c stack state).PastDecoding := by
  unfold pushCell
  split
  · trivial
  · exact id

theorem pastDecoding_operate (arity : Nat) (value? : List Cell → Option Cell) :
    (operate limit offset arity value? stack state).PastDecoding := by
  unfold operate
  split
  · exact id
  · split
    · exact id
    · exact pastDecoding_pushCell _ _ _ _ _

theorem pastDecoding_callOperation (index : Nat) :
    (callOperation context limit offset index stack state).PastDecoding := by
  unfold callOperation
  split
  · exact id
  · split
    · exact id
    · dsimp only
      split
      · trivial
      · split
        · exact id
        · split
          · exact id
          · trivial

/-- No instruction, once it is performed, ends in a trap of decoding. -/
theorem pastDecoding_perform (i : Instruction) :
    (i.perform context limit offset stack state).PastDecoding := by
  cases i with
  | nop | jump target => trivial
  | push a =>
      rw [perform]
      split
      · split
        · exact id
        · exact pastDecoding_pushCell _ _ _ _ _
      · split
        · exact id
        · exact pastDecoding_pushCell _ _ _ _ _
  | pop a =>
      rw [perform]
      split
      · exact id
      · split
        · exact id
        · split
          · exact id
          · trivial
  | numeric op mode | logical op => exact pastDecoding_operate _ _ _ _ _ _
  | jumpIf expected target =>
      rw [perform]
      split
      · exact id
      · split <;> trivial
  | call index => exact pastDecoding_callOperation _ _ _ _ _ _
  | halt =>
      rw [perform]
      split
      · trivial
      · exact id

end Instruction

/-- A step that ends in a trap of decoding has decoded nothing. -/
theorem Machine.Stepped.decode_eq_error {context : Context κ} {program : Program}
    {m last : Machine} {state final : κ} {trap : Trap}
    (stepped : Stepped context program m state (.ended (.trapped trap) last final))
    (ofDecoding : trap.OfDecoding) : decode program.bytes m.pointer = .error trap := by
  cases stepped with
  | undecodable failed => exact failed
  | @exits i _ _ decoded performed =>
      have past := pastDecoding_perform context m.stackLimit m.pointer m.stack state i
      rw [performed] at past
      exact absurd ofDecoding past

/-! ## Steps and runs of assembled code -/

namespace Program

variable {code : List Instruction} {program : Program} {index : Nat}

/-- Where an instruction of assembled code starts, it is decoded. -/
theorem decode_startOf {i : Instruction} (assembled : assemble code = .ok program)
    (found : code[index]? = some i) :
    decode program.bytes (startOf code index) = .ok i := by
  have decoded := (standsAt_of_assemble assembled).decode_startOf found
  rwa [Nat.zero_add] at decoded

/-- Behind the last instruction nothing is decoded. -/
theorem decode_behind (assembled : assemble code = .ok program)
    (behind : code[index]? = none) (inside : index ≤ code.length) :
    index = code.length ∧ startOf code index = program.size ∧
      decode program.bytes (startOf code index) =
        .error (.pointerOutOfRange (startOf code index)) := by
  have atEnd : index = code.length :=
    Nat.le_antisymm inside (List.getElem?_eq_none_iff.mp behind)
  have startEq : startOf code index = program.size := by
    rw [atEnd, startOf_length, size_of_assemble assembled]
  have noByte : program.bytes[startOf code index]? = none :=
    Array.getElem?_eq_none (Nat.le_of_eq startEq.symm)
  refine ⟨atEnd, startEq, ?_⟩
  simp only [decode, noByte]

end Program

namespace Machine

variable {context : Context κ} {code : List Instruction} {program : Program} {m : Machine}
  {state : κ}

/-- One step on bytes is one step on indices. -/
theorem step_relocate (context : Context κ) (assembled : Program.assemble code = .ok program)
    (jumps : JumpsToStarts code) (inside : m.pointer ≤ code.length) (state : κ) :
    (m.relocate (startOf code)).step context program state =
      (Indexed.step context code m state).relocate (startOf code) := by
  have pointerEq : (m.relocate (startOf code)).pointer = startOf code m.pointer := rfl
  rw [step, Indexed.step, pointerEq]
  cases found : code[m.pointer]? with
  | none =>
      rw [(Program.decode_behind assembled found inside).2.2]
      rfl
  | some i =>
      have next := startOf_succ found
      have allowed := allowed_perform context m.stackLimit m.pointer i m.stack state
      rw [Program.decode_startOf assembled found]
      dsimp only [relocate]
      rw [perform_relocate]
      cases performed : i.perform context m.stackLimit m.pointer m.stack state with
      | proceed stack after =>
          simp only [Effect.relocate, Step.relocate, relocate, next]
      | jump target stack after =>
          rw [performed] at allowed
          have member : i ∈ code := List.mem_of_getElem? found
          have start := startOf_indexAt (jumps i member target allowed)
          simp only [Effect.relocate, Step.relocate, relocate, start]
      | exit exit after =>
          simp only [Effect.relocate, Step.relocate, relocate, Machine.ended, next]

/-- The index stays inside of the code or comes to stand right behind it. -/
theorem Indexed.pointer_le {next : Machine} {after : κ}
    (stepEq : Indexed.step context code m state = .running next after) :
    next.pointer ≤ code.length := by
  unfold Indexed.step at stepEq
  split at stepEq
  · cases stepEq
  · next found =>
      split at stepEq
      · cases stepEq
        exact (List.getElem?_eq_some_iff.mp found).1
      · cases stepEq
        exact indexAt_le_length code _
      · cases stepEq

/-- A run on bytes passes through the configurations of the run on indices and ends as it does.
The index never leaves the code. -/
theorem resume_relocate (context : Context κ)
    (assembled : Program.assemble code = .ok program) (jumps : JumpsToStarts code)
    (steps : Nat) (inside : m.pointer ≤ code.length) (state : κ) :
    (∀ c ∈ Indexed.trace context code steps m state, c.1.pointer ≤ code.length) ∧
    (m.relocate (startOf code)).trace context program steps state =
      (Indexed.trace context code steps m state).map
        (Prod.map (relocate (startOf code)) id) ∧
    resume context program steps (m.relocate (startOf code)) state =
      (Indexed.resume context code steps m state).relocate (startOf code) := by
  induction steps generalizing m state with
  | zero => exact ⟨fun _ member => absurd member List.not_mem_nil, rfl, rfl⟩
  | succ steps inductionHypothesis =>
      rw [trace, resume, step_relocate context assembled jumps inside, Indexed.trace,
        Indexed.resume]
      cases stepEq : Indexed.step context code m state with
      | running next after =>
          obtain ⟨bounded, traceEq, resumeEq⟩ :=
            inductionHypothesis (Indexed.pointer_le stepEq) after
          exact ⟨List.forall_mem_cons.mpr ⟨inside, bounded⟩, congrArg _ traceEq, resumeEq⟩
      | ended exit last after =>
          exact ⟨List.forall_mem_cons.mpr ⟨inside, fun _ member =>
            absurd member List.not_mem_nil⟩, rfl, rfl⟩

/-- The same call is made on bytes and on indices. -/
theorem call?_relocate (context : Context κ)
    (assembled : Program.assemble code = .ok program) (inside : m.pointer ≤ code.length)
    (state : κ) :
    (m.relocate (startOf code)).call? context program state =
      Indexed.call? context code m state := by
  have pointerEq : (m.relocate (startOf code)).pointer = startOf code m.pointer := rfl
  rw [call?, Indexed.call?, pointerEq]
  cases found : code[m.pointer]? with
  | none => rw [(Program.decode_behind assembled found inside).2.2, Option.bind_none]
  | some i =>
      rw [Program.decode_startOf assembled found]
      rfl

/-- A trap of decoding can only be met behind the last instruction. -/
theorem eq_pointerOutOfRange_of_trapped (context : Context κ)
    (assembled : Program.assemble code = .ok program) (jumps : JumpsToStarts code)
    {steps : Nat} (inside : m.pointer ≤ code.length) {trap : Trap}
    (trapped : (resume context program steps (m.relocate (startOf code)) state).exit =
      .trapped trap) (ofDecoding : trap.OfDecoding) :
    trap = .pointerOutOfRange program.size ∧
      ∃ c ∈ Indexed.trace context code steps m state, c.1.pointer = code.length := by
  obtain ⟨bounded, traceEq, -⟩ := resume_relocate context assembled jumps steps inside state
  have ended : (resume context program steps (m.relocate (startOf code)) state).exit ≠
      .outOfSteps := by
    rw [trapped]
    exact Exit.noConfusion
  obtain ⟨last, after, lastEq, ends⟩ := ends_of_resume ended
  have member : (last, after) ∈ (Indexed.trace context code steps m state).map
      (Prod.map (relocate (startOf code)) id) := traceEq ▸ List.mem_of_getLast? lastEq
  obtain ⟨⟨now, _⟩, nowMember, same⟩ := List.mem_map.mp member
  cases same
  rw [trapped] at ends
  have failed : decode program.bytes (startOf code now.pointer) = .error trap :=
    ends.decode_eq_error ofDecoding
  cases found : code[now.pointer]? with
  | some i =>
      rw [Program.decode_startOf assembled found] at failed
      cases failed
  | none =>
      obtain ⟨atEnd, startEq, outside⟩ :=
        Program.decode_behind assembled found (bounded _ nowMember)
      rw [outside, startEq] at failed
      cases failed
      exact ⟨rfl, _, nowMember, atEnd⟩

end Machine

/-- Running assembled bytes refines running the instructions themselves.  If all jumps lead to
starts of instructions or to the end of the bytes, then in every context, with every stack
limit and after every number of steps both machines have passed through the same stacks and
states and made the same calls, and they end alike, where an offset stands for an index.
Bytes that are no instruction are never met.  The pointer is out of range only behind the last
instruction, at the number of all bytes, and there it always is. -/
theorem assembled_code_runs_in_lockstep {code : List Instruction} (nonempty : code ≠ [])
    (jumps : JumpsToStarts code) :
    ∃ program, Program.assemble code = .ok program ∧
      ∀ {κ : Type} (context : Context κ) (m : Machine) (state : κ) (steps : Nat),
        let run := m.run context program steps state
        let configs := Machine.Indexed.trace context code steps m.start state
        m.start.trace context program steps state =
            configs.map (Prod.map (Machine.relocate (startOf code)) id) ∧
          m.start.calls context program steps state =
            Machine.Indexed.calls context code steps m.start state ∧
          run = (Machine.Indexed.run context code steps m state).relocate (startOf code) ∧
          (∀ offset b, run.exit ≠ .trapped (.invalidOpcode offset b) ∧
            run.exit ≠ .trapped (.invalidMode offset b) ∧
            run.exit ≠ .trapped (.truncatedInstruction offset)) ∧
          ∀ offset, run.exit = .trapped (.pointerOutOfRange offset) ↔
            offset = program.size ∧ ∃ c ∈ configs, c.1.pointer = code.length := by
  obtain ⟨program, assembled⟩ := Program.exists_assemble nonempty
  refine ⟨program, assembled, ?_⟩
  intro κ context m state steps run configs
  -- Both machines start at 0, the index and the offset of the first instruction.
  have inside : m.start.pointer ≤ code.length := Nat.zero_le _
  have sameStart : m.start.relocate (startOf code) = m.start := rfl
  obtain ⟨bounded, traceEq, runEq⟩ :=
    Machine.resume_relocate context assembled jumps steps inside state
  rw [sameStart] at traceEq runEq
  have decoding {trap : Trap} (trapped : run.exit = .trapped trap) :
      trap.OfDecoding → trap = .pointerOutOfRange program.size ∧
        ∃ c ∈ configs, c.1.pointer = code.length :=
    Machine.eq_pointerOutOfRange_of_trapped context assembled jumps inside trapped
  refine ⟨traceEq, ?_, runEq, ?_, ?_⟩
  · rw [Machine.calls, Machine.Indexed.calls, traceEq, List.filterMap_map]
    refine List.filterMap_congr fun c member => ?_
    exact Machine.call?_relocate context assembled (bounded c member) c.2
  · intro offset b
    refine ⟨?_, ?_, ?_⟩ <;>
      · intro trapped
        cases (decoding trapped trivial).1
  · intro offset
    constructor
    · intro trapped
      obtain ⟨trapEq, atEnd⟩ := decoding trapped trivial
      cases trapEq
      exact ⟨rfl, atEnd⟩
    · rintro ⟨rfl, c, member, behind⟩
      have exitEq : run.exit = _ := congrArg Machine.Run.exit runEq
      rw [exitEq, Machine.Run.relocate, Machine.Indexed.exit_of_mem_trace member behind,
        Program.size_of_assemble assembled, ← startOf_length]
      rfl

namespace Sample

/-- Counts slot 0 down by slot 1.  At zero it jumps past its last instruction. -/
def countdown : List Instruction :=
  [.push ⟨0⟩, .jumpIf false 20, .push ⟨0⟩, .push ⟨1⟩, .numeric .sub .uint, .pop ⟨0⟩, .jump 0]

def two : Memory Unit := ⟨#[⟨2⟩, ⟨1⟩], ()⟩

end Sample

theorem countdown_runs_in_lockstep :
    ∃ program, Program.assemble Sample.countdown = .ok program ∧
      let run := (Machine.mk 2 0 .empty false).run Sample.bareTables.context program 17
        Sample.two
      run.exit = .trapped (.pointerOutOfRange 20) ∧ run.state.values = #[⟨0⟩, ⟨1⟩] ∧
        (Machine.mk 2 0 .empty false).start.visited Sample.bareTables.context program 17
          Sample.two =
            [0, 3, 6, 9, 12, 14, 17, 0, 3, 6, 9, 12, 14, 17, 0, 3, 20] := by
  have nonempty : Sample.countdown ≠ [] := List.cons_ne_nil _ _
  have jumps : JumpsToStarts Sample.countdown := by decide
  obtain ⟨program, assembled, lockstep⟩ := assembled_code_runs_in_lockstep nonempty jumps
  obtain ⟨traceEq, -, runEq, -, -⟩ :=
    lockstep Sample.bareTables.context ⟨2, 0, .empty, false⟩ Sample.two 17
  refine ⟨program, assembled, ?_, ?_, ?_⟩
  · rw [runEq]
    rfl
  · rw [runEq]
    rfl
  · rw [Machine.visited, traceEq]
    rfl

end FrameGraph
