import FrameGraph.Instance
import FrameGraph.Proofs.Machine.Code

/-!
# Runs and the code they pass through

A run is observed through the configurations in which it performs an instruction: from
them come the offsets that it visits and the calls that it makes.  While code without
taken jumps stands at the instruction pointer, the run is a passage through that code,
and what the passage leads to can be computed from the instructions alone.
-/

namespace FrameGraph

variable {κ : Type}

/-! ## Calls -/

/-- One call of an operation. -/
structure Call where
  operation : Nat
  /-- The inputs handed over, the last port first. -/
  inputs : List Cell
  /-- The outputs given, the first one first. -/
  outputs : List Cell
  /-- Whether the operation lets the program go on. -/
  goesOn : Bool
  deriving DecidableEq, Repr

/-- The call that an instruction makes, if it makes one. -/
def Instruction.call? (context : Context κ) (i : Instruction) (stack : Stack) (state : κ) :
    Option Call :=
  match i with
  | .call index =>
    match context.signature state index.toNat with
    | none => none
    | some signature =>
      if stack.depth < signature.inputs then none
      else
        let outcome :=
          (context.call state index.toNat).run (stack.top signature.inputs) []
        some ⟨index.toNat, stack.top signature.inputs, outcome.outputs.reverse,
          outcome.answer.1⟩
  | _ => none

/-! ## What a run shows -/

namespace Machine

/-- The configurations in which a run of at most the given number of steps performs an
instruction, in order. -/
def trace (context : Context κ) (program : Program) :
    Nat → Machine → κ → List (Machine × κ)
  | 0, _, _ => []
  | steps + 1, m, state =>
    (m, state) ::
      match m.step context program state with
      | .running m state => trace context program steps m state
      | .ended _ _ _ => []

/-- The call made in a configuration, if one is made. -/
def call? (context : Context κ) (program : Program) (m : Machine) (state : κ) :
    Option Call :=
  match Instruction.decode program.bytes m.pointer with
  | .ok i => i.call? context m.stack state
  | .error _ => none

/-- The calls that a run of at most the given number of steps makes, in order. -/
def calls (context : Context κ) (program : Program) (steps : Nat) (m : Machine)
    (state : κ) : List Call :=
  (trace context program steps m state).filterMap fun c => c.1.call? context program c.2

/-- The offsets at which a run of at most the given number of steps performs an
instruction, in order. -/
def visited (context : Context κ) (program : Program) (steps : Nat) (m : Machine)
    (state : κ) : List Nat :=
  (trace context program steps m state).map fun c => c.1.pointer

theorem calls_succ (context : Context κ) (program : Program) (steps : Nat) (m : Machine)
    (state : κ) :
    m.calls context program (steps + 1) state =
      (m.call? context program state).toList ++
        match m.step context program state with
        | .running next state => next.calls context program steps state
        | .ended _ _ _ => [] := by
  rw [calls, trace, List.filterMap_cons]
  cases m.step context program state <;> cases m.call? context program state <;> rfl

theorem visited_succ (context : Context κ) (program : Program) (steps : Nat) (m : Machine)
    (state : κ) :
    m.visited context program (steps + 1) state =
      m.pointer ::
        match m.step context program state with
        | .running next state => next.visited context program steps state
        | .ended _ _ _ => [] := by
  rw [visited, trace, List.map_cons]
  cases m.step context program state <;> rfl

end Machine

/-- The memory that an execution leaves behind. -/
def Frame.memory {ω : Type} (f : Frame ω) : Memory ω := ⟨f.after.values, f.world⟩

namespace Instance

variable {ω : Type}

/-- The calls that an execution makes, in order. -/
def calls (i : Instance ω) (world : ω) : List Call :=
  i.machine.start.calls i.tables.context i.program i.program.size ⟨i.values, world⟩

/-- The offsets at which an execution performs an instruction, in order. -/
def visited (i : Instance ω) (world : ω) : List Nat :=
  i.machine.start.visited i.tables.context i.program i.program.size ⟨i.values, world⟩

end Instance

/-! ## Passages -/

/-- What performing code leads to, with the calls made on the way. -/
structure Passage (κ : Type) where
  calls : List Call
  effect : Effect κ

namespace Passage

/-- Goes on while the next instruction in line follows. -/
def andThen (p : Passage κ) (next : Stack → κ → Passage κ) : Passage κ :=
  match p.effect with
  | .proceed stack state =>
    ⟨p.calls ++ (next stack state).calls, (next stack state).effect⟩
  | .jump _ _ _ | .exit _ _ => p

@[simp]
theorem andThen_proceed (calls : List Call) (stack : Stack) (state : κ)
    (next : Stack → κ → Passage κ) :
    andThen ⟨calls, .proceed stack state⟩ next =
      ⟨calls ++ (next stack state).calls, (next stack state).effect⟩ := rfl

@[simp]
theorem andThen_exit (calls : List Call) (exit : Exit) (state : κ)
    (next : Stack → κ → Passage κ) :
    andThen ⟨calls, .exit exit state⟩ next = ⟨calls, .exit exit state⟩ := rfl

theorem andThen_assoc (p : Passage κ) (next last : Stack → κ → Passage κ) :
    (p.andThen next).andThen last =
      p.andThen fun stack state => (next stack state).andThen last := by
  obtain ⟨calls, effect⟩ := p
  cases effect with
  | jump _ _ _ | exit _ _ => rfl
  | proceed stack state =>
      simp only [andThen_proceed]
      rcases next stack state with ⟨others, _ | _ | _⟩ <;> simp [andThen]

end Passage

namespace Instruction

/-- Performs one instruction. -/
def pass (context : Context κ) (limit offset : Nat) (i : Instruction) (stack : Stack)
    (state : κ) : Passage κ :=
  ⟨(i.call? context stack state).toList, i.perform context limit offset stack state⟩

/-- Performs code that starts at an offset. -/
def passAll (context : Context κ) (limit : Nat) :
    Nat → List Instruction → Stack → κ → Passage κ
  | _, [], stack, state => ⟨[], .proceed stack state⟩
  | offset, i :: rest, stack, state =>
    (i.pass context limit offset stack state).andThen
      (passAll context limit (offset + i.encodedLength) rest)

theorem passAll_append (context : Context κ) (limit offset : Nat)
    (first second : List Instruction) (stack : Stack) (state : κ) :
    passAll context limit offset (first ++ second) stack state =
      (passAll context limit offset first stack state).andThen
        (passAll context limit (offset + codeLength first) second) := by
  induction first generalizing offset stack state with
  | nil => simp [passAll]
  | cons i rest inductionHypothesis =>
      have later : passAll context limit (offset + i.encodedLength) (rest ++ second) =
          fun stack state =>
            (passAll context limit (offset + i.encodedLength) rest stack state).andThen
              (passAll context limit (offset + codeLength (i :: rest)) second) := by
        funext stack state
        rw [inductionHypothesis, codeLength_cons, Nat.add_assoc]
      rw [List.cons_append, passAll, passAll, later, Passage.andThen_assoc]

end Instruction

/-! ## A run through code -/

namespace Machine

open Instruction

/-- The rest of a run from the moment at which it has ended a program. -/
def ended (m : Machine) (pointer : Nat) : Machine :=
  { m with pointer := pointer, stack := .empty, running := false }

/-- A run through code that ends in it is the passage through that code, however many
steps it may take beyond the instructions of the code. -/
theorem resume_of_passAll {context : Context κ} {program : Program}
    {code : List Instruction} {m : Machine} {state final : κ} {exit : Exit}
    {calls : List Call} (steps : Nat) (stands : StandsAt program.bytes m.pointer code)
    (passage : passAll context m.stackLimit m.pointer code m.stack state =
      ⟨calls, .exit exit final⟩) :
    (∃ pointer, resume context program (code.length + steps) m state =
      ⟨exit, m.ended pointer, final⟩) ∧
    m.calls context program (code.length + steps) state = calls ∧
    m.visited context program (code.length + steps) state <+: offsets m.pointer code := by
  induction code generalizing m state calls with
  | nil => simp [passAll] at passage
  | cons i rest inductionHypothesis =>
      obtain ⟨decoded, standsRest⟩ := stands
      have budget : (i :: rest).length + steps = (rest.length + steps) + 1 := by
        simp only [List.length_cons]
        omega
      have called : m.call? context program state = i.call? context m.stack state := by
        simp only [Machine.call?, decoded]
      rw [budget, calls_succ, visited_succ, resume, called, offsets]
      rw [passAll, Instruction.pass] at passage
      cases performed : i.perform context m.stackLimit m.pointer m.stack state with
      | jump target stack state => simp [performed, Passage.andThen] at passage
      | exit exit state =>
          simp only [performed, Passage.andThen_exit, Passage.mk.injEq,
            Effect.exit.injEq] at passage
          obtain ⟨rfl, rfl, rfl⟩ := passage
          simp only [step, decoded, performed, List.append_nil]
          exact ⟨⟨_, rfl⟩, trivial, by simp⟩
      | proceed stack next =>
          simp only [performed, Passage.andThen_proceed] at passage
          obtain ⟨rfl, effectEq⟩ := Passage.mk.inj passage
          simp only [step, decoded, performed]
          obtain ⟨⟨pointer, resumed⟩, callsEq, visitedEq⟩ :=
            inductionHypothesis
              (m := { m with pointer := m.pointer + i.encodedLength, stack := stack })
              standsRest (congrArg (Passage.mk _) effectEq)
          exact ⟨⟨pointer, resumed⟩, congrArg _ callsEq,
            List.cons_prefix_cons.mpr ⟨rfl, visitedEq⟩⟩

end Machine

end FrameGraph
