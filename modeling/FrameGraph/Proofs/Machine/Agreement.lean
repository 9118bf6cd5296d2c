import FrameGraph.Proofs.Machine.Passage
import FrameGraph.Proofs.Machine.Runs

/-!
# Runs from memories that agree

Two memories may differ in slots that code writes before it reads them.  A run through
such code does the same from both: it performs the same instructions, makes the same calls
and ends in the same way, and the memories agree at the end on all slots that the code has
written on the way.
-/

namespace FrameGraph

variable {ω : Type}

/-- Memories in the same world, with the same number of value slots, that hold the same
cells in some of them. -/
structure Memory.AgreesOn (slots : Nat → Prop) (first second : Memory ω) : Prop where
  world : first.world = second.world
  size : first.values.size = second.values.size
  values : ∀ slot, slots slot → first.values[slot]? = second.values[slot]?

theorem Memory.AgreesOn.mono {slots fewer : Nat → Prop} {first second : Memory ω}
    (agrees : first.AgreesOn slots second) (subset : ∀ slot, fewer slot → slots slot) :
    first.AgreesOn fewer second :=
  ⟨agrees.world, agrees.size, fun slot member => agrees.values slot (subset slot member)⟩

/-- Effects that go on with the same stack, or end in the same way, and leave memories
behind that agree. -/
inductive Effect.Agrees (before after : Nat → Prop) :
    Effect (Memory ω) → Effect (Memory ω) → Prop where
  | proceed (stack : Stack) {first second : Memory ω} (agrees : first.AgreesOn after second) :
      Agrees before after (.proceed stack first) (.proceed stack second)
  | exit (exit : Exit) {first second : Memory ω} (agrees : first.AgreesOn before second) :
      Agrees before after (.exit exit first) (.exit exit second)

namespace Instruction

/-- The slots that code pops into, in order. -/
def poppedSlots (code : List Instruction) : List Nat :=
  code.filterMap fun
    | .pop a => some a.index
    | _ => none

@[simp]
theorem poppedSlots_push_cons (a : Address) (rest : List Instruction) :
    poppedSlots (.push a :: rest) = poppedSlots rest := rfl

@[simp]
theorem poppedSlots_pop_cons (a : Address) (rest : List Instruction) :
    poppedSlots (.pop a :: rest) = a.index :: poppedSlots rest := rfl

@[simp]
theorem poppedSlots_call_cons (index : UInt16) (rest : List Instruction) :
    poppedSlots (.call index :: rest) = poppedSlots rest := rfl

/-- Code without jumps that pushes no value slots but the given ones and those that it has
popped into before. -/
def ReadsWithin : (Nat → Prop) → List Instruction → Prop
  | _, [] => True
  | slots, .push a :: rest => (a.isTexture = false → slots a.index) ∧ ReadsWithin slots rest
  | slots, .pop a :: rest => ReadsWithin (fun slot => slots slot ∨ slot = a.index) rest
  | _, .jump _ :: _ => False
  | _, .jumpIf _ _ :: _ => False
  | slots, .nop :: rest => ReadsWithin slots rest
  | slots, .numeric _ _ :: rest => ReadsWithin slots rest
  | slots, .logical _ :: rest => ReadsWithin slots rest
  | slots, .call _ :: rest => ReadsWithin slots rest
  | slots, .halt :: rest => ReadsWithin slots rest

theorem ReadsWithin.mono {slots more : Nat → Prop} {code : List Instruction}
    (reads : ReadsWithin slots code) (subset : ∀ slot, slots slot → more slot) :
    ReadsWithin more code := by
  induction code generalizing slots more with
  | nil => trivial
  | cons i rest inductionHypothesis =>
      cases i with
      | push a => exact ⟨fun isValue => subset _ (reads.1 isValue),
          inductionHypothesis reads.2 subset⟩
      | pop a =>
          refine inductionHypothesis reads fun slot member => ?_
          exact member.imp_left (subset slot)
      | jump target | jumpIf expected target => exact reads
      | nop | numeric op mode | logical op | call index | halt =>
          exact inductionHypothesis reads subset

/-- What the second part of code may read besides is what the first part has popped. -/
theorem readsWithin_append {slots : Nat → Prop} {first second : List Instruction} :
    ReadsWithin slots (first ++ second) ↔
      ReadsWithin slots first ∧
        ReadsWithin (fun slot => slots slot ∨ slot ∈ poppedSlots first) second := by
  induction first generalizing slots with
  | nil => simp [ReadsWithin, poppedSlots]
  | cons i rest inductionHypothesis =>
      cases i with
      | push a =>
          simp only [List.cons_append, ReadsWithin, inductionHypothesis, and_assoc]
          rfl
      | pop a =>
          simp only [List.cons_append, ReadsWithin, inductionHypothesis, poppedSlots,
            List.filterMap_cons, List.mem_cons, or_assoc]
      | jump target | jumpIf expected target => simp [ReadsWithin]
      | nop | numeric op mode | logical op | call index | halt =>
          simp only [List.cons_append, ReadsWithin, inductionHypothesis]
          rfl

/-! ## One instruction -/

section Perform

variable (tables : Tables ω) {slots : Nat → Prop} {first second : Memory ω}

/-- An operation sees only the world. -/
theorem run_call_agrees (agrees : first.AgreesOn slots second) (index : Nat)
    (inputs : List Cell) :
    ((tables.context.call first index).run inputs []).answer.1 =
        ((tables.context.call second index).run inputs []).answer.1 ∧
      ((tables.context.call first index).run inputs []).outputs =
        ((tables.context.call second index).run inputs []).outputs ∧
      ((tables.context.call first index).run inputs []).answer.2.AgreesOn slots
        ((tables.context.call second index).run inputs []).answer.2 := by
  cases taskEq : tables.tasks[index]? with
  | none =>
      simp only [Tables.context, taskEq, Work.run]
      exact ⟨trivial, trivial, agrees⟩
  | some task =>
      simp only [Tables.context, taskEq, Work.run_bind, agrees.world]
      exact ⟨rfl, rfl, rfl, agrees.size, agrees.values⟩

theorem call?_agrees (agrees : first.AgreesOn slots second) (i : Instruction)
    (stack : Stack) :
    i.call? tables.context stack first = i.call? tables.context stack second := by
  cases i with
  | call index =>
      have sameSignature : tables.context.signature first index.toNat =
          tables.context.signature second index.toNat := rfl
      rw [call?, call?, sameSignature]
      split
      · rfl
      · next signature _ =>
          obtain ⟨goesOnEq, outputsEq, -⟩ :=
            run_call_agrees tables agrees index.toNat (stack.top signature.inputs)
          simp only [goesOnEq, outputsEq]
  | _ => rfl

theorem pushCell_agrees {after : Nat → Prop} (agrees : first.AgreesOn slots second)
    (subset : ∀ slot, after slot → slots slot) (limit offset : Nat) (c : Cell)
    (stack : Stack) :
    Effect.Agrees slots after (pushCell limit offset c stack first)
      (pushCell limit offset c stack second) := by
  unfold pushCell
  split
  · exact .proceed _ (agrees.mono subset)
  · exact .exit _ agrees

theorem operate_agrees (agrees : first.AgreesOn slots second) (limit offset arity : Nat)
    (value? : List Cell → Option Cell) (stack : Stack) :
    Effect.Agrees slots slots (operate limit offset arity value? stack first)
      (operate limit offset arity value? stack second) := by
  unfold operate
  split
  · exact .exit _ agrees
  · split
    · exact .exit _ agrees
    · exact pushCell_agrees agrees (fun _ member => member) _ _ _ _

theorem callOperation_agrees (agrees : first.AgreesOn slots second)
    (limit offset index : Nat) (stack : Stack) :
    Effect.Agrees slots slots
      (callOperation tables.context limit offset index stack first)
      (callOperation tables.context limit offset index stack second) := by
  have sameSignature : tables.context.signature first index =
      tables.context.signature second index := rfl
  rw [callOperation, callOperation, sameSignature]
  split
  · exact .exit _ agrees
  · next signature _ =>
      split
      · exact .exit _ agrees
      · obtain ⟨goesOnEq, outputsEq, afterAgrees⟩ :=
          run_call_agrees tables agrees index (stack.top signature.inputs)
        simp only [goesOnEq, outputsEq]
        split
        · exact .exit _ afterAgrees
        · split
          · exact .exit _ afterAgrees
          · split
            · exact .exit _ afterAgrees
            · exact .proceed _ afterAgrees

/-- Writing the same cell into the same slot makes memories agree on it. -/
theorem AgreesOn.store (agrees : first.AgreesOn slots second) (index : Nat) (c : Cell) :
    Memory.AgreesOn (fun slot => slots slot ∨ slot = index)
      { first with values := first.values.setIfInBounds index c }
      { second with values := second.values.setIfInBounds index c } where
  world := agrees.world
  size := by simp [agrees.size]
  values slot member := by
    simp only [Array.getElem?_setIfInBounds, agrees.size]
    by_cases same : index = slot
    · simp [same]
    · rw [if_neg same, if_neg same]
      exact agrees.values slot (member.resolve_right (Ne.symm same))

theorem push_agrees (agrees : first.AgreesOn slots second) {a : Address}
    (readable : a.isTexture = false → slots a.index) (limit offset : Nat) (stack : Stack) :
    Effect.Agrees slots slots ((push a).perform tables.context limit offset stack first)
      ((push a).perform tables.context limit offset stack second) := by
  rw [perform, perform]
  by_cases isTexture : a.isTexture = true
  · rw [if_pos isTexture, if_pos isTexture]
    have sameTexture : tables.context.texture first a.index =
        tables.context.texture second a.index := rfl
    rw [sameTexture]
    split
    · exact .exit _ agrees
    · exact pushCell_agrees agrees (fun _ member => member) _ _ _ _
  · rw [if_neg isTexture, if_neg isTexture]
    have sameCell : tables.context.load first a.index =
        tables.context.load second a.index :=
      agrees.values a.index (readable (Bool.eq_false_iff.mpr isTexture))
    rw [sameCell]
    split
    · exact .exit _ agrees
    · exact pushCell_agrees agrees (fun _ member => member) _ _ _ _

/-- Whether a slot exists is the same in both memories, and so is the cell that is popped. -/
theorem pop_agrees (agrees : first.AgreesOn slots second) (a : Address) (limit offset : Nat)
    (stack : Stack) :
    Effect.Agrees slots (fun slot => slots slot ∨ slot = a.index)
      ((pop a).perform tables.context limit offset stack first)
      ((pop a).perform tables.context limit offset stack second) := by
  simp only [perform, Tables.context, ← agrees.size]
  split
  · exact .exit _ agrees
  · split
    · exact .exit _ agrees
    · next c below _ =>
        by_cases inside : a.index < first.values.size
        · simp only [if_pos inside]
          exact .proceed _ (AgreesOn.store agrees a.index c)
        · simp only [if_neg inside]
          exact .exit _ agrees

/-- An instruction that reads within the slots on which memories agree does the same in
both. -/
theorem perform_agrees (agrees : first.AgreesOn slots second) {i : Instruction}
    {rest : List Instruction} (reads : ReadsWithin slots (i :: rest)) (limit offset : Nat)
    (stack : Stack) :
    Effect.Agrees slots (fun slot => slots slot ∨ slot ∈ poppedSlots [i])
      (i.perform tables.context limit offset stack first)
      (i.perform tables.context limit offset stack second) := by
  -- Only `pop` adds a slot; all other instructions leave the same slots to agree on.
  have nothingPopped (none : poppedSlots [i] = []) :
      (fun slot => slots slot ∨ slot ∈ poppedSlots [i]) = slots := by
    simp [none]
  cases i with
  | nop =>
      rw [nothingPopped rfl]
      exact .proceed _ agrees
  | push a =>
      rw [nothingPopped rfl]
      exact push_agrees tables agrees reads.1 _ _ _
  | pop a =>
      have onePopped : poppedSlots [.pop a] = [a.index] := rfl
      simp only [onePopped, List.mem_singleton]
      exact pop_agrees tables agrees a _ _ _
  | numeric op mode | logical op =>
      rw [nothingPopped rfl]
      exact operate_agrees agrees _ _ _ _ _
  | jump target | jumpIf expected target => exact absurd reads id
  | call index =>
      rw [nothingPopped rfl]
      exact callOperation_agrees tables agrees _ _ _ _
  | halt =>
      rw [nothingPopped rfl, perform, perform]
      split
      · exact .exit _ agrees
      · exact .exit _ agrees

end Perform

end Instruction

/-! ## Runs -/

namespace Machine

open Instruction

/-- Nothing goes on behind a halt, so while code goes on its halt is still ahead. -/
theorem getLast?_of_proceed {κ : Type} {context : Context κ} {limit offset : Nat}
    {i : Instruction} {rest : List Instruction} {stack next : Stack} {state after : κ}
    (ends : (i :: rest).getLast? = some .halt)
    (performed : i.perform context limit offset stack state = .proceed next after) :
    rest.getLast? = some .halt := by
  cases rest with
  | nil =>
      obtain rfl : i = .halt := by simpa using ends
      rw [perform] at performed
      split at performed <;> cases performed
  | cons next others => simpa using ends

/-- A run through code without jumps, up to its halt, performs instructions of that code
only. -/
theorem decode_of_mem_trace {tables : Tables ω} {program : Program} {code : List Instruction}
    {m : Machine} {memory : Memory ω} {slots : Nat → Prop} (steps : Nat)
    (stands : StandsAt program.bytes m.pointer code) (ends : code.getLast? = some .halt)
    (reads : ReadsWithin slots code) {config : Machine × Memory ω}
    (member : config ∈ m.trace tables.context program steps memory) :
    ∃ i ∈ code, decode program.bytes config.1.pointer = .ok i := by
  induction steps generalizing code m memory slots with
  | zero => cases member
  | succ steps inductionHypothesis =>
      cases code with
      | nil => cases ends
      | cons i rest =>
          have decoded := stands.1
          rw [trace] at member
          rcases List.mem_cons.mp member with rfl | later
          · exact ⟨i, List.mem_cons_self, decoded⟩
          · -- What agrees with itself does not jump.
            have same : memory.AgreesOn slots memory := ⟨rfl, rfl, fun _ _ => rfl⟩
            have performed := perform_agrees tables same reads m.stackLimit m.pointer m.stack
            simp only [step, decoded] at later
            generalize effectEq : i.perform tables.context m.stackLimit m.pointer m.stack
              memory = effect at performed later
            cases performed with
            | exit exit after => cases later
            | proceed stack after =>
                have both : ReadsWithin slots ([i] ++ rest) := reads
                obtain ⟨j, inRest, there⟩ := inductionHypothesis stands.2
                  (getLast?_of_proceed ends effectEq) (readsWithin_append.mp both).2 later
                exact ⟨j, List.mem_cons_of_mem i inRest, there⟩

/-- The slots of some kind, and those that code starting at an offset has popped into by
the time that a run visits what follows. -/
def WrittenBy (slots : Nat → Prop) (start : Nat) (code : List Instruction)
    (visited : List Nat) (slot : Nat) : Prop :=
  slots slot ∨ ∃ piece later, code = piece ++ later ∧
    start + codeLength piece ∈ visited ∧ slot ∈ poppedSlots piece

section Written

variable {slots : Nat → Prop} {start slot : Nat} {i : Instruction} {rest : List Instruction}

private theorem offset_ne (start : Nat) (i : Instruction) (piece : List Instruction) :
    start + codeLength (i :: piece) ≠ start := by
  have positive := i.encodedLength_pos
  rw [codeLength_cons]
  omega

/-- A run that ends with the first instruction has written nothing. -/
theorem WrittenBy.of_single (written : WrittenBy slots start (i :: rest) [start] slot) :
    slots slot := by
  rcases written with given | ⟨piece, later, split, visited, popped⟩
  · exact given
  · rcases List.cons_eq_append_iff.mp split with ⟨rfl, -⟩ | ⟨others, rfl, -⟩
    · exact absurd popped List.not_mem_nil
    · exact absurd (List.mem_singleton.mp visited) (offset_ne start i others)

/-- A run that goes on has written what the first instruction pops into. -/
theorem WrittenBy.of_cons {visited : List Nat}
    (written : WrittenBy slots start (i :: rest) (start :: visited) slot) :
    WrittenBy (fun slot => slots slot ∨ slot ∈ poppedSlots [i]) (start + i.encodedLength) rest
      visited slot := by
  rcases written with given | ⟨piece, later, split, offsetVisited, popped⟩
  · exact Or.inl (Or.inl given)
  · rcases List.cons_eq_append_iff.mp split with ⟨rfl, -⟩ | ⟨others, rfl, restEq⟩
    · exact absurd popped List.not_mem_nil
    · have later := (List.mem_cons.mp offsetVisited).resolve_left (offset_ne start i others)
      have whole : poppedSlots (i :: others) = poppedSlots [i] ++ poppedSlots others :=
        List.filterMap_append (l := [i])
      rw [codeLength_cons, ← Nat.add_assoc] at later
      rw [whole, List.mem_append] at popped
      rcases popped with here | there
      · exact Or.inl (Or.inr here)
      · exact Or.inr ⟨others, _, restEq, later, there⟩

end Written

/-- What two runs have in common. -/
structure RunsAgree (context : Context (Memory ω)) (program : Program) (steps : Nat)
    (m : Machine) (first second : Memory ω) (slots : List Nat → Nat → Prop) : Prop where
  exit : (resume context program steps m first).exit =
    (resume context program steps m second).exit
  machine : (resume context program steps m first).machine =
    (resume context program steps m second).machine
  calls : m.calls context program steps first = m.calls context program steps second
  visited : m.visited context program steps first = m.visited context program steps second
  memory : (resume context program steps m first).state.AgreesOn
    (slots (m.visited context program steps first))
    (resume context program steps m second).state

section Step

variable {tables : Tables ω} {program : Program} {m : Machine} {first second : Memory ω}
  {slots : Nat → Prop} {i : Instruction} {rest : List Instruction} {steps : Nat}

/-- Runs that end with their first instruction. -/
theorem RunsAgree.of_exit {firstAfter secondAfter : Memory ω} {exit : Exit}
    (stands : StandsAt program.bytes m.pointer (i :: rest))
    (sameCall : i.call? tables.context m.stack first = i.call? tables.context m.stack second)
    (firstEq : i.perform tables.context m.stackLimit m.pointer m.stack first =
      .exit exit firstAfter)
    (secondEq : i.perform tables.context m.stackLimit m.pointer m.stack second =
      .exit exit secondAfter)
    (after : firstAfter.AgreesOn slots secondAfter) :
    RunsAgree tables.context program (steps + 1) m first second
      (WrittenBy slots m.pointer (i :: rest)) := by
  have decoded := stands.1
  have called (memory : Memory ω) : m.call? tables.context program memory =
      i.call? tables.context m.stack memory := by
    simp only [Machine.call?, decoded]
  constructor
  · simp only [resume, step, decoded, firstEq, secondEq]
  · simp only [resume, step, decoded, firstEq, secondEq]
  · simp only [calls_succ, step, decoded, firstEq, secondEq, called, sameCall]
  · simp only [visited_succ, step, decoded, firstEq, secondEq]
  · simp only [visited_succ, resume, step, decoded, firstEq, secondEq]
    exact after.mono fun slot => WrittenBy.of_single

/-- Runs that go on with the same stack behind their first instruction. -/
theorem RunsAgree.of_proceed {firstAfter secondAfter : Memory ω} {stack : Stack}
    (stands : StandsAt program.bytes m.pointer (i :: rest))
    (sameCall : i.call? tables.context m.stack first = i.call? tables.context m.stack second)
    (firstEq : i.perform tables.context m.stackLimit m.pointer m.stack first =
      .proceed stack firstAfter)
    (secondEq : i.perform tables.context m.stackLimit m.pointer m.stack second =
      .proceed stack secondAfter)
    (further : RunsAgree tables.context program steps
      { m with pointer := m.pointer + i.encodedLength, stack := stack } firstAfter secondAfter
      (WrittenBy (fun slot => slots slot ∨ slot ∈ poppedSlots [i])
        (m.pointer + i.encodedLength) rest)) :
    RunsAgree tables.context program (steps + 1) m first second
      (WrittenBy slots m.pointer (i :: rest)) := by
  have decoded := stands.1
  have called (memory : Memory ω) : m.call? tables.context program memory =
      i.call? tables.context m.stack memory := by
    simp only [Machine.call?, decoded]
  constructor
  · simp only [resume, step, decoded, firstEq, secondEq]
    exact further.exit
  · simp only [resume, step, decoded, firstEq, secondEq]
    exact further.machine
  · simp only [calls_succ, step, decoded, firstEq, secondEq, called, sameCall]
    exact congrArg _ further.calls
  · simp only [visited_succ, step, decoded, firstEq, secondEq]
    exact congrArg _ further.visited
  · simp only [visited_succ, resume, step, decoded, firstEq, secondEq]
    exact further.memory.mono fun slot => WrittenBy.of_cons

end Step

/-- Runs through code that reads within the slots on which memories agree, up to its halt,
are the same, and the memories agree at the end on what was written. -/
theorem runsAgree_of_readsWithin {tables : Tables ω} {program : Program}
    {code : List Instruction} {m : Machine} {first second : Memory ω} {slots : Nat → Prop}
    (steps : Nat) (stands : StandsAt program.bytes m.pointer code)
    (ends : code.getLast? = some .halt) (reads : ReadsWithin slots code)
    (agrees : first.AgreesOn slots second) :
    RunsAgree tables.context program steps m first second
      (WrittenBy slots m.pointer code) := by
  -- The slots grow with the code that is behind, so they are general in the induction.
  induction steps generalizing code m first second slots with
  | zero =>
      refine ⟨rfl, rfl, rfl, rfl, agrees.mono ?_⟩
      rintro slot (given | ⟨piece, later, -, visited, -⟩)
      · exact given
      · exact absurd visited List.not_mem_nil
  | succ steps inductionHypothesis =>
      cases code with
      | nil => cases ends
      | cons i rest =>
          have sameCall := call?_agrees tables agrees i m.stack
          have performed := perform_agrees tables agrees reads m.stackLimit m.pointer m.stack
          generalize firstEq : i.perform tables.context m.stackLimit m.pointer m.stack first =
            firstEffect at performed
          generalize secondEq : i.perform tables.context m.stackLimit m.pointer m.stack second =
            secondEffect at performed
          cases performed with
          | exit exit after => exact .of_exit stands sameCall firstEq secondEq after
          | proceed stack after =>
              have restEnds := getLast?_of_proceed ends firstEq
              have both : ReadsWithin slots ([i] ++ rest) := reads
              have restReads := (readsWithin_append.mp both).2
              apply RunsAgree.of_proceed stands sameCall firstEq secondEq
              exact inductionHypothesis stands.2 restEnds restReads after

end Machine

end FrameGraph
