import FrameGraph.Cell

/-!
# Operand stacks

A stack keeps its depth beside its cells, so that asking for room costs the same on a
deep stack as on a shallow one.  Two stacks with the same cells are the same stack.
-/

namespace FrameGraph

/-- Cells, the top one first, with their number. -/
structure Stack where
  cells : List Cell
  depth : Nat
  depth_eq : depth = cells.length
  deriving DecidableEq, Repr

namespace Stack

@[ext]
theorem ext {s t : Stack} (h : s.cells = t.cells) : s = t := by
  obtain ⟨cells, depth, depth_eq⟩ := s
  obtain ⟨others, _, others_eq⟩ := t
  subst depth_eq others_eq
  simp only at h
  subst h
  rfl

/-! ## Building -/

def ofList (cells : List Cell) : Stack := ⟨cells, cells.length, rfl⟩

def empty : Stack := ofList []

def isEmpty (s : Stack) : Bool := s.cells.isEmpty

def push (s : Stack) (c : Cell) : Stack :=
  ⟨c :: s.cells, s.depth + 1, by rw [s.depth_eq, List.length_cons]⟩

/-- Puts cells on top, of which the first becomes the top. -/
def pushAll (s : Stack) (cells : List Cell) : Stack :=
  ⟨cells ++ s.cells, cells.length + s.depth, by rw [s.depth_eq, List.length_append]⟩

/-! ## Taking apart -/

def pop? : Stack → Option (Cell × Stack)
  | ⟨[], _, _⟩ => none
  | ⟨c :: rest, depth, depth_eq⟩ =>
    some (c, ⟨rest, depth - 1, by rw [depth_eq, List.length_cons, Nat.add_sub_cancel]⟩)

/-- The uppermost cells, the top one first. -/
def top (s : Stack) (count : Nat) : List Cell := s.cells.take count

def drop (s : Stack) (count : Nat) : Stack :=
  ⟨s.cells.drop count, s.depth - count, by rw [s.depth_eq, List.length_drop]⟩

/-! ## Cells -/

@[simp]
theorem cells_ofList (cells : List Cell) : (ofList cells).cells = cells := rfl

@[simp]
theorem cells_empty : empty.cells = [] := rfl

@[simp]
theorem cells_push (s : Stack) (c : Cell) : (s.push c).cells = c :: s.cells := rfl

@[simp]
theorem cells_pushAll (s : Stack) (cells : List Cell) :
    (s.pushAll cells).cells = cells ++ s.cells := rfl

@[simp]
theorem cells_drop (s : Stack) (count : Nat) :
    (s.drop count).cells = s.cells.drop count := rfl

@[simp]
theorem pop?_push (s : Stack) (c : Cell) : (s.push c).pop? = some (c, s) := rfl

theorem pop?_eq_some_iff (s : Stack) (c : Cell) (rest : Stack) :
    s.pop? = some (c, rest) ↔ s.cells = c :: rest.cells := by
  constructor
  · intro h
    obtain ⟨cells, depth, depth_eq⟩ := s
    cases cells with
    | nil => simp [pop?] at h
    | cons head tail =>
      simp only [pop?, Option.some.injEq, Prod.mk.injEq] at h
      obtain ⟨rfl, rfl⟩ := h
      rfl
  · intro h
    have same : s = rest.push c := Stack.ext h
    rw [same, pop?_push]

end Stack

end FrameGraph
