import FrameGraph.Proofs.Compiler.Linked
import FrameGraph.Proofs.Machine.Runs

/-!
# Reachable instances

After its compilation an instance is changed by writing value slots, by executing it and
by resizing it.  Each of these keeps the shape of the instance, also when it fails
half-way, so that every reachable instance is linked as the compiled one is.
-/

namespace FrameGraph

namespace Instance

variable {ω : Type}

/-- What a compiled instance can become.  Every frame may start in another world, and
every resize may find another device; a write to a slot that does not exist changes
nothing. -/
inductive Reachable (compiled : Instance ω) : Instance ω → Prop where
  | compiled : Reachable compiled compiled
  | setConstant {i after : Instance ω} {index : Nat} {c : Cell}
      (earlier : Reachable compiled i) (success : i.setConstant index c = .ok after) :
      Reachable compiled after
  | execute {i : Instance ω} (earlier : Reachable compiled i) (world : ω) :
      Reachable compiled (i.execute world).after
  | resize {i : Instance ω} {δ : Type} [Device δ] (earlier : Reachable compiled i)
      (device : δ) (world : ω) (width height : Nat) :
      Reachable compiled (i.resize device world width height).1.owner

/-! ## One call -/

theorem sameShape_setConstant {i after : Instance ω} {index : Nat} {c : Cell}
    (success : i.setConstant index c = .ok after) : after.SameShape i := by
  unfold setConstant at success
  split at success
  · cases success
    exact ⟨rfl, rfl, Array.size_setIfInBounds .., rfl, rfl, rfl⟩
  · cases success

theorem sameShape_execute (i : Instance ω) (world : ω) :
    (i.execute world).after.SameShape i := by
  obtain ⟨limitEq, sizeEq⟩ := Machine.resume_keeps i.tables.tabled.keeps_size i.program
    i.program.size i.machine.start ⟨i.values, world⟩
  exact ⟨rfl, rfl, sizeEq, rfl, rfl, limitEq⟩

section Native

variable {δ : Type} [Device δ]

theorem length_resizeTextures (width height : Nat) (textures : List Texture) (device : δ) :
    (resizeTextures width height textures device).owner.length = textures.length := by
  induction textures generalizing device with
  | nil => rfl
  | cons t rest inductionHypothesis =>
      rw [resizeTextures]
      split
      · rfl
      · next next _ => simp [inductionHypothesis]

theorem signatures_bindTargets (targetOf : PassSlot ω → RenderTarget)
    (passes : List (PassSlot ω)) (world : ω) :
    (bindTargets targetOf passes world).1.map (fun p => p.task.signature) =
      passes.map (fun p => p.task.signature) := by
  induction passes generalizing world with
  | nil => rfl
  | cons p rest inductionHypothesis =>
      rw [bindTargets, List.map_cons, List.map_cons, inductionHypothesis]
      rfl

/-- A resize keeps the shape wherever it stops. -/
theorem sameShape_resize (i : Instance ω) (device : δ) (world : ω) (width height : Nat) :
    (i.resize device world width height).1.owner.SameShape i := by
  have texturesLength := length_resizeTextures width height i.textures.toList device
  unfold resize
  split
  · exact .refl i
  · split
    · next resized =>
        rw [resized] at texturesLength
        exact ⟨rfl, rfl, rfl, texturesLength, rfl, rfl⟩
    · next resized =>
        rw [resized] at texturesLength
        dsimp only
        split
        · exact ⟨rfl, rfl, rfl, texturesLength, rfl, rfl⟩
        · exact ⟨rfl, rfl, rfl, texturesLength, signatures_bindTargets _ _ _, rfl⟩

end Native

/-! ## Any calls -/

theorem Reachable.sameShape {compiled i : Instance ω} (reachable : compiled.Reachable i) :
    i.SameShape compiled := by
  induction reachable with
  | compiled => exact .refl compiled
  | setConstant _ success inductionHypothesis =>
      exact (sameShape_setConstant success).trans inductionHypothesis
  | execute _ world inductionHypothesis =>
      exact (sameShape_execute _ world).trans inductionHypothesis
  | resize _ device world width height inductionHypothesis =>
      exact (sameShape_resize _ device world width height).trans inductionHypothesis

end Instance

end FrameGraph
