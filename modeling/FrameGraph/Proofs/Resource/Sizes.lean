import FrameGraph.Proofs.Resource.Custody
import Mathlib.Data.List.Perm.Basic

/-!
# Recorded sizes

Texture slots and framebuffer slots record a size beside their handle.  Whatever is resized and
released in whatever order, and whatever the device refuses, a slot with a handle holds a live
object of the recorded size.  A texture slot without a handle records no size.  A framebuffer slot
keeps the size of its last native framebuffer, also when that is gone.
-/

namespace FrameGraph

open HeadlessBacked (backing)

/-! ## Filed owners -/

/-- The owners hold different handles, all of them handed out before, and the table has under
each handle a record that fits its owner. -/
structure Filed {α ρ : Type} (handle : α → Option Handle) (Fits : α → ρ → Prop)
    (table : HandleTable ρ) (next : Nat) (owners : List α) : Prop where
  once : (heldHandles handle owners).Nodup
  old : ∀ h ∈ heldHandles handle owners, h.number < next
  fits : ∀ a ∈ owners, ∀ h, handle a = some h →
    ∃ record, table[h.number]? = some record ∧ Fits a record

namespace Filed

variable {α ρ : Type} {handle : α → Option Handle} {Fits : α → ρ → Prop}
  {table after : HandleTable ρ} {next later : Nat} {owners others rest : List α} {a b : α}

theorem of_bare (bare : ∀ a ∈ owners, handle a = none) :
    Filed handle Fits table next owners := by
  have noHandles : heldHandles handle owners = [] := by
    refine List.eq_nil_iff_forall_not_mem.mpr fun h member => ?_
    obtain ⟨a, here, held⟩ := mem_heldHandles.mp member
    cases (bare a here).symm.trans held
  refine ⟨noHandles ▸ List.nodup_nil, fun h member => ?_, fun a member h held => ?_⟩
  · rw [noHandles] at member
    cases member
  · cases (bare a member).symm.trans held

theorem perm (filed : Filed handle Fits table next owners) (same : owners.Perm others) :
    Filed handle Fits table next others where
  once := (same.flatMap_right fun a => (handle a).toList).nodup_iff.mp filed.once
  old h member := by
    refine filed.old h ?_
    exact (same.flatMap_right fun a => (handle a).toList).mem_iff.mpr member
  fits a member := filed.fits a (same.mem_iff.mpr member)

theorem mono (filed : Filed handle Fits table next owners) (grows : next ≤ later) :
    Filed handle Fits table later owners :=
  ⟨filed.once, fun h member => Nat.lt_of_lt_of_le (filed.old h member) grows, filed.fits⟩

/-- What is done to an owner in front of any others can be done to it at its place. -/
theorem set (filed : Filed handle Fits table next owners) {place : Nat}
    (here : owners[place]? = some a)
    (step : ∀ rest, Filed handle Fits table next (a :: rest) →
      Filed handle Fits after later (b :: rest)) :
    Filed handle Fits after later (owners.set place b) := by
  obtain ⟨inside, rfl⟩ := List.getElem?_eq_some_iff.mp here
  have front := filed.perm (List.getElem_cons_eraseIdx_perm inside).symm
  exact (step _ front).perm (List.set_perm_cons_eraseIdx inside b).symm

/-- An owner gives up its handle. -/
theorem giveUp (filed : Filed handle Fits table next (a :: rest)) (bare : handle b = none) :
    Filed handle Fits
      (match handle a with
      | some h => table.erase h.number
      | none => table) next (b :: rest) := by
  have once := filed.once
  have old := filed.old
  rw [heldHandles_cons] at once old
  have bHandles : heldHandles handle (b :: rest) = heldHandles handle rest := by
    rw [heldHandles_cons, bare, Option.toList_none, List.nil_append]
  refine ⟨?_, ?_, ?_⟩
  · rw [bHandles]
    exact (List.nodup_append.mp once).2.1
  · rw [bHandles]
    exact fun h member => old h (List.mem_append_right _ member)
  · intro c member h held
    rcases List.mem_cons.mp member with rfl | inRest
    · cases bare.symm.trans held
    · obtain ⟨record, found, fits⟩ := filed.fits c (List.mem_cons_of_mem a inRest) h held
      refine ⟨record, ?_, fits⟩
      cases given : handle a with
      | none => exact found
      | some g =>
          have different : g.number ≠ h.number := by
            intro same
            have mine : g ∈ (handle a).toList := by
              rw [given]
              exact List.mem_cons_self
            have others : h ∈ heldHandles handle rest := mem_heldHandles.mpr ⟨c, inRest, held⟩
            exact (List.nodup_append.mp once).2.2 g mine h others (congrArg Handle.mk same)
          simpa [HandleTable.getElem?_erase, different] using found

/-- An owner without a handle gets the next one. -/
theorem take (filed : Filed handle Fits table next (a :: rest)) (bare : handle a = none)
    (new : handle b = some ⟨next⟩) {record : ρ} (suits : Fits b record) :
    Filed handle Fits (table.insert next record) (next + 1) (b :: rest) := by
  have once := filed.once
  have old := filed.old
  rw [heldHandles_cons, bare, Option.toList_none, List.nil_append] at once old
  have bHandles : heldHandles handle (b :: rest) = ⟨next⟩ :: heldHandles handle rest := by
    rw [heldHandles_cons, new, Option.toList_some, List.singleton_append]
  refine ⟨?_, ?_, ?_⟩
  · rw [bHandles, List.nodup_cons]
    exact ⟨fun member => Nat.lt_irrefl next (old _ member), once⟩
  · rw [bHandles]
    refine List.forall_mem_cons.mpr ⟨Nat.lt_succ_self next, fun h member => ?_⟩
    exact Nat.lt_succ_of_lt (old h member)
  · intro c member h held
    rcases List.mem_cons.mp member with rfl | inRest
    · cases new.symm.trans held
      exact ⟨record, by rw [HandleTable.getElem?_insert, if_pos rfl], suits⟩
    · obtain ⟨other, found, fits⟩ := filed.fits c (List.mem_cons_of_mem a inRest) h held
      have different : next ≠ h.number :=
        Nat.ne_of_gt (old h (mem_heldHandles.mpr ⟨c, inRest, held⟩))
      exact ⟨other, by simpa [HandleTable.getElem?_insert, different] using found, fits⟩

end Filed

variable {δ : Type} [Device δ]

/-! ## Texture slots -/

namespace Texture

/-- The storage of a slot has its format and its size. -/
def HasStorage (t : Texture) (record : TextureRecord) : Prop :=
  record = ⟨t.format, t.width, t.height⟩

variable [HeadlessBacked δ] (t : Texture) (device : δ) (width height : Nat) {rest : List Texture}

/-- A resize ends with a slot that was given up or with the next object. -/
theorem resize_outcome :
    (∃ e after, t.resize device width height = ⟨{ format := t.format }, after, some e⟩ ∧
      backing after = backing (t.release device).2) ∨
    ∃ after, t.resize device width height =
        ⟨⟨t.format, width, height, some ⟨(backing (t.release device).2).nextHandle⟩⟩, after, none⟩ ∧
      backing after = ((backing (t.release device).2).createTexture t.format width height).2 := by
  rcases createTexture_cases (t.release device).2 t.format width height with
    ⟨e, after, failed, same⟩ | ⟨after, created, deviceEq⟩
  · exact Or.inl ⟨e, after, resize_of_error failed, same⟩
  · exact Or.inr ⟨after, resize_of_ok created, deviceEq⟩

theorem framebuffers_release :
    (backing (t.release device).2).framebuffers = (backing device).framebuffers := by
  rw [t.backing_release device]
  cases t.handle <;> rfl

theorem nextHandle_release :
    (backing (t.release device).2).nextHandle = (backing device).nextHandle := by
  rw [t.backing_release device]
  cases t.handle <;> rfl

theorem framebuffers_resize :
    (backing (t.resize device width height).device).framebuffers =
      (backing device).framebuffers := by
  rcases t.resize_outcome device width height with ⟨e, after, made, same⟩ | ⟨after, made, same⟩
  · rw [made, same, framebuffers_release]
  · rw [made, same]
    exact t.framebuffers_release device

variable {device}

theorem filed_release
    (filed : Filed handle HasStorage (backing device).textures (backing device).nextHandle
      (t :: rest)) :
    Filed handle HasStorage (backing (t.release device).2).textures
      (backing (t.release device).2).nextHandle ((t.release device).1 :: rest) := by
  have given := filed.giveUp (b := (t.release device).1) rfl
  rw [t.nextHandle_release device, t.backing_release device]
  cases held : t.handle <;> rw [held] at given <;> exact given

theorem filed_resize
    (filed : Filed handle HasStorage (backing device).textures (backing device).nextHandle
      (t :: rest)) :
    Filed handle HasStorage (backing (t.resize device width height).device).textures
      (backing (t.resize device width height).device).nextHandle
      ((t.resize device width height).owner :: rest) := by
  have released := t.filed_release filed
  rcases t.resize_outcome device width height with ⟨e, after, made, same⟩ | ⟨after, made, same⟩
  · rw [made, same]
    exact released
  · rw [made, same]
    exact released.take rfl rfl rfl

end Texture

/-! ## Framebuffer slots -/

namespace Framebuffer

def size (f : Framebuffer) : Nat × Nat := (f.width, f.height)

/-- The native framebuffer of a slot has its size. -/
def HasStorage (f : Framebuffer) (record : FramebufferRecord) : Prop :=
  record.width = f.width ∧ record.height = f.height

variable [HeadlessBacked δ] (f : Framebuffer) (device : δ) (table : Array Texture)
  (width height : Nat) {rest : List Framebuffer}

theorem resize_outcome :
    (∃ e after, f.resize device table width height = ⟨{ f with handle := none }, after, some e⟩ ∧
      backing after = backing (f.release device).2) ∨
    ∃ attachments after, f.resize device table width height =
        ⟨⟨f.textures, width, height, some ⟨(backing (f.release device).2).nextHandle⟩⟩, after,
          none⟩ ∧
      backing after = ⟨(backing (f.release device).2).nextHandle + 1,
        (backing (f.release device).2).textures,
        (backing (f.release device).2).framebuffers.insert
          (backing (f.release device).2).nextHandle ⟨attachments, width, height⟩⟩ := by
  rcases f.resize_cases device table width height with ⟨e, stopped⟩ | ⟨attachments, -, asked⟩
  · exact Or.inl ⟨e, _, stopped, rfl⟩
  · rcases createFramebuffer_cases (f.release device).2 attachments width height with
      ⟨e, after, failed, same⟩ | ⟨after, created, deviceEq⟩
    · rw [failed] at asked
      exact Or.inl ⟨e, after, asked, same⟩
    · rw [created] at asked
      exact Or.inr ⟨attachments, after, asked, deviceEq⟩

theorem textures_release :
    (backing (f.release device).2).textures = (backing device).textures := by
  rw [f.backing_release device]
  cases f.handle <;> rfl

theorem nextHandle_release :
    (backing (f.release device).2).nextHandle = (backing device).nextHandle := by
  rw [f.backing_release device]
  cases f.handle <;> rfl

variable {device}

theorem filed_release
    (filed : Filed handle HasStorage (backing device).framebuffers (backing device).nextHandle
      (f :: rest)) :
    Filed handle HasStorage (backing (f.release device).2).framebuffers
      (backing (f.release device).2).nextHandle ((f.release device).1 :: rest) := by
  have given := filed.giveUp (b := (f.release device).1) rfl
  rw [f.nextHandle_release device, f.backing_release device]
  cases held : f.handle <;> rw [held] at given <;> exact given

theorem filed_resize
    (filed : Filed handle HasStorage (backing device).framebuffers (backing device).nextHandle
      (f :: rest)) :
    Filed handle HasStorage (backing (f.resize device table width height).device).framebuffers
      (backing (f.resize device table width height).device).nextHandle
      ((f.resize device table width height).owner :: rest) := by
  have released := f.filed_release filed
  rcases f.resize_outcome device table width height with
    ⟨e, after, made, same⟩ | ⟨attachments, after, made, same⟩
  · rw [made, same]
    exact released
  · rw [made, same]
    exact released.take rfl rfl ⟨rfl, rfl⟩

end Framebuffer

/-! ## Slots that share a device -/

/-- Texture slots and framebuffer slots with the device behind them. -/
structure Stock (δ : Type) where
  textures : List Texture
  framebuffers : List Framebuffer
  device : δ

namespace Stock

/-- What can be asked of a slot, which is given by its place.  The table of a framebuffer is made
of the texture slots as they are by then, or of any others. -/
inductive Call where
  | resizeTexture (place width height : Nat)
  | releaseTexture (place : Nat)
  | resizeFramebuffer (place : Nat) (table : List Texture → Array Texture) (width height : Nat)
  | releaseFramebuffer (place : Nat)

/-- Slots that were never sized. -/
def unsized (formats : List TextureFormat) (slots : List (List Nat)) (device : δ) : Stock δ where
  textures := formats.map fun format => { format := format }
  framebuffers := slots.map fun textures => { textures := textures }
  device := device

/-- What a call leaves behind, with the error if it failed.  A call about no slot does nothing. -/
def call (stock : Stock δ) : Call → Option Error × Stock δ
  | .resizeTexture place width height =>
    match stock.textures[place]? with
    | some t =>
      let made := t.resize stock.device width height
      (made.failure, ⟨stock.textures.set place made.owner, stock.framebuffers, made.device⟩)
    | none => (none, stock)
  | .releaseTexture place =>
    match stock.textures[place]? with
    | some t =>
      let (t, device) := t.release stock.device
      (none, ⟨stock.textures.set place t, stock.framebuffers, device⟩)
    | none => (none, stock)
  | .resizeFramebuffer place table width height =>
    match stock.framebuffers[place]? with
    | some f =>
      let made := f.resize stock.device (table stock.textures) width height
      (made.failure, ⟨stock.textures, stock.framebuffers.set place made.owner, made.device⟩)
    | none => (none, stock)
  | .releaseFramebuffer place =>
    match stock.framebuffers[place]? with
    | some f =>
      let (f, device) := f.release stock.device
      (none, ⟨stock.textures, stock.framebuffers.set place f, device⟩)
    | none => (none, stock)

/-- Calls in order, each with its error. -/
def run (stock : Stock δ) : List Call → List (Call × Option Error) × Stock δ
  | [] => ([], stock)
  | c :: rest =>
    let (failure, after) := stock.call c
    let (events, last) := after.run rest
    ((c, failure) :: events, last)

/-- The size that a call gave to the framebuffer slot at a place. -/
def sizeGiven? (place : Nat) : Call × Option Error → Option (Nat × Nat)
  | (.resizeFramebuffer other _ width height, none) =>
    if other = place then some (width, height) else none
  | _ => none

/-- The size of the last successful resize of the framebuffer slot at a place, zero before the
first one. -/
def lastSize (place : Nat) (events : List (Call × Option Error)) : Nat × Nat :=
  (events.filterMap (sizeGiven? place)).getLastD (0, 0)

/-! ## Storage of the recorded size -/

/-- Every slot with a handle has an object of its size, and texture slots without one have no
size. -/
structure Sound [HeadlessBacked δ] (stock : Stock δ) : Prop where
  textures : Filed Texture.handle Texture.HasStorage (backing stock.device).textures
    (backing stock.device).nextHandle stock.textures
  framebuffers : Filed Framebuffer.handle Framebuffer.HasStorage
    (backing stock.device).framebuffers (backing stock.device).nextHandle stock.framebuffers
  empty : ∀ t ∈ stock.textures, t.handle = none → t.width = 0 ∧ t.height = 0

section Calls

variable [HeadlessBacked δ]

theorem sound_unsized (formats : List TextureFormat) (slots : List (List Nat)) (device : δ) :
    (unsized formats slots device).Sound where
  textures := by
    refine .of_bare fun t member => ?_
    obtain ⟨format, -, rfl⟩ := List.mem_map.mp member
    rfl
  framebuffers := by
    refine .of_bare fun f member => ?_
    obtain ⟨textures, -, rfl⟩ := List.mem_map.mp member
    rfl
  empty t member _ := by
    obtain ⟨format, -, rfl⟩ := List.mem_map.mp member
    exact ⟨rfl, rfl⟩

/-- A texture slot is replaced, and the framebuffers stay as they are. -/
theorem Sound.setTexture {stock : Stock δ} (sound : stock.Sound) {place : Nat} {t after : Texture}
    {device : δ} (here : stock.textures[place]? = some t)
    (step : ∀ rest,
      Filed Texture.handle Texture.HasStorage (backing stock.device).textures
        (backing stock.device).nextHandle (t :: rest) →
      Filed Texture.handle Texture.HasStorage (backing device).textures
        (backing device).nextHandle (after :: rest))
    (sameFramebuffers : (backing device).framebuffers = (backing stock.device).framebuffers)
    (grows : (backing stock.device).nextHandle ≤ (backing device).nextHandle)
    (empty : after.handle = none → after.width = 0 ∧ after.height = 0) :
    Sound ⟨stock.textures.set place after, stock.framebuffers, device⟩ where
  textures := sound.textures.set here step
  framebuffers := by
    rw [sameFramebuffers]
    exact sound.framebuffers.mono grows
  empty other member := by
    rcases List.mem_or_eq_of_mem_set member with old | rfl
    · exact sound.empty other old
    · exact empty

/-- A framebuffer slot is replaced, and the textures stay as they are. -/
theorem Sound.setFramebuffer {stock : Stock δ} (sound : stock.Sound) {place : Nat}
    {f after : Framebuffer} {device : δ} (here : stock.framebuffers[place]? = some f)
    (step : ∀ rest,
      Filed Framebuffer.handle Framebuffer.HasStorage (backing stock.device).framebuffers
        (backing stock.device).nextHandle (f :: rest) →
      Filed Framebuffer.handle Framebuffer.HasStorage (backing device).framebuffers
        (backing device).nextHandle (after :: rest))
    (sameTextures : (backing device).textures = (backing stock.device).textures)
    (grows : (backing stock.device).nextHandle ≤ (backing device).nextHandle) :
    Sound ⟨stock.textures, stock.framebuffers.set place after, device⟩ where
  textures := by
    rw [sameTextures]
    exact sound.textures.mono grows
  framebuffers := sound.framebuffers.set here step
  empty := sound.empty

theorem Sound.call {stock : Stock δ} (sound : stock.Sound) (c : Call) :
    (stock.call c).2.Sound := by
  cases c with
  | resizeTexture place width height =>
      rw [Stock.call]
      split
      · next t here =>
          refine sound.setTexture here (fun rest filed => t.filed_resize width height filed)
            (t.framebuffers_resize _ width height) (t.renewed_resize width height _).grows ?_
          intro bare
          rcases t.resize_outcome stock.device width height with
            ⟨e, after, made, -⟩ | ⟨after, made, -⟩
          · rw [made]
            exact ⟨rfl, rfl⟩
          · rw [made] at bare
            cases bare
      · exact sound
  | releaseTexture place =>
      rw [Stock.call]
      split
      · next t here =>
          exact sound.setTexture here (fun rest filed => t.filed_release filed)
            (t.framebuffers_release _) (Nat.le_of_eq (t.nextHandle_release _).symm)
            fun _ => ⟨rfl, rfl⟩
      · exact sound
  | resizeFramebuffer place table width height =>
      rw [Stock.call]
      split
      · next f here =>
          exact sound.setFramebuffer here (fun rest filed => f.filed_resize _ width height filed)
            (f.backing_textures_resize _ width height _)
            (f.renewed_resize _ width height _).grows
      · exact sound
  | releaseFramebuffer place =>
      rw [Stock.call]
      split
      · next f here =>
          exact sound.setFramebuffer here (fun rest filed => f.filed_release filed)
            (f.textures_release _) (Nat.le_of_eq (f.nextHandle_release _).symm)
      · exact sound

theorem Sound.run {stock : Stock δ} (sound : stock.Sound) (calls : List Call) :
    (stock.run calls).2.Sound := by
  induction calls generalizing stock with
  | nil => exact sound
  | cons c rest inductionHypothesis => exact inductionHypothesis (sound.call c)

/-! ## Sizes of framebuffer slots -/

/-- Only a successful resize changes the size of a framebuffer slot. -/
theorem size_call (stock : Stock δ) (c : Call) (place : Nat) :
    ((stock.call c).2.framebuffers[place]?).map Framebuffer.size =
      (stock.framebuffers[place]?).map fun f =>
        (sizeGiven? place (c, (stock.call c).1)).getD f.size := by
  cases c with
  | resizeTexture other width height =>
      rw [call]
      split <;> rfl
  | releaseTexture other =>
      rw [call]
      split <;> rfl
  | resizeFramebuffer other table width height =>
      by_cases same : other = place
      · subst same
        rw [call]
        split
        · next f here =>
            obtain ⟨inside, rfl⟩ := List.getElem?_eq_some_iff.mp here
            rw [List.getElem?_set_self inside, here]
            rcases stock.framebuffers[other].resize_outcome stock.device (table stock.textures)
                width height with ⟨e, after, made, -⟩ | ⟨attachments, after, made, -⟩
            · rw [made]
              rfl
            · simp only [made, sizeGiven?, Framebuffer.size, if_pos, Option.map_some,
                Option.getD_some]
        · next missing => rw [missing, Option.map_none, Option.map_none]
      · have notGiven (failure : Option Error) :
            sizeGiven? place (.resizeFramebuffer other table width height, failure) = none := by
          cases failure with
          | none => exact if_neg same
          | some e => rfl
        rw [call]
        split <;> simp only [notGiven, List.getElem?_set_ne same, Option.getD_none]
  | releaseFramebuffer other =>
      rw [call]
      split
      · next f here =>
          obtain ⟨inside, rfl⟩ := List.getElem?_eq_some_iff.mp here
          by_cases same : other = place
          · subst same
            rw [List.getElem?_set_self inside, here]
            rfl
          · rw [List.getElem?_set_ne same]
            rfl
      · rfl

/-- A framebuffer slot has the size of the last successful resize. -/
theorem size_run (stock : Stock δ) (calls : List Call) (place : Nat) :
    ((stock.run calls).2.framebuffers[place]?).map Framebuffer.size =
      (stock.framebuffers[place]?).map fun f =>
        ((stock.run calls).1.filterMap (sizeGiven? place)).getLastD f.size := by
  induction calls generalizing stock with
  | nil => rfl
  | cons c rest inductionHypothesis =>
      let after := (stock.call c).2
      let given := sizeGiven? place (c, (stock.call c).1)
      have last (size : Nat × Nat) :
          ((stock.run (c :: rest)).1.filterMap (sizeGiven? place)).getLastD size =
            ((after.run rest).1.filterMap (sizeGiven? place)).getLastD (given.getD size) := by
        rw [run, List.filterMap_cons]
        split
        · next kept => rw [show given = none from kept, Option.getD_none]
        · next new sized => rw [show given = some new from sized, Option.getD_some,
            List.getLastD_cons]
      calc ((after.run rest).2.framebuffers[place]?).map Framebuffer.size
          = ((after.framebuffers[place]?).map Framebuffer.size).map fun size =>
              ((after.run rest).1.filterMap (sizeGiven? place)).getLastD size := by
            rw [inductionHypothesis, Option.map_map]
            rfl
        _ = ((stock.framebuffers[place]?).map fun f => given.getD f.size).map fun size =>
              ((after.run rest).1.filterMap (sizeGiven? place)).getLastD size := by
            rw [stock.size_call c place]
        _ = _ := by
            rw [Option.map_map]
            exact congrArg (Option.map · _) (funext fun f => (last f.size).symm)

end Calls

end Stock

/-- Whatever slots are resized and released in whatever order, and whatever the device refuses,
every handle belongs to a live object that has the size in its slot.  A texture slot without a
handle has no size, and a framebuffer slot has the size of its last successful resize, whether
that framebuffer is still there or not. -/
theorem recorded_sizes_match_storage (formats : List TextureFormat) (slots : List (List Nat))
    (device : GuardedDevice) (calls : List Stock.Call) :
    let (events, stock) := (Stock.unsized formats slots device).run calls
    (∀ t ∈ stock.textures,
      match t.handle with
      | none => t.width = 0 ∧ t.height = 0
      | some h => stock.device.device.textures[h.number]? = some ⟨t.format, t.width, t.height⟩) ∧
    ∀ place f, stock.framebuffers[place]? = some f →
      (∀ h, f.handle = some h → ∃ attachments,
        stock.device.device.framebuffers[h.number]? = some ⟨attachments, f.width, f.height⟩) ∧
      f.size = Stock.lastSize place events := by
  let start := Stock.unsized formats slots device
  have sound := (Stock.sound_unsized formats slots device).run calls
  show (∀ t ∈ (start.run calls).2.textures, _) ∧ _
  refine ⟨fun t member => ?_, fun place f here => ⟨fun h held => ?_, ?_⟩⟩
  · split
    · next bare => exact sound.empty t member bare
    · next h held =>
        obtain ⟨record, found, fits⟩ := sound.textures.fits t member h held
        exact found.trans (congrArg some fits)
  · obtain ⟨⟨attachments, width, height⟩, found, sameWidth, sameHeight⟩ :=
      sound.framebuffers.fits f (List.mem_of_getElem? here) h held
    exact ⟨attachments, sameWidth ▸ sameHeight ▸ found⟩
  · have sizes := start.size_run calls place
    rw [here, Option.map_some] at sizes
    obtain ⟨first, present, last⟩ := Option.map_eq_some_iff.mp sizes.symm
    obtain ⟨textures, -, rfl⟩ := List.mem_map.mp (List.mem_of_getElem? present)
    exact last.symm

/-- A framebuffer that is released keeps the size it had. -/
example :
    let (_, stock) := (Stock.unsized [.rgba8] [[0]] ({} : GuardedDevice)).run
      [.resizeTexture 0 4 4, .resizeFramebuffer 0 List.toArray 4 4, .releaseFramebuffer 0,
        .releaseTexture 0]
    stock.framebuffers = [{ textures := [0], width := 4, height := 4 }] ∧
      stock.textures = [{ format := .rgba8 }] := by
  decide

end FrameGraph
