import FrameGraph.Proofs.Instance.Resizing
import FrameGraph.Proofs.Resource.Recording

/-!
# Hosts

A host compiles graphs, and its instances share one device.  Whatever is asked of them in
whatever order, and whatever creations the device refuses in between, the slots of the
instances hold the live objects of the device, each object in one slot.
-/

namespace FrameGraph

open Compiler HeadlessBacked

variable {ω δ : Type}

/-! ## One instance -/

namespace Instance

def textureHandles (i : Instance ω) : List Handle :=
  heldHandles Texture.handle i.textures.toList

def framebufferHandles (i : Instance ω) : List Handle :=
  heldHandles Framebuffer.handle i.framebuffers.toList

theorem Bare.textureHandles_eq {i : Instance ω} (bare : i.Bare) : i.textureHandles = [] := by
  refine List.eq_nil_iff_forall_not_mem.mpr fun h member => ?_
  obtain ⟨t, here, held⟩ := mem_heldHandles.mp member
  rw [bare.textures t (Array.mem_toList_iff.mp here)] at held
  cases held

theorem Bare.framebufferHandles_eq {i : Instance ω} (bare : i.Bare) :
    i.framebufferHandles = [] := by
  refine List.eq_nil_iff_forall_not_mem.mpr fun h member => ?_
  obtain ⟨f, here, held⟩ := mem_heldHandles.mp member
  rw [bare.framebuffers f (Array.mem_toList_iff.mp here)] at held
  cases held

section Custody

variable [Device δ] {Holds : List Handle → List Handle → δ → Prop}
  {textures framebuffers : List Handle} {device : δ} (custody : Custody Holds)
  (i : Instance ω)
  (before : Holds (i.textureHandles ++ textures) (i.framebufferHandles ++ framebuffers) device)

include custody before

theorem holds_newTextures (width height : Nat) :
    Holds (heldHandles Texture.handle (i.newTextures device width height).owner ++ textures)
      (i.framebufferHandles ++ framebuffers) (i.newTextures device width height).device :=
  Attempt.holds_each (fun handles => Holds handles (i.framebufferHandles ++ framebuffers))
    (fun kept same => custody.perm_textures kept same)
    (fun t _ _ kept => custody.resize_texture t width height kept) _ before

theorem holds_newFramebuffers (width height : Nat) :
    Holds (heldHandles Texture.handle (i.newTextures device width height).owner ++ textures)
      (heldHandles Framebuffer.handle (i.newFramebuffers device width height).owner ++
        framebuffers) (i.newFramebuffers device width height).device :=
  Attempt.holds_each
    (Holds (heldHandles Texture.handle (i.newTextures device width height).owner ++ textures))
    (fun kept same => custody.perm_framebuffers kept same)
    (fun f _ _ kept => custody.resize_framebuffer f _ width height kept) _
    (i.holds_newTextures custody before width height)

/-- A resize trades the objects of an instance for others, wherever it stops. -/
theorem holds_resize (world : ω) (width height : Nat) :
    Holds ((i.resize device world width height).1.owner.textureHandles ++ textures)
      ((i.resize device world width height).1.owner.framebufferHandles ++ framebuffers)
      (i.resize device world width height).1.device := by
  rcases i.resize_cases device width height world with
    ⟨e, stopped⟩ | ⟨e, stopped⟩ | ⟨e, -, stopped⟩ | ⟨-, -, done⟩
  · rw [stopped]
    exact before
  · rw [stopped]
    exact i.holds_newTextures custody before width height
  · rw [stopped]
    exact i.holds_newFramebuffers custody before width height
  · rw [done]
    exact i.holds_newFramebuffers custody before width height

/-- A release gives up every object of an instance. -/
theorem holds_release (world : ω) :
    Holds textures framebuffers (i.release device world).1 := by
  unfold release
  simp only [← Array.foldl_toList]
  refine holds_foldl_release (fun handles => Holds handles framebuffers)
    (fun t device rest kept => custody.release_texture t kept) i.textures.toList ?_
  exact holds_foldl_release (Holds (i.textureHandles ++ textures))
    (fun f device rest kept => custody.release_framebuffer f kept) i.framebuffers.toList before

end Custody

section View

variable {ε : Type} [Device δ] [Device ε] {view : δ → ε} (shows : DeviceView view)
  (i : Instance ω) (device : δ) (world : ω)

include shows

theorem resize_view (width height : Nat) :
    i.resize (view device) world width height =
      Prod.map (Attempt.seen view) id (i.resize device world width height) := by
  have texturesEq : resizeTextures width height i.textures.toList (view device) =
      (resizeTextures width height i.textures.toList device).seen view := by
    rw [resizeTextures_eq_each, resizeTextures_eq_each]
    exact Attempt.each_view view (fun t between => shows.resize_texture t between width height)
      _ _
  have framebuffersEq (table : Array Texture) (between : δ) :
      resizeFramebuffers table width height i.framebuffers.toList (view between) =
        (resizeFramebuffers table width height i.framebuffers.toList between).seen view := by
    rw [resizeFramebuffers_eq_each, resizeFramebuffers_eq_each]
    exact Attempt.each_view view
      (fun f between => shows.resize_framebuffer f between table width height) _ _
  unfold resize
  split
  · rfl
  · rw [texturesEq]
    rcases resizeTextures width height i.textures.toList device with ⟨textures, between, _ | e⟩
    · dsimp only [Attempt.seen]
      rw [framebuffersEq]
      rcases resizeFramebuffers textures.toArray width height i.framebuffers.toList between with
        ⟨framebuffers, after, _ | e⟩ <;> rfl
    · rfl

theorem release_view :
    (i.release (view device) world).1 = view (i.release device world).1 := by
  unfold release
  dsimp only
  simp only [← Array.foldl_toList]
  rw [← List.foldl_hom view, ← List.foldl_hom view]
  · intro between f
    rw [shows.release_framebuffer]
    rfl
  · intro between t
    rw [shows.release_texture]
    rfl

end View

end Instance

/-! ## Many instances -/

/-- The instances that were not given up yet and the device behind them. -/
structure Host (ω δ : Type) where
  instances : List (Instance ω) := []
  device : δ

/-- What a host can do.  The instance that a call is about is given by its place, and the world
that the call finds can be any. -/
inductive Host.Call (ω : Type) where
  | compile (registry : Registry ω) (config : Config) (g : Graph) (world : ω)
  | setConstant (place slot : Nat) (c : Cell)
  | execute (place : Nat) (world : ω)
  | resize (place : Nat) (world : ω) (width height : Nat)
  | release (place : Nat) (world : ω)

namespace Host

section Calls

variable [Device δ] (host : Host ω δ)

/-- A call that fails keeps what it did before, and a call about no instance does nothing. -/
def call : Call ω → Host ω δ
  | .compile registry config g world =>
    match ((compile registry config g).outcome world).1 with
    | .ok i => { host with instances := i :: host.instances }
    | .error _ => host
  | .setConstant place slot c =>
    match host.instances[place]? with
    | some i =>
      match i.setConstant slot c with
      | .ok after => { host with instances := host.instances.set place after }
      | .error _ => host
    | none => host
  | .execute place world =>
    match host.instances[place]? with
    | some i => { host with instances := host.instances.set place (i.execute world).after }
    | none => host
  | .resize place world width height =>
    match host.instances[place]? with
    | some i =>
      let made := (i.resize host.device world width height).1
      ⟨host.instances.set place made.owner, made.device⟩
    | none => host
  | .release place world =>
    match host.instances[place]? with
    | some i => ⟨host.instances.eraseIdx place, (i.release host.device world).1⟩
    | none => host

def run (calls : List (Call ω)) : Host ω δ := calls.foldl call host

end Calls

/-! ## Custody -/

def textureHandles (host : Host ω δ) : List Handle :=
  host.instances.flatMap Instance.textureHandles

def framebufferHandles (host : Host ω δ) : List Handle :=
  host.instances.flatMap Instance.framebufferHandles

def Keeps (Holds : List Handle → List Handle → δ → Prop) (host : Host ω δ) : Prop :=
  Holds host.textureHandles host.framebufferHandles host.device

end Host

theorem exists_append_of_getElem? {α : Type} {l : List α} {place : Nat} {a : α}
    (here : l[place]? = some a) :
    ∃ earlier later, l = earlier ++ a :: later ∧ earlier.length = place := by
  obtain ⟨inside, rfl⟩ := List.getElem?_eq_some_iff.mp here
  refine ⟨l.take place, l.drop (place + 1), ?_, List.length_take_of_le (Nat.le_of_lt inside)⟩
  rw [List.getElem_cons_drop, List.take_append_drop]

namespace Host

section Kept

variable [Device δ] {Holds : List Handle → List Handle → δ → Prop} (custody : Custody Holds)
  {earlier later : List (Instance ω)} {i : Instance ω} {device : δ}

include custody

/-- It makes no difference at which place an instance stands. -/
theorem keeps_iff_first :
    Keeps Holds ⟨earlier ++ i :: later, device⟩ ↔
      Keeps Holds ⟨i :: (earlier ++ later), device⟩ := by
  have front {handles : Instance ω → List Handle} :
      ((earlier ++ i :: later).flatMap handles).Perm
        ((i :: (earlier ++ later)).flatMap handles) :=
    List.perm_middle.flatMap_right handles
  unfold Keeps
  constructor
  · intro kept
    exact custody.perm_framebuffers (custody.perm_textures kept front) front
  · intro kept
    exact custody.perm_framebuffers (custody.perm_textures kept front.symm) front.symm

/-- A call keeps what it keeps of the instance that it is about, beside all others. -/
theorem keeps_set {host : Host ω δ} {place : Nat} {after : Instance ω}
    (here : host.instances[place]? = some i) (kept : host.Keeps Holds)
    (step : ∀ others, Keeps Holds ⟨i :: others, host.device⟩ →
      Keeps Holds ⟨after :: others, device⟩) :
    Keeps Holds ⟨host.instances.set place after, device⟩ := by
  obtain ⟨instances, before⟩ := host
  obtain ⟨earlier, later, rfl, rfl⟩ := exists_append_of_getElem? here
  rw [List.set_append_right _ _ (Nat.le_refl _), Nat.sub_self, List.set_cons_zero]
  exact (keeps_iff_first custody).mpr (step _ ((keeps_iff_first custody).mp kept))

theorem keeps_eraseIdx {host : Host ω δ} {place : Nat}
    (here : host.instances[place]? = some i) (kept : host.Keeps Holds)
    (step : ∀ others, Keeps Holds ⟨i :: others, host.device⟩ →
      Keeps Holds ⟨others, device⟩) :
    Keeps Holds ⟨host.instances.eraseIdx place, device⟩ := by
  obtain ⟨instances, before⟩ := host
  obtain ⟨earlier, later, rfl, rfl⟩ := exists_append_of_getElem? here
  rw [List.eraseIdx_append_of_length_le (Nat.le_refl _), Nat.sub_self, List.eraseIdx_cons_zero]
  exact step _ ((keeps_iff_first custody).mp kept)

theorem keeps_call {host : Host ω δ} (kept : host.Keeps Holds) (c : Call ω) :
    (host.call c).Keeps Holds := by
  cases c with
  | compile registry config g world =>
      rw [call]
      split
      · next i success =>
          -- A new instance brings no objects along.
          have made : Build.Succeeds (compile registry config g) world i
              ((compile registry config g).outcome world).2 := Prod.ext success rfl
          obtain ⟨_, _, _, _, _, bare⟩ := Instance.equipped_of_compile made
          unfold Keeps textureHandles framebufferHandles at kept ⊢
          rw [List.flatMap_cons, List.flatMap_cons, bare.textureHandles_eq,
            bare.framebufferHandles_eq]
          exact kept
      · exact kept
  | setConstant place slot c =>
      rw [call]
      split
      · next i here =>
          split
          · next after success =>
              obtain rfl := Instance.eq_of_setConstant success
              exact keeps_set custody here kept fun _ beside => beside
          · exact kept
      · exact kept
  | execute place world =>
      rw [call]
      split
      · next i here => exact keeps_set custody here kept fun _ beside => beside
      · exact kept
  | resize place world width height =>
      rw [call]
      split
      · next i here =>
          exact keeps_set custody here kept fun _ beside =>
            i.holds_resize custody beside world width height
      · exact kept
  | release place world =>
      rw [call]
      split
      · next i here =>
          exact keeps_eraseIdx custody here kept fun _ beside =>
            i.holds_release custody beside world
      · exact kept

theorem keeps_run {host : Host ω δ} (kept : host.Keeps Holds) (calls : List (Call ω)) :
    (host.run calls).Keeps Holds := by
  unfold run
  induction calls generalizing host with
  | nil => exact kept
  | cons c rest inductionHypothesis => exact inductionHypothesis (keeps_call custody kept c)

end Kept

/-! ## Views -/

section View

variable {ε : Type} (view : δ → ε)

/-- A host with the device that its device shows. -/
def seen (host : Host ω δ) : Host ω ε := ⟨host.instances, view host.device⟩

variable [Device δ] [Device ε] {view} (shows : DeviceView view)

include shows

theorem call_view (host : Host ω δ) (c : Call ω) :
    (host.seen view).call c = (host.call c).seen view := by
  cases c with
  | compile registry config g world =>
      simp only [call, seen]
      split <;> rfl
  | setConstant place slot c =>
      simp only [call, seen]
      split
      · split <;> rfl
      · rfl
  | execute place world =>
      simp only [call, seen]
      split <;> rfl
  | resize place world width height =>
      simp only [call, seen, Instance.resize_view shows]
      split <;> rfl
  | release place world =>
      simp only [call, seen, Instance.release_view shows]
      split <;> rfl

/-- A host does not notice which of the two devices it has. -/
theorem run_view (host : Host ω δ) (calls : List (Call ω)) :
    (host.seen view).run calls = (host.run calls).seen view :=
  List.foldl_hom (seen view) fun host c => call_view shows host c

end View

end Host

/-! ## Guarded devices -/

/-- Whatever creations the device refuses and whatever a host does, its instances hold exactly
the live objects of the device, each in one slot, and nothing else was ever destroyed. -/
theorem Host.live_objects_are_held
    (refusal? : Nat → HeadlessDevice → CreationRequest → Option String)
    (calls : List (Host.Call ω)) :
    let device : GuardedDevice := { refusal? := refusal? }
    let host : Host ω GuardedDevice := Host.run { device := device } calls
    let recorded : Host ω (Recorded GuardedDevice) :=
      Host.run { device := { device := device } } calls
    recorded.seen Recorded.device = host ∧
      (∀ h, h.number ∈ host.device.device.textures ↔ h ∈ host.textureHandles) ∧
      (∀ h, h.number ∈ host.device.device.framebuffers ↔ h ∈ host.framebufferHandles) ∧
      (host.textureHandles ++ host.framebufferHandles).Nodup ∧
      (∀ entry ∈ recorded.device.destroyed, entry.2.device.Live entry.1) ∧
      (host.instances = [] → host.device.device.textures.isEmpty = true ∧
        host.device.device.framebuffers.isEmpty = true) := by
  intro device host recorded
  have same : recorded.seen Recorded.device = host :=
    (Host.run_view Recorded.shows_device _ calls).symm
  have nothing : Host.Keeps (fun textures framebuffers (r : Recorded GuardedDevice) =>
      (backing r).Accounts textures framebuffers ∧ r.Sound)
      ({ device := { device := device } } : Host ω (Recorded GuardedDevice)) :=
    ⟨HeadlessDevice.Accounts.start, fun entry member => absurd member List.not_mem_nil⟩
  obtain ⟨accounts, sound⟩ := Host.keeps_run Recorded.custody nothing calls
  have accounts : host.device.device.Accounts host.textureHandles host.framebufferHandles := by
    rw [← same]
    exact accounts
  refine ⟨same, fun h => (accounts.liveTextures.live h).symm,
    fun h => (accounts.liveFramebuffers.live h).symm, accounts.nodup, sound, ?_⟩
  intro empty
  have noTextures : host.textureHandles = [] := by rw [Host.textureHandles, empty]; rfl
  have noFramebuffers : host.framebufferHandles = [] := by
    rw [Host.framebufferHandles, empty]
    rfl
  rw [noTextures, noFramebuffers] at accounts
  exact ⟨accounts.liveTextures.isEmpty, accounts.liveFramebuffers.isEmpty⟩

end FrameGraph
