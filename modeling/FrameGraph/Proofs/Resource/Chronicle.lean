import FrameGraph.Proofs.Resource.Completeness
import FrameGraph.Proofs.Resource.Recording
import Mathlib.Data.List.Nodup

/-!
# Chronicles of a headless device

What a headless device holds can be told from what was done to it.  Its handles are counted over
both kinds of objects, and a table has the objects of its kind that were created and that no
call of the same kind destroyed later.
-/

namespace FrameGraph

/-! ## Calls -/

inductive DeviceCall where
  | create (request : CreationRequest)
  | destroy (object : NativeObject)

/-- What a call did. -/
inductive DeviceEvent where
  | created (request : CreationRequest) (h : Handle)
  | refused (request : CreationRequest) (e : Error)
  | destroyed (object : NativeObject)
  deriving DecidableEq, Repr

/-- The handle that was handed out, if there was one. -/
def DeviceEvent.handle? : DeviceEvent → Option Handle
  | created _ h => some h
  | _ => none

/-- The handles that were handed out, in order. -/
def handedOut (events : List DeviceEvent) : List Handle := events.filterMap DeviceEvent.handle?

theorem handedOut_concat (events : List DeviceEvent) (event : DeviceEvent) :
    handedOut (events ++ [event]) = handedOut events ++ event.handle?.toList := by
  unfold handedOut
  rw [List.filterMap_append]
  cases event <;> rfl

namespace HeadlessDevice

def create (d : HeadlessDevice) : CreationRequest → Except Error Handle × HeadlessDevice
  | .texture format width height => Device.createTexture d format width height
  | .framebuffer attachments width height => Device.createFramebuffer d attachments width height

def destroy (d : HeadlessDevice) : NativeObject → HeadlessDevice
  | .texture h => Device.destroyTexture d h
  | .framebuffer h => Device.destroyFramebuffer d h

def call (d : HeadlessDevice) : DeviceCall → DeviceEvent × HeadlessDevice
  | .create request =>
    match d.create request with
    | (.ok h, after) => (.created request h, after)
    | (.error e, after) => (.refused request e, after)
  | .destroy object => (.destroyed object, d.destroy object)

/-- Calls in turn, with what each of them did. -/
def run (d : HeadlessDevice) : List DeviceCall → List DeviceEvent × HeadlessDevice
  | [] => ([], d)
  | c :: rest => ((d.call c).1 :: (run (d.call c).2 rest).1, (run (d.call c).2 rest).2)

/-- A creation either takes the next handle or leaves the device as it is. -/
theorem create_cases (d : HeadlessDevice) (request : CreationRequest) :
    (∃ e, d.create request = (.error e, d)) ∨
      ∃ after, d.create request = (.ok ⟨d.nextHandle⟩, after) ∧
        after.nextHandle = d.nextHandle + 1 ∧
        match request with
        | .texture format width height =>
          after.textures = d.textures.insert d.nextHandle ⟨format, width, height⟩ ∧
            after.framebuffers = d.framebuffers
        | .framebuffer attachments width height =>
          CompleteAttachments (· ∈ d.textures) attachments ∧
            after.textures = d.textures ∧
            after.framebuffers =
              d.framebuffers.insert d.nextHandle ⟨attachments, width, height⟩ := by
  cases request with
  | texture format width height => exact Or.inr ⟨_, rfl, rfl, rfl, rfl⟩
  | framebuffer attachments width height =>
      by_cases complete : CompleteAttachments (· ∈ d.textures) attachments
      · have made := createFramebuffer_of_complete width height complete
        exact Or.inr ⟨_, made, rfl, complete, rfl, rfl⟩
      · obtain ⟨fault, refused⟩ := createFramebuffer_of_incomplete width height complete
        exact Or.inl ⟨_, refused⟩

end HeadlessDevice

/-! ## Survivors -/

/-- A kind of object: what a creation records of it, and how it is named when it is
destroyed. -/
structure ObjectKind (ρ : Type) where
  record? : CreationRequest → Option ρ
  object : Handle → NativeObject

namespace ObjectKind

variable {ρ : Type} (kind : ObjectKind ρ)

/-- The objects of a kind that are created and not destroyed later, with their records. -/
def survivors : List DeviceEvent → List (Nat × ρ)
  | [] => []
  | .created request h :: later =>
    match kind.record? request with
    | some record =>
      if DeviceEvent.destroyed (kind.object h) ∈ later then survivors later
      else (h.number, record) :: survivors later
    | none => survivors later
  | _ :: later => survivors later

/-- An event later on ends the objects that it destroys and may add one. -/
theorem survivors_concat (events : List DeviceEvent) (event : DeviceEvent) :
    kind.survivors (events ++ [event]) =
      (kind.survivors events).filter (fun p => event ≠ .destroyed (kind.object ⟨p.1⟩)) ++
        kind.survivors [event] := by
  induction events with
  | nil => rfl
  | cons first later inductionHypothesis =>
      cases first with
      | created request h =>
          rw [List.cons_append, survivors, survivors]
          cases kind.record? request with
          | none => exact inductionHypothesis
          | some record =>
              dsimp only
              rw [inductionHypothesis]
              by_cases gone : DeviceEvent.destroyed (kind.object h) ∈ later
              · rw [if_pos (List.mem_append_left _ gone), if_pos gone]
              · rw [if_neg gone]
                by_cases ends : DeviceEvent.destroyed (kind.object h) = event
                · rw [if_pos (List.mem_append_right _ (List.mem_singleton.mpr ends)),
                    List.filter_cons_of_neg]
                  simp [ends]
                · have notListed : DeviceEvent.destroyed (kind.object h) ∉ later ++ [event] := by
                    rw [List.mem_append, List.mem_singleton]
                    exact not_or_intro gone ends
                  rw [if_neg notListed, List.filter_cons_of_pos]
                  · rfl
                  · simpa using Ne.symm ends
      | refused | destroyed => exact inductionHypothesis

/-- A table agrees with what happened: it lists the survivors of its kind, which were created in
the order of their handles and before the next one. -/
structure Keeps (events : List DeviceEvent) (table : HandleTable ρ) (next : Nat) : Prop where
  records : table.toList = kind.survivors events
  ordered : (kind.survivors events).Pairwise fun p q => p.1 < q.1
  old : ∀ p ∈ kind.survivors events, p.1 < next

namespace Keeps

variable {kind} {events : List DeviceEvent} {event : DeviceEvent}
  {table : HandleTable ρ} {next : Nat}
  (keeps : kind.Keeps events table next)

include keeps

theorem mem_iff {n : Nat} : n ∈ table ↔ n ∈ (kind.survivors events).map Prod.fst := by
  rw [HandleTable.mem_iff, keeps.records]

theorem notMem_next : next ∉ table := by
  rw [keeps.mem_iff, List.mem_map]
  rintro ⟨p, member, rfl⟩
  exact Nat.lt_irrefl _ (keeps.old p member)

/-- An event that neither destroys nor creates an object of the kind changes nothing. -/
theorem skip {later : Nat} (spares : ∀ h, event ≠ .destroyed (kind.object h))
    (addsNothing : kind.survivors [event] = []) (grows : next ≤ later) :
    kind.Keeps (events ++ [event]) table later := by
  have same : kind.survivors (events ++ [event]) = kind.survivors events := by
    rw [survivors_concat, addsNothing, List.append_nil, List.filter_eq_self]
    exact fun p _ => decide_eq_true (spares _)
  refine ⟨?_, ?_, ?_⟩
  · rw [same]
    exact keeps.records
  · rw [same]
    exact keeps.ordered
  · rw [same]
    exact fun p member => Nat.lt_of_lt_of_le (keeps.old p member) grows

/-- A new object has the largest handle so far and is listed behind all others. -/
theorem add {request : CreationRequest} {record : ρ}
    (recorded : kind.record? request = some record) :
    kind.Keeps (events ++ [.created request ⟨next⟩]) (table.insert next record) (next + 1) := by
  have grown : kind.survivors (events ++ [.created request ⟨next⟩]) =
      kind.survivors events ++ [(next, record)] := by
    have added : kind.survivors [.created request ⟨next⟩] = [(next, record)] := by
      simp [survivors, recorded]
    rw [survivors_concat, added, List.filter_eq_self.mpr]
    exact fun p _ => decide_eq_true (by simp)
  refine ⟨?_, ?_, fun p member => ?_⟩
  · rw [grown, HandleTable.toList_insert keeps.notMem_next, keeps.records]
  · rw [grown, List.pairwise_append]
    refine ⟨keeps.ordered, List.pairwise_singleton _ _, fun p member q isNew => ?_⟩
    rw [List.mem_singleton.mp isNew]
    exact keeps.old p member
  · rw [grown] at member
    rcases List.mem_append.mp member with before | isNew
    · exact Nat.lt_succ_of_lt (keeps.old p before)
    · rw [List.mem_singleton.mp isNew]
      exact Nat.lt_succ_self next

/-- A destroyed object is gone, if there was one, and the others are listed as before. -/
theorem remove (h : Handle) (named : ∀ other, kind.object other = kind.object h ↔ other = h) :
    kind.Keeps (events ++ [.destroyed (kind.object h)]) (table.erase h.number) next := by
  have left : kind.survivors (events ++ [.destroyed (kind.object h)]) =
      (kind.survivors events).filter fun p => p.1 ≠ h.number := by
    have addsNothing : kind.survivors [.destroyed (kind.object h)] = [] := rfl
    rw [survivors_concat, addsNothing, List.append_nil]
    apply List.filter_congr
    intro p _
    have sameObject : (DeviceEvent.destroyed (kind.object h) =
        .destroyed (kind.object ⟨p.1⟩)) ↔ p.1 = h.number := by
      rw [DeviceEvent.destroyed.injEq, eq_comm, named]
      exact ⟨congrArg Handle.number, congrArg Handle.mk⟩
    rw [decide_eq_decide, ne_eq, ne_eq, sameObject]
  refine ⟨?_, ?_, fun p member => ?_⟩
  · rw [left, HandleTable.toList_erase, keeps.records]
  · rw [left]
    exact keeps.ordered.filter _
  · rw [left] at member
    exact keeps.old p (List.mem_filter.mp member).1

end Keeps

def textures : ObjectKind TextureRecord where
  record?
    | .texture format width height => some ⟨format, width, height⟩
    | .framebuffer _ _ _ => none
  object := .texture

def framebuffers : ObjectKind FramebufferRecord where
  record?
    | .texture _ _ _ => none
    | .framebuffer attachments width height => some ⟨attachments, width, height⟩
  object := .framebuffer

end ObjectKind

/-! ## Chronicles -/

/-- What is true of a device and of everything that was done to it. -/
structure Chronicle (events : List DeviceEvent) (device : HeadlessDevice) : Prop where
  counted : handedOut events = (List.range' 1 (handedOut events).length).map Handle.mk
  next : device.nextHandle = (handedOut events).length + 1
  textures : ObjectKind.textures.Keeps events device.textures device.nextHandle
  framebuffers : ObjectKind.framebuffers.Keeps events device.framebuffers device.nextHandle
  complete : ∀ before later attachments width height h,
    events = before ++ .created (.framebuffer attachments width height) h :: later →
      CompleteAttachments (· ∈ (ObjectKind.textures.survivors before).map Prod.fst) attachments

namespace Chronicle

theorem new : Chronicle [] {} where
  counted := rfl
  next := rfl
  textures := ⟨rfl, .nil, fun p member => absurd member List.not_mem_nil⟩
  framebuffers := ⟨rfl, .nil, fun p member => absurd member List.not_mem_nil⟩
  complete before later attachments width height h split := by simp at split

variable {events : List DeviceEvent} {event : DeviceEvent} {device : HeadlessDevice}
  (chronicle : Chronicle events device)

include chronicle

/-- The handles go on with the next one. -/
theorem counted_next :
    handedOut events ++ [⟨device.nextHandle⟩] =
      (List.range' 1 ((handedOut events).length + 1)).map Handle.mk := by
  rw [List.range'_concat, List.map_append, ← chronicle.counted, chronicle.next, Nat.one_mul,
    Nat.add_comm]
  rfl

/-- An event that is no new framebuffer leaves all framebuffers accounted for. -/
theorem complete_concat
    (isComplete : ∀ attachments width height h,
      event = .created (.framebuffer attachments width height) h →
        CompleteAttachments (· ∈ device.textures) attachments) :
    ∀ before later attachments width height h,
      events ++ [event] =
          before ++ .created (.framebuffer attachments width height) h :: later →
        CompleteAttachments (· ∈ (ObjectKind.textures.survivors before).map Prod.fst)
          attachments := by
  intro before later attachments width height h split
  rcases List.eq_nil_or_concat later with rfl | ⟨earlier, last, rfl⟩
  · obtain ⟨rfl, same⟩ := List.append_inj' split rfl
    have made := isComplete attachments width height h (List.singleton_inj.mp same)
    exact { made with
      textures := fun a member => chronicle.textures.mem_iff.mp (made.textures a member) }
  · rw [List.concat_eq_append, ← List.cons_append, ← List.append_assoc] at split
    exact chronicle.complete _ _ _ _ _ _ (List.append_inj' split rfl).1

theorem destroy (object : NativeObject) :
    Chronicle (events ++ [.destroyed object]) (device.destroy object) := by
  have handlesEq : handedOut (events ++ [.destroyed object]) = handedOut events :=
    (handedOut_concat events _).trans (List.append_nil _)
  have complete := chronicle.complete_concat fun attachments width height h
      (impossible : DeviceEvent.destroyed object = _) => by cases impossible
  cases object with
  | texture h =>
      refine ⟨handlesEq ▸ chronicle.counted, handlesEq ▸ chronicle.next,
        chronicle.textures.remove h ?_, ?_, complete⟩
      · exact fun other => ⟨NativeObject.texture.inj, congrArg _⟩
      · exact chronicle.framebuffers.skip (fun other same => by cases same) rfl (Nat.le_refl _)
  | framebuffer h =>
      refine ⟨handlesEq ▸ chronicle.counted, handlesEq ▸ chronicle.next, ?_,
        chronicle.framebuffers.remove h ?_, complete⟩
      · exact chronicle.textures.skip (fun other same => by cases same) rfl (Nat.le_refl _)
      · exact fun other => ⟨NativeObject.framebuffer.inj, congrArg _⟩

theorem refuse (request : CreationRequest) (e : Error) :
    Chronicle (events ++ [.refused request e]) device := by
  have handlesEq : handedOut (events ++ [.refused request e]) = handedOut events :=
    (handedOut_concat events _).trans (List.append_nil _)
  refine ⟨handlesEq ▸ chronicle.counted, handlesEq ▸ chronicle.next, ?_, ?_, ?_⟩
  · exact chronicle.textures.skip (fun h same => by cases same) rfl (Nat.le_refl _)
  · exact chronicle.framebuffers.skip (fun h same => by cases same) rfl (Nat.le_refl _)
  · exact chronicle.complete_concat fun attachments width height h impossible => by
      cases impossible

theorem create {request : CreationRequest} {h : Handle} {after : HeadlessDevice}
    (created : device.create request = (.ok h, after)) :
    Chronicle (events ++ [.created request h]) after := by
  rcases device.create_cases request with ⟨e, failed⟩ | ⟨made, madeEq, nextEq, tables⟩
  · rw [failed] at created
    cases created
  rw [madeEq] at created
  cases created
  have handlesEq : handedOut (events ++ [.created request ⟨device.nextHandle⟩]) =
      handedOut events ++ [⟨device.nextHandle⟩] := handedOut_concat events _
  have grows : device.nextHandle ≤ device.nextHandle + 1 := Nat.le_succ _
  refine ⟨?_, ?_, ?_, ?_, chronicle.complete_concat ?_⟩
  · rw [handlesEq, List.length_append, List.length_singleton]
    exact chronicle.counted_next
  · rw [handlesEq, nextEq, chronicle.next, List.length_append, List.length_singleton]
  · cases request with
    | texture format width height =>
        rw [nextEq, tables.1]
        exact chronicle.textures.add rfl
    | framebuffer attachments width height =>
        rw [nextEq, tables.2.1]
        exact chronicle.textures.skip (fun h same => by cases same) rfl grows
  · cases request with
    | texture format width height =>
        rw [nextEq, tables.2]
        exact chronicle.framebuffers.skip (fun h same => by cases same) rfl grows
    | framebuffer attachments width height =>
        rw [nextEq, tables.2.2]
        exact chronicle.framebuffers.add rfl
  · rintro attachments width height h same
    cases same
    exact tables.1

theorem call (c : DeviceCall) : Chronicle (events ++ [(device.call c).1]) (device.call c).2 := by
  cases c with
  | destroy object => exact chronicle.destroy object
  | create request =>
      rw [HeadlessDevice.call]
      rcases created : device.create request with ⟨e | h, after⟩
      · rcases device.create_cases request with ⟨_, failed⟩ | ⟨_, madeEq, -⟩
        · rw [created] at failed
          cases failed
          exact chronicle.refuse request e
        · rw [created] at madeEq
          cases madeEq
      · exact chronicle.create created

theorem run (calls : List DeviceCall) :
    Chronicle (events ++ (device.run calls).1) (device.run calls).2 := by
  induction calls generalizing events device with
  | nil =>
      rw [HeadlessDevice.run, List.append_nil]
      exact chronicle
  | cons c rest inductionHypothesis =>
      have continued := inductionHypothesis (chronicle.call c)
      rw [List.append_assoc] at continued
      exact continued

end Chronicle

/-! ## Devices and their chronicles -/

/-- A refused creation changes nothing. -/
theorem HeadlessDevice.eq_of_refused {device after : HeadlessDevice} {request : CreationRequest}
    {e : Error} (refused : device.call (.create request) = (.refused request e, after)) :
    after = device := by
  rw [call] at refused
  rcases device.create_cases request with ⟨_, failed⟩ | ⟨_, made, -⟩
  · rw [failed] at refused
    exact (congrArg Prod.snd refused).symm
  · rw [made] at refused
    cases refused

/-- The destruction of an object that is not live changes nothing. -/
theorem HeadlessDevice.destroy_of_not_live {device : HeadlessDevice} {object : NativeObject}
    (unknown : ¬ device.Live object) : device.destroy object = device := by
  cases object with
  | texture h =>
      have kept : device.textures.erase h.number = device.textures :=
        HandleTable.erase_eq_self unknown
      exact congrArg (fun table => { device with textures := table }) kept
  | framebuffer h =>
      have kept : device.framebuffers.erase h.number = device.framebuffers :=
        HandleTable.erase_eq_self unknown
      exact congrArg (fun table => { device with framebuffers := table }) kept

/-- From a new device on, the handles that are handed out are 1, 2, 3, … over both kinds of
objects, so that none is null and none comes back, and their numbers fit in 32 bits as long as
there are fewer than `2 ^ 32 - 1` of them.  Each table has the survivors of its kind with their
records, in the order of their creation, which is the order of their handles.  Every framebuffer
was complete when it was created, and calls that are refused or that name no live object leave
the device as it is. -/
theorem device_holds_survivors (calls : List DeviceCall) :
    let events := (HeadlessDevice.run {} calls).1
    let device := (HeadlessDevice.run {} calls).2
    handedOut events = (List.range' 1 (handedOut events).length).map Handle.mk ∧
    (handedOut events).Nodup ∧ Handle.null ∉ handedOut events ∧
    device.nextHandle = (handedOut events).length + 1 ∧
    ((handedOut events).length < 2 ^ 32 - 1 → device.nextHandle < 2 ^ 32) ∧
    device.textures.toList = ObjectKind.textures.survivors events ∧
    (device.textures.toList.Pairwise fun p q => p.1 < q.1) ∧
    device.framebuffers.toList = ObjectKind.framebuffers.survivors events ∧
    (device.framebuffers.toList.Pairwise fun p q => p.1 < q.1) ∧
    (∀ before later attachments width height h,
      events = before ++ .created (.framebuffer attachments width height) h :: later →
        CompleteAttachments (· ∈ (ObjectKind.textures.survivors before).map Prod.fst)
          attachments) ∧
    (∀ request e after, device.call (.create request) = (.refused request e, after) →
      after = device) ∧
    ∀ object, ¬ device.Live object → device.destroy object = device := by
  intro events device
  have chronicle : Chronicle events device := Chronicle.new.run calls
  have injective : Function.Injective Handle.mk := fun n k => Handle.mk.inj
  refine ⟨chronicle.counted, ?_, ?_, chronicle.next, ?_, chronicle.textures.records, ?_,
    chronicle.framebuffers.records, ?_, chronicle.complete, fun request e after =>
      HeadlessDevice.eq_of_refused, fun object => HeadlessDevice.destroy_of_not_live⟩
  · rw [chronicle.counted]
    exact List.Nodup.map injective List.nodup_range'
  · rw [chronicle.counted]
    intro listed
    obtain ⟨n, member, isNull⟩ := List.mem_map.mp listed
    obtain rfl := Handle.mk.inj isNull
    exact absurd (List.mem_range'_1.mp member).1 (by decide)
  · rw [chronicle.next]
    omega
  · rw [chronicle.textures.records]
    exact chronicle.textures.ordered
  · rw [chronicle.framebuffers.records]
    exact chronicle.framebuffers.ordered

namespace Sample

/-- A texture with a framebuffer, calls that come to nothing, and another texture. -/
def deviceCalls : List DeviceCall :=
  [.create (.texture .rgba8 4 4), .create (.framebuffer [⟨.color 0, ⟨1⟩⟩] 4 4),
    .destroy (.texture ⟨2⟩), .create (.framebuffer [] 4 4), .destroy (.texture ⟨1⟩),
    .create (.texture .r8 2 2)]

end Sample

theorem deviceCalls_leave_survivors :
    (HeadlessDevice.run {} Sample.deviceCalls).2.textures.toList = [(3, ⟨.r8, 2, 2⟩)] ∧
      (HeadlessDevice.run {} Sample.deviceCalls).2.framebuffers.toList =
        [(2, ⟨[⟨.color 0, ⟨1⟩⟩], 4, 4⟩)] := by
  have events : (HeadlessDevice.run {} Sample.deviceCalls).1 =
      [.created (.texture .rgba8 4 4) ⟨1⟩,
        .created (.framebuffer [⟨.color 0, ⟨1⟩⟩] 4 4) ⟨2⟩, .destroyed (.texture ⟨2⟩),
        .refused (.framebuffer [] 4 4) (.incompleteFramebuffer .noAttachments),
        .destroyed (.texture ⟨1⟩), .created (.texture .r8 2 2) ⟨3⟩] := by
    decide
  obtain ⟨-, -, -, -, -, texturesEq, -, framebuffersEq, -⟩ :=
    device_holds_survivors Sample.deviceCalls
  rw [texturesEq, framebuffersEq, events]
  decide

end FrameGraph
