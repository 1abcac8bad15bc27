/-
  **What is stored is well formed, in every run.**
-/
import Tamoss.Store.Effects
import Tamoss.Store.RegistrationSafety

namespace Tamoss

open Lib (Only Under)

variable {mt : MediaTimestamp}

structure Database.WellFormed (mt : MediaTimestamp) (db : Database) : Prop where
  row : ∀ row ∈ db.segments.rows, RowOk mt row
  object : ∀ o obj, db.objects.get o = some obj → ObjectOk mt obj

variable {db : Database}

theorem Database.Fresh.wellFormed {mt : MediaTimestamp}
    (h : db.Fresh) : db.WellFormed mt where
  row row hrow := by simp [h.segments] at hrow
  object o obj hobj := by
    obtain ⟨hmem, -⟩ := Lib.Table.get_eq_some.mp hobj
    simp [h.objects] at hmem

def Write.Sound (mt : MediaTimestamp) : Write → Prop
  | .saveSegment row => RowOk mt row
  | .saveObject o => ObjectOk mt o
  | _ => True

theorem Database.WellFormed.apply (h : db.WellFormed mt) {w : Write}
    (hw : w.Sound mt) : (w.apply db).WellFormed mt := by
  have hobject : ∀ o obj, (w.apply db).objects.get o = some obj → ObjectOk mt obj := by
    intro o obj hobj
    rw [Write.objects_get_apply] at hobj
    cases w with
    | saveObject object =>
      simp only [Write.onObject] at hobj
      split at hobj
      · obtain rfl := Option.some.inj hobj
        exact hw
      · exact h.object o obj hobj
    | deleteObject o' =>
      simp only [Write.onObject] at hobj
      split at hobj
      · cases hobj
      · exact h.object o obj hobj
    | _ => exact h.object o obj hobj
  refine ⟨fun row hrow => ?_, hobject⟩
  cases w with
  | saveSegment r =>
    rcases Lib.Table.mem_upsert.mp hrow with hrow | rfl
    · exact h.row row hrow.1
    · exact hw
  | deleteSegment r => exact h.row row (Lib.Table.mem_erase.mp hrow).1
  | deleteFlow f => exact h.row row (Lib.Table.mem_filter.mp hrow).1
  | _ => exact h.row row hrow

theorem Database.WellFormed.applyAll (h : db.WellFormed mt) {ws : List Write}
    (hws : ∀ w ∈ ws, w.Sound mt) : (db.applyAll ws).WellFormed mt := by
  induction ws generalizing db with
  | nil => exact h
  | cons w ws ih =>
    exact ih (h.apply (hws w List.mem_cons_self)) fun x hx => hws x (List.mem_cons_of_mem w hx)

def Call.Sound (mt : MediaTimestamp) : Call → Prop
  | .write w => w.Sound mt
  | .createObjects objects => ∀ o ∈ objects, ObjectOk mt o
  | _ => True

def Call.Answered (mt : MediaTimestamp) : (c : Call) → c.Resp → Prop
  | .getObjects _, objects => ∀ o obj, Lib.Table.get objects o = some obj → ObjectOk mt obj
  | _, _ => True

variable (mt) in
abbrev Stores {α : Type} (Q : α → Prop) (p : App α) : Prop :=
  Under (Call.Sound mt) (Call.Answered mt) Q p

variable (mt) in
abbrev SoundApp {α : Type} (p : App α) : Prop := Stores mt (fun _ => True) p

variable {c : Call}

theorem Call.Quiet.sound (h : c.Quiet) : c.Sound mt := by
  cases c with
  | write w => cases w <;> trivial
  | createObjects => exact h.elim
  | _ => trivial

theorem stores_of_tame {α : Type} {p : App α} (h : Only Call.Tame p) :
    SoundApp mt p := Under.of_only (h.mono fun _ hc => hc.quiet.sound)

theorem stores_of_calm {α : Type} {p : App α} (h : Only Call.Calm p) :
    SoundApp mt p := stores_of_tame (tame_of_calm h)

theorem stores_call (h : c.Sound mt) : Stores mt (c.Answered mt) (call c) :=
  Under.call h

theorem stores_step {α : Type} {Q : α → Prop} {k : c.Resp → App α} (h : c.Sound mt)
    (hk : ∀ r, Stores mt Q (k r)) : Stores mt Q (call c >>= k) :=
  (stores_call h).bind fun r _ => hk r

theorem stores_getObjects {α : Type} {Q : α → Prop} {ids : List ObjectId} {k : ObjectsById → App α}
    (hk : ∀ objects, (∀ o obj, objects.get o = some obj → ObjectOk mt obj) →
      Stores mt Q (k objects)) : Stores mt Q (call (.getObjects ids) >>= k) :=
  (stores_call (by trivial)).bind hk

theorem stores_last (h : c.Sound mt) : SoundApp mt (call c) :=
  (stores_call h).mono fun _ _ => trivial

theorem stores_unitOfWork {α : Type} {Q : α → Prop} {body : App α} (h : Stores mt Q body) :
    Stores mt Q (unitOfWork body) := by
  rw [unitOfWork_eq]
  refine stores_step trivial fun _ => Under.attempt h (fun a ha => ?_) fun e => ?_
  · exact stores_step trivial fun _ => Under.pure ha
  · exact stores_step trivial fun _ => Under.throw e

theorem stores_of_tameTransaction {p : App Unit} (hp : TameTransaction p) : SoundApp mt p := by
  obtain ⟨β, check, body, hcheck, hbody, rfl⟩ := hp
  exact (stores_of_calm hcheck).bind fun b _ => stores_unitOfWork (stores_of_tame (hbody b))

theorem stores_lockObjects (ids : List ObjectId) : SoundApp mt (lockObjects ids) :=
  Under.forM fun _ _ => stores_last trivial

theorem stores_requireFlow (f : FlowId) (toSave : Bool) : SoundApp mt (requireFlow f toSave) := by
  refine stores_step trivial fun read => ?_
  split
  · exact Under.throw _
  · exact Under.pure trivial

theorem stores_writable (flow : FlowRecord) : SoundApp mt (ensureFlowWritable flow) :=
  stores_of_calm (ensureFlowWritable_calm flow)

theorem stores_requestedObjectIds (flow : FlowRecord) (posts : List SegmentPost) :
    Stores mt (fun requested => ∀ post ∈ posts, post.objectId ∈ requested)
      (requestedObjectIds flow posts) := by
  have hmem : ∀ more : List ObjectId, ∀ post ∈ posts, post.objectId ∈
      posts.map (·.objectId) ++ posts.filterMap (·.initObjectId) ++ more := fun more post hp =>
    List.mem_append_left _ (List.mem_append_left _ (List.mem_map_of_mem hp))
  unfold requestedObjectIds
  dsimp only
  split
  · exact stores_step trivial fun objects => Under.pure (hmem _)
  · exact Under.pure (by simpa using hmem [])

theorem stores_registerCandidates (L : mt.Lawful) (flow : FlowRecord) (version : Nat)
    (checks : UploadChecks) (readings : Nat → Readings) (validated : List (Option SegmentPost))
    (known : List mt.TimeRange)
    (hvalid : ∀ post, some post ∈ validated → IsSegmentRange mt post.timerange) : SoundApp mt
      (registerCandidates mt flow version checks readings validated known) := by
  refine (stores_requestedObjectIds flow _).bind fun requested hrequested => ?_
  refine (stores_lockObjects requested).bind fun _ _ => ?_
  refine stores_getObjects fun objects hobjects => ?_
  refine (Under.except fun _ h => h).bind fun ⟨ws, results⟩ hrun => ?_
  have hbatch : BatchOk flow requested objects ws := by
    refine registerPosts_ok L hobjects (fun post hpost => ⟨hrequested post ?_, hvalid post hpost⟩)
      (BatchOk.start flow requested known) hrun
    exact List.mem_filterMap.mpr ⟨some post, hpost, rfl⟩
  dsimp only
  split
  · refine stores_step trivial fun now => Under.bind (Q := fun _ => True) ?_
      fun _ _ => Under.pure trivial
    refine stores_step trivial fun _ => stores_step trivial fun _ => ?_
    refine Under.bind (Under.forM fun u hu => stores_last (hbatch.updated u hu).2.1) fun _ _ => ?_
    refine (Under.except fun _ h => h).bind fun rows hrows => stores_step trivial fun overlap => ?_
    split
    · exact Under.throw _
    · exact Under.forM fun row hrow => stores_last (hbatch.rowOk hrows hrow).2.2
  · exact Under.pure trivial

theorem stores_registerSegments (L : mt.Lawful) (f : FlowId) (posts : List SegmentPostInput)
    (rd : Readings) (readings : Nat → Readings) :
    SoundApp mt (registerSegments mt f posts rd readings) := by
  refine (stores_of_calm (verifyControlledUploads_calm posts rd)).bind fun checks _ => ?_
  refine Under.tryCatch (stores_unitOfWork (stores_step trivial fun _ => ?_)) fun e => ?_
  · refine (stores_requireFlow f true).bind fun ⟨flow, version⟩ _ => ?_
    refine (stores_writable flow).bind fun _ _ => ?_
    split
    · exact Under.pure trivial
    · refine stores_step trivial fun backends => ?_
      dsimp only
      split
      · exact Under.pure trivial
      · refine stores_step trivial fun stored => (Under.except fun _ _ => trivial).bind
          fun known _ => ?_
        exact stores_registerCandidates L flow version checks readings _ known
          fun post hpost => validatePosts_range hpost
  · split
    · exact Under.pure trivial
    · exact Under.throw _

theorem stores_refreshObject (f : FlowId) (remaining : List SegmentRecord)
    (requestId : Option QueueId) {objects : ObjectsById}
    (hobjects : ∀ o obj, objects.get o = some obj → ObjectOk mt obj) (o : ObjectId) :
    SoundApp mt (refreshObject mt f remaining requestId objects o) := by
  unfold refreshObject
  split
  · exact Under.pure trivial
  · rename_i media hmedia
    dsimp only
    have hinit : (if o ∈ remaining.flatMap SegmentRecord.objectIds then media
        else media.discardReference f).initObjectId ≠ some "" := by
      split
      · exact (hobjects o media hmedia).init
      · exact (hobjects o media hmedia).init
    generalize (if o ∈ remaining.flatMap SegmentRecord.objectIds then media
      else media.discardReference f) = media at hinit
    split
    · exact (stores_of_calm (queueControlledObjectCleanup_calm o _ requestId)).bind
        fun _ _ => stores_last trivial
    · split
      · exact stores_last ⟨by simp, hinit⟩
      · refine Under.bind (Q := fun timerange => ∀ t, timerange = some t →
          ∃ r, mt.str r = t) ?_
          fun timerange htimerange => stores_last ⟨htimerange, hinit⟩
        refine (stores_of_calm (objectSegments_calm f remaining _ _)).bind fun _ _ => ?_
        refine (Under.except fun _ _ => trivial).bind fun ranges _ => Under.except ?_
        rintro _ hunion t rfl
        exact timerangeUnionStrings_ok hunion

theorem stores_deleteRounds (filter : SegmentDeleteFilter)
    (requestId : Option QueueId) (drain : Bool) (rounds : Nat) :
    SoundApp mt (deleteRounds mt filter requestId drain rounds) := by
  induction rounds with
  | zero => exact Under.throw _
  | succ rounds ih =>
    refine stores_step trivial fun deleted => ?_
    split
    · exact stores_last trivial
    · refine Under.bind (Q := fun _ => True) ?_ fun _ _ => stores_step trivial fun remaining => ?_
      · refine (stores_lockObjects _).bind fun _ _ => stores_step trivial fun remaining => ?_
        exact stores_getObjects fun objects hobjects => Under.forM
          fun o _ => stores_refreshObject _ remaining requestId hobjects o
      · split
        · exact Under.pure trivial
        · exact ih

theorem stores_deleteMatchingSegments (filter : SegmentDeleteFilter)
    (requestId : Option QueueId) (drain : Bool) (rounds : Nat) :
    SoundApp mt (deleteMatchingSegments mt filter requestId drain rounds) :=
  stores_step trivial fun _ => stores_step trivial fun _ =>
    stores_deleteRounds filter requestId drain rounds

theorem stores_recordDeletionRequest (f : FlowId) (timerange : String) (deleteFlow : Bool) :
    SoundApp mt (recordDeletionRequest f timerange deleteFlow) :=
  stores_step trivial fun _ => stores_step trivial fun _ => stores_last trivial

theorem stores_removeFlow (flow : FlowRecord) (f : FlowId) : SoundApp mt (removeFlow flow f) := by
  refine Under.bind (Q := fun _ => True) (stores_step trivial fun parents => ?_) fun _ _ =>
    stores_step trivial fun _ => stores_of_tame (deleteOrphanSource_tame flow.sourceId)
  refine Under.forM fun ⟨parent, version⟩ _ => ?_
  dsimp only
  split
  · exact Under.pure trivial
  · exact stores_last trivial

theorem stores_deleteSegments (f : FlowId) (timerange : Option String)
    (objectId : Option ObjectId) (rounds : Nat) :
    SoundApp mt (deleteSegments mt f timerange objectId rounds) := by
  refine (stores_requireFlow f _).bind fun ⟨flow, version⟩ _ => ?_
  refine (stores_writable flow).bind fun _ _ => ?_
  split
  · exact Under.throw _
  · refine stores_step trivial fun matching => ?_
    split
    · exact Under.pure trivial
    · split
      · exact stores_unitOfWork ((stores_deleteMatchingSegments _ _ _ _).bind fun _ _ =>
          stores_step trivial fun _ => stores_last trivial)
      · exact stores_recordDeletionRequest f _ false

theorem stores_deleteFlow (f : FlowId) : SoundApp mt (deleteFlow f) := by
  refine (stores_requireFlow f false).bind fun ⟨flow, _⟩ _ => ?_
  refine (stores_writable flow).bind fun _ _ => stores_step trivial fun timerange => ?_
  split
  · exact stores_unitOfWork (stores_removeFlow flow f)
  · exact stores_recordDeletionRequest f timerange true

theorem stores_processFlowDeleteRequest (request : DeletionRequestRecord)
    (filter : SegmentDeleteFilter) (rounds : Nat) :
    SoundApp mt (processFlowDeleteRequest mt request filter rounds) := by
  refine (stores_deleteMatchingSegments _ _ _ _).bind fun remaining _ => ?_
  split
  · exact Under.pure trivial
  · refine stores_step trivial fun read => ?_
    split
    · exact Under.pure trivial
    · exact (stores_removeFlow _ _).bind fun _ _ => Under.pure trivial

theorem stores_processSegmentDeleteRequest (request : DeletionRequestRecord)
    (filter : SegmentDeleteFilter) (rounds : Nat) :
    SoundApp mt (processSegmentDeleteRequest mt request filter rounds) := by
  refine stores_step trivial fun read => ?_
  split
  · exact Under.pure trivial
  · exact (stores_deleteMatchingSegments _ _ _ _).bind fun remaining _ =>
      stores_step trivial fun _ => stores_step trivial fun _ => Under.pure trivial

theorem stores_applyDeleteMetadata (requestId : QueueId) (rounds : Nat) :
    SoundApp mt (applyDeleteMetadata mt requestId rounds) := by
  refine stores_unitOfWork (stores_step trivial fun request => ?_)
  split
  · exact Under.pure trivial
  · split
    · exact Under.pure trivial
    · refine stores_step trivial fun now => stores_step trivial fun _ => ?_
      dsimp only
      split
      · exact Under.pure trivial
      · refine (Under.except fun _ _ => trivial).bind fun filter _ => ?_
        split
        · refine Under.bind (stores_processFlowDeleteRequest _ filter rounds) fun _ _ => ?_
          exact stores_step trivial fun _ => stores_step trivial fun _ => Under.pure trivial
        · refine Under.bind (stores_processSegmentDeleteRequest _ filter rounds) fun _ _ => ?_
          exact stores_step trivial fun _ => stores_step trivial fun _ => Under.pure trivial

theorem stores_editFlow (f : FlowId) (edit : FlowEdit) (identity : Option String) :
    SoundApp mt (editFlow f edit identity) := by
  refine stores_unitOfWork (stores_step trivial fun _ => ?_)
  refine (stores_requireFlow f true).bind fun ⟨flow, version⟩ _ => ?_
  exact (stores_of_calm (applyEdit_calm flow edit)).bind fun _ _ =>
    stores_step trivial fun _ => stores_step trivial fun _ => stores_last trivial

theorem stores_putFlow (fc : FlowContract) (f : FlowId) (flow : FlowData)
    (suppliedFields : Option (List String)) (subject : String) :
    SoundApp mt (putFlow fc f flow suppliedFields subject) := by
  refine stores_unitOfWork (stores_step trivial fun _ => ?_)
  unfold putFlowLocked
  split
  · exact Under.throw _
  · refine Under.throwIf fun _ => stores_step trivial fun read => ?_
    exact (stores_of_tame (putRecord_tame fc f flow _ subject read.flow)).bind fun _ _ =>
      stores_last trivial

theorem stores_requireReferencedObject (o : ObjectId) :
    Stores mt (ObjectOk mt) (requireReferencedObject o) := by
  refine stores_getObjects fun objects hobjects => ?_
  split
  · exact Under.throw _
  · rename_i media hmedia
    split
    · exact Under.throw _
    · exact Under.pure (hobjects o media hmedia)

theorem stores_lockAndCreate (f : FlowId) (backend : StorageBackend) (contentType : String)
    (ids : List ObjectId) : SoundApp mt (lockAndCreate f backend contentType ids) := by
  refine (stores_lockObjects ids).bind fun _ _ => stores_step trivial fun now => stores_last ?_
  intro o ho
  obtain ⟨id, -, rfl⟩ := List.mem_map.mp ho
  exact ⟨by simp [allocatedObject, MediaObjectRecord.new],
    by simp [allocatedObject, MediaObjectRecord.new]⟩

theorem stores_allocateFresh (f : FlowId) (backend : StorageBackend) (contentType : String)
    (rounds wanted : Nat) : SoundApp mt (allocateFresh f backend contentType rounds wanted) := by
  induction rounds generalizing wanted with
  | zero =>
    cases wanted with
    | zero => exact Under.pure trivial
    | succ wanted => exact Under.throw _
  | succ rounds ih =>
    cases wanted with
    | zero => exact Under.pure trivial
    | succ wanted =>
      exact (stores_of_calm (freshObjectIds_calm _)).bind fun ids _ =>
        (stores_lockAndCreate f backend contentType _).bind fun created _ => ih _

theorem stores_allocateFlowStorage (settings : StorageSettings) (f : FlowId)
    (request : StorageRequest) (rounds : Nat) :
    SoundApp mt (allocateFlowStorage settings f request rounds) := by
  refine (stores_requireFlow f false).bind fun ⟨flow, _⟩ _ => ?_
  refine (stores_writable flow).bind fun _ _ => ?_
  refine Under.throwIf fun _ => Under.throwIf fun _ => ?_
  refine (stores_of_calm (storageContentType_calm flow request)).bind fun contentType _ => ?_
  refine Under.throwIf fun _ => Under.throwIf fun _ => ?_
  refine (stores_of_calm (storageBackendOf_calm request)).bind fun backend _ => ?_
  refine Under.throwIf fun _ => Under.throwIf fun _ => Under.throwIf fun _ => ?_
  refine stores_unitOfWork ?_
  split
  · exact stores_allocateFresh f backend contentType rounds _
  · refine (stores_lockAndCreate f backend contentType _).bind fun created _ => ?_
    split
    · exact Under.throw _
    · exact Under.pure trivial

theorem stores_registerObjectInstance (o : ObjectId) (url label : Option String) :
    SoundApp mt (registerObjectInstance o url label) := by
  refine stores_unitOfWork ((stores_lockObjects [o]).bind fun _ _ => ?_)
  refine (stores_requireReferencedObject o).bind fun media hmedia => ?_
  dsimp only
  refine Under.throwIf fun _ => stores_step trivial fun backends => ?_
  refine Under.throwIf fun _ => ?_
  split
  · exact Under.throw _
  · rename_i happend
    obtain ⟨instances, rfl⟩ := appendUncontrolledInstance_ok happend
    exact stores_last ⟨hmedia.timerange, hmedia.init⟩

theorem stores_queueControlledObjectCopy (o : ObjectId) (destination : BackendId) :
    SoundApp mt (queueControlledObjectCopy o destination) := by
  refine stores_unitOfWork ((stores_lockObjects [o]).bind fun _ _ => ?_)
  refine (stores_requireReferencedObject o).bind fun media _ => stores_step trivial fun backend => ?_
  cases backend with
  | none => exact Under.throw _
  | some backend =>
    dsimp only
    split
    · exact Under.throw _
    · exact Under.throwIf fun _ => stores_step trivial fun _ => stores_step trivial fun _ =>
        stores_last trivial

theorem stores_deleteObjectInstance (o : ObjectId) (storageId : Option BackendId)
    (label : Option String) : SoundApp mt (deleteObjectInstance o storageId label) := by
  unfold deleteObjectInstance
  refine Under.throwIf fun _ => stores_unitOfWork ((stores_lockObjects [o]).bind fun _ _ => ?_)
  refine (stores_requireReferencedObject o).bind fun media hmedia => ?_
  refine Under.throwIf fun _ => Under.throwIf fun _ => ?_
  exact (stores_of_calm (queueControlledObjectCleanup_calm o _ none)).bind fun _ _ =>
    stores_last ⟨hmedia.timerange, hmedia.init⟩

theorem stores_performObjectCopy (copy : ObjectCopyRecord) {media : MediaObjectRecord}
    (hmedia : ObjectOk mt media) (destination : Option StorageBackend) :
    SoundApp mt (performObjectCopy copy media destination) := by
  have hdone : SoundApp mt (markObjectCopyDone copy) :=
    stores_of_calm (markObjectCopyDone_calm copy)
  refine stores_step trivial fun source => ?_
  split
  · split
    · exact hdone
    · split
      · exact Under.throw _
      · refine stores_step trivial fun copied => Under.throwIf fun _ => ?_
        exact stores_step ⟨hmedia.timerange, hmedia.init⟩ fun _ => hdone
  · exact Under.throw _

theorem stores_runObjectCopy (copy : ObjectCopyRecord) : SoundApp mt (runObjectCopy copy) := by
  have hprocess : ∀ copy, SoundApp mt (processObjectCopy copy) := by
    intro copy
    have hdone : SoundApp mt (markObjectCopyDone copy) :=
      stores_of_calm (markObjectCopyDone_calm copy)
    refine stores_unitOfWork ((stores_lockObjects _).bind fun _ _ => ?_)
    refine stores_getObjects fun objects hobjects => ?_
    refine stores_step trivial fun destination => ?_
    dsimp only
    split
    · split
      · split
        · exact stores_step trivial fun deleted => Under.throwIf fun _ => hdone
        · exact hdone
      · exact hdone
    · split
      · exact Under.pure trivial
      · rename_i media hmedia
        exact stores_performObjectCopy copy (hobjects _ media hmedia) destination
  refine stores_step trivial fun now => stores_step trivial fun _ =>
    (hprocess _).tryCatch fun _ => ?_
  exact stores_step trivial fun _ => stores_step trivial fun _ => Under.throw _

theorem Call.Aside.sound (h : c.Aside) : c.Sound mt := by
  cases c with
  | write w => cases w <;> trivial
  | createObjects => exact h.elim
  | _ => trivial

theorem stores_of_aside {α : Type} {p : App α} (h : Only Call.Aside p) :
    SoundApp mt p := Under.of_only (h.mono fun _ hc => hc.sound)

theorem stores_queueStaleAllocatedObjectCleanups (before : Time) (maxObjects : Nat) :
    SoundApp mt (queueStaleAllocatedObjectCleanups before maxObjects) := by
  refine stores_unitOfWork (stores_step trivial fun objects => Under.forM fun o _ => ?_)
  split
  · exact (stores_of_calm (queueControlledObjectCleanup_calm o.id _ none)).bind fun _ _ =>
      stores_last trivial
  · exact Under.pure trivial

theorem stores_processDeleteRequest (requestId : QueueId) (rounds : Nat) :
    SoundApp mt (processDeleteRequest mt requestId rounds) := by
  refine stores_step trivial fun request => ?_
  split
  · exact Under.pure trivial
  · split
    · exact Under.pure trivial
    · refine Under.tryCatch ?_ fun e => ?_
      · refine (stores_applyDeleteMetadata requestId rounds).bind fun request _ => ?_
        split
        · exact Under.pure trivial
        · refine stores_step trivial fun cleanups => ?_
          refine (stores_of_aside (processObjectCleanups_aside cleanups)).bind fun _ _ => ?_
          split
          · exact stores_of_aside (releaseDeleteRequestClaim_aside _)
          · exact stores_of_aside (markDeleteRequestDone_aside _)
      · cases e <;> exact stores_of_aside (markDeleteRequestError_aside _ _)

theorem stores_operation (L : mt.Lawful) (fc : FlowContract) (op : Op) :
    SoundApp mt (operation mt fc op) := by
  cases op with
  | registerSegments f posts rd readings =>
    exact (stores_registerSegments L f posts rd readings).bind fun _ _ => Under.pure trivial
  | deleteSegments f timerange objectId rounds =>
    exact stores_deleteSegments f timerange objectId rounds
  | deleteFlow f => exact stores_deleteFlow f
  | processDeleteRequest requestId rounds => exact stores_processDeleteRequest requestId rounds
  | putFlow f flow suppliedFields subject => exact stores_putFlow fc f flow suppliedFields subject
  | editFlow f edit identity => exact stores_editFlow f edit identity
  | allocateFlowStorage settings f request rounds =>
    exact stores_allocateFlowStorage settings f request rounds
  | registerObjectInstance o url label => exact stores_registerObjectInstance o url label
  | queueControlledObjectCopy o destination => exact stores_queueControlledObjectCopy o destination
  | deleteObjectInstance o storageId label => exact stores_deleteObjectInstance o storageId label
  | runObjectCopy copy => exact stores_runObjectCopy copy
  | processObjectCleanups cleanups => exact stores_of_aside (processObjectCleanups_aside cleanups)
  | queueStaleAllocatedObjectCleanups before maxObjects =>
    exact stores_queueStaleAllocatedObjectCleanups before maxObjects
  | editSource s edit => exact stores_of_tameTransaction (editSource_tame s edit)
  | createProfile p payload => exact stores_of_tameTransaction ((createProfile_onProfiles fc p payload).mono
    fun _ hc => hc.tame)
  | ensureProfile p payload => exact stores_of_tameTransaction ((ensureProfile_onProfiles fc p payload).mono
    fun _ hc => hc.tame)
  | deleteProfileIfUnused p => exact stores_of_tameTransaction ((deleteProfileIfUnused_onProfiles p).mono
    fun _ hc => hc.tame)

open Lib.Machine

variable {fc : FlowContract}

variable (mt fc) in
def anyRun : (service mt fc).Discipline := ⟨fun _ => True, fun _ _ _ _ _ => True⟩

def SoundWrites (mt : MediaTimestamp) (l : Session) : Prop := ∀ w ∈ l.writes, w.Sound mt

variable (mt fc) in
def wellFormedProtocol : (service mt fc).Protocol where
  discipline := anyRun mt fc
  Inv w := (World.db w).WellFormed mt
  Rely _ _ _ := True
  Req _ c _ l := c.Sound mt ∧ SoundWrites mt l
  rely_refl _ _ := trivial
  rely_trans _ _ _ _ _ _ := trivial

variable {l l' : Session} {i : SessionId} {w w' : World}

theorem Call.Submits.sound {ws : List Write} (hq : c.Submits ws) (hc : c.Sound mt) :
    ∀ x ∈ ws, x.Sound mt := by
  intro x hx
  rcases hq.mem hx with rfl | ⟨row, rfl⟩ | ⟨objects, rfl, o, ho, rfl⟩ | ⟨profile, rfl⟩ | ⟨p, rfl⟩
  · exact hc
  · trivial
  · exact hc o ho
  · trivial
  · trivial

theorem SoundWrites.effect {db' : Database} (heffect : Effect c db l db' l') (hc : c.Sound mt)
    (hdb : db.WellFormed mt) (hl : SoundWrites mt l) : db'.WellFormed mt ∧ SoundWrites mt l' := by
  cases heffect with
  | begin => exact ⟨hdb, hl⟩
  | commit => exact ⟨hdb.applyAll hl, by simp [SoundWrites, Session.idle]⟩
  | rollback => exact ⟨hdb, by simp [SoundWrites, Session.idle]⟩
  | pending hq _ =>
    refine ⟨hdb, fun x hx => ?_⟩
    rcases List.mem_append.mp hx with hx | hx
    · exact hl x hx
    · exact hq.sound hc x hx
  | done hq _ => exact ⟨hdb.applyAll (hq.sound hc), hl⟩

theorem exec_sound {ch : Choice} (hc : c.Sound mt)
    {r : c.Resp} (hw : w.db.WellFormed mt) (hl : SoundWrites mt l)
    (h : exec mt i ch c w l = some (r, w', l')) :
    w'.db.WellFormed mt ∧ SoundWrites mt l' ∧ c.Answered mt r := by
  obtain ⟨hw', hl'⟩ := SoundWrites.effect (exec_effect h) hc hw hl
  refine ⟨hw', hl', ?_⟩
  cases c with
  | getObjects ids =>
    cases h
    exact fun o obj hobj => (hw.applyAll hl).object o obj (Lib.Table.get_of_filter hobj)
  | _ => trivial

theorem wellFormed_ok (L : mt.Lawful) (hdb : db.WellFormed mt) {c : (service mt fc).Config}
    (hc : (service mt fc).Reachable (anyRun mt fc) (World.initial db) c) :
    c.Ok (wellFormedProtocol mt fc) := by
  have hcall : ∀ (i : SessionId) (q : Call), q.Sound mt →
      Triple (wellFormedProtocol mt fc) i (fun _ l => SoundWrites mt l) (call q)
        (fun r _ l => q.Answered mt r ∧ SoundWrites mt l) Always := by
    intro i q hq
    refine Triple.call (.local _) (fun r => .local _) (fun _ _ _ hl => ⟨hq, hl⟩) ?_
    intro w l hw hl ch r w' l' he _
    obtain ⟨hw', hl', hr⟩ := exec_sound hq hw hl he
    exact ⟨hw', fun _ _ => trivial, hr, hl'⟩
  have hinitial : (wellFormedProtocol mt fc).Inv (World.initial db) := hdb
  refine Reachable.ok ?_ ?_ hinitial hc
  · intro i op w hw _
    have hstores := Triple.of_under (.local _) (fun _ _ _ _ => trivial) (fun q => hcall i q)
      (stores_operation L fc op) ((service mt fc).enter i op w) .idle hw
      (by simp [SoundWrites, Session.idle])
    exact ⟨hw, fun _ _ => trivial,
      Safe.bind (Safe.mono hstores fun _ _ _ _ _ _ _ _ => trivial)⟩
  · exact fun i w hw => ⟨hw, fun _ _ => trivial⟩

theorem wellFormed_of_reachable (L : mt.Lawful) (hdb : db.WellFormed mt)
    {c : (service mt fc).Config}
    (hc : (service mt fc).Reachable (anyRun mt fc) (World.initial db) c) :
    (World.db c.shared).WellFormed mt := (wellFormed_ok L hdb hc).inv

end Tamoss
