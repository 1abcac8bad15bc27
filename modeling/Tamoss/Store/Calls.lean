/-
  **Which calls the helpers of the operations make.**
-/
import Tamoss.Store.Catalogue
import Tamoss.Store.Objects

namespace Tamoss

open Lib (Only only_except only_throwIf)

def Call.IsRead : Call → Prop
  | .getFlow _ _ | .listFlowsCollecting _ | .listFlowsBySource _ | .getSource _
  | .getProfile _ | .countFlowsByProfile _
  | .listStorageBackends | .getStorageBackend _ | .hasSegments _
  | .getObjects _ | .listSegmentsOverlapping _ _ | .segmentsOverlap _ _
  | .listSegmentsForObjects _ _ | .getDeleteRequest _ | .listObjectCleanups _
  | .utcNow | .uuid4 | .storageDelete _ _ | .storageCopy _ _ _ => True
  | _ => False

def Call.Quiet : Call → Prop
  | .getFlow _ toSave => toSave = false
  | .listFlowsCollecting _ => False
  | .lockProfile _ | .lockSource _ | .createProfile _ | .deleteProfile _ => True
  | .write (.saveSource _) | .write (.deleteSource _) | .write (.saveObjectCleanup _)
  | .write (.saveObjectCopy _) => True
  | c => c.IsRead

def Call.Tame : Call → Prop
  | .storageDelete _ _ => False
  | c => c.Quiet

def Call.Calm : Call → Prop
  | .createProfile _ | .deleteProfile _ | .write (.saveSource _) | .write (.deleteSource _) =>
    False
  | c => c.Tame

variable {c : Call}

theorem Call.Tame.quiet (h : c.Tame) : c.Quiet := by
  cases c <;> first | exact h | trivial

theorem Call.Calm.tame (h : c.Calm) : c.Tame := by
  cases c with
  | write w => cases w <;> first | exact h | trivial
  | _ => first | exact h | trivial

theorem Call.Calm.quiet (h : c.Calm) : c.Quiet := h.tame.quiet

theorem tame_of_calm {α : Type} {p : App α} (h : Only Call.Calm p) : Only Call.Tame p :=
  h.mono fun _ hc => hc.tame

theorem quiet_of_tame {α : Type} {p : App α} (h : Only Call.Tame p) : Only Call.Quiet p :=
  h.mono fun _ hc => hc.quiet

theorem quiet_of_calm {α : Type} {p : App α} (h : Only Call.Calm p) : Only Call.Quiet p :=
  h.mono fun _ hc => hc.quiet

variable {P : Call → Prop}

theorem only_call (h : P c) : Only P (call c) := ⟨h, fun _ => trivial⟩

theorem only_step {α : Type} {k : c.Resp → App α} (h : P c)
    (hk : ∀ r, Only P (k r)) : Only P (call c >>= k) := ⟨h, hk⟩

theorem requireFlow_calm (f : FlowId) : Only Call.Calm (requireFlow f false) := by
  refine only_step rfl fun r => ?_
  split <;> simp

@[simp] theorem ensureFlowWritable_calm (flow : FlowRecord) :
    Only Call.Calm (ensureFlowWritable flow) := by
  unfold ensureFlowWritable
  split <;> simp

theorem ensureBitRateEditable_calm (property : FlowProperty) (flow : FlowRecord) :
    Only Call.Calm (ensureBitRateEditable property flow) := by
  unfold ensureBitRateEditable
  split <;> simp

theorem setFlowProperty_calm (property : FlowProperty) (value : DataValue)
    (flow : FlowRecord) : Only Call.Calm (setFlowProperty property value flow) := by
  have hrate : ∀ k : App FlowRecord, Only Call.Calm k → Only Call.Calm
      (ensureFlowWritable flow >>= fun _ => ensureBitRateEditable property flow >>= fun _ => k) :=
    fun k hk => (ensureFlowWritable_calm flow).bind fun _ =>
      (ensureBitRateEditable_calm property flow).bind fun _ => hk
  unfold setFlowProperty
  cases property with
  | label => exact (ensureFlowWritable_calm flow).bind fun _ => by split <;> simp
  | description => exact (ensureFlowWritable_calm flow).bind fun _ => by split <;> simp
  | avgBitRate =>
    refine hrate _ ?_
    split
    · split <;> simp
    · simp
  | maxBitRate =>
    refine hrate _ ?_
    split
    · split <;> simp
    · simp
  | readOnly => dsimp only; split <;> simp

theorem validateFlowCollection_calm (f : FlowId) (seen : List FlowId)
    (items : List CollectionItem) : Only Call.Calm (validateFlowCollection f seen items) := by
  induction items generalizing seen with
  | nil => simp [validateFlowCollection]
  | cons item items ih =>
    unfold validateFlowCollection
    dsimp only
    split
    · simp
    · refine only_step rfl fun child => ?_
      split
      · simp
      · exact ih _

theorem replaceFlowCollection_calm (flow : FlowRecord) (items : List CollectionItem) :
    Only Call.Calm (replaceFlowCollection flow items) :=
  (validateFlowCollection_calm flow.id [] items).bind fun _ => by split <;> simp

theorem applyEdit_calm (flow : FlowRecord) (edit : FlowEdit) :
    Only Call.Calm (applyEdit flow edit) := by
  cases edit with
  | setProperty property value => exact setFlowProperty_calm property value flow
  | deleteProperty property =>
    exact (ensureFlowWritable_calm flow).bind fun _ =>
      (ensureBitRateEditable_calm property flow).bind fun _ => by simp
  | setTag name value => exact (ensureFlowWritable_calm flow).bind fun _ => by simp
  | deleteTag name => exact (ensureFlowWritable_calm flow).bind fun _ => by simp
  | setCollection items =>
    exact (ensureFlowWritable_calm flow).bind fun _ => replaceFlowCollection_calm flow items

section Contract

variable (fc : FlowContract)

theorem requestedProfileId_calm (data : FlowData) :
    Only Call.Calm (requestedProfileId fc data) := by
  unfold requestedProfileId
  split
  · simp
  · simp
  · split <;> simp

theorem ensureNoTechnicalOverride_calm (profile : ProfileRecord) (supplied : List String) :
    Only Call.Calm (ensureNoTechnicalOverride profile supplied) := by
  unfold ensureNoTechnicalOverride
  split <;> simp

theorem applyProfile_calm (existing : Option FlowRecord) (supplied : List String)
    (data : FlowData) : Only Call.Calm (applyProfile fc existing supplied data) := by
  refine (requestedProfileId_calm fc data).bind fun requested => ?_
  cases existing with
  | none =>
    cases requested with
    | unlink => simp
    | absent => simp
    | profile id =>
      refine only_step trivial fun _ => only_step trivial fun profile => ?_
      cases profile with
      | none => simp
      | some profile =>
        exact (ensureNoTechnicalOverride_calm profile supplied).bind fun _ => by simp
  | some flow =>
    dsimp only
    cases flow.profileId with
    | none => cases requested <;> simp
    | some stored =>
      dsimp only
      cases requested with
      | unlink => exact only_step trivial fun profile => by cases profile <;> simp
      | absent =>
        refine only_step trivial fun profile => ?_
        cases profile with
        | none => simp
        | some profile =>
          exact (ensureNoTechnicalOverride_calm profile supplied).bind fun _ => by simp
      | profile id =>
        dsimp only
        split
        · simp
        · refine only_step trivial fun profile => ?_
          cases profile with
          | none => simp
          | some profile =>
            exact (ensureNoTechnicalOverride_calm profile supplied).bind fun _ => by simp

theorem upsertSource_tame (sourceId : SourceId) (format : String) (data : FlowData) :
    Only Call.Tame (upsertSource fc sourceId format data) := by
  refine only_step trivial fun source => only_step trivial fun now => ?_
  split
  · exact only_call trivial
  · split
    · simp
    · exact only_call trivial

theorem ensureInitSegmentsUnchanged_calm (f : FlowId) (data : FlowData)
    (existing : Option FlowRecord) :
    Only Call.Calm (ensureInitSegmentsUnchanged fc f data existing) := by
  cases existing with
  | none => simp [ensureInitSegmentsUnchanged]
  | some existing =>
    unfold ensureInitSegmentsUnchanged
    dsimp only
    split
    · refine only_step trivial fun hasSegments => ?_
      split <;> simp
    · simp

theorem putRecord_tame (f : FlowId) (flow : FlowData) (supplied : List String)
    (subject : String) (existing : Option FlowRecord) :
    Only Call.Tame (putRecord fc f flow supplied subject existing) := by
  have hwritable : Only Call.Calm (existing.forM ensureFlowWritable : App PUnit) := by
    cases existing with
    | none => trivial
    | some existing => exact ensureFlowWritable_calm existing
  refine (tame_of_calm hwritable).bind fun _ =>
    (tame_of_calm (applyProfile_calm fc existing supplied _)).bind
      fun ⟨data, unlinkedFields⟩ => ?_
  dsimp only
  split
  · simp
  · refine (tame_of_calm (ensureInitSegmentsUnchanged_calm fc f _ existing)).bind fun _ => ?_
    refine (upsertSource_tame fc _ _ _).bind fun _ => ?_
    refine only_step trivial fun now => only_step trivial fun version => ?_
    split
    · exact tame_of_calm (replaceFlowCollection_calm _ _)
    · simp

end Contract

theorem verifyControlledUploads_calm (posts : List SegmentPostInput) (rd : Readings) :
    Only Call.Calm (verifyControlledUploads posts rd) := by
  unfold verifyControlledUploads
  dsimp only
  split
  · simp
  · exact only_step trivial fun _ => by simp

theorem requestedObjectIds_calm (flow : FlowRecord) (posts : List SegmentPost) :
    Only Call.Calm (requestedObjectIds flow posts) := by
  unfold requestedObjectIds
  dsimp only
  split
  · exact only_step trivial fun _ => by simp
  · simp

theorem queueControlledObjectCleanup_calm (o : ObjectId) (instances : List ObjectInstance)
    (requestId : Option QueueId) :
    Only Call.Calm (queueControlledObjectCleanup o instances requestId) :=
  Only.forM fun _ _ => only_step trivial fun _ => only_step trivial fun _ => only_call trivial

theorem objectSegments_calm (f : FlowId) (remaining : List SegmentRecord) (o : ObjectId)
    (flows : List FlowId) : Only Call.Calm (objectSegments f remaining o flows) := by
  induction flows with
  | nil => simp [objectSegments]
  | cons g flows ih =>
    unfold objectSegments
    dsimp only
    split
    · exact ih.bind fun _ => by simp
    · exact only_step trivial fun _ => ih.bind fun _ => by simp

theorem deleteOrphanSource_tame (sourceId : Option SourceId) :
    Only Call.Tame (deleteOrphanSource sourceId) := by
  unfold deleteOrphanSource
  split
  · simp
  · refine only_step trivial fun flows => ?_
    split
    · exact only_step trivial fun _ => only_call trivial
    · simp

theorem freshObjectIds_calm (n : Nat) : Only Call.Calm (freshObjectIds n) := by
  induction n with
  | zero => simp [freshObjectIds]
  | succ n ih => exact only_step trivial fun _ => ih.bind fun _ => by simp

theorem storageContentType_calm (flow : FlowRecord) (request : StorageRequest) :
    Only Call.Calm (storageContentType flow request) := by
  unfold storageContentType
  split
  · simp
  · split <;> simp

theorem storageBackendOf_calm (request : StorageRequest) :
    Only Call.Calm (storageBackendOf request) := by
  unfold storageBackendOf
  dsimp only
  split
  · refine only_step trivial fun backend => ?_
    cases backend <;> simp
  · refine only_step trivial fun _ => Only.bind (by simp) fun backend => ?_
    cases backend <;> simp

theorem requireReferencedObject_calm (o : ObjectId) :
    Only Call.Calm (requireReferencedObject o) := by
  refine only_step trivial fun objects => ?_
  split
  · simp
  · split <;> simp

theorem markObjectCopyDone_calm (copy : ObjectCopyRecord) :
    Only Call.Calm (markObjectCopyDone copy) :=
  only_step trivial fun _ => only_call trivial

theorem markObjectCleanupDone_calm (cleanup : ObjectCleanupRecord) :
    Only Call.Calm (markObjectCleanupDone cleanup) :=
  only_step trivial fun _ => only_call trivial

theorem markObjectCleanupError_calm (cleanup : ObjectCleanupRecord) :
    Only Call.Calm (markObjectCleanupError cleanup) :=
  only_step trivial fun _ => only_call trivial

theorem startObjectCleanups_calm (cleanups : List ObjectCleanupRecord) :
    Only Call.Calm (startObjectCleanups cleanups) := by
  induction cleanups with
  | nil => simp [startObjectCleanups]
  | cons cleanup cleanups ih =>
    have hstart : Only Call.Calm (startObjectCleanup cleanup) :=
      only_step trivial fun _ => only_step trivial fun _ => by simp
    refine hstart.bind fun cleanup => only_step trivial fun backend => ?_
    split
    · exact (markObjectCleanupError_calm cleanup).bind fun _ => ih.bind fun _ => by simp
    · exact ih.bind fun _ => by simp

def Transaction (P : Call → Prop) (p : App Unit) : Prop :=
  ∃ (β : Type) (check : App β) (body : β → App Unit), Only Call.Calm check ∧
    (∀ b, Only P (body b)) ∧ p = check >>= fun b => unitOfWork (body b)

abbrev TameTransaction : App Unit → Prop := Transaction Call.Tame

theorem Transaction.of_body {body : App Unit} (h : Only P body) : Transaction P (unitOfWork body) :=
  ⟨Unit, pure (), fun _ => body, trivial, fun _ => h, rfl⟩

variable {p : App Unit}

theorem Transaction.mono {Q : Call → Prop} (h : ∀ c, P c → Q c)
    (hp : Transaction P p) : Transaction Q p := by
  obtain ⟨β, check, body, hcheck, hbody, rfl⟩ := hp
  exact ⟨β, check, body, hcheck, fun b => (hbody b).mono h, rfl⟩

def Call.OnProfiles : Call → Prop
  | .createProfile _ | .deleteProfile _ => True
  | c => c.Calm

variable {c : Call}

theorem Call.OnProfiles.tame (h : c.OnProfiles) : c.Tame := by
  cases c <;> first | exact Call.Calm.tame h | trivial

theorem editSource_tame (sourceId : SourceId) (edit : SourceEdit) :
    TameTransaction (editSource sourceId edit) := by
  apply Transaction.of_body
  apply only_step trivial
  intro _
  apply only_step trivial
  intro source
  cases source with
  | none => trivial
  | some source => exact only_step trivial fun _ => only_call trivial

theorem validatedRecord_calm (fc : FlowContract) (profileId : ProfileId)
    (payload : ProfileRecord) : Only Call.Calm (validatedRecord fc profileId payload) := by
  unfold validatedRecord
  apply only_throwIf
  apply only_throwIf
  apply only_throwIf
  trivial

theorem createProfile_onProfiles (fc : FlowContract) (profileId : ProfileId)
    (payload : ProfileRecord) : Transaction Call.OnProfiles (createProfile fc profileId payload) := by
  refine ⟨_, validatedRecord fc profileId payload, _, validatedRecord_calm fc _ _, ?_, rfl⟩
  intro record
  apply only_step trivial
  intro _
  apply only_step trivial
  intro existing
  apply only_throwIf
  apply only_step trivial
  intro created
  split <;> trivial

theorem ensureProfile_onProfiles (fc : FlowContract) (profileId : ProfileId)
    (payload : ProfileRecord) : Transaction Call.OnProfiles (ensureProfile fc profileId payload) := by
  refine ⟨_, validatedRecord fc profileId payload, _, validatedRecord_calm fc _ _, ?_, rfl⟩
  intro desired
  apply only_step trivial
  intro _
  apply only_step trivial
  intro existing
  cases existing with
  | none =>
    apply only_step trivial
    intro created
    split <;> trivial
  | some existing =>
    dsimp only
    split <;> trivial

theorem deleteProfileIfUnused_onProfiles (profileId : ProfileId) :
    Transaction Call.OnProfiles (deleteProfileIfUnused profileId) := by
  apply Transaction.of_body
  apply only_step trivial
  intro _
  apply only_step trivial
  intro existing
  split
  · apply only_step trivial
    intro references
    apply only_throwIf
    exact only_step trivial fun _ => trivial
  · trivial

/-! ## Code that leaves the flow rows alone

The second classification is about `save_flow` and the deletion of flow rows.  `KeepsFlows`
are the calls that do neither; `Open` are those of them that neither start nor end a
transaction, so that they may stand between reading a flow and saving it.  `KeepsCatalogue`
and `Apart` are the calls of the two kinds that leave sources and profiles alone, too. -/

def Call.KeepsFlows : Call → Prop
  | .write (.saveFlow _ _) | .write (.deleteFlow _) => False
  | _ => True

def Call.Open : Call → Prop
  | .write (.saveFlow _ _) | .write (.deleteFlow _) | .begin | .commit | .rollback => False
  | _ => True

def Call.KeepsCatalogue : Call → Prop
  | .write (.saveFlow _ _) | .write (.deleteFlow _) | .write (.saveSource _)
  | .write (.deleteSource _) | .write (.saveProfile _) | .write (.deleteProfile _)
  | .createProfile _ | .deleteProfile _ => False
  | _ => True

def Call.KeepsLinks : Call → Prop
  | .write (.saveFlow _ _) | .write (.deleteFlow _) | .write (.saveSource _)
  | .write (.deleteSource _) => False
  | _ => True

def Call.Apart : Call → Prop
  | .begin | .commit | .rollback => False
  | c => c.KeepsCatalogue

theorem Call.KeepsCatalogue.keepsFlows (h : c.KeepsCatalogue) : c.KeepsFlows := by
  cases c with
  | write w => cases w <;> first | exact h | trivial
  | _ => trivial

theorem Call.KeepsCatalogue.keepsLinks (h : c.KeepsCatalogue) : c.KeepsLinks := by
  cases c with
  | write w => cases w <;> first | exact h | trivial
  | _ => trivial

theorem Call.Calm.keepsLinks (h : c.Calm) : c.KeepsLinks := by
  cases c with
  | write w => cases w <;> first | exact h | trivial
  | _ => trivial

theorem Call.OnProfiles.keepsLinks (h : c.OnProfiles) : c.KeepsLinks := by
  cases c <;> first | exact Call.Calm.keepsLinks h | trivial

theorem Call.Apart.keepsCatalogue (h : c.Apart) : c.KeepsCatalogue := by
  cases c <;> first | exact h | trivial

theorem Call.Apart.isOpen (h : c.Apart) : c.Open := by
  cases c with
  | write w => cases w <;> first | exact h | trivial
  | _ => first | exact h | trivial

theorem Call.Open.keepsFlows (h : c.Open) : c.KeepsFlows := by
  cases c with
  | write w => cases w <;> exact h
  | _ => trivial

theorem Call.Quiet.isOpen (h : c.Quiet) : c.Open := by
  cases c with
  | write w => cases w <;> first | exact h | trivial
  | begin => exact h
  | commit => exact h
  | rollback => exact h
  | _ => trivial

theorem Call.Calm.apart (h : c.Calm) : c.Apart := by
  cases c with
  | write w => cases w <;> first | exact h | trivial
  | _ => first | exact h | trivial

theorem only_open_of_tame {α : Type} {p : App α} (h : Only Call.Tame p) :
    Only Call.Open p := h.mono fun _ hc => hc.quiet.isOpen

theorem only_open_of_calm {α : Type} {p : App α} (h : Only Call.Calm p) :
    Only Call.Open p := h.mono fun _ hc => hc.quiet.isOpen

theorem only_apart_of_calm {α : Type} {p : App α} (h : Only Call.Calm p) :
    Only Call.Apart p := h.mono fun _ hc => hc.apart

theorem only_open_of_apart {α : Type} {p : App α} (h : Only Call.Apart p) :
    Only Call.Open p := h.mono fun _ hc => hc.isOpen

theorem only_keepsCatalogue_of_apart {α : Type} {p : App α} (h : Only Call.Apart p) :
    Only Call.KeepsCatalogue p := h.mono fun _ hc => hc.keepsCatalogue

theorem only_keepsFlows_of_keepsCatalogue {α : Type} {p : App α}
    (h : Only Call.KeepsCatalogue p) : Only Call.KeepsFlows p :=
  h.mono fun _ hc => hc.keepsFlows

theorem only_unitOfWork {α : Type} {body : App α} (hbegin : P .begin) (hcommit : P .commit)
    (hrollback : P .rollback) (h : Only P body) : Only P (unitOfWork body) := by
  refine ⟨hbegin, fun _ => Lib.Prog.Only.bind (p := ExceptT.run body) h fun r => ?_⟩
  cases r with
  | ok a => exact ⟨hcommit, fun _ => trivial⟩
  | error e => exact ⟨hrollback, fun _ => trivial⟩

theorem only_keepsFlows_of_tameTransaction (hp : TameTransaction p) : Only Call.KeepsFlows p := by
  obtain ⟨β, check, body, hcheck, hbody, rfl⟩ := hp
  apply Only.bind ((only_open_of_calm hcheck).mono fun _ hc => hc.keepsFlows)
  intro b
  exact only_unitOfWork trivial trivial trivial
    ((only_open_of_tame (hbody b)).mono fun _ hc => hc.keepsFlows)

theorem only_keepsLinks_of_onProfiles (hp : Transaction Call.OnProfiles p) :
    Only Call.KeepsLinks p := by
  obtain ⟨β, check, body, hcheck, hbody, rfl⟩ := hp
  apply Only.bind (hcheck.mono fun _ hc => hc.keepsLinks)
  intro b
  exact only_unitOfWork trivial trivial trivial ((hbody b).mono fun _ hc => hc.keepsLinks)

theorem lockObjects_apart (ids : List ObjectId) : Only Call.Apart (lockObjects ids) :=
  Only.forM fun _ _ => only_call trivial

theorem requestedObjectIds_apart (flow : FlowRecord) (posts : List SegmentPost) :
    Only Call.Apart (requestedObjectIds flow posts) := by
  unfold requestedObjectIds
  dsimp only
  split
  · exact only_step trivial fun _ => by simp
  · simp

section Deletion

variable (mt : MediaTimestamp)

theorem refreshObject_apart (f : FlowId) (remaining : List SegmentRecord)
    (requestId : Option QueueId) (objects : ObjectsById) (o : ObjectId) :
    Only Call.Apart (refreshObject mt f remaining requestId objects o) := by
  unfold refreshObject
  split
  · simp
  · rename_i media _
    dsimp only
    generalize (if o ∈ remaining.flatMap SegmentRecord.objectIds then media
      else media.discardReference f) = media
    split
    · exact (only_apart_of_calm (queueControlledObjectCleanup_calm o _ requestId)).bind
        fun _ => only_call (by trivial)
    · split
      · exact only_call (by trivial)
      · refine Only.bind ?_ fun _ => only_call (by trivial)
        exact (only_apart_of_calm (objectSegments_calm f remaining _ _)).bind fun _ =>
          (only_except _).bind fun _ => only_except _

theorem refreshDeletedObjectReferences_apart (f : FlowId) (deleted : List SegmentRecord)
    (requestId : Option QueueId) :
    Only Call.Apart (refreshDeletedObjectReferences mt f deleted requestId) :=
  (lockObjects_apart _).bind fun _ => only_step trivial fun _ => only_step trivial fun _ =>
    Only.forM fun o _ => refreshObject_apart mt f _ requestId _ o

theorem deleteRounds_apart (filter : SegmentDeleteFilter) (requestId : Option QueueId)
    (drain : Bool) (rounds : Nat) :
    Only Call.Apart (deleteRounds mt filter requestId drain rounds) := by
  induction rounds with
  | zero => simp [deleteRounds]
  | succ rounds ih =>
    refine only_step trivial fun deleted => ?_
    split
    · exact only_call trivial
    · refine (refreshDeletedObjectReferences_apart mt _ _ _).bind fun _ =>
        only_step trivial fun remaining => ?_
      split
      · simp
      · exact ih

theorem deleteMatchingSegments_apart (filter : SegmentDeleteFilter)
    (requestId : Option QueueId) (drain : Bool) (rounds : Nat) :
    Only Call.Apart (deleteMatchingSegments mt filter requestId drain rounds) :=
  only_step trivial fun _ => only_step trivial fun _ =>
    deleteRounds_apart mt filter requestId drain rounds

end Deletion

theorem recordDeletionRequest_apart (f : FlowId) (timerange : String) (deleteFlow : Bool) :
    Only Call.Apart (recordDeletionRequest f timerange deleteFlow) :=
  only_step trivial fun _ => only_step trivial fun _ => only_call trivial

theorem lockAndCreate_apart (f : FlowId) (backend : StorageBackend) (contentType : String)
    (ids : List ObjectId) : Only Call.Apart (lockAndCreate f backend contentType ids) :=
  (lockObjects_apart ids).bind fun _ => only_step trivial fun _ => only_call trivial

theorem allocateFresh_apart (f : FlowId) (backend : StorageBackend) (contentType : String)
    (rounds wanted : Nat) :
    Only Call.Apart (allocateFresh f backend contentType rounds wanted) := by
  induction rounds generalizing wanted with
  | zero => cases wanted <;> simp [allocateFresh]
  | succ rounds ih =>
    cases wanted with
    | zero => simp [allocateFresh]
    | succ wanted =>
      exact (only_apart_of_calm (freshObjectIds_calm _)).bind fun ids =>
        (lockAndCreate_apart f backend contentType _).bind fun created => ih _

theorem allocateFlowStorage_keepsCatalogue (settings : StorageSettings) (f : FlowId)
    (request : StorageRequest) (rounds : Nat) :
    Only Call.KeepsCatalogue (allocateFlowStorage settings f request rounds) := by
  have hcalm : ∀ {α : Type} {p : App α}, Only Call.Calm p → Only Call.KeepsCatalogue p :=
    fun hp => only_keepsCatalogue_of_apart (only_apart_of_calm hp)
  refine (hcalm (requireFlow_calm f)).bind fun ⟨flow, _⟩ => ?_
  refine (hcalm (ensureFlowWritable_calm flow)).bind fun _ => ?_
  refine only_throwIf (only_throwIf ?_)
  refine (hcalm (storageContentType_calm flow request)).bind fun contentType => ?_
  refine only_throwIf (only_throwIf ?_)
  refine (hcalm (storageBackendOf_calm request)).bind fun backend => ?_
  refine only_throwIf (only_throwIf (only_throwIf ?_))
  refine only_unitOfWork trivial trivial trivial (only_keepsCatalogue_of_apart ?_)
  split
  · exact allocateFresh_apart f backend contentType rounds _
  · refine (lockAndCreate_apart f backend contentType _).bind fun created => ?_
    split <;> simp

theorem registerObjectInstance_keepsCatalogue (o : ObjectId) (url label : Option String) :
    Only Call.KeepsCatalogue (registerObjectInstance o url label) := by
  refine only_unitOfWork trivial trivial trivial (only_keepsCatalogue_of_apart ?_)
  refine (lockObjects_apart [o]).bind fun _ =>
    (only_apart_of_calm (requireReferencedObject_calm o)).bind fun media => ?_
  dsimp only
  split
  · simp
  refine only_step trivial fun backends => ?_
  split
  · simp
  split
  · simp
  · exact only_call trivial

theorem queueControlledObjectCopy_keepsCatalogue (o : ObjectId) (destination : BackendId) :
    Only Call.KeepsCatalogue (queueControlledObjectCopy o destination) := by
  refine only_unitOfWork trivial trivial trivial (only_keepsCatalogue_of_apart ?_)
  refine (lockObjects_apart [o]).bind fun _ =>
    (only_apart_of_calm (requireReferencedObject_calm o)).bind fun media =>
      only_step trivial fun backend => ?_
  cases backend with
  | none => simp
  | some backend =>
    dsimp only
    split
    · simp
    split
    · simp
    exact only_step trivial fun _ => only_step trivial fun _ => only_call trivial

theorem deleteObjectInstance_keepsCatalogue (o : ObjectId) (storageId : Option BackendId)
    (label : Option String) : Only Call.KeepsCatalogue (deleteObjectInstance o storageId label) := by
  unfold deleteObjectInstance
  refine only_throwIf ?_
  refine only_unitOfWork trivial trivial trivial (only_keepsCatalogue_of_apart ?_)
  refine (lockObjects_apart [o]).bind fun _ =>
    (only_apart_of_calm (requireReferencedObject_calm o)).bind fun media => ?_
  refine only_throwIf (only_throwIf ?_)
  exact (only_apart_of_calm (queueControlledObjectCleanup_calm o _ none)).bind fun _ =>
    only_call trivial

theorem performObjectCopy_apart (copy : ObjectCopyRecord) (media : MediaObjectRecord)
    (destination : Option StorageBackend) :
    Only Call.Apart (performObjectCopy copy media destination) := by
  have hdone := only_apart_of_calm (markObjectCopyDone_calm copy)
  refine only_step trivial fun source => ?_
  split
  · split
    · exact hdone
    split
    · simp
    refine only_step trivial fun copied => ?_
    split
    · simp
    · exact only_step trivial fun _ => hdone
  · simp

theorem runObjectCopy_keepsCatalogue (copy : ObjectCopyRecord) :
    Only Call.KeepsCatalogue (runObjectCopy copy) := by
  have hprocess : ∀ copy, Only Call.KeepsCatalogue (processObjectCopy copy) := by
    intro copy
    have hdone := only_apart_of_calm (markObjectCopyDone_calm copy)
    refine only_unitOfWork trivial trivial trivial (only_keepsCatalogue_of_apart ?_)
    refine (lockObjects_apart _).bind fun _ => only_step trivial fun objects =>
      only_step trivial fun destination => ?_
    dsimp only
    split
    · split
      · split
        · refine only_step trivial fun deleted => ?_
          split
          · simp
          · exact hdone
        · exact hdone
      · exact hdone
    · split
      · simp
      · exact performObjectCopy_apart copy _ destination
  refine only_step trivial fun now => only_step trivial fun _ => (hprocess _).tryCatch fun _ => ?_
  exact only_step trivial fun _ => only_step trivial fun _ => by simp

theorem queueStaleAllocatedObjectCleanups_keepsCatalogue (before : Time) (maxObjects : Nat) :
    Only Call.KeepsCatalogue (queueStaleAllocatedObjectCleanups before maxObjects) := by
  refine only_unitOfWork trivial trivial trivial (only_keepsCatalogue_of_apart ?_)
  refine only_step trivial fun objects => Only.forM fun o _ => ?_
  split
  · exact (only_apart_of_calm (queueControlledObjectCleanup_calm o.id _ none)).bind fun _ =>
      only_call trivial
  · simp

/-! ### Queues

The worker's steps that only move records of the queues along. -/

def Call.Aside : Call → Prop
  | .begin | .commit | .rollback | .lockObject _ | .storageDelete _ _
  | .write (.saveDeleteRequest _) => True
  | c => c.Calm

variable {c : Call}

theorem Call.Aside.keepsCatalogue (h : c.Aside) : c.KeepsCatalogue := by
  cases c with
  | write w => cases w <;> first | exact h | trivial
  | _ => first | exact h | trivial

theorem only_keepsCatalogue_of_aside {α : Type} {p : App α} (h : Only Call.Aside p) :
    Only Call.KeepsCatalogue p := h.mono fun _ hc => hc.keepsCatalogue

theorem only_keepsFlows_of_aside {α : Type} {p : App α} (h : Only Call.Aside p) :
    Only Call.KeepsFlows p := h.mono fun _ hc => hc.keepsCatalogue.keepsFlows

def Call.Tidying : Call → Prop
  | .begin | .commit | .rollback | .lockObject _ | .storageDelete _ _ => True
  | c => c.Calm

theorem Call.Calm.tidying (h : c.Calm) : c.Tidying := by
  cases c <;> first | exact h | trivial

theorem Call.Tidying.aside (h : c.Tidying) : c.Aside := by
  cases c with
  | write w => cases w <;> first | exact h | trivial
  | _ => exact h

theorem cleanupBackend_tidying (backend : BackendId) (batch : List ObjectCleanupRecord) :
    Only Call.Tidying (cleanupBackend backend batch) := by
  have hmark : Only Call.Tidying (batch.forM markObjectCleanupDone) :=
    Only.forM fun cleanup _ => (markObjectCleanupDone_calm cleanup).mono fun _ hc => hc.tidying
  refine only_unitOfWork trivial trivial trivial ?_
  refine Only.bind (Only.forM fun _ _ => only_call trivial) fun _ =>
    only_step trivial fun objects => ?_
  dsimp only
  split
  · refine only_step trivial fun deleted => ?_
    split
    · simp
    · exact hmark
  · exact hmark

theorem cleanupBackends_tidying (started : List ObjectCleanupRecord)
    (backends : List BackendId) : Only Call.Tidying (cleanupBackends started backends) := by
  induction backends with
  | nil => simp [cleanupBackends]
  | cons backend backends ih =>
    refine Only.bind (Only.tryCatch ((cleanupBackend_tidying backend _).bind fun _ => by simp)
      fun _ => Only.bind (Only.forM fun cleanup _ => (markObjectCleanupError_calm cleanup).mono
        fun _ hc => hc.tidying) fun _ => by simp) fun _ => ?_
    exact ih.bind fun _ => by simp

theorem processObjectCleanups_tidying (cleanups : List ObjectCleanupRecord) :
    Only Call.Tidying (processObjectCleanups cleanups) := by
  refine ((startObjectCleanups_calm cleanups).mono fun _ hc => hc.tidying).bind
    fun ⟨started, failed⟩ => ?_
  refine (cleanupBackends_tidying started _).bind fun failed' => ?_
  split <;> simp

theorem processObjectCleanups_aside (cleanups : List ObjectCleanupRecord) :
    Only Call.Aside (processObjectCleanups cleanups) :=
  (processObjectCleanups_tidying cleanups).mono fun _ hc => hc.aside

theorem markDeleteRequestError_aside (requestId : QueueId) (error : DomainError) :
    Only Call.Aside (markDeleteRequestError requestId error) := by
  refine only_step trivial fun request => ?_
  split
  · simp
  · exact only_step trivial fun _ => only_call trivial

theorem releaseDeleteRequestClaim_aside (requestId : QueueId) :
    Only Call.Aside (releaseDeleteRequestClaim requestId) := by
  refine only_unitOfWork trivial trivial trivial (only_step trivial fun request => ?_)
  split
  · simp
  · exact only_step trivial fun _ => only_call trivial

theorem markDeleteRequestDone_aside (requestId : QueueId) :
    Only Call.Aside (markDeleteRequestDone requestId) := by
  refine only_unitOfWork trivial trivial trivial (only_step trivial fun request => ?_)
  split
  · simp
  · refine only_step trivial fun cleanups => ?_
    dsimp only
    split
    · simp
    · exact only_step trivial fun _ => only_call trivial

end Tamoss
