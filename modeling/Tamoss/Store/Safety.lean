/-
  **Every operation keeps the protocol, so every reachable store is consistent.**
-/
import Tamoss.Store.DeletionSafety

namespace Tamoss

open Lib.Machine

variable {mt : MediaTimestamp} {fc : FlowContract} {noDeletes : Prop} {i : SessionId}
variable {dirty : FlowId → ObjectId → Prop} {A F : CoreAssertion}
variable {E : PyError → Session → Prop}

namespace Spec

variable {P : Option Op → List FlowId → Prop}

theorem editFlow (f : FlowId) (edit : FlowEdit) (identity : Option String) :
    IdleSpec mt fc noDeletes i P (editFlow f edit identity) := by
  refine transaction ?_
  have hT : Steady mt i (InTx mt i clean Always) Always :=
    Steady.inTx Frame.true
  refine bind (lockFlow .true f) fun _ => ?_
  refine bind (pre (requireFlow hT f true) fun c l _ h => ⟨h.1, trivial⟩) fun ⟨flow, version⟩ =>
    assume fun _ => ?_
  refine bind (calm .true (applyEdit_calm flow edit)) fun flow => ?_
  refine bind (read' trivial hT.stable) fun now => ?_
  refine bind (read' trivial hT.stable) fun metadataVersion => ?_
  exact saveFlow .true _ version

theorem putFlowLocked (f : FlowId) (flow : FlowData) (suppliedFields : Option (List String))
    (subject : String) :
    TxOk mt fc noDeletes i clean Always (putFlowLocked fc f flow suppliedFields subject) := by
  have hT : Steady mt i (InTx mt i clean Always) Always :=
    Steady.inTx Frame.true
  unfold Tamoss.putFlowLocked
  split
  · exact throw hT _
  · refine throwIf hT fun _ => ?_
    refine bind (read' trivial hT.stable) fun read => ?_
    refine bind (quiet .true (quiet_of_tame (putRecord_tame fc f flow _ subject read.flow))) fun record => ?_
    exact saveFlow .true record read.version

theorem putFlow (f : FlowId) (flow : FlowData)
    (suppliedFields : Option (List String)) (subject : String) :
    IdleSpec mt fc noDeletes i P (putFlow fc f flow suppliedFields subject) := by
  refine transaction ?_
  refine bind (lockFlow .true f) fun _ => ?_
  exact pre (putFlowLocked f flow suppliedFields subject) fun c l _ h => ⟨h.1, trivial⟩

end Spec

theorem allocatedObject_ok (f : FlowId) (backend : StorageBackend) (contentType : String)
    (now : Time) (o : ObjectId) :
    (allocatedObject f backend contentType now o).referencedByFlows = [] ∧
      ObjectOk mt (allocatedObject f backend contentType now o) :=
  ⟨rfl, by simp [allocatedObject, MediaObjectRecord.new],
    by simp [allocatedObject, MediaObjectRecord.new]⟩

def ObjectIs (i : SessionId) (o : ObjectId) (media : MediaObjectRecord) : CoreAssertion :=
  fun c l => c.Holds i (.object o) ∧ (c.view l).objects.get o = some media

theorem ObjectIs.frame (o : ObjectId) (media : MediaObjectRecord) :
    Frame mt i (ObjectIs i o media) := .object o (· = some media)

theorem TxInv.push_sameRefs {c : Core} {l : Session} (h : TxInv mt i clean c l) {o : ObjectId}
    {media media' : MediaObjectRecord} (his : ObjectIs i o media c l) (hid : media'.id = o)
    (hrefs : media'.referencedByFlows = media.referencedByFlows) (hok : ObjectOk mt media') :
    TxInv mt i clean c (l.push [.saveObject media']) := by
  obtain ⟨hheld, hget⟩ := his
  have hw : Write.onObject o ((c.view l).objects.get o) (.saveObject media') = some media' := by
    simp [Write.onObject, hid]
  have hsame : refsOf (some media') = refsOf ((c.view l).objects.get o) := by
    rw [hget, refsOf_some, refsOf_some, hrefs]
  refine h.push_object hw (by simp [Write.TouchesFlow]) (fun o' ho' => ho'.symm.trans hid) hheld
    (fun obj hobj => Option.some.inj hobj ▸ hok) (fun g _ => by rw [hsame])
    (fun g hg hn => hsame ▸ h.listed g o hg hheld hn)
    (fun g hg _ hm => h.listedOnly g o hg hheld (by simp) (hsame ▸ hm)) (fun _ _ _ h => h)

namespace Spec

theorem saveObjectIs {o : ObjectId} {media media' : MediaObjectRecord} (hid : media'.id = media.id)
    (hrefs : media'.referencedByFlows = media.referencedByFlows)
    (htime : media'.timerange = media.timerange)
    (hinit : media'.initObjectId = media.initObjectId) :
    Spec mt fc noDeletes i (InTx mt i clean (ObjectIs i o media))
      (call (.write (.saveObject media'))) (fun _ => InTx mt i clean Always) E := by
  refine write (InTx.stable (ObjectIs.frame o media)) (InTx.stable .true)
    (fun _ _ h => h.1.inTransaction) fun c l _ h _ => ⟨?_, trivial⟩
  have hok := h.1.object o media h.2.1 h.2.2
  have hmid := (Lib.Table.get_eq_some.mp h.2.2).2
  exact h.1.push_sameRefs h.2 (hid.trans hmid) hrefs
    ⟨htime ▸ hok.timerange, hinit ▸ hok.init⟩

theorem requireReferencedObject (o : ObjectId) :
    Spec mt fc noDeletes i (InTx mt i clean fun c l => True ∧ HoldsObjects i [o] c l)
      (requireReferencedObject o) (fun media => InTx mt i clean (ObjectIs i o media)) Always := by
  refine bind (getObjects .true [o]) fun objects => ?_
  have hF : Frame mt i fun c l => (∀ x ∈ objects.rows, x.id ∈ [o]) ∧ True ∧
      ObjectsAre i [o] objects c l := (Frame.const _).and (Frame.true.and (ObjectsAre.frame _ _))
  split
  · exact throw (Steady.inTx hF) _
  · rename_i media hmedia
    split
    · exact throw (Steady.inTx hF) _
    · refine Triple.pure (InTx.stable hF).lift fun w l _ h => ⟨h.1, ?_⟩
      obtain ⟨hheld, hview⟩ := h.2.2.2 o (by simp)
      exact ⟨hheld, hview.trans hmedia⟩

variable {P : Option Op → List FlowId → Prop}

theorem registerObjectInstance (o : ObjectId) (url label : Option String) :
    IdleSpec mt fc noDeletes i P (registerObjectInstance o url label) := by
  refine transaction ?_
  refine bind (lockObjects .true [o]) fun _ => ?_
  refine bind (requireReferencedObject o) fun media => ?_
  have hS : Steady mt i (InTx mt i clean (ObjectIs i o media)) Always :=
    Steady.inTx (ObjectIs.frame o media)
  refine throwIf hS fun _ => ?_
  refine bind (read' trivial hS.stable) fun backends => ?_
  refine throwIf hS fun _ => ?_
  split
  · exact throw hS _
  · rename_i media' happend
    obtain ⟨is, rfl⟩ := appendUncontrolledInstance_ok happend
    exact saveObjectIs rfl rfl rfl rfl

theorem queueControlledObjectCopy (o : ObjectId) (destination : BackendId) :
    IdleSpec mt fc noDeletes i P (queueControlledObjectCopy o destination) := by
  refine transaction ?_
  refine bind (lockObjects .true [o]) fun _ => ?_
  refine pre (calm .true ?_) fun c l _ h => ⟨h.1, trivial⟩
  refine (requireReferencedObject_calm o).bind fun media => only_step trivial fun backend => ?_
  split
  · simp
  · split
    · simp
    · dsimp only
      split
      · simp
      · exact only_step trivial fun _ => only_step trivial fun _ => only_call trivial

theorem deleteObjectInstance (o : ObjectId) (storageId : Option BackendId) (label : Option String) :
    IdleSpec mt fc noDeletes i P (deleteObjectInstance o storageId label) := by
  unfold Tamoss.deleteObjectInstance
  refine throwIf Steady.idle fun _ => ?_
  refine transaction ?_
  refine bind (lockObjects .true [o]) fun _ => ?_
  refine bind (requireReferencedObject o) fun media => ?_
  have hS : Steady mt i (InTx mt i clean (ObjectIs i o media)) Always :=
    Steady.inTx (ObjectIs.frame o media)
  refine throwIf hS fun _ => throwIf hS fun _ => ?_
  refine bind (calm (ObjectIs.frame o media) (queueControlledObjectCleanup_calm o _ none))
    fun _ => ?_
  exact saveObjectIs rfl rfl rfl rfl

theorem lockAndCreate (f : FlowId) (backend : StorageBackend) (contentType : String)
    (ids : List ObjectId) :
    TxOk mt fc noDeletes i clean Always (lockAndCreate f backend contentType ids) := by
  refine bind (lockObjects .true ids) fun _ => ?_
  refine bind (read' trivial (InTx.stable (Frame.true.and (HoldsObjects.memo ids).frame)))
    fun now => ?_
  refine pre (createObjects fun o ho => ?_) fun c l _ h => ⟨h.1, ?_⟩
  · obtain ⟨id, -, rfl⟩ := List.mem_map.mp ho
    exact allocatedObject_ok f backend contentType now id
  · have hid : (fun o : MediaObjectRecord => o.id) ∘
        allocatedObject f backend contentType now = id := rfl
    rw [List.map_map, hid, List.map_id]
    exact h.2.2

theorem allocateFresh (f : FlowId) (backend : StorageBackend) (contentType : String)
    (rounds wanted : Nat) :
    TxOk mt fc noDeletes i clean Always (allocateFresh f backend contentType rounds wanted) := by
  induction rounds generalizing wanted with
  | zero =>
    cases wanted with
    | zero => exact Triple.pure (InTx.stable .true).lift fun _ _ _ h => h
    | succ wanted => exact Triple.throw fun _ _ _ => trivial
  | succ rounds ih =>
    cases wanted with
    | zero => exact Triple.pure (InTx.stable .true).lift fun _ _ _ h => h
    | succ wanted =>
      refine bind (calm .true (freshObjectIds_calm (wanted + 1))) fun ids => ?_
      exact bind (lockAndCreate f backend contentType ids.dedup) fun created => ih _

theorem allocateFlowStorage (settings : StorageSettings)
    (f : FlowId) (request : StorageRequest) (rounds : Nat) :
    IdleSpec mt fc noDeletes i P (allocateFlowStorage settings f request rounds) := by
  refine bind (requireFlow Steady.idle f false) fun ⟨flow, _⟩ => assume fun _ => ?_
  refine bind (ensureFlowWritable Steady.idle flow) fun _ => ?_
  refine throwIf Steady.idle fun _ => throwIf Steady.idle fun _ => ?_
  refine bind (calmIdle (storageContentType_calm flow request)) fun contentType => ?_
  refine throwIf Steady.idle fun _ => throwIf Steady.idle fun _ => ?_
  refine bind (calmIdle (storageBackendOf_calm request)) fun backend => ?_
  refine throwIf Steady.idle fun _ => throwIf Steady.idle fun _ => throwIf Steady.idle
    fun _ => ?_
  refine transaction ?_
  split
  · exact allocateFresh f backend contentType rounds _
  · rename_i ids _
    refine bind (lockAndCreate f backend contentType ids) fun created => ?_
    split
    · exact Triple.throw fun _ _ _ => trivial
    · exact Triple.pure (InTx.stable .true).lift fun _ _ _ h => h

theorem performObjectCopy (copy : ObjectCopyRecord) (media : MediaObjectRecord)
    (destination : Option StorageBackend) :
    TxOk mt fc noDeletes i clean (ObjectIs i copy.objectId media)
      (performObjectCopy copy media destination) := by
  have hF : Frame mt i (ObjectIs i copy.objectId media) := ObjectIs.frame _ _
  have hS : Steady mt i (InTx mt i clean (ObjectIs i copy.objectId media)) Always :=
    Steady.inTx hF
  have hmark : TxOk mt fc noDeletes i clean Always (markObjectCopyDone copy) :=
    calm .true (markObjectCopyDone_calm copy)
  refine bind (read' trivial hS.stable) fun source => ?_
  split
  · split
    · exact pre hmark fun c l _ h => ⟨h.1, trivial⟩
    · split
      · exact throw hS _
      · refine bind (read' trivial hS.stable) fun copied => ?_
        refine throwIf hS fun _ => ?_
        exact bind (saveObjectIs rfl rfl rfl rfl) fun _ => hmark
  · exact throw hS _

theorem processObjectCopy (copy : ObjectCopyRecord) :
    IdleSpec mt fc noDeletes i P (processObjectCopy copy) := by
  refine transaction ?_
  refine bind (lockObjects .true [copy.objectId]) fun _ => ?_
  refine bind (getObjects .true [copy.objectId]) fun objects => ?_
  have hF : Frame mt i fun c l => (∀ x ∈ objects.rows, x.id ∈ [copy.objectId]) ∧ True ∧
      ObjectsAre i [copy.objectId] objects c l :=
    (Frame.const _).and (Frame.true.and (ObjectsAre.frame _ _))
  refine bind (read' trivial (InTx.stable hF)) fun destination => ?_
  dsimp only
  split
  · refine pre (quiet .true ?_) fun c l _ h => ⟨h.1, trivial⟩
    split
    · split
      · refine only_step trivial fun deleted => ?_
        split
        · simp
        · exact quiet_of_calm (markObjectCopyDone_calm copy)
      · exact quiet_of_calm (markObjectCopyDone_calm copy)
    · exact quiet_of_calm (markObjectCopyDone_calm copy)
  · split
    · exact Triple.pure (InTx.stable hF).lift fun _ _ _ h => ⟨h.1, trivial⟩
    · rename_i media hmedia
      refine pre (performObjectCopy copy media destination) fun c l _ h => ⟨h.1, ?_⟩
      obtain ⟨hheld, hview⟩ := h.2.2.2 copy.objectId (by simp)
      exact ⟨hheld, hview.trans hmedia⟩

theorem idle_of_eq {α : Type} {Q : α → CoreAssertion} {p : App α}
    (h : Spec mt fc noDeletes i (Idle i Always) p Q E) : Spec mt fc noDeletes i AtRest p Q E :=
  pre h fun _ _ _ hl => ⟨hl, trivial⟩

theorem runObjectCopy (copy : ObjectCopyRecord) :
    IdleSpec mt fc noDeletes i P (runObjectCopy copy) := by
  refine bind (read' trivial Idle.stable) fun now => ?_
  refine bind (autocommit trivial) fun _ => ?_
  refine tryCatch (fun _ => .local (· = .idle)) (processObjectCopy _) fun e => idle_of_eq ?_
  refine bind (read' trivial Idle.stable) fun now => ?_
  exact bind (autocommit trivial) fun _ => throw Steady.idle _

theorem cleanupBackend (backend : BackendId) (batch : List ObjectCleanupRecord) :
    IdleSpec mt fc noDeletes i P (cleanupBackend backend batch) := by
  refine transaction ?_
  refine bind (lockObjects .true _) fun _ => ?_
  refine pre (quiet .true ?_) fun c l _ h => ⟨h.1, trivial⟩
  have hdone : Lib.Only Call.Quiet (batch.forM markObjectCleanupDone) :=
    Lib.Only.forM fun cleanup _ => quiet_of_calm (markObjectCleanupDone_calm cleanup)
  refine only_step trivial fun objects => ?_
  dsimp only
  split
  · refine only_step trivial fun deleted => ?_
    split
    · simp
    · exact hdone
  · exact hdone

theorem cleanupBackends (started : List ObjectCleanupRecord) (backends : List BackendId) :
    Spec mt fc noDeletes i (Idle i Always) (cleanupBackends started backends)
      (fun _ => Idle i Always) AtRest := by
  induction backends with
  | nil => exact Triple.pure Idle.stable.lift fun _ _ _ h => h
  | cons backend backends ih =>
    refine bind (Q := fun _ => Idle i Always) ?_ fun ok => ?_
    · refine tryCatch (fun _ => Idle.stable) (bind (cleanupBackend backend _) fun _ =>
        Triple.pure (CoreAssertion.Stable.local (· = .idle)).lift fun _ _ _ h => ⟨h, trivial⟩)
        fun e => idle_of_eq ?_
      refine bind (calmIdle (Lib.Only.forM fun cleanup _ => markObjectCleanupError_calm cleanup))
        fun _ => ?_
      exact Triple.pure Idle.stable.lift fun _ _ _ h => h
    · exact bind ih fun failed => Triple.pure Idle.stable.lift fun _ _ _ h => h

theorem processObjectCleanups (cleanups : List ObjectCleanupRecord) :
    Spec mt fc noDeletes i (Idle i Always) (processObjectCleanups cleanups)
      (fun _ => Idle i Always) AtRest := by
  refine bind (calmIdle (startObjectCleanups_calm cleanups)) fun ⟨started, failed⟩ => ?_
  refine bind (cleanupBackends started _) fun failed' => ?_
  split
  · exact throw Steady.idle _
  · exact Triple.pure Idle.stable.lift fun _ _ _ h => h

/-- **`queue_stale_allocated_object_cleanups`** deletes only objects that it has locked and
    that no flow references. -/
theorem queueStaleAllocatedObjectCleanups (before : Time) (maxObjects : Nat) :
    IdleSpec mt fc noDeletes i P (queueStaleAllocatedObjectCleanups before maxObjects) := by
  refine transaction ?_
  refine bind (listUnreferenced before maxObjects) fun objects => ?_
  set F : CoreAssertion := fun c l => ∀ o ∈ objects,
    c.Holds i (.object o.id) ∧ refsOf ((c.view l).objects.get o.id) = [] with hF
  have hframe : Frame mt i F := .forall_of fun o => .imp fun _ =>
    .object o.id fun object => refsOf object = []
  refine post (forM (fun _ => InTx mt i clean F) (fun _ => InTx.stable hframe) ?_)
    fun _ _ _ _ h => ⟨h.1, trivial⟩
  intro done o rest hxs
  have ho : o ∈ objects := by rw [hxs]; simp
  split
  · refine bind (calm hframe (queueControlledObjectCleanup_calm o.id _ none)) fun _ => ?_
    refine write (InTx.stable hframe) (InTx.stable hframe) (fun _ _ h => h.1.inTransaction)
      fun c l _ h _ => ?_
    have hw : Write.onObject o.id ((c.view l).objects.get o.id) (.deleteObject o.id) = none := by
      simp [Write.onObject]
    refine ⟨h.1.push_unreferenced hw (by simp [Write.TouchesFlow]) (fun o' ho' => ho'.symm)
      (h.2 o ho).1 (fun obj hobj => by cases hobj) (h.2 o ho).2 rfl, fun o' ho' => ?_⟩
    refine ⟨(h.2 o' ho').1, ?_⟩
    rw [Core.view_push, objects_get_applyAll]
    show refsOf (if o.id = o'.id then none else (c.view l).objects.get o'.id) = []
    split
    · rfl
    · exact (h.2 o' ho').2
  · exact Triple.pure (InTx.stable hframe).lift fun _ _ _ h => h

theorem markDeleteRequestError (requestId : QueueId) (error : DomainError) :
    Spec mt fc noDeletes i (Idle i Always) (markDeleteRequestError requestId error)
      (fun _ => AtRest) AtRest := by
  refine bind (read' trivial Idle.stable) fun request => ?_
  split
  · exact Triple.pure Idle.stable.lift fun _ _ _ h => h.1
  · refine bind (read' trivial Idle.stable) fun now => ?_
    exact post (autocommit trivial) fun _ _ _ _ h => h.1

theorem releaseDeleteRequestClaim (requestId : QueueId) :
    Spec mt fc noDeletes i (Idle i Always) (releaseDeleteRequestClaim requestId)
      (fun _ => AtRest) AtRest := by
  refine transaction (bind (read' trivial (InTx.stable .true)) fun request => ?_)
  split
  · exact Triple.pure (InTx.stable .true).lift fun _ _ _ h => h
  · refine bind (read' trivial (InTx.stable .true)) fun now => ?_
    exact saveRequest .true .true fun _ _ _ => trivial

theorem markDeleteRequestDone (requestId : QueueId) :
    Spec mt fc noDeletes i (Idle i Always) (markDeleteRequestDone requestId)
      (fun _ => AtRest) AtRest := by
  refine transaction (bind (read' trivial (InTx.stable .true)) fun request => ?_)
  split
  · exact Triple.pure (InTx.stable .true).lift fun _ _ _ h => h
  · refine bind (read' trivial (InTx.stable .true)) fun cleanups => ?_
    refine throwIf (Steady.inTx .true) fun _ => ?_
    refine bind (read' trivial (InTx.stable .true)) fun now => ?_
    exact saveRequest .true .true fun _ _ _ => trivial

theorem processActiveDeleteRequest (requestId : QueueId) (rounds : Nat) : Spec mt fc noDeletes i
      (Idle i fun op _ => op = some (.processDeleteRequest requestId rounds))
      (processActiveDeleteRequest mt requestId rounds) (fun _ => AtRest) AtRest := by
  refine bind (applyDeleteMetadata requestId rounds) fun answer => idle_of_eq ?_
  split
  · exact Triple.pure Idle.stable.lift fun _ _ _ h => h.1
  · rename_i request
    refine bind (read' trivial Idle.stable) fun cleanups => ?_
    refine bind (processObjectCleanups cleanups) fun _ => ?_
    split
    · exact releaseDeleteRequestClaim request.id
    · exact markDeleteRequestDone request.id

theorem processDeleteRequest (requestId : QueueId) (rounds : Nat) : Spec mt fc noDeletes i
      (Idle i fun op _ => op = some (.processDeleteRequest requestId rounds))
      (processDeleteRequest mt requestId rounds) (fun _ => AtRest) AtRest := by
  refine bind (read' trivial Idle.stable) fun answer => ?_
  split
  · exact Triple.pure Idle.stable.lift fun _ _ _ h => h.1
  · split
    · exact Triple.pure Idle.stable.lift fun _ _ _ h => h.1
    · refine tryCatch (fun _ => .local (· = .idle))
        (processActiveDeleteRequest requestId rounds) fun e => idle_of_eq ?_
      split
      · exact markDeleteRequestError requestId _
      · exact markDeleteRequestError requestId _

end Spec

theorem operation_safe (L : mt.Lawful) (op : Op) (hop : noDeletes → ∀ f, op ≠ .deleteFlow f) :
    Spec mt fc noDeletes i (Idle i fun running _ => running = some op) (operation mt fc op)
      (fun _ => Always) Always := by
  have hweak : ∀ {p : App Unit}, Spec mt fc noDeletes i (Idle i fun running _ => running = some op)
      p (fun _ => AtRest) AtRest →
      Spec mt fc noDeletes i (Idle i fun running _ => running = some op) p
        (fun _ => Always) Always := fun h =>
    Triple.conseq h (fun _ _ _ h => h) (fun _ _ _ _ _ => trivial) (fun _ _ _ => trivial)
  cases op with
  | registerSegments f posts rd readings =>
    refine hweak (Spec.bind (Spec.pre (Spec.registerSegments L f posts rd readings)
      fun c l _ h => ⟨h.1, trivial⟩) fun _ => ?_)
    exact Triple.pure (CoreAssertion.Stable.local (· = .idle)).lift fun _ _ _ h => h
  | deleteSegments f timerange objectId rounds =>
    exact hweak (Spec.deleteSegments f timerange objectId rounds)
  | deleteFlow f => exact hweak (Spec.deleteFlow (fun hn => hop hn f rfl) f)
  | processDeleteRequest requestId rounds =>
    exact hweak (Spec.processDeleteRequest requestId rounds)
  | putFlow f flow suppliedFields subject =>
    exact hweak (Spec.putFlow f flow suppliedFields subject)
  | editFlow f edit identity => exact hweak (Spec.editFlow f edit identity)
  | allocateFlowStorage settings f request rounds =>
    exact hweak (Spec.allocateFlowStorage settings f request rounds)
  | registerObjectInstance o url label => exact hweak (Spec.registerObjectInstance o url label)
  | queueControlledObjectCopy o destination =>
    exact hweak (Spec.queueControlledObjectCopy o destination)
  | deleteObjectInstance o storageId label =>
    exact hweak (Spec.deleteObjectInstance o storageId label)
  | runObjectCopy copy => exact hweak (Spec.runObjectCopy copy)
  | processObjectCleanups cleanups =>
    refine hweak (Spec.post (Spec.pre (Spec.processObjectCleanups cleanups)
      fun c l _ h => ⟨h.1, trivial⟩) fun _ _ _ _ h => h.1)
  | queueStaleAllocatedObjectCleanups before maxObjects =>
    exact hweak (Spec.queueStaleAllocatedObjectCleanups before maxObjects)
  | editSource s edit => exact hweak (Spec.tameTransaction (editSource_tame s edit))
  | createProfile p payload => exact hweak (Spec.tameTransaction ((createProfile_onProfiles fc p payload).mono
    fun _ hc => hc.tame))
  | ensureProfile p payload => exact hweak (Spec.tameTransaction ((ensureProfile_onProfiles fc p payload).mono
    fun _ hc => hc.tame))
  | deleteProfileIfUnused p => exact hweak (Spec.tameTransaction ((deleteProfileIfUnused_onProfiles p).mono
    fun _ hc => hc.tame))

variable {db : Database}

theorem StoreInv.initial (h : Consistent mt db) :
    StoreInv mt noDeletes (World.initial db) where
  core := ⟨h, fun _ _ hf => by cases hf⟩
  deletions := by simp [World.initial]
  quiet _ _ := ⟨rfl, by simp [World.initial]⟩

theorem StoreInv.enter {w : World} (h : StoreInv mt noDeletes w) (i : SessionId) {op : Op}
    (hop : noDeletes → ∀ f, op ≠ .deleteFlow f) :
    StoreInv mt noDeletes { w with running := Function.update w.running i (some op) } where
  core := ⟨h.core.consistent, h.core.condemned⟩
  deletions := h.deletions
  quiet hq j := by
    refine ⟨(h.quiet hq j).1, fun f => ?_⟩
    by_cases hj : j = i
    · subst hj
      simpa using hop hq f
    · simpa [hj] using (h.quiet hq j).2 f

/-- **The invariant of the service.** It holds in every state of every run that respects
    the discipline, from a consistent database. -/
theorem storeInv_of_reachable (L : mt.Lawful) (hdb : Consistent mt db) {c : (service mt fc).Config}
    (hc : (service mt fc).Reachable (storeDiscipline mt fc noDeletes) (World.initial db) c) :
    StoreInv mt noDeletes c.shared := by
  refine (Reachable.ok (P := storeProtocol mt fc noDeletes) ?_ ?_ (StoreInv.initial hdb) hc).inv
  · intro i op w hi hop
    refine ⟨hi.enter i hop, fun j hj => ?_, ?_⟩
    · refine ⟨fun _ => Iff.rfl, fun _ _ => rfl, fun _ _ => rfl, ?_, rfl⟩
      exact Function.update_of_ne hj _ _
    · have hsafe : Spec mt fc noDeletes i (Idle i fun running _ => running = some op)
          (operation mt fc op) (fun _ => Always) Always := operation_safe L op hop
      refine Safe.bind (Safe.mono (hsafe _ .idle (hi.enter i hop) ?_)
        fun _ _ _ _ _ _ _ _ => trivial)
      exact ⟨rfl, Function.update_self i _ _⟩
  · intro i w hi
    have hrel := hi.release i
    refine ⟨⟨⟨hrel.core.consistent, hrel.core.condemned⟩, hrel.deletions, fun hq j =>
      ⟨(hrel.quiet hq j).1, fun f => ?_⟩⟩, fun j hj => ?_⟩
    · show Function.update w.running i none j ≠ _
      by_cases hj : j = i
      · subst hj
        simp
      · rw [Function.update_of_ne hj]
        exact (hi.quiet hq j).2 f
    · refine Core.Rely.trans (Core.Rely.release w hj) ⟨fun _ => Iff.rfl, fun _ _ => rfl,
        fun _ _ => rfl, ?_, rfl⟩
      exact Function.update_of_ne hj _ _

end Tamoss
