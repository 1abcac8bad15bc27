/-
  **Every operation keeps segments linked.**
-/
import Tamoss.Store.LinkRegistration
import Tamoss.Store.LinkDeletion
import Tamoss.Store.Safety

namespace Tamoss

open Lib.Machine

variable {mt : MediaTimestamp} {exact : Prop} {fc : FlowContract}
variable {D : (service mt fc).Discipline} {i : SessionId}
variable {E : PyError → Session → Prop} {P : Option Op → Prop}

namespace LinkSpec

theorem resting_of_eq {α : Type} {Q : α → CoreAssertion} {p : App α}
    (h : LinkSpec mt fc exact D i (Resting i fun _ => True) p Q E) :
    LinkSpec mt fc exact D i AtRest p Q E :=
  pre h fun _ _ _ hl => ⟨hl, trivial⟩

theorem recordDeletionRequest (f : FlowId) (timerange : String) (deletesFlow : Bool) :
    LinkSpec mt fc exact D i (Resting i P) (recordDeletionRequest f timerange deletesFlow)
      (fun _ => Resting i P) E := by
  refine reading Resting.stable trivial fun now => ?_
  refine reading Resting.stable trivial fun id => ?_
  exact autocommit (by simp [Write.Neutral])

theorem requireFlowResting (f : FlowId) (toSave : Bool) :
    LinkSpec mt fc exact D i (Resting i P) (Tamoss.requireFlow f toSave)
      (fun _ => Resting i P) AtRest := by
  refine reading Resting.stable trivial fun found => ?_
  split
  · exact Triple.throw fun _ _ h => h.1
  · exact pure Resting.stable _

theorem deleteFlow (f : FlowId) : RestSpec mt fc exact D i P (deleteFlow f) := by
  refine bind (requireFlowResting f false) fun ⟨flow, _⟩ => ?_
  refine bind (calmResting (ensureFlowWritable_calm flow)) fun _ => ?_
  refine bind (timerangeResting _) fun answer => ?_
  split
  · exact unitOfWork (pre (removeFlow flow f) fun c l _ h => ⟨h.1, addsNone_of_neutral h.2.1⟩)
  · exact Triple.post (recordDeletionRequest f answer true) fun _ _ _ _ h => h.1

theorem deleteSegments (L : mt.Lawful) (T : exact → mt.Arithmetic) (f : FlowId)
    (timerange : Option String) (objectId : Option ObjectId) (rounds : Nat) :
    RestSpec mt fc exact D i P (deleteSegments mt f timerange objectId rounds) := by
  refine bind (requireFlowResting f _) fun ⟨flow, version⟩ => ?_
  refine bind (calmResting (ensureFlowWritable_calm flow)) fun _ => ?_
  split
  · exact Triple.throw fun _ _ h => h.1
  · rename_i filter hfilter
    refine bind (timerangeResting filter) fun matching => ?_
    split
    · exact Triple.pure Resting.stable.lift fun _ _ _ h => h.1
    · split
      · rename_i hobject
        have hdrain : ∃ o, filter.objectId = some o := by
          rw [(segmentDeleteFilter_ok hfilter).2]
          exact Option.isSome_iff_exists.mp hobject
        refine unitOfWork ?_
        have hD : Carried mt exact i (Deleting i filter.flowId) := Deleting.carried _
        refine bind (deleteMatchingSegments L T filter none true (fun _ => hdrain) rounds)
          fun _ => ?_
        refine reading (InLink.stable hD) trivial fun now => ?_
        exact Triple.post (neutral hD (by trivial)) fun _ _ _ _ h => ⟨h.1, trivial⟩
      · exact Triple.post (recordDeletionRequest f _ false) fun _ _ _ _ h => h.1

theorem processFlowDeleteRequest (L : mt.Lawful) (T : exact → mt.Arithmetic)
    (request : DeletionRequestRecord) (filter : SegmentDeleteFilter) (rounds : Nat) :
    LinkOk mt fc exact D i (Opening i P) (processFlowDeleteRequest mt request filter rounds) := by
  have hD : Carried mt exact i (Deleting i filter.flowId) := Deleting.carried _
  have hdone : ∀ answer : Option String, LinkSpec mt fc exact D i
      (InLink mt exact i Always) (Pure.pure answer)
      (fun _ => InLink mt exact i Always) Always :=
    fun answer => pure (InLink.stable .true) answer
  refine bind (deleteMatchingSegments L T filter (some request.id) false nofun rounds)
    fun remaining => ?_
  split
  · exact pre (hdone _) fun c l _ h => ⟨h.1, trivial⟩
  · refine reading (InLink.stable hD) trivial fun read => ?_
    split
    · exact pre (hdone _) fun c l _ h => ⟨h.1, trivial⟩
    · rename_i flow _
      exact bind (pre (removeFlow flow request.flowId) fun c l _ h => ⟨h.1, h.2.adds⟩)
        fun _ => hdone none

theorem processSegmentDeleteRequest (L : mt.Lawful) (T : exact → mt.Arithmetic)
    (request : DeletionRequestRecord) (filter : SegmentDeleteFilter) (rounds : Nat) :
    LinkOk mt fc exact D i (Opening i P)
      (processSegmentDeleteRequest mt request filter rounds) := by
  have hD : Carried mt exact i (Deleting i filter.flowId) := Deleting.carried _
  refine reading (InLink.stable (Opening.carried P)) trivial fun read => ?_
  split
  · exact Triple.pure (InLink.stable (Opening.carried P)).lift fun _ _ _ h => ⟨h.1, trivial⟩
  · refine bind (deleteMatchingSegments L T filter _ false nofun rounds) fun _ => ?_
    refine reading (InLink.stable hD) trivial fun now => ?_
    refine bind (neutral hD (by trivial)) fun _ => ?_
    exact Triple.pure (InLink.stable hD).lift fun _ _ _ h => ⟨h.1, trivial⟩

theorem applyDeleteMetadata (L : mt.Lawful) (T : exact → mt.Arithmetic) (requestId : QueueId)
    (rounds : Nat) : RestSpec mt fc exact D i P (applyDeleteMetadata mt requestId rounds) := by
  have hO : Carried mt exact i (Opening i P) := Opening.carried P
  have hT : Carried mt exact i Always := .true
  have hdone : ∀ answer : Option DeletionRequestRecord, LinkSpec mt fc exact D i
      (InLink mt exact i (Opening i P)) (Pure.pure answer)
      (fun _ => InLink mt exact i Always) Always := fun _ =>
    Triple.pure (InLink.stable hO).lift fun _ _ _ h => ⟨h.1, trivial⟩
  refine unitOfWork (reading (InLink.stable hO) trivial fun answer => ?_)
  split
  · exact hdone _
  · split
    · exact hdone _
    · refine reading (InLink.stable hO) trivial fun now => ?_
      refine bind (neutral hO (by trivial)) fun _ => ?_
      split
      · exact hdone _
      · refine bind (except (InLink.stable hO) (fun _ _ _ _ => trivial) _) fun filter =>
          assume fun _ => ?_
        have hsave : ∀ request : DeletionRequestRecord, ∀ remaining : Option String,
            LinkOk mt fc exact D i Always
              (do
                let now ← call .utcNow
                let request := { request with timerangeRemaining := remaining, updated := now }
                call (.write (.saveDeleteRequest request))
                Pure.pure (some request)) := by
          intro request remaining
          refine reading (InLink.stable hT) trivial fun now => ?_
          refine bind (neutral hT (by trivial)) fun _ => ?_
          exact pure (InLink.stable hT) _
        split
        · exact bind (processFlowDeleteRequest L T _ filter rounds) (hsave _)
        · exact bind (processSegmentDeleteRequest L T _ filter rounds) (hsave _)

theorem markDeleteRequestError (requestId : QueueId) (error : DomainError) :
    RestSpec mt fc exact D i P (markDeleteRequestError requestId error) := by
  refine reading Resting.stable trivial fun request => ?_
  split
  · exact Triple.pure Resting.stable.lift fun _ _ _ h => h.1
  · refine reading Resting.stable trivial fun now => ?_
    exact Triple.post (autocommit trivial) fun _ _ _ _ h => h.1

theorem releaseDeleteRequestClaim (requestId : QueueId) :
    RestSpec mt fc exact D i P (releaseDeleteRequestClaim requestId) := by
  have hT : Carried mt exact i Always := .true
  refine unitOfWork (pre (B := InLink mt exact i Always) ?_ fun c l _ h =>
    ⟨h.1, trivial⟩)
  refine reading (InLink.stable hT) trivial fun request => ?_
  split
  · exact pure (InLink.stable hT) _
  · refine reading (InLink.stable hT) trivial fun now => ?_
    exact neutral hT (by trivial)

theorem markDeleteRequestDone (requestId : QueueId) :
    RestSpec mt fc exact D i P (markDeleteRequestDone requestId) := by
  have hT : Carried mt exact i Always := .true
  refine unitOfWork (pre (B := InLink mt exact i Always) ?_ fun c l _ h =>
    ⟨h.1, trivial⟩)
  refine reading (InLink.stable hT) trivial fun request => ?_
  split
  · exact pure (InLink.stable hT) _
  · refine reading (InLink.stable hT) trivial fun cleanups => ?_
    refine Triple.throwIf (fun _ _ _ => trivial) fun _ => ?_
    refine reading (InLink.stable hT) trivial fun now => ?_
    exact neutral hT (by trivial)

theorem editFlow (f : FlowId) (edit : FlowEdit) (identity : Option String) :
    RestSpec mt fc exact D i P (editFlow f edit identity) := by
  have hT : Carried mt exact i Always := .true
  refine unitOfWork (bind (lockFlow (Opening.carried P) hT f (fun c l h => .inr h.2.1)
    fun _ _ _ _ _ => trivial) fun _ => ?_)
  refine bind (requireFlow hT f true) fun ⟨flow, version⟩ => assume fun _ => ?_
  refine bind (calm hT (applyEdit_calm flow edit)) fun flow => ?_
  refine reading (InLink.stable hT) trivial fun now => ?_
  refine reading (InLink.stable hT) trivial fun metadataVersion => ?_
  exact neutral hT (by trivial)

theorem putFlow (f : FlowId) (flow : FlowData) (suppliedFields : Option (List String))
    (subject : String) : RestSpec mt fc exact D i P (putFlow fc f flow suppliedFields subject) := by
  have hT : Carried mt exact i Always := .true
  refine unitOfWork (bind (lockFlow (Opening.carried P) hT f (fun c l h => .inr h.2.1)
    fun _ _ _ _ _ => trivial) fun _ => ?_)
  unfold Tamoss.putFlowLocked
  split
  · exact Triple.throw fun _ _ _ => trivial
  · refine Triple.throwIf (fun _ _ _ => trivial) fun _ => ?_
    refine reading (InLink.stable hT) trivial fun read => ?_
    refine bind (tame hT (putRecord_tame fc f flow _ subject read.flow)) fun record => ?_
    exact neutral hT (by trivial)

end LinkSpec

theorem LinkTx.push_create {c : Core} {l : Session} (h : LinkTx mt exact i c l)
    (hremoves : RemovesNone l) {objects : List MediaObjectRecord}
    (hheld : ∀ o ∈ objects, c.Holds i (.object o.id))
    (hnew : ∀ o ∈ objects, o.referencedByFlows = [] ∧ o.timerange = none ∧
      o.initObjectId = none) (hold : ∀ o ∈ objects, refsOf ((c.view l).objects.get o.id) = []) :
    LinkTx mt exact i c (l.push (objects.map .saveObject)) := by
  induction objects generalizing l with
  | nil => simpa [Session.push] using h
  | cons o os ih =>
    obtain ⟨hrefs, htime, hinit⟩ := hnew o List.mem_cons_self
    have hbare : ∀ m, (c.view l).objects.get o.id = some m → m.referencedByFlows = [] := by
      intro m hm
      have := hold o List.mem_cons_self
      rwa [hm] at this
    have hget : ∀ o', (c.view (l.push [.saveObject o])).objects.get o' =
        if o.id = o' then some o else (c.view l).objects.get o' := by
      intro o'
      rw [Core.view_push, objects_get_applyAll]
      rfl
    have hremoves' : RemovesNone (l.push [.saveObject o]) :=
      hremoves.push (by simp) (by simp) (by simp)
    have hstep : LinkTx mt exact i c (l.push [.saveObject o]) := by
      have hw : Write.onObject o.id ((c.view l).objects.get o.id) (.saveObject o) = some o := by
        simp [Write.onObject]
      refine h.push_object hw (by simp [Write.TouchesFlow]) (fun o' ho' => ho'.symm)
        (hheld o List.mem_cons_self) (fun row _ _ m hm ht => ?_) (fun m hm => ?_) (fun g _ => ?_)
        (fun m _ hm hne _ => absurd (hbare m hm) hne) (fun _ _ => hremoves)
      · have hlisted := ht.listed
        rw [hbare m hm] at hlisted
        cases hlisted
      · obtain rfl := Option.some.inj hm
        exact ⟨fun _ => htime, fun hset => absurd hinit hset, fun _ => htime,
          fun _ hne => absurd hrefs hne⟩
      · rw [hold o List.mem_cons_self, refsOf_some, hrefs]
    have := ih hstep hremoves' (fun o' ho' => hheld o' (List.mem_cons_of_mem o ho'))
      (fun o' ho' => hnew o' (List.mem_cons_of_mem o ho')) (fun o' ho' => by
        rw [hget]
        split
        · exact hrefs
        · exact hold o' (List.mem_cons_of_mem o ho'))
    rwa [Session.push_push] at this

theorem ObjectIs.carried (o : ObjectId) (media : MediaObjectRecord) :
    Carried mt exact i (ObjectIs i o media) := .object o (· = some media)

namespace LinkSpec

theorem saveObjectIs {o : ObjectId} {media media' : MediaObjectRecord}
    (hsame : SameLinks media media') :
    LinkSpec mt fc exact D i (InLink mt exact i (ObjectIs i o media))
      (call (.write (.saveObject media'))) (fun _ => InLink mt exact i Always) E := by
  refine write (InLink.stable (ObjectIs.carried o media)) (InLink.stable .true)
    (fun _ _ h => h.1.inTransaction) fun c l h => ⟨?_, trivial⟩
  obtain ⟨htx, hheld, hget⟩ := h
  have hmid : media'.id = o := hsame.id.trans (Lib.Table.get_eq_some.mp hget).2
  have hw : Write.onObject o ((c.view l).objects.get o) (.saveObject media') = some media' := by
    simp [Write.onObject, hmid]
  refine htx.push_object hw (by simp [Write.TouchesFlow]) (fun o' ho' => ho'.symm.trans hmid)
    hheld (fun row _ _ m hm ht => ?_) (fun m hm => ?_) (fun g _ => ?_) (fun m m' hm hne hm' => ?_)
    (fun hnone => by rw [hget] at hnone; cases hnone)
  · obtain rfl := Option.some.inj (hget.symm.trans hm)
    exact ⟨media', rfl, ht.congr (fun h => hsame.refs ▸ h) hsame.kind hsame.init hsame.timerange⟩
  · obtain rfl := Option.some.inj hm
    have hlink := htx.linked.object o media hget
    exact ⟨by rw [hsame.refs, hsame.timerange]; exact hlink.bare,
      by rw [hsame.init, hsame.kind]; exact hlink.kind,
      by rw [hsame.kind, hsame.timerange]; exact hlink.init,
      by rw [hsame.refs, hsame.kind, hsame.timerange]; exact hlink.timed⟩
  · rw [hget, refsOf_some, refsOf_some, hsame.refs]
  · obtain rfl := Option.some.inj (hget.symm.trans hm)
    obtain rfl := Option.some.inj hm'
    exact ⟨by rw [hsame.refs]; exact hne, hsame.init, fun _ => hsame.timerange⟩

variable (i) in
theorem lockObjectsFirst (ids : List ObjectId) :
    LinkSpec mt fc exact D i (InLink mt exact i (Opening i P)) (Tamoss.lockObjects ids)
      (fun _ => InLink mt exact i fun c l => (∀ w ∈ l.writes, w.Neutral) ∧
        HoldsObjects i ids c l) E :=
  lockObjects (.writes fun _ h => h) (.local fun l => ∀ w ∈ l.writes, w.Neutral)
    fun _ _ h => ⟨h.1, .inr (.inl fun _ ho => h.2.1 _ ho)⟩

theorem requireReferencedObject (o : ObjectId) : LinkSpec mt fc exact D i
      (InLink mt exact i fun c l => (∀ w ∈ l.writes, w.Neutral) ∧ HoldsObjects i [o] c l)
      (requireReferencedObject o) (fun media => InLink mt exact i (ObjectIs i o media)) Always := by
  refine bind (getObjects (.writes fun _ h => h) [o]) fun objects => assume fun _ => ?_
  have hst : LinkStable mt exact i (InLink mt exact i fun c l =>
      (∀ w ∈ l.writes, w.Neutral) ∧ ObjectsAre i [o] objects c l) :=
    InLink.stable ((Carried.writes fun _ h => h).and (ObjectsAre.carried _ _))
  split
  · exact Triple.throw fun _ _ _ => trivial
  · rename_i media hmedia
    split
    · exact Triple.throw fun _ _ _ => trivial
    · refine Triple.pure hst.lift fun w l _ h => ⟨h.1, ?_⟩
      obtain ⟨hheld, hview⟩ := h.2.2 o List.mem_cons_self
      exact ⟨hheld, hview.trans hmedia⟩

theorem registerObjectInstance (o : ObjectId) (url label : Option String) :
    RestSpec mt fc exact D i P (registerObjectInstance o url label) := by
  refine unitOfWork (bind (lockObjectsFirst i [o]) fun _ => ?_)
  refine bind (requireReferencedObject o) fun media => ?_
  refine Triple.throwIf (fun _ _ _ => trivial) fun _ => ?_
  refine reading (InLink.stable (ObjectIs.carried o media)) trivial
    fun backends => ?_
  refine Triple.throwIf (fun _ _ _ => trivial) fun _ => ?_
  split
  · exact Triple.throw fun _ _ _ => trivial
  · rename_i media' happend
    obtain ⟨is, rfl⟩ := appendUncontrolledInstance_ok happend
    exact saveObjectIs ⟨rfl, rfl, rfl, rfl, rfl⟩

theorem queueControlledObjectCopy (o : ObjectId) (destination : BackendId) :
    RestSpec mt fc exact D i P (queueControlledObjectCopy o destination) := by
  refine unitOfWork (bind (lockObjectsFirst i [o]) fun _ => ?_)
  refine pre (calm .true ?_) fun c l _ h => ⟨h.1, trivial⟩
  refine (requireReferencedObject_calm o).bind fun media => only_step trivial fun backend => ?_
  split
  · simp
  · split
    · simp
    · dsimp only
      split
      · simp
      · exact only_step trivial fun _ => only_step trivial fun _ => only_call trivial

theorem deleteObjectInstance (o : ObjectId) (storageId : Option BackendId) (label : Option String) :
    RestSpec mt fc exact D i P (deleteObjectInstance o storageId label) := by
  unfold Tamoss.deleteObjectInstance
  refine Triple.throwIf (fun _ _ h => h.1) fun _ => ?_
  refine unitOfWork (bind (lockObjectsFirst i [o]) fun _ => ?_)
  refine bind (requireReferencedObject o) fun media => ?_
  refine Triple.throwIf (fun _ _ _ => trivial) fun _ =>
    Triple.throwIf (fun _ _ _ => trivial) fun _ => ?_
  refine bind (calm (ObjectIs.carried o media)
    (queueControlledObjectCleanup_calm o _ none)) fun _ => ?_
  exact saveObjectIs ⟨rfl, rfl, rfl, rfl, rfl⟩

theorem lockAndCreate {F : CoreAssertion} (hF : Carried mt exact i F) (hL : Lockable i F)
    (hpush : ∀ c l ws, F c l → F c (l.push ws))
    (f : FlowId) (backend : StorageBackend) (contentType : String) (ids : List ObjectId) :
    LinkSpec mt fc exact D i (InLink mt exact i fun c l => (RemovesNone l ∧ F c l) ∧ Free i ids c l)
      (lockAndCreate f backend contentType ids)
      (fun _ => InLink mt exact i fun c l => RemovesNone l ∧ F c l) Always := by
  have hG : Carried mt exact i fun c l => RemovesNone l ∧ F c l := RemovesNone.carried.and hF
  refine bind (lockObjects hG ((Lockable.local _).and hL) fun c l h => h) fun _ => ?_
  refine reading (InLink.stable (hG.and (HoldsObjects.carried ids))) trivial
    fun now => ?_
  refine push (InLink.stable (hG.and (HoldsObjects.carried ids))) (fun _ => InLink.stable hG)
    (fun _ _ h => h.1.inTransaction) (fun _ _ _ h => h) ?_
  intro ch w l r w' l' hi hA _ he
  obtain ⟨-, hl⟩ := Prod.mk.inj (Option.some.inj he)
  have hmem : ∀ o ∈ (ids.map (allocatedObject f backend contentType now)).filter
      (fun o => ((w.view l).objects.get o.id).isNone), ∃ id ∈ ids,
        o = allocatedObject f backend contentType now id := by
    intro o ho
    obtain ⟨id, hid, rfl⟩ := List.mem_map.mp (List.mem_filter.mp ho).1
    exact ⟨id, hid, rfl⟩
  refine ⟨_, hl, hA.1.push_create hA.2.1.1 (fun o ho => ?_) (fun o ho => ?_) (fun o ho => ?_),
    ⟨fun row hm => ?_, fun g hm => ?_, fun o hm => ?_⟩, hpush _ _ _ hA.2.1.2⟩
  · obtain ⟨id, hid, rfl⟩ := hmem o ho
    exact hA.2.2 id hid
  · obtain ⟨id, hid, rfl⟩ := hmem o ho
    exact ⟨rfl, rfl, rfl⟩
  · have hnone : (w.view l).objects.get o.id = none := by simpa using (List.mem_filter.mp ho).2
    show refsOf ((w.view l).objects.get o.id) = []
    rw [hnone]
    rfl
  · exact (List.mem_append.mp hm).elim (hA.2.1.1.segments row) (by simp)
  · exact (List.mem_append.mp hm).elim (hA.2.1.1.flows g) (by simp)
  · exact (List.mem_append.mp hm).elim (hA.2.1.1.objects o) (by simp)

theorem allocateFresh (f : FlowId) (backend : StorageBackend) (contentType : String)
    (rounds wanted : Nat) : LinkSpec mt fc exact D i
      (InLink mt exact i fun c l => RemovesNone l ∧ GeneratesIds (c.running i))
      (allocateFresh f backend contentType rounds wanted)
      (fun _ => InLink mt exact i Always) Always := by
  have hG : Carried mt exact i fun c _ => GeneratesIds (c.running i) := .running GeneratesIds
  have hF : Carried mt exact i fun c l => RemovesNone l ∧ GeneratesIds (c.running i) :=
    RemovesNone.carried.and hG
  have hdone : LinkSpec mt fc exact D i
      (InLink mt exact i fun c l => RemovesNone l ∧ GeneratesIds (c.running i))
      (Pure.pure () : App Unit) (fun _ => InLink mt exact i Always) Always :=
    Triple.pure (InLink.stable hF).lift fun _ _ _ h => ⟨h.1, trivial⟩
  induction rounds generalizing wanted with
  | zero =>
    cases wanted with
    | zero => exact hdone
    | succ wanted => exact Triple.throw fun _ _ _ => trivial
  | succ rounds ih =>
    cases wanted with
    | zero => exact hdone
    | succ wanted =>
      refine bind (calm hF (freshObjectIds_calm (wanted + 1))) fun ids => ?_
      refine bind (pre (lockAndCreate hG (fun _ _ _ h _ _ => h) (fun _ _ _ h => h) f
        backend contentType ids.dedup) fun c l _ h => ⟨h.1, h.2, .inr (.inr h.2.2)⟩)
        fun created => ih _

theorem allocateFlowStorage (settings : StorageSettings) (f : FlowId) (request : StorageRequest)
    (rounds : Nat) : LinkSpec mt fc exact D i
      (Resting i fun op => op = some (.allocateFlowStorage settings f request rounds))
      (allocateFlowStorage settings f request rounds) (fun _ => AtRest) AtRest := by
  refine bind (requireFlowResting f false) fun ⟨flow, _⟩ => ?_
  refine bind (calmResting (ensureFlowWritable_calm flow)) fun _ => ?_
  refine Triple.throwIf (fun _ _ h => h.1) fun _ => Triple.throwIf (fun _ _ h => h.1) fun _ => ?_
  refine bind (calmResting (storageContentType_calm flow request)) fun contentType => ?_
  refine Triple.throwIf (fun _ _ h => h.1) fun _ => Triple.throwIf (fun _ _ h => h.1) fun _ => ?_
  refine bind (calmResting (storageBackendOf_calm request)) fun backend => ?_
  refine Triple.throwIf (fun _ _ h => h.1) fun _ => Triple.throwIf (fun _ _ h => h.1) fun _ =>
    Triple.throwIf (fun _ _ h => h.1) fun _ => ?_
  refine unitOfWork ?_
  split
  · rename_i hnone
    refine pre (allocateFresh f backend contentType rounds _) fun c l _ h =>
      ⟨h.1, removesNone_of_neutral h.2.1, ?_⟩
    rw [h.2.2.2]
    exact hnone
  · rename_i ids _
    refine bind (pre (lockAndCreate .true (fun _ _ _ h _ _ => h) (fun _ _ _ h => h) f
      backend contentType ids) fun c l _ h => ⟨h.1, ⟨removesNone_of_neutral h.2.1, trivial⟩,
        .inr (.inl fun o ho => h.2.2.1 _ ho)⟩) fun created => ?_
    split
    · exact Triple.throw fun _ _ _ => trivial
    · exact Triple.pure (InLink.stable (RemovesNone.carried.and .true)).lift
        fun _ _ _ h => ⟨h.1, trivial⟩

/-- **Bytes are deleted only when no committed record advertises them.** -/
theorem storageDelete {ids all : List ObjectId} {objects : ObjectsById} {b : BackendId}
    (hids : ∀ o ∈ ids, o ∈ all ∧
      (objects.get o).all (fun m => !hasControlledInstanceOn m.instances b) = true) :
    LinkSpec mt fc exact D i
      (InLink mt exact i fun c l => (∀ w ∈ l.writes, w.Neutral) ∧ ObjectsAre i all objects c l)
      (call (.storageDelete ids b))
      (fun _ => InLink mt exact i fun c l => (∀ w ∈ l.writes, w.Neutral) ∧
        ObjectsAre i all objects c l) E := by
  have hst : LinkStable mt exact i (InLink mt exact i fun c l =>
      (∀ w ∈ l.writes, w.Neutral) ∧ ObjectsAre i all objects c l) :=
    InLink.stable ((Carried.writes fun _ h => h).and (ObjectsAre.carried _ _))
  refine statement hst (fun _ => hst) (fun c l _ h o ho m hm => ?_) ?_
  · -- nothing has been written, so what was read is what is committed
    obtain ⟨hmem, hall⟩ := hids o ho
    have hview := (h.2.2 o hmem).2
    rw [Core.view, objects_get_applyAll_neutral h.2.1, hm] at hview
    rw [← hview] at hall
    simpa using hall
  · intro w l hi hA ch r w' l' he _
    obtain ⟨hsame, rfl⟩ := exec_read (by trivial) he
    have hdb : w'.db = w.db := congrArg Core.db hsame.core
    refine ⟨hdb ▸ hi, fun j _ => ?_, ?_⟩
    · rw [hsame.core]
      exact LinkRely.refl j _
    · rw [hsame.core]
      exact hA

theorem performObjectCopy (copy : ObjectCopyRecord) (media : MediaObjectRecord)
    (destination : Option StorageBackend) : LinkOk mt fc exact D i (ObjectIs i copy.objectId media)
      (performObjectCopy copy media destination) := by
  have hst : LinkStable mt exact i (InLink mt exact i (ObjectIs i copy.objectId media)) :=
    InLink.stable (ObjectIs.carried _ _)
  have hmark : LinkOk mt fc exact D i Always (markObjectCopyDone copy) :=
    calm .true (markObjectCopyDone_calm copy)
  refine reading hst trivial fun source => ?_
  split
  · split
    · exact pre hmark fun c l _ h => ⟨h.1, trivial⟩
    · split
      · exact Triple.throw fun _ _ _ => trivial
      · refine reading hst trivial fun copied => ?_
        refine Triple.throwIf (fun _ _ _ => trivial) fun _ => ?_
        exact bind (saveObjectIs ⟨rfl, rfl, rfl, rfl, rfl⟩) fun _ => hmark
  · exact Triple.throw fun _ _ _ => trivial

theorem processObjectCopy (copy : ObjectCopyRecord) :
    RestSpec mt fc exact D i P (processObjectCopy copy) := by
  refine unitOfWork (bind (lockObjectsFirst i [copy.objectId]) fun _ => ?_)
  refine bind (getObjects (.writes fun _ h => h) [copy.objectId]) fun objects =>
    assume fun _ => ?_
  have hF : Carried mt exact i fun c l => (∀ w ∈ l.writes, w.Neutral) ∧
      ObjectsAre i [copy.objectId] objects c l :=
    (Carried.writes fun _ h => h).and (ObjectsAre.carried _ _)
  have hmark : LinkOk mt fc exact D i (fun c l =>
      (∀ w ∈ l.writes, w.Neutral) ∧ ObjectsAre i [copy.objectId] objects c l)
      (markObjectCopyDone copy) :=
    Triple.post (calm hF (markObjectCopyDone_calm copy)) fun _ _ _ _ h => ⟨h.1, trivial⟩
  refine reading (InLink.stable hF) trivial fun destination => ?_
  dsimp only
  split
  · split
    · split
      · rename_i backend hnone
        refine bind (storageDelete fun o ho => ?_) fun deleted => ?_
        · obtain rfl := List.mem_singleton.mp ho
          exact ⟨List.mem_cons_self, hnone⟩
        · exact Triple.throwIf (fun _ _ _ => trivial) fun _ => hmark
      · exact hmark
    · exact hmark
  · split
    · exact Triple.pure (InLink.stable hF).lift fun _ _ _ h => ⟨h.1, trivial⟩
    · rename_i media hmedia
      refine pre (performObjectCopy copy media destination) fun c l _ h => ⟨h.1, ?_⟩
      obtain ⟨hheld, hview⟩ := h.2.2 copy.objectId List.mem_cons_self
      exact ⟨hheld, hview.trans hmedia⟩

theorem runObjectCopy (copy : ObjectCopyRecord) :
    RestSpec mt fc exact D i P (runObjectCopy copy) := by
  refine reading Resting.stable trivial fun now => ?_
  refine bind (autocommit trivial) fun _ => ?_
  refine Triple.tryCatch (fun _ => idle_stable.lift) (processObjectCopy _) fun e =>
    resting_of_eq ?_
  refine reading Resting.stable trivial fun now => ?_
  exact bind (autocommit trivial) fun _ => Triple.throw fun _ _ h => h.1

theorem cleanupBackend (backend : BackendId) (batch : List ObjectCleanupRecord) :
    RestSpec mt fc exact D i P (cleanupBackend backend batch) := by
  refine unitOfWork (bind (lockObjectsFirst i _) fun _ => ?_)
  refine bind (getObjects (.writes fun _ h => h) _) fun objects => assume fun _ => ?_
  have hF : Carried mt exact i fun c l => (∀ w ∈ l.writes, w.Neutral) ∧
      ObjectsAre i (batch.map (·.objectId)) objects c l :=
    (Carried.writes fun _ h => h).and (ObjectsAre.carried _ _)
  have hdone : LinkOk mt fc exact D i (fun c l =>
      (∀ w ∈ l.writes, w.Neutral) ∧ ObjectsAre i (batch.map (·.objectId)) objects c l)
      (batch.forM markObjectCleanupDone) :=
    Triple.post (calm hF (Lib.Only.forM fun cleanup _ => markObjectCleanupDone_calm cleanup))
      fun _ _ _ _ h => ⟨h.1, trivial⟩
  dsimp only
  split
  · refine bind (storageDelete fun o ho => ?_) fun deleted => ?_
    · exact List.mem_filter.mp ho
    · exact Triple.throwIf (fun _ _ _ => trivial) fun _ => hdone
  · exact hdone

theorem cleanupBackends (started : List ObjectCleanupRecord) (backends : List BackendId) :
    LinkSpec mt fc exact D i (Resting i fun _ => True) (cleanupBackends started backends)
      (fun _ => Resting i fun _ => True) AtRest := by
  have hst : LinkStable mt exact i (Resting i fun _ => True) := Resting.stable
  induction backends with
  | nil => exact pure hst _
  | cons backend backends ih =>
    refine Triple.bind (Q := fun _ => (Resting i fun _ => True).lift mt fc) ?_ fun ok => ?_
    · refine Triple.tryCatch (fun _ => hst.lift) (bind (cleanupBackend backend _) fun _ =>
        Triple.pure idle_stable.lift fun _ _ _ h => ⟨h, trivial⟩) fun e => resting_of_eq ?_
      refine bind (calmResting (Lib.Only.forM fun cleanup _ =>
        markObjectCleanupError_calm cleanup)) fun _ => ?_
      exact pure hst _
    · exact bind ih fun failed => pure hst _

theorem processObjectCleanups (cleanups : List ObjectCleanupRecord) :
    LinkSpec mt fc exact D i (Resting i fun _ => True) (processObjectCleanups cleanups)
      (fun _ => Resting i fun _ => True) AtRest := by
  refine bind (calmResting (startObjectCleanups_calm cleanups))
    fun ⟨started, failed⟩ => ?_
  refine bind (cleanupBackends started _) fun failed' => ?_
  split
  · exact Triple.throw fun _ _ h => h.1
  · exact pure Resting.stable _

theorem queueStaleAllocatedObjectCleanups (before : Time) (maxObjects : Nat) :
    RestSpec mt fc exact D i P (queueStaleAllocatedObjectCleanups before maxObjects) := by
  let F (objects : List MediaObjectRecord) : CoreAssertion := fun c l => AddsNone l ∧
    ∀ o ∈ objects, c.Holds i (.object o.id) ∧ refsOf ((c.view l).objects.get o.id) = []
  have hF : ∀ objects, Carried mt exact i (F objects) := fun objects =>
    AddsNone.carried.and (.forall_of fun o => .imp fun _ =>
      .object o.id fun object => refsOf object = [])
  have hlist : LinkSpec mt fc exact D i (InLink mt exact i (Opening i P))
      (call (.listUnreferencedObjectsCreatedBefore before maxObjects))
      (fun objects => InLink mt exact i (F objects)) Always := by
    refine statement (InLink.stable (Opening.carried P)) (fun objects => InLink.stable (hF objects))
      (fun _ _ _ _ => trivial) ?_
    intro w l hi hA ch objects w' l' he _
    obtain ⟨locks, rfl, rfl, hk, hothers, hrefs⟩ := exec_listUnreferenced he hA.1.inTransaction
    refine ⟨hi, fun j hj => LinkRely.of_locks (hothers j hj),
      hA.1.lock fun k h => (hk k).mpr (.inr h), addsNone_of_neutral hA.2.1,
      fun o ho => ⟨(hk _).mpr (.inl ⟨o, ho, rfl⟩), hrefs o ho⟩⟩
  refine unitOfWork (bind hlist fun objects => ?_)
  refine Triple.post (Triple.forM (I := fun _ => (InLink mt exact i (F objects)).lift mt fc)
    (fun _ => (InLink.stable (hF objects)).lift) ?_) fun _ _ _ _ h => ⟨h.1, trivial⟩
  intro done o rest hxs
  have ho : o ∈ objects := by rw [hxs]; simp
  split
  · refine bind (calm (hF objects) (queueControlledObjectCleanup_calm o.id _ none))
      fun _ => ?_
    refine write (InLink.stable (hF objects)) (InLink.stable (hF objects))
      (fun _ _ h => h.1.inTransaction) fun c l h => ?_
    obtain ⟨htx, hadds, hrefs⟩ := h
    have hw : Write.onObject o.id ((c.view l).objects.get o.id) (.deleteObject o.id) = none := by
      simp [Write.onObject]
    have hadds' : AddsNone (l.push [.deleteObject o.id]) := hadds.push (by simp)
    refine ⟨htx.push_object hw (by simp [Write.TouchesFlow]) (fun o' ho' => ho'.symm)
      (hrefs o ho).1 (fun row _ _ m hm ht => ?_) (fun m hm => by cases hm) (fun g _ => ?_)
      (fun _ m' _ _ hm' => by cases hm') (fun _ hne => absurd rfl hne), hadds',
      fun o' ho' => ⟨(hrefs o' ho').1, ?_⟩⟩
    · -- no flow is listed, so no row names the object
      have hlisted := ht.listed
      have hnil := (hrefs o ho).2
      rw [hm, refsOf_some] at hnil
      rw [hnil] at hlisted
      cases hlisted
    · rw [(hrefs o ho).2]
      rfl
    · rw [Core.view_push, objects_get_applyAll]
      show refsOf (if o.id = o'.id then none else (c.view l).objects.get o'.id) = []
      split
      · rfl
      · exact (hrefs o' ho').2
  · exact Triple.pure (InLink.stable (hF objects)).lift fun _ _ _ h => h

theorem processActiveDeleteRequest (L : mt.Lawful) (T : exact → mt.Arithmetic)
    (requestId : QueueId) (rounds : Nat) :
    RestSpec mt fc exact D i P (processActiveDeleteRequest mt requestId rounds) := by
  refine bind (applyDeleteMetadata L T requestId rounds) fun answer => resting_of_eq ?_
  split
  · exact Triple.pure Resting.stable.lift fun _ _ _ h => h.1
  · rename_i request
    refine reading Resting.stable trivial fun cleanups => ?_
    refine bind (processObjectCleanups cleanups) fun _ => ?_
    split
    · exact releaseDeleteRequestClaim request.id
    · exact markDeleteRequestDone request.id

theorem processDeleteRequest (L : mt.Lawful) (T : exact → mt.Arithmetic) (requestId : QueueId)
    (rounds : Nat) : RestSpec mt fc exact D i P (processDeleteRequest mt requestId rounds) := by
  refine reading Resting.stable trivial fun answer => ?_
  split
  · exact Triple.pure Resting.stable.lift fun _ _ _ h => h.1
  · split
    · exact Triple.pure Resting.stable.lift fun _ _ _ h => h.1
    · refine Triple.tryCatch (fun _ => idle_stable.lift)
        (processActiveDeleteRequest L T requestId rounds) fun e => resting_of_eq ?_
      split
      · exact markDeleteRequestError requestId _
      · exact markDeleteRequestError requestId _

end LinkSpec

theorem operation_linked (L : mt.Lawful) (T : exact → mt.Arithmetic) (op : Op) :
    LinkSpec mt fc exact D i (Resting i fun running => running = some op) (operation mt fc op)
      (fun _ => Always) Always := by
  have hweak : ∀ {p : App Unit}, LinkSpec mt fc exact D i
      (Resting i fun running => running = some op) p (fun _ => AtRest)
        AtRest →
      LinkSpec mt fc exact D i (Resting i fun running => running = some op) p
        (fun _ => Always) Always := fun h =>
    Triple.conseq h (fun _ _ _ h => h) (fun _ _ _ _ _ => trivial) (fun _ _ _ => trivial)
  cases op with
  | registerSegments f posts rd readings =>
    refine hweak (Triple.bind (LinkSpec.pre (LinkSpec.registerSegments L T f posts rd readings)
      fun c l _ h => ⟨h.1, trivial⟩) fun _ => ?_)
    exact Triple.pure idle_stable.lift fun _ _ _ h => h
  | deleteSegments f timerange objectId rounds =>
    exact hweak (LinkSpec.deleteSegments L T f timerange objectId rounds)
  | deleteFlow f => exact hweak (LinkSpec.deleteFlow f)
  | processDeleteRequest requestId rounds =>
    exact hweak (LinkSpec.processDeleteRequest L T requestId rounds)
  | putFlow f flow suppliedFields subject =>
    exact hweak (LinkSpec.putFlow f flow suppliedFields subject)
  | editFlow f edit identity => exact hweak (LinkSpec.editFlow f edit identity)
  | allocateFlowStorage settings f request rounds =>
    exact hweak (LinkSpec.allocateFlowStorage settings f request rounds)
  | registerObjectInstance o url label =>
    exact hweak (LinkSpec.registerObjectInstance o url label)
  | queueControlledObjectCopy o destination =>
    exact hweak (LinkSpec.queueControlledObjectCopy o destination)
  | deleteObjectInstance o storageId label =>
    exact hweak (LinkSpec.deleteObjectInstance o storageId label)
  | runObjectCopy copy => exact hweak (LinkSpec.runObjectCopy copy)
  | processObjectCleanups cleanups =>
    refine hweak (Triple.post (LinkSpec.pre (LinkSpec.processObjectCleanups cleanups)
      fun c l _ h => ⟨h.1, trivial⟩) fun _ _ _ _ h => h.1)
  | queueStaleAllocatedObjectCleanups before maxObjects =>
    exact hweak (LinkSpec.queueStaleAllocatedObjectCleanups before maxObjects)
  | editSource s edit => exact hweak (LinkSpec.tameTransaction (editSource_tame s edit))
  | createProfile p payload => exact hweak (LinkSpec.tameTransaction ((createProfile_onProfiles fc p payload).mono
    fun _ hc => hc.tame))
  | ensureProfile p payload => exact hweak (LinkSpec.tameTransaction ((ensureProfile_onProfiles fc p payload).mono
    fun _ hc => hc.tame))
  | deleteProfileIfUnused p => exact hweak (LinkSpec.tameTransaction ((deleteProfileIfUnused_onProfiles p).mono
    fun _ hc => hc.tame))

theorem exec_locks {ch : Choice} {q : Call} {w w' : World} {l l' : Session} {r : q.Resp}
    (h : exec mt i ch q w l = some (r, w', l'))
    (hfree : ∀ k, w.locks k = some i → l.inTransaction = true) {j : SessionId} {k : Lock}
    (hk : w'.locks k = some j) :
    (j ≠ i ∧ w.locks k = some j) ∨ (j = i ∧ l'.inTransaction = true) := by
  have hrelease : ∀ w₁ : World, (w₁.release i).locks k = some j → w₁.locks = w.locks →
      j ≠ i ∧ w.locks k = some j := by
    intro w₁ hk hlocks
    simp only [World.release, hlocks] at hk
    split at hk
    · cases hk
    · rename_i hne
      exact ⟨fun hj => hne (hj ▸ hk), hk⟩
  -- a lock that was there before is one of another session, or of this transaction
  have hold : w.locks k = some j → l'.inTransaction = l.inTransaction →
      (j ≠ i ∧ w.locks k = some j) ∨ (j = i ∧ l'.inTransaction = true) := by
    intro hk htx
    by_cases hj : j = i
    · exact .inr ⟨hj, htx ▸ hfree k (hj ▸ hk)⟩
    · exact .inl ⟨hj, hk⟩
  cases exec_moves h with
  | begin =>
    by_cases hj : j = i
    · exact .inr ⟨hj, rfl⟩
    · exact .inl ⟨hj, hk⟩
  | commit => exact .inl (hrelease _ hk rfl)
  | rollback => exact .inl (hrelease _ hk rfl)
  | locks _ _ hnew => exact (hnew k j hk).elim (hold · rfl) .inr
  | notes => exact hold hk rfl
  | submits _ hsub =>
    unfold World.submit at hsub
    split at hsub
    · obtain ⟨rfl, rfl⟩ := Prod.mk.inj hsub
      exact hold hk rfl
    · obtain ⟨rfl, rfl⟩ := Prod.mk.inj hsub
      exact hold hk rfl

def Call.waitsAt : Call → Option Lock
  | .lockFlowSegments f => some (.flow f)
  | .lockObject o => some (.object o)
  | _ => none

def Reaps : Option Op → Prop
  | some (.queueStaleAllocatedObjectCleanups _ _) => True
  | _ => False

theorem queueStaleAllocatedObjectCleanups_waitsAt (before : Time) (maxObjects : Nat) :
    Lib.Only (fun q => Call.waitsAt q = none)
      (queueStaleAllocatedObjectCleanups before maxObjects) := by
  unfold queueStaleAllocatedObjectCleanups
  refine ⟨rfl, fun _ => Lib.Prog.Only.bind (p := ExceptT.run _) (?_ : Lib.Only _ _) ?_⟩
  · refine only_step rfl fun objects => Lib.Only.forM fun o _ => ?_
    split
    · refine Lib.Only.bind (Lib.Only.forM fun _ _ => ?_) fun _ => only_call rfl
      exact only_step rfl fun _ => only_step rfl fun _ => only_call rfl
    · trivial
  · intro r
    cases r with
    | ok a => exact ⟨rfl, fun _ => trivial⟩
    | error e => exact ⟨rfl, fun _ => trivial⟩

/-- What holds of the sessions of every run: locks are held in transactions only, only
    what may start is running, and the cleanup of stale allocations never waits. -/
structure SessionsOk (D : (service mt fc).Discipline) (c : (service mt fc).Config) : Prop where
  locks : ∀ i k, World.locks c.shared k = some i →
    ∃ l p, c.threads i = some ⟨l, p⟩ ∧ Session.inTransaction l = true
  starts : ∀ i op, World.running c.shared i = some op → D.starts op
  reaps : ∀ i l p, c.threads i = some ⟨l, p⟩ → Reaps (World.running c.shared i) →
    p.Only fun q => Call.waitsAt q = none

variable {c : (service mt fc).Config} {db : Database}

theorem sessionsOk_of_reachable
    (hc : (service mt fc).Reachable D (World.initial db) c) : SessionsOk D c := by
  induction hc with
  | init => exact ⟨fun i k h => (nomatch h), fun i op h => (nomatch h), fun i l p h => (nomatch h)⟩
  | @step c c' a hc hstep hperm ih =>
    cases stepped hstep with
    | start i op hnone =>
      have hself : Function.update (World.running c.shared) i (some op) i = some op :=
        Function.update_self i _ _
      have hother : ∀ j, j ≠ i → Function.update (World.running c.shared) i (some op) j =
          World.running c.shared j := fun j hj => Function.update_of_ne hj _ _
      refine ⟨fun j k hk => ?_, fun j op' hrun => ?_, fun j l p hth hreaps => ?_⟩
      · obtain ⟨l, p, hth, htx⟩ := ih.locks j k hk
        have hj : j ≠ i := fun he => by rw [he, hnone] at hth; cases hth
        exact ⟨l, p, (Function.update_of_ne hj _ _).trans hth, htx⟩
      · change Function.update (World.running c.shared) i (some op) j = some op' at hrun
        by_cases hj : j = i
        · rw [hj, hself] at hrun
          exact Option.some.inj hrun ▸ hperm
        · rw [hother j hj] at hrun
          exact ih.starts j op' hrun
      · change Reaps (Function.update (World.running c.shared) i (some op) j) at hreaps
        by_cases hj : j = i
        · subst hj
          rw [hself] at hreaps
          cases (Function.update_self _ _ _).symm.trans hth
          cases op with
          | queueStaleAllocatedObjectCleanups before maxObjects =>
            exact Lib.Prog.Only.bind
              (queueStaleAllocatedObjectCleanups_waitsAt before maxObjects) fun _ => trivial
          | _ => exact hreaps.elim
        · rw [hother j hj] at hreaps
          exact ih.reaps j l p ((Function.update_of_ne hj _ _).symm.trans hth) hreaps
    | call i ch l q k r w l' hth hex =>
      refine ⟨fun j lock hk => ?_, fun j op' hrun => ?_, fun j l₁ p hth₁ hreaps => ?_⟩
      · have hfree : ∀ lock, World.locks c.shared lock = some i →
            Session.inTransaction l = true := by
          intro lock hlock
          obtain ⟨l₁, p, hth₁, htx⟩ := ih.locks i lock hlock
          rw [hth] at hth₁
          cases hth₁
          exact htx
        rcases exec_locks hex hfree hk with ⟨hj, hold⟩ | ⟨rfl, htx⟩
        · obtain ⟨l₁, p, hth₁, htx⟩ := ih.locks j lock hold
          exact ⟨l₁, p, (Function.update_of_ne hj _ _).trans hth₁, htx⟩
        · exact ⟨l', k r, Function.update_self _ _ _, htx⟩
      · rw [exec_running hex] at hrun
        exact ih.starts j op' hrun
      · rw [exec_running hex] at hreaps
        by_cases hj : j = i
        · subst hj
          cases (Function.update_self _ _ _).symm.trans hth₁
          exact (ih.reaps j l _ hth hreaps).2 r
        · exact ih.reaps j l₁ p ((Function.update_of_ne hj _ _).symm.trans hth₁) hreaps
    | leave i =>
      refine ⟨fun j k hk => ?_, fun j op' hrun => ?_, fun j l p hth hreaps => ?_⟩
      · change (if World.locks c.shared k = some i then none else World.locks c.shared k) =
          some j at hk
        split at hk
        · cases hk
        · rename_i hne
          obtain ⟨l, p, hth, htx⟩ := ih.locks j k hk
          have hj : j ≠ i := fun he => hne (he ▸ hk)
          exact ⟨l, p, (Function.update_of_ne hj _ _).trans hth, htx⟩
      · change Function.update (World.running c.shared) i none j = some op' at hrun
        by_cases hj : j = i
        · rw [hj, Function.update_self] at hrun
          cases hrun
        · rw [Function.update_of_ne hj] at hrun
          exact ih.starts j op' hrun
      · change Reaps (Function.update (World.running c.shared) i none j) at hreaps
        by_cases hj : j = i
        · subst hj
          cases (Function.update_self _ _ _).symm.trans hth
        · rw [Function.update_of_ne hj] at hreaps
          exact ih.reaps j l p ((Function.update_of_ne hj _ _).symm.trans hth) hreaps

theorem granted_of_reachable (L : mt.Lawful) (hdb : db.WellFormed mt)
    (hconsistent : exact → ∀ c, (service mt fc).Reachable D (World.initial db) c →
      Consistent mt (World.db c.shared))
    (hc : (service mt fc).Reachable D (World.initial db) c) {l : Session} {q : Call}
    {k : q.Resp → Lib.Prog Call Call.Resp Unit}
    (hth : c.threads i = some ⟨l, .call q k⟩) : Granted mt exact i c.shared l := by
  have hwell := wellFormed_ok L hdb (hc.mono (fun _ _ => trivial) fun _ _ _ _ _ _ => trivial)
  refine ⟨hwell.inv.applyAll (hwell.req hth).2, fun htx lock hlock => ?_,
    fun hexact => hconsistent hexact c hc⟩
  obtain ⟨l₁, p, hth₁, htx₁⟩ := (sessionsOk_of_reachable hc).locks i lock hlock
  rw [hth] at hth₁
  cases hth₁
  rw [htx] at htx₁
  cases htx₁

theorem linkage_ok (L : mt.Lawful) (T : exact → mt.Arithmetic)
    (hdb : db.WellFormed mt) (hlinked : Linked mt exact db)
    (hconsistent : exact → ∀ c, (service mt fc).Reachable D (World.initial db) c →
      Consistent mt (World.db c.shared)) (hc : (service mt fc).Reachable D (World.initial db) c) :
    c.Ok (linkProtocol mt fc exact D) := by
  have hgranted : ∀ c, (service mt fc).Reachable D (World.initial db) c → ∀ i l q k,
      c.threads i = some ⟨l, .call q k⟩ → Granted mt exact i c.shared l :=
    fun c hc i l q k hth => granted_of_reachable L hdb hconsistent hc hth
  have hinit : (linkProtocol mt fc exact D).Inv (World.initial db) := hlinked
  refine Reachable.ok ?_ ?_ hinit (hc.assuming hgranted)
  · intro i op w hi _
    refine ⟨hi, fun j hj => ?_, ?_⟩
    · exact .of_same (fun _ => Iff.rfl) (fun _ => rfl) (fun _ h => h)
        (Function.update_of_ne hj _ _)
    · have hsafe : LinkSpec mt fc exact D i (Resting i fun running => running = some op)
          (operation mt fc op) (fun _ => Always) Always := operation_linked L T op
      refine Safe.bind (Safe.mono (hsafe _ .idle hi ?_) fun _ _ _ _ _ _ _ _ => trivial)
      exact ⟨rfl, Function.update_self i _ _⟩
  · intro i w hi
    refine ⟨hi, fun j hj => ?_⟩
    refine LinkRely.trans (.of_same (Core.Rely.release w hj).locks (fun _ => rfl) (fun _ h => h)
      rfl) (.of_same (fun _ => Iff.rfl) (fun _ => rfl) (fun _ h => h) ?_)
    exact Function.update_of_ne hj _ _

end Tamoss
