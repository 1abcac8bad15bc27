/-
  **Registration does not look at creation times.**
-/
import Tamoss.Lib.Eval
import Tamoss.Store.Batch

namespace Tamoss

open Lib (Rel)

def MediaObjectRecord.untimed (o : MediaObjectRecord) : MediaObjectRecord :=
  { o with created := 0 }

def SegmentRecord.untimed (s : SegmentRecord) : SegmentRecord := { s with created := 0 }

def SegmentRow.untimed (row : SegmentRow) : SegmentRow := { row with record := row.record.untimed }

def SegmentWriteResult.untimed : SegmentWriteResult → SegmentWriteResult
  | .segment record => .segment record.untimed
  | .error text => .error text

def SameObject (o o' : MediaObjectRecord) : Prop := o.untimed = o'.untimed

variable {o o' : MediaObjectRecord}

theorem SameObject.exists_eq (h : SameObject o o') : ∃ t, o' = { o with created := t } := by
  obtain ⟨id, timerange, init, first, allocated, refs, instances, keys, bytes, kind, content,
    created⟩ := o
  obtain ⟨id', timerange', init', first', allocated', refs', instances', keys', bytes', kind',
    content', created'⟩ := o'
  simp only [SameObject, MediaObjectRecord.untimed, MediaObjectRecord.mk.injEq] at h
  obtain ⟨rfl, rfl, rfl, rfl, rfl, rfl, rfl, rfl, rfl, rfl, rfl, -⟩ := h
  exact ⟨created', rfl⟩

theorem SameObject.refl (o : MediaObjectRecord) : SameObject o o := rfl

theorem sameObject_created (o : MediaObjectRecord) (t : Time) :
    SameObject o { o with created := t } := rfl

theorem SameObject.withoutTimerange (h : SameObject o o') :
    SameObject { o with timerange := none } { o' with timerange := none } := by
  obtain ⟨t, rfl⟩ := h.exists_eq
  rfl

def SameLookup (o o' : Option MediaObjectRecord) : Prop :=
  o.map MediaObjectRecord.untimed = o'.map MediaObjectRecord.untimed

theorem SameLookup.cases {o o' : Option MediaObjectRecord} (h : SameLookup o o') :
    (o = none ∧ o' = none) ∨ ∃ m t, o = some m ∧ o' = some { m with created := t } := by
  cases o with
  | none =>
    cases o' with
    | none => exact .inl ⟨rfl, rfl⟩
    | some m' => cases h
  | some m =>
    cases o' with
    | none => cases h
    | some m' =>
      obtain ⟨t, rfl⟩ := SameObject.exists_eq (Option.some.inj h)
      exact .inr ⟨m, t, rfl, rfl⟩

/-- A check of the upload of `o` made before the transaction gives what a live one gives. -/
def Checked (stored : ObjectId → StorageBackend → Option Nat) (checks : UploadChecks)
    (o : MediaObjectRecord) : Prop :=
  o.referencedByFlows = [] → ∀ now,
    ensureControlledObjectUploaded checks ⟨now, stored⟩ o =
      ensureControlledObjectUploaded [] ⟨now, stored⟩ o

variable {stored : ObjectId → StorageBackend → Option Nat} {checks checks' : UploadChecks}

theorem ensureFirstUse_eq {o : MediaObjectRecord} (h : Checked stored checks o) (now : Time)
    (f : FlowId) :
    ensureFirstUse checks ⟨now, stored⟩ f o = ensureFirstUse [] ⟨now, stored⟩ f o := by
  unfold ensureFirstUse
  split
  · rename_i hfirst
    simp only [Bool.and_eq_true, List.isEmpty_iff] at hfirst
    rw [h hfirst.2 now]
  · rfl

theorem ensureFirstUse_rel {o : MediaObjectRecord} {t : Time} (h : Checked stored checks o)
    (h' : Checked stored checks' { o with created := t }) (now now' : Time) (f : FlowId) :
    Rel SameObject (ensureFirstUse checks ⟨now, stored⟩ f o)
      (ensureFirstUse checks' ⟨now', stored⟩ f { o with created := t }) := by
  rw [ensureFirstUse_eq h, ensureFirstUse_eq h']
  unfold ensureFirstUse
  show Rel SameObject (if hasControlledInstance o && o.referencedByFlows.isEmpty then _ else _)
    (if hasControlledInstance o && o.referencedByFlows.isEmpty then _ else _)
  split
  · refine (Lib.Rel.of_eq (x := ensureControlledObjectAllocationMatchesFlow o f) rfl).bind
      fun _ _ _ => ?_
    unfold ensureControlledObjectUploaded
    rw [show controlledBackend { o with created := t } = controlledBackend o from rfl]
    cases controlledBackend o with
    | none => rfl
    | some backend =>
      dsimp only
      cases stored o.id backend with
      | none => rfl
      | some length => exact sameObject_created _ t
  · exact sameObject_created o t

variable {objects objects' : ObjectsById} {post : SegmentPost}

structure Agree (stored : ObjectId → StorageBackend → Option Nat)
    (checks checks' : UploadChecks) (objects objects' : ObjectsById) (o : ObjectId) : Prop where
  same : SameLookup (objects.get o) (objects'.get o)
  checked : ∀ m, objects.get o = some m → Checked stored checks m
  checked' : ∀ m, objects'.get o = some m → Checked stored checks' m

theorem loadMediaObject_rel (h : Agree stored checks checks' objects objects' post.objectId)
    (now now' : Time) (f : FlowId) : Rel (fun x x' => SameObject x.1 x'.1 ∧ x.2 = x'.2)
      (loadMediaObject checks ⟨now, stored⟩ f objects post)
      (loadMediaObject checks' ⟨now', stored⟩ f objects' post) := by
  unfold loadMediaObject
  rcases h.same.cases with ⟨hnone, hnone'⟩ | ⟨m, t, hsome, hsome'⟩
  · rw [hnone, hnone']
    dsimp only
    split
    · rfl
    · exact ⟨sameObject_created (MediaObjectRecord.new post.objectId now) now', rfl⟩
  · rw [hsome, hsome']
    dsimp only
    split
    · rfl
    · refine (ensureFirstUse_rel (h.checked m hsome) (h.checked' _ hsome') now now' f).bind
        fun o o' ho => ?_
      obtain ⟨t', rfl⟩ := ho.exists_eq
      show Rel _ (if (!m.referencedByFlows.isEmpty) = true then _ else _)
        (if (!m.referencedByFlows.isEmpty) = true then _ else _)
      split
      · dsimp only
        split
        · rfl
        · split
          · rfl
          · exact ⟨ho, rfl⟩
      · exact ⟨ho, rfl⟩

theorem matchContentType_rel (h : SameObject o o') (flow : FlowRecord) :
    Rel SameObject (matchContentType flow o) (matchContentType flow o') := by
  obtain ⟨t, rfl⟩ := h.exists_eq
  unfold matchContentType
  dsimp only
  split
  · exact sameObject_created { o with contentType := flow.container } t
  · split
    · rfl
    · exact h

structure SameFlow (flow flow' : FlowRecord) : Prop where
  id : flow.id = flow'.id
  container : flow.container = flow'.container
  initSegments : flow.initSegments = flow'.initSegments

variable {flow flow' : FlowRecord} {locked locked' : List ObjectId}

theorem resolveInitObject_rel (ho : SameObject o o') (hflow : SameFlow flow flow') (existing : Bool)
    (hinit : flow.initSegments = true → ∀ resolved,
      pyOr post.initObjectId o.initObjectId = some resolved → resolved ∈ locked ∧ resolved ∈ locked' ∧
        Agree stored checks checks' objects objects' resolved) (now now' : Time) :
    Rel (fun x x' => SameObject x.1 x'.1 ∧ SameLookup x.2 x'.2)
      (resolveInitObject checks ⟨now, stored⟩ flow objects locked post o existing)
      (resolveInitObject checks' ⟨now', stored⟩ flow' objects' locked' post o' existing) := by
  obtain ⟨t, rfl⟩ := ho.exists_eq
  unfold resolveInitObject
  rw [← hflow.initSegments, ← hflow.id]
  split
  · rename_i hsegments
    dsimp only
    cases hresolved : pyOr post.initObjectId o.initObjectId with
    | none => rfl
    | some resolved =>
      obtain ⟨hlocked, hlocked', hagree⟩ := hinit hsegments resolved hresolved
      dsimp only
      split
      · rfl
      · rcases hagree.same.cases with ⟨hnone, hnone'⟩ | ⟨m, t', hsome, hsome'⟩
        · rw [hnone, hnone']
          rfl
        · rw [hsome, hsome']
          dsimp only
          split
          · rfl
          · refine (ensureFirstUse_rel (hagree.checked m hsome) (hagree.checked' _ hsome')
              now now' flow.id).bind fun init init' hi => ?_
            exact ⟨sameObject_created { o with initObjectId := some resolved } t,
              congrArg some hi⟩
  · dsimp only
    split
    · rfl
    · exact ⟨ho, rfl⟩

theorem validateAppends_eq (h : SameObject o o')
    (entries : List GetUrl) : validateAppends o entries = validateAppends o' entries := by
  obtain ⟨t, rfl⟩ := h.exists_eq
  induction entries with
  | nil => rfl
  | cons entry entries ih =>
    unfold validateAppends
    rw [ih]

theorem appendGetUrls_rel (h : SameObject o o') (entries : List GetUrl) :
    Rel SameObject (appendGetUrls o entries) (appendGetUrls o' entries) := by
  induction entries generalizing o o' with
  | nil => exact h
  | cons entry entries ih =>
    refine Lib.Rel.bind (R := SameObject) ?_ fun _ _ hab => ih hab
    obtain ⟨t, rfl⟩ := h.exists_eq
    unfold appendUncontrolledInstance
    refine (Lib.Rel.of_eq rfl).bind fun _ _ _ => ?_
    dsimp only
    split
    · exact h
    · exact sameObject_created { o with instances := _ } t

theorem referencedBy_same (h : SameObject o o') (f : FlowId)
    (kind : ObjectKind) : SameObject (referencedBy f kind o) (referencedBy f kind o') := by
  obtain ⟨t, rfl⟩ := h.exists_eq
  unfold referencedBy MediaObjectRecord.addReference
  dsimp only
  split <;> rfl

variable {mt : MediaTimestamp}

theorem registeredMedia_rel (h : SameObject o o') (f : FlowId)
    (effective : String) (existing : Bool) :
    Rel SameObject (registeredMedia mt f post effective existing o)
      (registeredMedia mt f post effective existing o') := by
  unfold registeredMedia
  have href := referencedBy_same h f .media
  obtain ⟨t, ht⟩ := href.exists_eq
  rw [ht]
  generalize referencedBy f .media o = m
  dsimp only
  split
  · exact appendGetUrls_rel (sameObject_created m t) _
  · refine (Lib.Rel.of_eq rfl).bind fun timerange timerange' ht => ?_
    subst ht
    exact appendGetUrls_rel (sameObject_created { m with
      timerange := timerange, keyFrameCount := post.keyFrameCount.or m.keyFrameCount } t) _

theorem loadMediaObject_initObjectId {rd : Readings} {f : FlowId}
    {x : MediaObjectRecord × Bool} (h : loadMediaObject checks rd f objects post = .ok x)
    {o : ObjectId} (ho : x.1.initObjectId = some o) :
    ∃ m, objects.get post.objectId = some m ∧ m.objectKind ≠ .init ∧ m.initObjectId = some o := by
  unfold loadMediaObject at h
  split at h
  · split at h
    · cases h
    · cases h
      cases ho
  · rename_i m hsome
    dsimp only at h
    split at h
    · cases h
    · rename_i hkind
      obtain ⟨m', hfirst, h⟩ := Lib.bind_eq_ok h
      obtain ⟨n, rfl⟩ := ensureFirstUse_ok hfirst
      refine ⟨m, hsome, hkind, ?_⟩
      split at h
      · split at h
        · cases h
        · split at h <;> cases h
          exact ho
      · cases h
        exact ho

theorem matchContentType_initObjectId {m m' : MediaObjectRecord}
    (h : matchContentType flow m = .ok m') : m'.initObjectId = m.initObjectId := by
  unfold matchContentType at h
  split at h
  · cases h
    rfl
  · split at h <;> cases h
    rfl

structure SamePrepared (p p' : Prepared mt) : Prop where
  segment : p.segment.untimed = p'.segment.untimed
  objects : List.Forall₂ SameObject p.objects p'.objects
  range : p.range = p'.range

def InitCandidate (objects : ObjectsById) (post : SegmentPost) (o : ObjectId) : Prop :=
  post.initObjectId = some o ∨ ∃ m, objects.get post.objectId = some m ∧
    m.objectKind ≠ .init ∧ m.initObjectId = some o

theorem pyOr_cases {a b : Option String} {o : String} (h : pyOr a b = some o) :
    a = some o ∨ b = some o := by
  unfold pyOr at h
  split at h
  · exact .inr h
  · exact .inl h

variable (mt) in
def meetsKnown (known : List mt.TimeRange) (r : mt.TimeRange) : Bool :=
  known.any fun existing => !mt.isEmpty (mt.intersectWith r existing)

theorem prepare_rel {known known' : List mt.TimeRange} (hflow : SameFlow flow flow')
    (hknown : ∀ r, parseTimerange mt "timerange" true post.timerange = .ok r →
      meetsKnown mt known r = meetsKnown mt known' r)
    (hmedia : Agree stored checks checks' objects objects' post.objectId)
    (hinit : flow.initSegments = true → ∀ o, InitCandidate objects post o →
      o ∈ locked ∧ o ∈ locked' ∧ Agree stored checks checks' objects objects' o) (now now' : Time) :
    Rel SamePrepared
      (prepareSegmentRegistrationOrRaise mt flow locked checks ⟨now, stored⟩ known objects post)
      (prepareSegmentRegistrationOrRaise mt flow' locked' checks' ⟨now', stored⟩ known' objects'
        post) := by
  have hrange : ensureSegmentTimerangeIsAvailable mt known post.timerange =
      ensureSegmentTimerangeIsAvailable mt known' post.timerange := by
    unfold ensureSegmentTimerangeIsAvailable
    cases hparse : parseTimerange mt "timerange" true post.timerange with
    | error e => rfl
    | ok r =>
      have := hknown r hparse
      simp only [meetsKnown] at this
      simp only [bind, Except.bind, this]
  unfold prepareSegmentRegistrationOrRaise
  refine (Lib.Rel.of_eq hrange).bind fun range range' hr => ?_
  subst hr
  dsimp only
  split
  · rfl
  rw [← hflow.id]
  refine ((loadMediaObject_rel hmedia now now' flow.id).and_left
    (φ := fun x => ∀ o, x.1.initObjectId = some o → ∃ m, objects.get post.objectId = some m ∧
      m.objectKind ≠ .init ∧ m.initObjectId = some o)
    fun x hx o ho => loadMediaObject_initObjectId hx ho).bind fun ⟨m, existing⟩ ⟨m', existing'⟩ hload => ?_
  obtain ⟨⟨hm, rfl⟩, hinit₁⟩ := hload
  have hcontent : Rel SameObject (matchContentType flow m) (matchContentType flow' m') := by
    have := matchContentType_rel hm flow
    unfold matchContentType at this ⊢
    rw [hflow.container] at this
    rwa [hflow.container]
  refine (hcontent.and_left fun x hx => matchContentType_initObjectId hx).bind
    fun m₂ m₂' ⟨hm₂, hinit₂⟩ => ?_
  refine (resolveInitObject_rel hm₂ hflow existing (fun hsegments resolved hresolved => ?_)
    now now').bind
    fun ⟨m₃, init⟩ ⟨m₃', init'⟩ ⟨hm₃, hinits⟩ => ?_
  · refine hinit hsegments resolved ((pyOr_cases hresolved).imp_right fun h => ?_)
    exact hinit₁ resolved (hinit₂ ▸ h)
  refine (Lib.Rel.of_eq (validateAppends_eq hm₃ _)).bind fun _ _ _ => ?_
  have heffective : effectiveObjectTimerange mt post m₃ existing =
      effectiveObjectTimerange mt post m₃' existing := by
    obtain ⟨t, rfl⟩ := hm₃.exists_eq
    rfl
  refine (Lib.Rel.of_eq heffective).bind fun effective effective' he => ?_
  subst he
  refine (registeredMedia_rel hm₃ flow.id effective existing).bind fun registered registered' hreg => ?_
  -- the init object, when there is one, differs in its creation time at most
  rcases hinits.cases with ⟨rfl, rfl⟩ | ⟨o, t, rfl, rfl⟩
  · exact ⟨rfl, .cons hreg .nil, rfl⟩
  · exact ⟨rfl, .cons hreg (.cons
      (referencedBy_same (sameObject_created o t) flow.id .init).withoutTimerange .nil), rfl⟩

end Tamoss
