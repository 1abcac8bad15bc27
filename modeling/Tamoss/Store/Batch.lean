/-
  **What a batch of posts does to its working set.**
-/
import Tamoss.Store.Consistency

namespace Tamoss

open Lib (bind_eq_ok)

variable {mt : MediaTimestamp}

variable (mt) in
structure Kept (objects : ObjectsById) (m : MediaObjectRecord) : Prop where
  refs : m.referencedByFlows = refsOf (objects.get m.id)
  ok : ObjectOk mt m

variable {m m' : MediaObjectRecord}

theorem Kept.congr {objects : ObjectsById} (h : Kept mt objects m)
    (hid : m'.id = m.id) (hrefs : m'.referencedByFlows = m.referencedByFlows)
    (htime : m'.timerange = m.timerange) (hinit : m'.initObjectId ≠ some "") : Kept mt objects m' :=
  ⟨by rw [hrefs, hid]; exact h.refs, ⟨by rw [htime]; exact h.ok.timerange, hinit⟩⟩

variable {objects : ObjectsById}

theorem Kept.of_get (hobjects : ∀ o obj, objects.get o = some obj → ObjectOk mt obj)
    {o : ObjectId} {obj : MediaObjectRecord} (h : objects.get o = some obj) :
    obj.id = o ∧ Kept mt objects obj := by
  have hid := (Lib.Table.get_eq_some.mp h).2
  refine ⟨hid, ?_, hobjects o obj h⟩
  rw [hid, h]
  rfl

variable {checks : UploadChecks} {rd : Readings}

theorem ensureFirstUse_ok {f : FlowId}
    {o o' : MediaObjectRecord} (h : ensureFirstUse checks rd f o = .ok o') :
    ∃ n, o' = { o with bytesWritten := n } := by
  unfold ensureFirstUse at h
  split at h
  · obtain ⟨-, -, h⟩ := bind_eq_ok h
    unfold ensureControlledObjectUploaded at h
    dsimp only at h
    split at h
    · cases h
    · cases h
      exact ⟨_, rfl⟩
    · split at h
      · cases h
      · split at h <;> cases h
        exact ⟨_, rfl⟩
  · cases h
    exact ⟨o.bytesWritten, rfl⟩

variable {post : SegmentPost} {existing : Bool}

theorem loadMediaObject_ok (hobjects : ∀ o obj, objects.get o = some obj → ObjectOk mt obj)
    {f : FlowId} {m : MediaObjectRecord}
    (h : loadMediaObject checks rd f objects post = .ok (m, existing)) :
    m.id = post.objectId ∧ Kept mt objects m := by
  unfold loadMediaObject at h
  split at h
  · rename_i hnone
    split at h
    · cases h
    · cases h
      exact ⟨rfl, ⟨by rw [MediaObjectRecord.new, hnone]; rfl,
        ⟨by simp [MediaObjectRecord.new], by simp [MediaObjectRecord.new]⟩⟩⟩
  · rename_i o hsome
    obtain ⟨hid, hkept⟩ := Kept.of_get hobjects hsome
    dsimp only at h
    split at h
    · cases h
    · obtain ⟨o', hfirst, h⟩ := bind_eq_ok h
      obtain ⟨n, rfl⟩ := ensureFirstUse_ok hfirst
      have hm : ({ o with bytesWritten := n } : MediaObjectRecord) = m := by
        split at h
        · split at h
          · cases h
          · split at h <;> cases h
            rfl
        · cases h
          rfl
      subst hm
      exact ⟨hid, hkept.congr rfl rfl rfl hkept.ok.init⟩

theorem matchContentType_ok {flow : FlowRecord}
    (hm : Kept mt objects m) (h : matchContentType flow m = .ok m') :
    m'.id = m.id ∧ Kept mt objects m' := by
  unfold matchContentType at h
  split at h
  · cases h
    exact ⟨rfl, hm.congr rfl rfl rfl hm.ok.init⟩
  · split at h <;> cases h
    exact ⟨rfl, hm⟩

theorem pyOr_ne_empty {a b : Option String} (hb : b ≠ some "") : pyOr a b ≠ some "" := by
  unfold pyOr
  split
  · exact hb
  · rename_i ha
    exact fun h => ha (.inr h)

theorem resolveInitObject_ok (hobjects : ∀ o obj, objects.get o = some obj → ObjectOk mt obj)
    {flow : FlowRecord} {locked : List ObjectId}

    {init : Option MediaObjectRecord} (hm : Kept mt objects m)
    (h : resolveInitObject checks rd flow objects locked post m existing = .ok (m', init)) :
    (m'.id = m.id ∧ Kept mt objects m') ∧ (∀ o, init = some o →
      o.id ∈ locked ∧ o.id ≠ "" ∧ Kept mt objects o) ∧
    (flow.initSegments = true → ∀ o, m'.initObjectId = some o → o ∈ locked) := by
  unfold resolveInitObject at h
  split at h
  · split at h
    · cases h
    · rename_i resolved hresolved
      have hne : resolved ≠ "" := fun he =>
        pyOr_ne_empty hm.ok.init (he ▸ hresolved)
      split at h
      · cases h
      · split at h
        · cases h
        · rename_i hlocked
          split at h
          · cases h
          · rename_i o hget
            obtain ⟨hid, hkept⟩ := Kept.of_get hobjects hget
            split at h
            · cases h
            · obtain ⟨o', hfirst, h⟩ := bind_eq_ok h
              obtain ⟨n, rfl⟩ := ensureFirstUse_ok hfirst
              cases h
              refine ⟨⟨rfl, hm.congr rfl rfl rfl (by simpa using hne)⟩, fun x hx => ?_,
                fun _ x hx => Option.some.inj hx ▸ not_not.mp hlocked⟩
              cases hx
              exact ⟨hid ▸ not_not.mp hlocked, hid ▸ hne,
                hkept.congr rfl rfl rfl hkept.ok.init⟩
  · rename_i hsegments
    split at h <;> cases h
    exact ⟨⟨rfl, hm⟩, fun _ h => (by cases h), fun hs => absurd hs hsegments⟩

section ReferencedBy

variable (f : FlowId) (kind : ObjectKind) (o : MediaObjectRecord)

@[simp] theorem referencedBy_id : (referencedBy f kind o).id = o.id :=
  MediaObjectRecord.addReference_id o f

@[simp] theorem referencedBy_initObjectId :
    (referencedBy f kind o).initObjectId = o.initObjectId := by
  unfold referencedBy MediaObjectRecord.addReference
  dsimp only
  split <;> rfl

@[simp] theorem referencedBy_timerange : (referencedBy f kind o).timerange = o.timerange := by
  unfold referencedBy MediaObjectRecord.addReference
  dsimp only
  split <;> rfl

@[simp] theorem mem_referencedBy {g : FlowId} :
    g ∈ (referencedBy f kind o).referencedByFlows ↔ g ∈ o.referencedByFlows ∨ g = f :=
  MediaObjectRecord.mem_addReference

end ReferencedBy

variable {m m' : MediaObjectRecord}

theorem appendUncontrolledInstance_ok {url : String} {label : Option String} {presigned : Bool}
    (h : appendUncontrolledInstance m url label presigned = .ok m') :
    ∃ is, m' = { m with instances := is } := by
  obtain ⟨-, -, h⟩ := bind_eq_ok h
  split at h <;> cases h <;> exact ⟨_, rfl⟩

theorem appendGetUrls_ok {entries : List GetUrl}
    (h : appendGetUrls m entries = .ok m') : ∃ is, m' = { m with instances := is } := by
  induction entries generalizing m with
  | nil =>
    obtain rfl := Except.ok.inj h
    exact ⟨m.instances, rfl⟩
  | cons entry entries ih =>
    obtain ⟨o, happend, h⟩ := bind_eq_ok h
    obtain ⟨is, rfl⟩ := ih h
    obtain ⟨is', rfl⟩ := appendUncontrolledInstance_ok happend
    exact ⟨_, rfl⟩

theorem timerangeUnionStrings_ok {ranges : List (Option String)}
    {t : String} (h : timerangeUnionStrings mt ranges = .ok (some t)) : ∃ r, mt.str r = t := by
  unfold timerangeUnionStrings at h
  obtain ⟨parsed, -, h⟩ := bind_eq_ok h
  split at h
  · cases h
  · cases h
    exact ⟨_, rfl⟩

variable {post : SegmentPost}

theorem registeredMedia_ok {f : FlowId} {effective : String} {existing : Bool}
    (hm : Kept mt objects m) (h : registeredMedia mt f post effective existing m = .ok m') :
    m'.id = m.id ∧ m'.initObjectId = m.initObjectId ∧ ObjectOk mt m' ∧
      ∀ g, g ∈ m'.referencedByFlows ↔ g ∈ m.referencedByFlows ∨ g = f := by
  unfold registeredMedia at h
  dsimp only at h
  split at h
  · obtain ⟨is, rfl⟩ := appendGetUrls_ok h
    exact ⟨by simp, by simp, ⟨by simpa using hm.ok.timerange, by simpa using hm.ok.init⟩,
      by simp⟩
  · obtain ⟨timerange, hunion, h⟩ := bind_eq_ok h
    obtain ⟨is, rfl⟩ := appendGetUrls_ok h
    refine ⟨by simp, by simp, ⟨fun t ht => ?_, by simpa using hm.ok.init⟩, by simp⟩
    obtain rfl : timerange = some t := ht
    exact timerangeUnionStrings_ok hunion

variable (mt) in
structure PreparedOk (flow : FlowRecord) (locked : List ObjectId) (known : List mt.TimeRange)
    (objects : ObjectsById) (post : SegmentPost) (p : Prepared mt) : Prop where
  parsed : parseTimerange mt "timerange" true post.timerange = .ok p.range
  apart : ∀ r ∈ known, mt.isEmpty (mt.intersectWith p.range r) = true
  flowId : p.segment.flowId = flow.id
  timerange : p.segment.timerange = post.timerange
  init : p.segment.initObjectId ≠ some ""
  names : ∀ o, p.segment.Names o ↔ ∃ u ∈ p.objects, u.id = o
  inits : flow.initSegments = true → ∀ u ∈ p.objects, u.objectKind ≠ .init →
    ∀ o, u.initObjectId = some o → o ∈ locked
  locked : ∀ o, p.segment.Names o → o = post.objectId ∨ o ∈ locked
  refs : ∀ u ∈ p.objects, ∀ g, g ∈ u.referencedByFlows ↔
    g ∈ refsOf (objects.get u.id) ∨ g = flow.id
  ok : ∀ u ∈ p.objects, ObjectOk mt u

variable {known : List mt.TimeRange} {checks : UploadChecks} {p : Prepared mt} {rd : Readings}

theorem prepareSegmentRegistrationOrRaise_range
    {flow : FlowRecord} {locked : List ObjectId}

    (h : prepareSegmentRegistrationOrRaise mt flow locked checks rd known objects post = .ok p) :
    p.segment.timerange = post.timerange ∧
      parseTimerange mt "timerange" true post.timerange = .ok p.range ∧
      ∀ r ∈ known, mt.isEmpty (mt.intersectWith p.range r) = true := by
  unfold prepareSegmentRegistrationOrRaise at h
  obtain ⟨range, hrange, h⟩ := bind_eq_ok h
  dsimp only at h
  split at h
  · cases h
  obtain ⟨⟨m₁, existing⟩, -, h⟩ := bind_eq_ok h
  obtain ⟨m₂, -, h⟩ := bind_eq_ok h
  obtain ⟨⟨m₃, init⟩, -, h⟩ := bind_eq_ok h
  obtain ⟨_, -, h⟩ := bind_eq_ok h
  obtain ⟨effective, -, h⟩ := bind_eq_ok h
  obtain ⟨m, -, h⟩ := bind_eq_ok h
  cases h
  unfold ensureSegmentTimerangeIsAvailable at hrange
  obtain ⟨candidate, hparsed, hrange⟩ := bind_eq_ok hrange
  dsimp only at hrange
  split at hrange
  · cases hrange
  rename_i hany
  cases hrange
  refine ⟨rfl, hparsed, ?_⟩
  intro r hr
  by_contra hcon
  exact hany (List.any_eq_true.mpr ⟨r, hr, by simpa using hcon⟩)

theorem prepareSegmentRegistrationOrRaise_ok
    (hobjects : ∀ o obj, objects.get o = some obj → ObjectOk mt obj)
    {flow : FlowRecord} {locked : List ObjectId}

    (h : prepareSegmentRegistrationOrRaise mt flow locked checks rd known objects post = .ok p) :
    PreparedOk mt flow locked known objects post p := by
  obtain ⟨htimerange, hparsed, hapart⟩ := prepareSegmentRegistrationOrRaise_range h
  unfold prepareSegmentRegistrationOrRaise at h
  obtain ⟨range, -, h⟩ := bind_eq_ok h
  dsimp only at h
  split at h
  · cases h
  obtain ⟨⟨m₁, existing⟩, hload, h⟩ := bind_eq_ok h
  obtain ⟨m₂, hcontent, h⟩ := bind_eq_ok h
  obtain ⟨⟨m₃, init⟩, hinit, h⟩ := bind_eq_ok h
  obtain ⟨-, -, h⟩ := bind_eq_ok h
  obtain ⟨effective, -, h⟩ := bind_eq_ok h
  obtain ⟨m, hreg, h⟩ := bind_eq_ok h
  cases h
  obtain ⟨hid₁, hk₁⟩ := loadMediaObject_ok hobjects hload
  obtain ⟨hid₂, hk₂⟩ := matchContentType_ok hk₁ hcontent
  obtain ⟨⟨hid₃, hk₃⟩, hinits, hlocked⟩ := resolveInitObject_ok hobjects hk₂ hinit
  obtain ⟨hid, hminit, hok, hrefs⟩ := registeredMedia_ok hk₃ hreg
  have hmid : m.id = post.objectId := by rw [hid, hid₃, hid₂, hid₁]
  have hmem : ∀ u, u ∈ m :: (init.toList.map fun o =>
      { (referencedBy flow.id .init o) with timerange := none }) ↔
      u = m ∨ ∃ o, init = some o ∧
        u = { (referencedBy flow.id .init o) with timerange := none } := by
    intro u
    cases init <;> simp [eq_comm]
  have hinitId : ∀ o, ({ (referencedBy flow.id .init o) with
      timerange := none } : MediaObjectRecord).id = o.id :=
    fun o => referencedBy_id flow.id .init o
  constructor
  · exact hparsed
  · exact hapart
  · rfl
  · exact htimerange
  · intro hc
    obtain ⟨o, ho, hoid⟩ := Option.map_eq_some_iff.mp hc
    exact (hinits o ho).2.1 hoid
  · intro o
    simp only [hmem]
    constructor
    · rintro (ho | ho)
      · exact ⟨m, .inl rfl, hmid.trans ho⟩
      · obtain ⟨x, hx, rfl⟩ := Option.map_eq_some_iff.mp ho
        exact ⟨_, .inr ⟨x, hx, rfl⟩, hinitId x⟩
    · rintro ⟨u, rfl | ⟨x, hx, rfl⟩, rfl⟩
      · exact .inl hmid.symm
      · refine .inr ?_
        rw [hinitId]
        exact Option.map_eq_some_iff.mpr ⟨x, hx, rfl⟩
  · intro hs u hu hkind o ho
    rcases (hmem u).mp hu with rfl | ⟨x, hx, rfl⟩
    · exact hlocked hs o (hminit.symm.trans ho)
    · exact absurd rfl hkind
  · rintro o (ho | ho)
    · exact .inl ho.symm
    · obtain ⟨x, hx, rfl⟩ := Option.map_eq_some_iff.mp ho
      exact .inr (hinits x hx).1
  · intro u hu g
    rcases (hmem u).mp hu with rfl | ⟨x, hx, rfl⟩
    · rw [hrefs, hk₃.refs, hid]
    · rw [hinitId, ← (hinits x hx).2.2.refs]
      exact mem_referencedBy flow.id .init x
  · intro u hu
    rcases (hmem u).mp hu with rfl | ⟨x, hx, rfl⟩
    · exact hok
    · exact ⟨by simp, by simpa using (hinits x hx).2.2.ok.init⟩

variable (mt) in
def IsSegmentRange (value : String) : Prop := ∃ r b, SegmentRange mt value r b

def SegmentRecord.Apart (mt : MediaTimestamp) (s t : SegmentRecord) : Prop :=
  ∀ r b r' b', SegmentRange mt s.timerange r b → SegmentRange mt t.timerange r' b' →
    b.stop ≤ b'.start ∨ b'.stop ≤ b.start

/-- **The invariant of the loop over a batch.** -/
structure BatchOk (flow : FlowRecord) (locked : List ObjectId) (objects : ObjectsById)
    (ws : WorkingSet mt) : Prop where
  row : ∀ s ∈ ws.accepted, s.flowId = flow.id ∧ s.initObjectId ≠ some "" ∧
    ∃ r b, SegmentRange mt s.timerange r b ∧ r ∈ ws.known
  apart : ws.accepted.Pairwise (SegmentRecord.Apart mt)
  named : ∀ s ∈ ws.accepted, ∀ o, s.Names o → o ∈ locked ∧ (ws.updated.get o).isSome
  updated : ∀ u ∈ ws.updated.rows, (∃ s ∈ ws.accepted, s.Names u.id) ∧ ObjectOk mt u ∧
    ∀ g, g ∈ u.referencedByFlows ↔ g ∈ refsOf (objects.get u.id) ∨ g = flow.id
  objects : ∀ o, ws.objects.get o = (ws.updated.get o).or (objects.get o)
  inits : flow.initSegments = true → ∀ u ∈ ws.updated.rows, u.objectKind ≠ .init →
    ∀ o, u.initObjectId = some o → o ∈ locked

namespace BatchOk

variable {flow : FlowRecord} {locked : List ObjectId} {ws : WorkingSet mt}

theorem start (flow : FlowRecord) (locked : List ObjectId) (known : List mt.TimeRange) :
    BatchOk flow locked objects (⟨known, objects, .empty, []⟩ : WorkingSet mt) where
  row := by simp
  apart := by simp
  named := by simp
  updated := by simp
  objects o := by simp [Lib.Table.get]
  inits := by simp

theorem objectOk (h : BatchOk flow locked objects ws)
    (hobjects : ∀ o obj, objects.get o = some obj → ObjectOk mt obj) (o : ObjectId)
    (obj : MediaObjectRecord) (hget : ws.objects.get o = some obj) : ObjectOk mt obj := by
  rw [h.objects] at hget
  cases hu : ws.updated.get o with
  | some u =>
    rw [hu] at hget
    obtain rfl := Option.some.inj hget
    exact (h.updated u (Lib.Table.get_eq_some.mp hu).1).2.1
  | none =>
    rw [hu] at hget
    exact hobjects o obj hget

theorem accept (L : mt.Lawful) (h : BatchOk flow locked objects ws) {post : SegmentPost}
    {p : Prepared mt} (hp : PreparedOk mt flow locked ws.known ws.objects post p)
    (hpost : post.objectId ∈ locked) (hrange : IsSegmentRange mt post.timerange) :
    BatchOk flow locked objects (ws.accept p) := by
  obtain ⟨r, b, hr⟩ := hrange
  obtain rfl : r = p.range := Except.ok.inj (hr.parsed.symm.trans hp.parsed)
  have hsegment : SegmentRange mt p.segment.timerange p.range b := hp.timerange.symm ▸ hr
  have hupdated : ∀ o, (ws.accept p).updated.get o =
      (p.objects.reverse.find? fun u => u.id = o).or (ws.updated.get o) :=
    fun o => Lib.Table.get_foldl_upsert _ _ o
  constructor
  · intro s hs
    rcases List.mem_append.mp hs with hs | hs
    · obtain ⟨h1, h2, r, b, h3, h4⟩ := h.row s hs
      exact ⟨h1, h2, r, b, h3, List.mem_append_left _ h4⟩
    · obtain rfl := List.mem_singleton.mp hs
      exact ⟨hp.flowId, hp.init, p.range, b, hsegment, by simp [WorkingSet.accept]⟩
  · refine List.pairwise_append.mpr ⟨h.apart, by simp, fun s hs t ht => ?_⟩
    obtain rfl := List.mem_singleton.mp ht
    intro r₁ b₁ r₂ b₂ h₁ h₂
    -- the range of `s` is among the known ones, which the new range does not meet
    obtain ⟨-, -, r, b', hsr, hknown⟩ := h.row s hs
    obtain rfl : r = r₁ := Except.ok.inj (hsr.parsed.symm.trans h₁.parsed)
    have hempty := hp.apart r hknown
    obtain rfl : p.range = r₂ := Except.ok.inj (hsegment.parsed.symm.trans h₂.parsed)
    rw [isEmpty_intersectWith_iff L h₂.bounds h₂.includesStart h₁.bounds h₁.includesStart]
      at hempty
    exact hempty.symm
  · intro s hs o ho
    rw [hupdated]
    rcases List.mem_append.mp hs with hs | hs
    · obtain ⟨h1, h2⟩ := h.named s hs o ho
      exact ⟨h1, by rw [Option.isSome_or, h2, Bool.or_true]⟩
    · obtain rfl := List.mem_singleton.mp hs
      refine ⟨(hp.locked o ho).elim (fun he => he ▸ hpost) id, ?_⟩
      obtain ⟨u, hu, hid⟩ := (hp.names o).mp ho
      have hfind : (p.objects.reverse.find? fun u => u.id = o).isSome := by
        rw [List.find?_isSome]
        exact ⟨u, List.mem_reverse.mpr hu, by simpa using hid⟩
      rw [Option.isSome_or, hfind, Bool.true_or]
  · intro u hu
    rcases Lib.Table.mem_foldl_upsert hu with hu | hu
    · refine ⟨⟨p.segment, by simp [WorkingSet.accept], (hp.names u.id).mpr ⟨u, hu, rfl⟩⟩,
        hp.ok u hu, fun g => ?_⟩
      rw [hp.refs u hu g, h.objects]
      -- an object updated before already lists the flow
      cases hv : ws.updated.get u.id with
      | none => simp
      | some v =>
        obtain ⟨hvmem, hvid⟩ := Lib.Table.get_eq_some.mp hv
        rw [Option.some_or, refsOf_some, (h.updated v hvmem).2.2 g, hvid, or_assoc, or_self]
    · obtain ⟨⟨s, hs, hn⟩, h2⟩ := h.updated u hu
      exact ⟨⟨s, List.mem_append_left _ hs, hn⟩, h2⟩
  · intro o
    rw [hupdated, Option.or_assoc, ← h.objects o]
    exact Lib.Table.get_foldl_upsert _ _ o
  · intro hs u hu
    rcases Lib.Table.mem_foldl_upsert hu with hu | hu
    · exact hp.inits hs u hu
    · exact h.inits hs u hu

end BatchOk

theorem registerPosts_ok (L : mt.Lawful)
    (hobjects : ∀ o obj, objects.get o = some obj → ObjectOk mt obj)
    {flow : FlowRecord} {locked : List ObjectId} {checks : UploadChecks}
    {readings : Nat → Readings} {posts : List (Option SegmentPost)} {n : Nat}
    {ws ws' : WorkingSet mt} {results : List SegmentWriteResult}
    (hposts : ∀ post, some post ∈ posts → post.objectId ∈ locked ∧
      IsSegmentRange mt post.timerange) (h : BatchOk flow locked objects ws)
    (hrun : registerPosts mt flow locked checks readings n ws posts = .ok (ws', results)) :
    BatchOk flow locked objects ws' := by
  induction posts generalizing n ws results with
  | nil =>
    cases hrun
    exact h
  | cons post posts ih =>
    have htail : ∀ post, some post ∈ posts → post.objectId ∈ locked ∧
        IsSegmentRange mt post.timerange := fun post hp => hposts post (by simp [hp])
    cases post with
    | none =>
      obtain ⟨⟨ws₁, results₁⟩, hrest, hrun⟩ := bind_eq_ok hrun
      cases hrun
      exact ih htail h hrest
    | some post =>
      obtain ⟨⟨ws₁, result⟩, hpost, hrun⟩ := bind_eq_ok hrun
      obtain ⟨⟨ws₂, results₂⟩, hrest, hrun⟩ := bind_eq_ok hrun
      cases hrun
      refine ih htail ?_ hrest
      obtain ⟨hlocked, hrange⟩ := hposts post (by simp)
      unfold registerPost at hpost
      split at hpost
      · rename_i p hp
        cases hpost
        exact h.accept L (prepareSegmentRegistrationOrRaise_ok (h.objectOk hobjects) hp)
          hlocked hrange
      · cases hpost
        exact h
      · cases hpost

end Tamoss
