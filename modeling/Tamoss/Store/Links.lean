/-
  **How stored segments hang on the objects they name.**
-/
import Tamoss.Store.ObjectTimes
import Tamoss.Store.Protocol

namespace Tamoss

structure Ties (mt : MediaTimestamp) (exact : Prop) (s : SegmentRecord) (o : ObjectId)
    (m : MediaObjectRecord) : Prop where
  listed : s.flowId ∈ m.referencedByFlows
  media : s.objectId = o → m.objectKind = .media ∧ m.initObjectId = s.initObjectId ∧
    (exact → TimeLink mt s m.timerange)
  init : s.initObjectId = some o → m.objectKind = .init ∧ m.timerange = none

structure ObjectLink (exact : Prop) (m : MediaObjectRecord) : Prop where
  bare : m.referencedByFlows = [] → m.timerange = none
  kind : m.initObjectId ≠ none → m.objectKind = .media
  init : m.objectKind = .init → m.timerange = none
  timed : exact → m.referencedByFlows ≠ [] → m.objectKind ≠ .init → m.timerange ≠ none

structure Linked (mt : MediaTimestamp) (exact : Prop) (db : Database) : Prop where
  tied : ∀ row ∈ db.segments.rows, ∀ o, row.record.Names o →
    ∃ m, db.objects.get o = some m ∧ Ties mt exact row.record o m
  object : ∀ o m, db.objects.get o = some m → ObjectLink exact m

variable {mt : MediaTimestamp} {exact : Prop}

variable {o : ObjectId} {s : SegmentRecord}

theorem Ties.congr {m m' : MediaObjectRecord}
    (h : Ties mt exact s o m)
    (hrefs : s.flowId ∈ m.referencedByFlows → s.flowId ∈ m'.referencedByFlows)
    (hkind : m'.objectKind = m.objectKind) (hinit : m'.initObjectId = m.initObjectId)
    (htime : m'.timerange = m.timerange) : Ties mt exact s o m' where
  listed := hrefs h.listed
  media ho := by rw [hkind, hinit, htime]; exact h.media ho
  init ho := by rw [hkind, htime]; exact h.init ho

theorem Ties.objectId_eq {m : MediaObjectRecord}
    (h : Ties mt exact s o m) (hn : s.Names o) (hkind : m.objectKind ≠ .init) : s.objectId = o :=
  hn.resolve_right fun hinit => hkind (h.init hinit).1

def KeepsRow (ws : List Write) (row : SegmentRow) : Prop :=
  row ∈ rowsAfter row.record.flowId ws [row]

def AddsRow (ws : List Write) (row : SegmentRow) : Prop :=
  row ∈ rowsAfter row.record.flowId ws []

variable {rows : List SegmentRow} {w : Write} {x : SegmentRow} {f : FlowId}

theorem Write.mem_onRows :
    x ∈ w.onRows f rows ↔ x ∈ rows ∧ x ∈ w.onRows f [x] ∨ x ∈ w.onRows f [] := by
  cases w with
  | saveSegment row =>
    simp only [Write.onRows]
    split
    · by_cases hx : x = row
      · simp [hx]
      · by_cases hkey : x.key = row.key <;> simp [hx, hkey]
    · simp
  | deleteSegment row =>
    by_cases hkey : x.key = row.key <;> simp [Write.onRows, hkey]
  | deleteFlow g =>
    simp only [Write.onRows]
    split <;> simp
  | _ => simp [Write.onRows]

variable {ws : List Write}

theorem mem_rowsAfter :
    x ∈ rowsAfter f ws rows ↔ x ∈ rows ∧ x ∈ rowsAfter f ws [x] ∨ x ∈ rowsAfter f ws [] := by
  induction ws generalizing rows with
  | nil => simp [rowsAfter]
  | cons w ws ih =>
    show x ∈ rowsAfter f ws (w.onRows f rows) ↔ x ∈ rows ∧ x ∈ rowsAfter f ws (w.onRows f [x]) ∨
      x ∈ rowsAfter f ws (w.onRows f [])
    rw [ih, @ih (w.onRows f [x]), @ih (w.onRows f []), Write.mem_onRows]
    tauto

variable {row : SegmentRow} {db : Database}

/-- **The rows after a list of writes**: those that were there and are kept, and those the
    writes add. -/
theorem mem_segments_applyAll : row ∈ (db.applyAll ws).segments.rows ↔
      row ∈ db.segments.rows ∧ KeepsRow ws row ∨ AddsRow ws row := by
  have hof : ∀ db : Database, row ∈ db.segments.rows ↔
      row ∈ db.segmentsOf row.record.flowId := fun db => by simp
  rw [hof, segmentsOf_applyAll, mem_rowsAfter, ← hof]
  rfl

theorem AddsRow.saved (h : AddsRow ws row) : .saveSegment row ∈ ws := by
  unfold AddsRow at h
  induction ws with
  | nil => cases h
  | cons w ws ih =>
    change row ∈ rowsAfter row.record.flowId ws (w.onRows row.record.flowId []) at h
    rcases mem_rowsAfter.mp h with ⟨hw, -⟩ | h
    · cases w with
      | saveSegment r =>
        simp only [Write.onRows] at hw
        split at hw
        · obtain rfl : row = r := by simpa using hw
          exact List.mem_cons_self
        · cases hw
      | deleteFlow g =>
        simp only [Write.onRows] at hw
        split at hw <;> cases hw
      | _ => cases hw
    · exact List.mem_cons_of_mem w (ih h)

theorem mem_segments_untouched (h : ∀ w ∈ ws, ∀ f, ¬ w.TouchesFlow f) :
    row ∈ (db.applyAll ws).segments.rows ↔ row ∈ db.segments.rows := by
  have hof : ∀ db : Database, row ∈ db.segments.rows ↔
      row ∈ db.segmentsOf row.record.flowId := fun db => by simp
  rw [hof, segmentsOf_applyAll, rowsAfter_eq_self Core.segmentsOf_flowId, ← hof]
  exact fun w hw ht => absurd ht (h w hw _)

def AddsNone (l : Session) : Prop := ∀ row, .saveSegment row ∉ l.writes

structure RemovesNone (l : Session) : Prop where
  segments : ∀ row, .deleteSegment row ∉ l.writes
  flows : ∀ f, .deleteFlow f ∉ l.writes
  objects : ∀ o, .deleteObject o ∉ l.writes

theorem AddsNone.push {l : Session} (h : AddsNone l)
    (hw : ∀ row, w ≠ .saveSegment row) : AddsNone (l.push [w]) := fun row hm =>
  (List.mem_append.mp hm).elim (h row) fun hm => hw row (List.mem_singleton.mp hm).symm

theorem RemovesNone.push {l : Session} (h : RemovesNone l)
    (hrow : ∀ row, w ≠ .deleteSegment row) (hflow : ∀ f, w ≠ .deleteFlow f)
    (hobject : ∀ o, w ≠ .deleteObject o) : RemovesNone (l.push [w]) where
  segments row hm := (List.mem_append.mp hm).elim (h.segments row) fun hm =>
    hrow row (List.mem_singleton.mp hm).symm
  flows f hm := (List.mem_append.mp hm).elim (h.flows f) fun hm =>
    hflow f (List.mem_singleton.mp hm).symm
  objects o hm := (List.mem_append.mp hm).elim (h.objects o) fun hm =>
    hobject o (List.mem_singleton.mp hm).symm

theorem RemovesNone.view_object {l : Session} (h : RemovesNone l) {c : Core}
    (ho : c.db.objects.get o ≠ none) : (c.view l).objects.get o ≠ none := by
  rw [Core.view, objects_get_applyAll]
  have hws := h.objects
  revert ho hws
  generalize c.db.objects.get o = x
  induction l.writes generalizing x with
  | nil => exact fun hx _ => hx
  | cons w ws ih =>
    intro hx hws
    refine ih (w.onObject o x) ?_ fun o' hm => hws o' (List.mem_cons_of_mem w hm)
    cases w with
    | saveObject m =>
      simp only [Write.onObject]
      split
      · exact Option.some_ne_none m
      · exact hx
    | deleteObject o' => exact absurd List.mem_cons_self (hws o')
    | _ => exact hx

/-- What session `i` may assume of the moves of the others. -/
structure LinkRely (i : SessionId) (c c' : Core) : Prop where
  locks : ∀ lock, c'.Holds i lock ↔ c.Holds i lock
  objects : ∀ o, c.Holds i (.object o) → c'.db.objects.get o = c.db.objects.get o
  rows : ∀ row ∈ c'.db.segments.rows, (c.Holds i (.flow row.record.flowId) ∨
    ∃ o, row.record.Names o ∧ c.Holds i (.object o)) → row ∈ c.db.segments.rows
  inits : ∀ g o m, c.Holds i (.flow g) → c.db.objects.get o = some m →
    g ∈ m.referencedByFlows → ∃ m', c'.db.objects.get o = some m' ∧
      g ∈ m'.referencedByFlows ∧ m'.initObjectId = m.initObjectId
  running : c'.running i = c.running i

namespace LinkRely

variable {i : SessionId} {c c' c'' : Core}

theorem refl (i : SessionId) (c : Core) : LinkRely i c c :=
  ⟨fun _ => Iff.rfl, fun _ _ => rfl, fun _ h _ => h, fun _ _ m _ hm hg => ⟨m, hm, hg, rfl⟩, rfl⟩

theorem trans (h : LinkRely i c c') (h' : LinkRely i c' c'') : LinkRely i c c'' where
  locks lock := (h'.locks lock).trans (h.locks lock)
  objects o ho := (h'.objects o ((h.locks _).mpr ho)).trans (h.objects o ho)
  rows row hrow hheld := by
    refine h.rows row (h'.rows row hrow ?_) hheld
    rcases hheld with hf | ⟨o, hn, ho⟩
    · exact .inl ((h.locks _).mpr hf)
    · exact .inr ⟨o, hn, (h.locks _).mpr ho⟩
  inits g o m hheld hm hg := by
    obtain ⟨m₁, hm₁, hg₁, hinit₁⟩ := h.inits g o m hheld hm hg
    obtain ⟨m₂, hm₂, hg₂, hinit₂⟩ := h'.inits g o m₁ ((h.locks _).mpr hheld) hm₁ hg₁
    exact ⟨m₂, hm₂, hg₂, hinit₂.trans hinit₁⟩
  running := h'.running.trans h.running

theorem of_same (hlocks : ∀ lock, c'.Holds i lock ↔ c.Holds i lock)
    (hobjects : ∀ o, c'.db.objects.get o = c.db.objects.get o)
    (hrows : ∀ row ∈ c'.db.segments.rows, row ∈ c.db.segments.rows)
    (hrunning : c'.running i = c.running i) : LinkRely i c c' where
  locks := hlocks
  objects o _ := hobjects o
  rows row hrow _ := hrows row hrow
  inits _ o m _ hm hg := ⟨m, (hobjects o).trans hm, hg, rfl⟩
  running := hrunning

theorem view_object (h : LinkRely i c c') {l : Session} {o : ObjectId}
    (ho : c.Holds i (.object o)) : (c'.view l).objects.get o = (c.view l).objects.get o := by
  simp only [Core.view, objects_get_applyAll, h.objects o ho]

theorem view_rows (h : LinkRely i c c') {l : Session} {row : SegmentRow}
    (hrow : row ∈ (c'.view l).segments.rows) (hheld : c.Holds i (.flow row.record.flowId) ∨
      ∃ o, row.record.Names o ∧ c.Holds i (.object o)) : row ∈ (c.view l).segments.rows := by
  rcases mem_segments_applyAll.mp hrow with ⟨hrow, hkeep⟩ | hadd
  · exact mem_segments_applyAll.mpr (.inl ⟨h.rows row hrow hheld, hkeep⟩)
  · exact mem_segments_applyAll.mpr (.inr hadd)

end LinkRely

structure Keeps (exact : Prop) (m m' : MediaObjectRecord) : Prop where
  refs : m'.referencedByFlows ≠ []
  init : m'.initObjectId = m.initObjectId
  timerange : exact → m'.timerange = m.timerange

theorem Keeps.refl {m : MediaObjectRecord} (h : m.referencedByFlows ≠ []) : Keeps exact m m :=
  ⟨h, rfl, fun _ => rfl⟩

theorem Keeps.trans {m m₁ m₂ : MediaObjectRecord} (h : Keeps exact m m₁)
    (h' : Keeps exact m₁ m₂) : Keeps exact m m₂ :=
  ⟨h'.refs, h'.init.trans h.init, fun he => (h'.timerange he).trans (h.timerange he)⟩

/-- **The invariant of a transaction in progress.** -/
structure LinkTx (mt : MediaTimestamp) (exact : Prop) (i : SessionId) (c : Core)
    (l : Session) : Prop where
  inTransaction : l.inTransaction = true
  objectWrites : ∀ w ∈ l.writes, ∀ o, w.TouchesObject o → c.Holds i (.object o)
  segmentWrites : ∀ row, .saveSegment row ∈ l.writes →
    c.Holds i (.flow row.record.flowId) ∧ ∀ o, row.record.Names o → c.Holds i (.object o)
  linked : Linked mt exact (c.view l)
  refsOther : ∀ o g, c.Holds i (.object o) → ¬ c.Holds i (.flow g) →
    (g ∈ refsOf ((c.view l).objects.get o) ↔ g ∈ refsOf (c.db.objects.get o))
  kept : ∀ o m m', c.db.objects.get o = some m → m.referencedByFlows ≠ [] →
    (c.view l).objects.get o = some m' → Keeps exact m m'

namespace LinkTx

variable {i j : SessionId} {c c' : Core} {l : Session}

variable {o : ObjectId}

theorem view_object (h : LinkTx mt exact i c l)
    (ho : ¬ c.Holds i (.object o)) : (c.view l).objects.get o = c.db.objects.get o := by
  rw [Core.view, objects_get_applyAll]
  exact objectAfter_of_not_touches (fun w hw ht => ho (h.objectWrites w hw o ht)) _

theorem start (hc : Linked mt exact c.db) (htx : l.inTransaction = true)
    (hw : l.writes = []) : LinkTx mt exact i c l := by
  have hview : c.view l = c.db := by rw [Core.view, hw]; rfl
  constructor
  · exact htx
  · simp [hw]
  · simp [hw]
  · rwa [hview]
  · intro o g _ _
    rw [hview]
  · intro o m m' hm hne hm'
    rw [hview, hm] at hm'
    obtain rfl := Option.some.inj hm'
    exact .refl hne

theorem rely (h : LinkTx mt exact i c l) (hr : LinkRely i c c')
    (hc' : Linked mt exact c'.db) : LinkTx mt exact i c' l := by
  have hobj : ∀ o, c'.Holds i (.object o) ↔ c.Holds i (.object o) := fun o => hr.locks _
  have hwrites : ∀ w ∈ l.writes, ∀ o, w.TouchesObject o → c'.Holds i (.object o) :=
    fun w hw o ht => (hobj o).mpr (h.objectWrites w hw o ht)
  -- what is not locked is seen as committed, also now
  have hfree : ∀ o, ¬ c'.Holds i (.object o) →
      (c'.view l).objects.get o = c'.db.objects.get o := by
    intro o ho
    rw [Core.view, objects_get_applyAll]
    exact objectAfter_of_not_touches (fun w hw ht => ho (hwrites w hw o ht)) _
  constructor
  · exact h.inTransaction
  · exact hwrites
  · intro row hrow
    obtain ⟨hf, hn⟩ := h.segmentWrites row hrow
    exact ⟨(hr.locks _).mpr hf, fun o ho => (hobj o).mpr (hn o ho)⟩
  · constructor
    · intro row hrow o hn
      by_cases ho : c'.Holds i (.object o)
      · have hheld := (hobj o).mp ho
        rw [hr.view_object hheld]
        exact h.linked.tied row (hr.view_rows hrow (.inr ⟨o, hn, hheld⟩)) o hn
      · rw [hfree o ho]
        rcases mem_segments_applyAll.mp hrow with ⟨hrow, -⟩ | hadd
        · exact hc'.tied row hrow o hn
        · -- the objects of a segment that the transaction stores are locked
          exact absurd ((hobj o).mpr ((h.segmentWrites row hadd.saved).2 o hn)) ho
    · intro o m hm
      by_cases ho : c'.Holds i (.object o)
      · rw [hr.view_object ((hobj o).mp ho)] at hm
        exact h.linked.object o m hm
      · rw [hfree o ho] at hm
        exact hc'.object o m hm
  · intro o g ho hg
    have hheld := (hobj o).mp ho
    rw [hr.view_object hheld, hr.objects o hheld]
    exact h.refsOther o g hheld fun hh => hg ((hr.locks _).mpr hh)
  · intro o m m' hm hne hm'
    by_cases ho : c'.Holds i (.object o)
    · have hheld := (hobj o).mp ho
      rw [hr.objects o hheld] at hm
      rw [hr.view_object hheld] at hm'
      exact h.kept o m m' hm hne hm'
    · rw [hfree o ho, hm] at hm'
      obtain rfl := Option.some.inj hm'
      exact .refl hne

theorem rely_commit (h : LinkTx mt exact i c l) (hj : j ≠ i) :
    LinkRely j c { c with db := c.view l } := by
  have hother : ∀ k, c.Holds j k → ¬ c.Holds i k := fun k hk hk' =>
    hj (Option.some.inj (hk.symm.trans hk'))
  constructor
  · exact fun _ => Iff.rfl
  · intro o ho
    exact h.view_object (hother _ ho)
  · intro row hrow hheld
    rcases mem_segments_applyAll.mp hrow with ⟨hrow, -⟩ | hadd
    · exact hrow
    · obtain ⟨hf, hn⟩ := h.segmentWrites row hadd.saved
      rcases hheld with hk | ⟨o, ho, hk⟩
      · exact absurd hf (hother _ hk)
      · exact absurd (hn o ho) (hother _ hk)
  · intro g o m hk hm hg
    by_cases ho : c.Holds i (.object o)
    · have hview := (h.refsOther o g ho (hother _ hk)).mpr (by rw [hm]; exact hg)
      cases hm' : (c.view l).objects.get o with
      | none =>
        rw [hm'] at hview
        cases hview
      | some m' =>
        rw [hm'] at hview
        exact ⟨m', rfl, hview, (h.kept o m m' hm (List.ne_nil_of_mem hg) hm').init⟩
    · exact ⟨m, (h.view_object ho).trans hm, hg, rfl⟩
  · rfl

theorem lock (h : LinkTx mt exact i c l) {locks : Lock → Option SessionId}
    (hmono : ∀ k, c.Holds i k → locks k = some i) : LinkTx mt exact i { c with locks } l := by
  constructor
  · exact h.inTransaction
  · exact fun w hw o ht => hmono _ (h.objectWrites w hw o ht)
  · intro row hrow
    obtain ⟨hf, hn⟩ := h.segmentWrites row hrow
    exact ⟨hmono _ hf, fun o ho => hmono _ (hn o ho)⟩
  · exact h.linked
  · intro o g _ hg
    show g ∈ refsOf ((c.view l).objects.get o) ↔ g ∈ refsOf (c.db.objects.get o)
    by_cases ho : c.Holds i (.object o)
    · exact h.refsOther o g ho fun hh => hg (hmono _ hh)
    · rw [h.view_object ho]
  · exact h.kept

theorem push_object (h : LinkTx mt exact i c l) {w : Write} {new : Option MediaObjectRecord}
    (hw : w.onObject o ((c.view l).objects.get o) = new)
    (hflow : ∀ f, ¬ w.TouchesFlow f) (htouch : ∀ o', w.TouchesObject o' → o' = o)
    (hheld : c.Holds i (.object o))
    (hties : ∀ row ∈ (c.view l).segments.rows, row.record.Names o → ∀ m,
      (c.view l).objects.get o = some m → Ties mt exact row.record o m →
      ∃ m', new = some m' ∧ Ties mt exact row.record o m')
    (hlink : ∀ m, new = some m → ObjectLink exact m) (hrefs : ∀ g, ¬ c.Holds i (.flow g) →
      (g ∈ refsOf new ↔ g ∈ refsOf ((c.view l).objects.get o)))
    (hkept : ∀ m m', (c.view l).objects.get o = some m → m.referencedByFlows ≠ [] →
      new = some m' → Keeps exact m m')
    (hgone : (c.view l).objects.get o = none → new ≠ none → RemovesNone l) :
    LinkTx mt exact i c (l.push [w]) := by
  have hws : ∀ x ∈ [w], ∀ f, ¬ x.TouchesFlow f := fun x hx =>
    List.mem_singleton.mp hx ▸ hflow
  have hself : (c.view (l.push [w])).objects.get o = new := by
    rw [Core.view_push, objects_get_applyAll]
    exact hw
  have hrest : ∀ o', o' ≠ o →
      (c.view (l.push [w])).objects.get o' = (c.view l).objects.get o' := by
    intro o' hne
    rw [Core.view_push, objects_get_applyAll]
    refine objectAfter_of_not_touches (fun x hx ht => hne ?_) _
    exact htouch o' (List.mem_singleton.mp hx ▸ ht)
  have hrows : ∀ row, row ∈ (c.view (l.push [w])).segments.rows ↔
      row ∈ (c.view l).segments.rows := by
    intro row
    rw [Core.view_push]
    exact mem_segments_untouched hws
  constructor
  · exact h.inTransaction
  · intro x hx o' ht
    rcases List.mem_append.mp hx with hx | hx
    · exact h.objectWrites x hx o' ht
    · obtain rfl := List.mem_singleton.mp hx
      exact htouch o' ht ▸ hheld
  · intro row hrow
    rcases List.mem_append.mp hrow with hrow | hrow
    · exact h.segmentWrites row hrow
    · exact absurd rfl (hws _ hrow row.record.flowId)
  · constructor
    · intro row hrow o' hn
      rw [hrows] at hrow
      obtain ⟨m, hm, hties'⟩ := h.linked.tied row hrow o' hn
      by_cases ho : o' = o
      · subst ho
        rw [hself]
        exact hties row hrow hn m hm hties'
      · rw [hrest o' ho]
        exact ⟨m, hm, hties'⟩
    · intro o' m hm
      by_cases ho : o' = o
      · subst ho
        exact hlink m (hself ▸ hm)
      · rw [hrest o' ho] at hm
        exact h.linked.object o' m hm
  · intro o' g ho' hg
    by_cases ho : o' = o
    · subst ho
      rw [hself, hrefs g hg]
      exact h.refsOther o' g ho' hg
    · rw [hrest o' ho]
      exact h.refsOther o' g ho' hg
  · intro o' m m' hm hne hm'
    by_cases ho : o' = o
    · subst ho
      rw [hself] at hm'
      cases hview : (c.view l).objects.get o' with
      | none =>
        refine absurd hview ((hgone hview (by simp [hm'])).view_object ?_)
        simp [hm]
      | some m₁ =>
        have hkept₁ := h.kept o' m m₁ hm hne hview
        exact hkept₁.trans (hkept m₁ m' hview hkept₁.refs hm')
    · rw [hrest o' ho] at hm'
      exact h.kept o' m m' hm hne hm'

variable {ws : List Write}

theorem push_neutral (h : LinkTx mt exact i c l)
    (hws : ∀ w ∈ ws, w.Neutral) : LinkTx mt exact i c (l.push ws) := by
  have hflow : ∀ w ∈ ws, ∀ f, ¬ w.TouchesFlow f := fun w hw => (hws w hw).not_touchesFlow
  have hobj : ∀ o, (c.view (l.push ws)).objects.get o = (c.view l).objects.get o := by
    intro o
    rw [Core.view_push]
    exact objects_get_applyAll_neutral hws _ o
  have hrows : ∀ row, row ∈ (c.view (l.push ws)).segments.rows ↔
      row ∈ (c.view l).segments.rows := by
    intro row
    rw [Core.view_push]
    exact mem_segments_untouched hflow
  constructor
  · exact h.inTransaction
  · intro x hx o ht
    rcases List.mem_append.mp hx with hx | hx
    · exact h.objectWrites x hx o ht
    · exact absurd ht ((hws x hx).not_touchesObject o)
  · intro row hrow
    rcases List.mem_append.mp hrow with hrow | hrow
    · exact h.segmentWrites row hrow
    · exact absurd rfl (hflow _ hrow row.record.flowId)
  · constructor
    · intro row hrow o hn
      rw [hobj]
      exact h.linked.tied row ((hrows row).mp hrow) o hn
    · intro o m hm
      rw [hobj] at hm
      exact h.linked.object o m hm
  · intro o g ho hg
    rw [hobj]
    exact h.refsOther o g ho hg
  · intro o m m' hm hne hm'
    rw [hobj] at hm'
    exact h.kept o m m' hm hne hm'

theorem push_removes (h : LinkTx mt exact i c l) (hadds : AddsNone l)
    (hws : ∀ w ∈ ws, (∃ row, w = .deleteSegment row) ∨ ∃ f, w = .deleteFlow f) :
    LinkTx mt exact i c (l.push ws) := by
  have hnot : ∀ row, .saveSegment row ∉ ws := by
    intro row hm
    rcases hws _ hm with ⟨_, hw⟩ | ⟨_, hw⟩ <;> cases hw
  have htouch : ∀ w ∈ ws, ∀ o, ¬ w.TouchesObject o := by
    intro w hw o
    rcases hws w hw with ⟨_, rfl⟩ | ⟨_, rfl⟩ <;> exact id
  have hobj : ∀ o, (c.view (l.push ws)).objects.get o = (c.view l).objects.get o := by
    intro o
    rw [Core.view_push, objects_get_applyAll]
    exact objectAfter_of_not_touches (fun w hw => htouch w hw o) _
  have hadds' : AddsNone (l.push ws) := fun row hm =>
    (List.mem_append.mp hm).elim (hadds row) (hnot row)
  constructor
  · exact h.inTransaction
  · intro x hx o ht
    rcases List.mem_append.mp hx with hx | hx
    · exact h.objectWrites x hx o ht
    · exact absurd ht (htouch x hx o)
  · intro row hrow
    exact absurd hrow (hadds' row)
  · constructor
    · intro row hrow o hn
      rw [hobj]
      rw [Core.view_push] at hrow
      rcases mem_segments_applyAll.mp hrow with ⟨hrow, -⟩ | hadd
      · exact h.linked.tied row hrow o hn
      · exact absurd hadd.saved (hnot row)
    · intro o m hm
      rw [hobj] at hm
      exact h.linked.object o m hm
  · intro o g ho hg
    rw [hobj]
    exact h.refsOther o g ho hg
  · intro o m m' hm hne hm'
    rw [hobj] at hm'
    exact h.kept o m m' hm hne hm'

theorem push_saveSegment (h : LinkTx mt exact i c l)
    {row : SegmentRow} (hflow : c.Holds i (.flow row.record.flowId))
    (hobjects : ∀ o, row.record.Names o → c.Holds i (.object o) ∧
      ∃ m, (c.view l).objects.get o = some m ∧ Ties mt exact row.record o m) :
    LinkTx mt exact i c (l.push [.saveSegment row]) := by
  have hobj : ∀ o, (c.view (l.push [.saveSegment row])).objects.get o =
      (c.view l).objects.get o := by
    intro o
    rw [Core.view_push, objects_get_applyAll]
    rfl
  constructor
  · exact h.inTransaction
  · intro x hx o ht
    rcases List.mem_append.mp hx with hx | hx
    · exact h.objectWrites x hx o ht
    · obtain rfl := List.mem_singleton.mp hx
      exact ht.elim
  · intro r hr
    rcases List.mem_append.mp hr with hr | hr
    · exact h.segmentWrites r hr
    · obtain rfl : r = row := by simpa using hr
      exact ⟨hflow, fun o ho => (hobjects o ho).1⟩
  · constructor
    · intro r hr o hn
      rw [hobj]
      rw [Core.view_push] at hr
      rcases mem_segments_applyAll.mp hr with ⟨hr, -⟩ | hadd
      · exact h.linked.tied r hr o hn
      · obtain rfl : r = row := by simpa using hadd.saved
        exact (hobjects o hn).2
    · intro o m hm
      rw [hobj] at hm
      exact h.linked.object o m hm
  · intro o g ho hg
    rw [hobj]
    exact h.refsOther o g ho hg
  · intro o m m' hm hne hm'
    rw [hobj] at hm'
    exact h.kept o m m' hm hne hm'

end LinkTx

end Tamoss
