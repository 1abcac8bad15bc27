/-
  **Deletion keeps segments linked.**
-/
import Tamoss.Store.LinkProtocol
import Tamoss.Store.DeletionSafety

namespace Tamoss

open Lib.Machine

variable {mt : MediaTimestamp} {exact : Prop} {fc : FlowContract}
variable {D : (service mt fc).Discipline} {i : SessionId}
variable {E : PyError → Session → Prop}

variable (i) in
/-- A deletion in flow `f`: it holds the lock of no other flow, stores no segment and
    touches the rows of no other flow. -/
structure Deleting (f : FlowId) (c : Core) (l : Session) : Prop where
  held : c.Holds i (.flow f)
  only : ∀ g, c.Holds i (.flow g) → g = f
  adds : AddsNone l
  writes : ∀ w ∈ l.writes, ∀ g, w.TouchesFlow g → g = f

namespace Deleting

variable {f : FlowId}

theorem carried (f : FlowId) : Carried mt exact i (Deleting i f) where
  stable c c' l h hr _ := ⟨(hr.locks _).mpr h.held, fun g hg => h.only g ((hr.locks _).mp hg),
    h.adds, h.writes⟩
  push c l ws h hws := by
    refine ⟨h.held, h.only, fun row hm => ?_, fun w hw g ht => ?_⟩
    · exact (List.mem_append.mp hm).elim (h.adds row) fun hm => hws _ hm
    · rcases List.mem_append.mp hw with hw | hw
      · exact h.writes w hw g ht
      · exact absurd ht ((hws w hw).not_touchesFlow g)
  profile c l locks h hk := ⟨(hk _ id).mpr h.held, fun g hg => h.only g ((hk _ id).mp hg),
    h.adds, h.writes⟩

theorem lockable (f : FlowId) : Lockable i (Deleting i f) := by
  intro c l locks h hk hk'
  refine ⟨hk _ h.held, fun g hg => ?_, h.adds, h.writes⟩
  rcases hk' _ hg with hg | ⟨o, he⟩
  · exact h.only g hg
  · cases he

theorem push {c : Core} {l : Session} (h : Deleting i f c l) {ws : List Write}
    (hadds : ∀ row, .saveSegment row ∉ ws) (htouch : ∀ w ∈ ws, ∀ g, w.TouchesFlow g → g = f) :
    Deleting i f c (l.push ws) := by
  refine ⟨h.held, h.only, fun row hm => ?_, fun w hw => ?_⟩
  · exact (List.mem_append.mp hm).elim (h.adds row) (hadds row)
  · exact (List.mem_append.mp hw).elim (h.writes w) (htouch w)

theorem view_rows {c : Core} {l : Session} (h : Deleting i f c l) {g : FlowId} (hg : g ≠ f) :
    (c.view l).segmentsOf g = c.db.segmentsOf g := by
  rw [Core.view, segmentsOf_applyAll]
  exact rowsAfter_eq_self Core.segmentsOf_flowId fun w hw ht => absurd (h.writes w hw g ht) hg

end Deleting

variable (i) in
def InitIs (f : FlowId) (o : ObjectId) (x : Option ObjectId) : CoreAssertion := fun c l =>
  (c.Holds i (.object o) ∧ ∀ m, (c.view l).objects.get o = some m → m.initObjectId = x) ∨
    (c.Holds i (.flow f) ∧ (∀ w ∈ l.writes, ¬ w.TouchesObject o) ∧
      ∃ m, c.db.objects.get o = some m ∧ f ∈ m.referencedByFlows ∧ m.initObjectId = x)

namespace InitIs

variable {f : FlowId} {o : ObjectId} {x : Option ObjectId} {c : Core} {l : Session}

theorem view_eq (h : InitIs i f o x c l) {m : MediaObjectRecord}
    (hm : (c.view l).objects.get o = some m) : m.initObjectId = x := by
  rcases h with ⟨-, h⟩ | ⟨-, hw, m', hm', -, hx⟩
  · exact h m hm
  · rw [Core.view, objects_get_applyAll, objectAfter_of_not_touches hw, hm'] at hm
    exact Option.some.inj hm ▸ hx

theorem carried (f : FlowId) (o : ObjectId) (x : Option ObjectId) :
    Carried mt exact i (InitIs i f o x) := by
  refine Carried.or (.object o fun y => ∀ m, y = some m → m.initObjectId = x) ⟨?_, ?_, ?_⟩
  · rintro c c' l ⟨hheld, hw, m, hm, hf, hx⟩ hr _
    obtain ⟨m', hm', hf', hx'⟩ := hr.inits f o m hheld hm hf
    exact ⟨(hr.locks _).mpr hheld, hw, m', hm', hf', hx'.trans hx⟩
  · rintro c l ws ⟨hheld, hw, hm⟩ hws
    refine ⟨hheld, fun w hmem => ?_, hm⟩
    rcases List.mem_append.mp hmem with hmem | hmem
    · exact hw w hmem
    · exact (hws w hmem).not_touchesObject o
  · rintro c l locks ⟨hheld, hw, hm⟩ hk
    exact ⟨(hk _ id).mpr hheld, hw, hm⟩

theorem lockable (f : FlowId) (o : ObjectId) (x : Option ObjectId) :
    Lockable i (InitIs i f o x) := by
  rintro c l locks (⟨hheld, h⟩ | ⟨hheld, hw, hm⟩) hk _
  · exact .inl ⟨hk _ hheld, h⟩
  · exact .inr ⟨hk _ hheld, hw, hm⟩

theorem push_rows (h : InitIs i f o x c l) {ws : List Write}
    (hws : ∀ w ∈ ws, ∀ o, ¬ w.TouchesObject o) : InitIs i f o x c (l.push ws) := by
  rcases h with ⟨hheld, h⟩ | ⟨hheld, hw, hm⟩
  · refine .inl ⟨hheld, fun m hm => h m ?_⟩
    rw [Core.view_push, objects_get_applyAll] at hm
    rwa [objectAfter_of_not_touches fun w hw => hws w hw o] at hm
  · refine .inr ⟨hheld, fun w hmem => ?_, hm⟩
    exact (List.mem_append.mp hmem).elim (hw w) fun hmem => hws w hmem o

end InitIs

/-- **The range recomputed from segments tied to an object is the object's range.** -/
theorem union_of_ties (L : mt.Lawful) (T : mt.Arithmetic) (hexact : exact) {o : ObjectId}
    {media : MediaObjectRecord} (hok : ObjectOk mt media) (hkind : media.objectKind ≠ .init)
    {segments : List SegmentRecord} (hne : segments ≠ [])
    (hties : ∀ s ∈ segments, s.Names o ∧ Ties mt exact s o media) {ranges : List String}
    (hranges : segments.mapM (segmentObjectTimerange mt) = .ok ranges) {timerange : Option String}
    (hunion : timerangeUnionStrings mt (ranges.map some) = .ok timerange) :
    timerange = media.timerange := by
  have htime : ∀ s ∈ segments, TimeLink mt s media.timerange := by
    intro s hs
    obtain ⟨hn, ht⟩ := hties s hs
    exact (ht.media (ht.objectId_eq hn hkind)).2.2 hexact
  obtain ⟨first, hfirst⟩ := List.exists_mem_of_ne_nil segments hne
  obtain ⟨text, object, htext, hobject, hcovers⟩ := htime first hfirst
  obtain ⟨hmem, hrangesNe⟩ := Lib.mapM_eq_ok hranges
  -- what each segment implies has the instants of the object
  have hsame : ∀ t ∈ (ranges.map some).filterMap id,
      ∃ r, parseTimerange mt "timerange" false t = .ok r ∧ SameInstants r object := by
    intro t ht
    obtain ⟨s, hs, hown⟩ := hmem t (by simpa using ht)
    obtain ⟨text', object', htext', hobject', hcovers'⟩ := htime s hs
    obtain rfl := Option.some.inj (htext.symm.trans htext')
    obtain rfl := Except.ok.inj (hobject.symm.trans hobject')
    obtain ⟨own, range, hown', hparsed, hrange⟩ := hcovers'.own
    obtain rfl := Except.ok.inj (hown.symm.trans hown')
    exact ⟨range, hparsed, hrange⟩
  obtain ⟨text', r, rfl, hr, hinstants⟩ := union_same L T hcovers.nonempty
    (by simpa using hrangesNe hne) hsame hunion
  -- the package wrote both texts, so they are one
  obtain ⟨w, rfl⟩ := hok.timerange text htext
  obtain ⟨w', rfl⟩ := timerangeUnionStrings_ok hunion
  have hw : SameInstants w object := (parse_str_same T hobject).symm
  have hw' : SameInstants w' object := (parse_str_same T hr).symm.trans hinstants
  obtain ⟨x, hx⟩ := hcovers.nonempty
  rw [htext, T.str_congr w' w (hw'.trans hw.symm) ⟨x, (hw' x).mpr hx⟩]

variable (i) in
def RowsLeft (f : FlowId) (ids : List ObjectId) (remaining : List SegmentRecord) :
    CoreAssertion := fun c l => c.Holds i (.flow f) ∧
  ∀ row ∈ (c.view l).segments.rows, row.record.flowId = f →
    row.record.initObjectId ≠ some "" ∧ ∀ o ∈ ids, row.record.Names o → row.record ∈ remaining

variable (i) in
def ObjectsDone (ids : List ObjectId) (objects : ObjectsById) (done : List ObjectId) :
    CoreAssertion := fun c l => ∀ o, o ∈ ids → c.Holds i (.object o) ∧
  ((o ∉ done → (c.view l).objects.get o = objects.get o) ∧
    ∀ m', (c.view l).objects.get o = some m' →
      ∃ m, objects.get o = some m ∧ m'.initObjectId = m.initObjectId)

variable (i) in
def Refresh (f : FlowId) (ids : List ObjectId) (remaining : List SegmentRecord)
    (objects : ObjectsById) (done : List ObjectId) : CoreAssertion := fun c l =>
  Deleting i f c l ∧ RowsLeft i f ids remaining c l ∧ ObjectsDone i ids objects done c l

section Refresh

variable {f : FlowId} {ids : List ObjectId} {remaining : List SegmentRecord}
variable {objects : ObjectsById} {done : List ObjectId}

theorem RowsLeft.carried : Carried mt exact i (RowsLeft i f ids remaining) :=
  .rows f fun row => row.record.initObjectId ≠ some "" ∧
    ∀ o ∈ ids, row.record.Names o → row.record ∈ remaining

theorem ObjectsDone.carried : Carried mt exact i (ObjectsDone i ids objects done) :=
  .forall_of fun o => .imp fun _ => .object o fun x => (o ∉ done → x = objects.get o) ∧
    ∀ m', x = some m' → ∃ m, objects.get o = some m ∧ m'.initObjectId = m.initObjectId

theorem Refresh.carried : Carried mt exact i (Refresh i f ids remaining objects done) :=
  (Deleting.carried f).and (RowsLeft.carried.and ObjectsDone.carried)

theorem Refresh.push {c : Core} {l : Session} {w : Write} {o : ObjectId}
    (h : Refresh i f ids remaining objects done c l) (hflow : ∀ g, ¬ w.TouchesFlow g)
    (htouch : ∀ o', w.TouchesObject o' → o' = o)
    (hnew : ∀ m', w.onObject o ((c.view l).objects.get o) = some m' →
      ∃ m, objects.get o = some m ∧ m'.initObjectId = m.initObjectId) :
    Refresh i f ids remaining objects (done ++ [o]) c (l.push [w]) := by
  obtain ⟨hdel, hrows, hobjects⟩ := h
  have hws : ∀ x ∈ [w], ∀ g, ¬ x.TouchesFlow g := fun x hx =>
    List.mem_singleton.mp hx ▸ hflow
  refine ⟨hdel.push (fun row hm => hws _ hm _ rfl) fun x hx g ht => absurd ht (hws x hx g),
    ⟨hrows.1, fun row hrow => ?_⟩, fun o' ho' => ⟨(hobjects o' ho').1, ?_⟩⟩
  · rw [Core.view_push] at hrow
    exact hrows.2 row ((mem_segments_untouched hws).mp hrow)
  · obtain ⟨-, hleft, hinit⟩ := hobjects o' ho'
    rw [Core.view_push, objects_get_applyAll]
    by_cases ho : o' = o
    · subst ho
      exact ⟨fun hnot => absurd (by simp) hnot, hnew⟩
    · have hnot : ∀ x ∈ [w], ¬ x.TouchesObject o' := fun x hx ht =>
        ho (htouch o' (List.mem_singleton.mp hx ▸ ht))
      rw [objectAfter_of_not_touches hnot]
      exact ⟨fun hn => hleft fun hm => hn (List.mem_append_left _ hm), hinit⟩

def discarded (f : FlowId) (remaining : List SegmentRecord) (o : ObjectId)
    (media : MediaObjectRecord) : MediaObjectRecord :=
  if o ∈ remaining.flatMap SegmentRecord.objectIds then media else media.discardReference f

theorem discarded_same (f : FlowId) (remaining : List SegmentRecord) (o : ObjectId)
    (media : MediaObjectRecord) : (discarded f remaining o media).id = media.id ∧
      (discarded f remaining o media).objectKind = media.objectKind ∧
      (discarded f remaining o media).initObjectId = media.initObjectId := by
  unfold discarded
  split <;> exact ⟨rfl, rfl, rfl⟩

theorem discarded_subset {o : ObjectId} {media : MediaObjectRecord} {g : FlowId}
    (hg : g ∈ (discarded f remaining o media).referencedByFlows) : g ∈ media.referencedByFlows := by
  unfold discarded at hg
  split at hg
  · exact hg
  · exact (MediaObjectRecord.mem_discardReference.mp hg).1

theorem mem_discarded_of_ne {o : ObjectId} {media : MediaObjectRecord} {g : FlowId}
    (hg : g ≠ f) : g ∈ (discarded f remaining o media).referencedByFlows ↔
      g ∈ media.referencedByFlows := by
  unfold discarded
  split
  · rfl
  · rw [MediaObjectRecord.mem_discardReference]
    exact and_iff_left hg

theorem RowsLeft.mem_discarded {c : Core} {l : Session} (h : RowsLeft i f ids remaining c l)
    {o : ObjectId} (ho : o ∈ ids) {media : MediaObjectRecord} {row : SegmentRow}
    (hrow : row ∈ (c.view l).segments.rows) (hn : row.record.Names o)
    (hlisted : row.record.flowId ∈ media.referencedByFlows) :
    row.record.flowId ∈ (discarded f remaining o media).referencedByFlows := by
  by_cases hf : row.record.flowId = f
  · obtain ⟨hinit, hleft⟩ := h.2 row hrow hf
    have hmem : o ∈ remaining.flatMap SegmentRecord.objectIds :=
      List.mem_flatMap.mpr ⟨row.record, hleft o ho hn, (SegmentRecord.mem_objectIds hinit).mpr hn⟩
    rw [discarded, if_pos hmem]
    exact hlisted
  · exact (mem_discarded_of_ne hf).mpr hlisted

variable (mt exact ids remaining objects) in
def RemainingTied : Prop := ∀ o ∈ ids, ∀ s ∈ remaining, s.Names o →
  ∃ m, objects.get o = some m ∧ Ties mt exact s o m

variable {o : ObjectId} {media : MediaObjectRecord}

theorem LinkTx.push_refreshDelete {c : Core} {l : Session} (htx : LinkTx mt exact i c l)
    (h : Refresh i f ids remaining objects done c l) (ho : o ∈ ids) (hdone : o ∉ done)
    (hmedia : objects.get o = some media)
    (hempty : (discarded f remaining o media).referencedByFlows = []) :
    LinkTx mt exact i c (l.push [.deleteObject o]) := by
  obtain ⟨hdel, hrows, hobjects⟩ := h
  obtain ⟨hheld, hget, -⟩ := hobjects o ho
  replace hget := (hget hdone).trans hmedia
  have hw : Write.onObject o ((c.view l).objects.get o) (.deleteObject o) = none := by
    simp [Write.onObject]
  refine htx.push_object hw (by simp [Write.TouchesFlow]) (fun o' ho' => ho'.symm) hheld
    (fun row hrow hn m hm ht => ?_) (fun m hm => by cases hm) (fun g hg => ?_)
    (fun _ m' _ _ hm' => by cases hm') (fun _ hne => absurd rfl hne)
  · -- a row that names the object would keep its flow on the list
    obtain rfl := Option.some.inj (hget.symm.trans hm)
    have hlisted := hrows.mem_discarded ho hrow hn ht.listed
    rw [hempty] at hlisted
    cases hlisted
  · have hgf : g ≠ f := fun he => hg (he ▸ hdel.held)
    have hiff := @mem_discarded_of_ne f remaining o media g hgf
    rw [hempty] at hiff
    rw [hget, refsOf_some, ← hiff]
    rfl

theorem LinkTx.push_refreshSave {c : Core} {l : Session} (htx : LinkTx mt exact i c l)
    (h : Refresh i f ids remaining objects done c l) (ho : o ∈ ids) (hdone : o ∉ done)
    (hmedia : objects.get o = some media)
    (hne : (discarded f remaining o media).referencedByFlows ≠ [])
    {timerange : Option String} (hinit : media.objectKind = .init → timerange = none)
    (htime : media.objectKind ≠ .init → exact → timerange = media.timerange) : LinkTx mt exact i c
      (l.push [.saveObject { discarded f remaining o media with timerange }]) := by
  obtain ⟨hdel, hrows, hobjects⟩ := h
  obtain ⟨hheld, hget, -⟩ := hobjects o ho
  replace hget := (hget hdone).trans hmedia
  obtain ⟨hid, hkind, hinitId⟩ := discarded_same f remaining o media
  have hmid : media.id = o := (Lib.Table.get_eq_some.mp hmedia).2
  have hmediaLink := htx.linked.object o media hget
  have hmediaNe : media.referencedByFlows ≠ [] := by
    obtain ⟨g, hg⟩ := List.exists_mem_of_ne_nil _ hne
    exact List.ne_nil_of_mem (discarded_subset hg)
  have hw : Write.onObject o ((c.view l).objects.get o)
      (.saveObject { discarded f remaining o media with timerange }) =
        some { discarded f remaining o media with timerange } := by
    simp [Write.onObject, hid, hmid]
  refine htx.push_object hw (by simp [Write.TouchesFlow])
    (fun o' ho' => ho'.symm.trans (hid.trans hmid)) hheld (fun row hrow hn m hm ht => ?_)
    (fun m hm => ?_) (fun g hg => ?_) (fun m m' hm _ hm' => ?_)
    (fun hnone => by rw [hget] at hnone; cases hnone)
  · obtain rfl := Option.some.inj (hget.symm.trans hm)
    refine ⟨_, rfl, hrows.mem_discarded ho hrow hn ht.listed, fun hso => ?_, fun hso => ?_⟩
    · obtain ⟨hmediaKind, hi, hlink⟩ := ht.media hso
      have hnot : media.objectKind ≠ .init := by rw [hmediaKind]; decide
      exact ⟨hkind.trans hmediaKind, hinitId.trans hi,
        fun hexact => htime hnot hexact ▸ hlink hexact⟩
    · obtain ⟨hinitKind, -⟩ := ht.init hso
      exact ⟨hkind.trans hinitKind, hinit hinitKind⟩
  · obtain rfl := Option.some.inj hm
    refine ⟨fun hnil => absurd hnil hne, fun hset => ?_, fun hk => hinit (hkind ▸ hk),
      fun hexact _ hk => ?_⟩
    · exact hkind.trans (hmediaLink.kind (hinitId ▸ hset))
    · have hmediaKind : media.objectKind ≠ .init := hkind ▸ hk
      show timerange ≠ none
      rw [htime hmediaKind hexact]
      exact hmediaLink.timed hexact hmediaNe hmediaKind
  · have hgf : g ≠ f := fun he => hg (he ▸ hdel.held)
    rw [hget, refsOf_some, refsOf_some]
    exact mem_discarded_of_ne hgf
  · obtain rfl := Option.some.inj (hget.symm.trans hm)
    obtain rfl := Option.some.inj hm'
    refine ⟨hne, hinitId, fun hexact => ?_⟩
    by_cases hk : media.objectKind = .init
    · exact (hinit hk).trans (hmediaLink.init hk).symm
    · exact htime hk hexact

namespace LinkSpec

theorem listSegmentsOfOther (ho : o ∈ ids) (hdone : o ∉ done)
    (hmedia : objects.get o = some media) {g : FlowId} (hg : g ≠ f)
    (hlisted : g ∈ media.referencedByFlows) :
    LinkSpec mt fc exact D i (InLink mt exact i (Refresh i f ids remaining objects done))
      (call (.listSegmentsForObjects g [o]))
      (fun segments c l => ((∀ s ∈ segments, s.Names o ∧ Ties mt exact s o media) ∧
          (exact → segments ≠ [])) ∧
        InLink mt exact i (Refresh i f ids remaining objects done) c l) E := by
  have hst : LinkStable mt exact i
      (InLink mt exact i (Refresh i f ids remaining objects done)) := InLink.stable Refresh.carried
  refine read (by trivial) hst (fun _ c c' l h hr hi => ⟨h.1, hst c c' l h.2 hr hi⟩) ?_
  intro ch w l r w' l' hA hgr he
  obtain ⟨rfl, -⟩ := Prod.mk.inj (Option.some.inj he)
  obtain ⟨htx, hdel, hrows, hobjects⟩ := hA
  obtain ⟨hheld, hget, -⟩ := hobjects o ho
  replace hget := (hget hdone).trans hmedia
  have hmem : ∀ row, row ∈ (w.core.view l).listSegmentsForObjects g [o] ↔
      row ∈ (w.core.view l).segmentsOf g ∧ row.record.Names o := by
    intro row
    simp [Database.listSegmentsForObjects]
  refine ⟨⟨fun s hs => ?_, fun hexact hnil => ?_⟩, htx, hdel, hrows, hobjects⟩
  · obtain ⟨row, hrow, rfl⟩ := List.mem_map.mp hs
    obtain ⟨hrow, hn⟩ := (hmem row).mp hrow
    obtain ⟨m, hm, ht⟩ := htx.linked.tied row (Database.mem_segmentsOf.mp hrow).1 o hn
    obtain rfl := Option.some.inj (hget.symm.trans hm)
    exact ⟨hn, ht⟩
  · -- the object lists the flow, so a committed row of the flow names it
    have hcommitted : g ∈ refsOf (w.core.db.objects.get o) := by
      refine (htx.refsOther o g hheld fun hh => hg (hdel.only g hh)).mp ?_
      rw [hget, refsOf_some]
      exact hlisted
    obtain ⟨row, hrow, hn⟩ := ((hgr.consistent hexact).refs g o).mp hcommitted
    have hview : row ∈ (w.core.view l).segmentsOf g := by
      rw [hdel.view_rows hg]
      exact hrow
    have hrecord : row.record ∈ ((w.view l).listSegmentsForObjects g [o]).map (·.record) :=
      List.mem_map_of_mem ((hmem row).mpr ⟨hview, hn⟩)
    rw [hnil] at hrecord
    cases hrecord

theorem objectSegments (htied : RemainingTied mt exact ids remaining objects) (ho : o ∈ ids)
    (hdone : o ∉ done) (hmedia : objects.get o = some media) (flows : List FlowId)
    (hflows : ∀ g ∈ flows, g ∈ media.referencedByFlows) :
    LinkSpec mt fc exact D i (InLink mt exact i (Refresh i f ids remaining objects done))
      (objectSegments f remaining o flows)
      (fun segments c l => ((∀ s ∈ segments, s.Names o ∧ Ties mt exact s o media) ∧
          (exact → ∀ g ∈ flows, (g = f → ∃ s ∈ remaining, s.objectId = o) → segments ≠ [])) ∧
        InLink mt exact i (Refresh i f ids remaining objects done) c l) Always := by
  have hst : LinkStable mt exact i
      (InLink mt exact i (Refresh i f ids remaining objects done)) := InLink.stable Refresh.carried
  induction flows with
  | nil =>
    exact Triple.pure hst.lift fun w l _ h => ⟨⟨by simp, by simp⟩, h⟩
  | cons g flows ih =>
    replace ih := ih fun g' hg' => hflows g' (List.mem_cons_of_mem g hg')
    -- the rest of the loop, given the segments of the first flow
    have hrest : ∀ segments : List SegmentRecord,
        (∀ s ∈ segments, s.Names o ∧ Ties mt exact s o media) →
        (exact → (g = f → ∃ s ∈ remaining, s.objectId = o) → segments ≠ []) →
        LinkSpec mt fc exact D i (InLink mt exact i (Refresh i f ids remaining objects done))
          (do
            let rest ← Tamoss.objectSegments f remaining o flows
            Pure.pure (segments ++ rest))
          (fun segments c l => ((∀ s ∈ segments, s.Names o ∧ Ties mt exact s o media) ∧
              (exact → ∀ g' ∈ g :: flows, (g' = f → ∃ s ∈ remaining, s.objectId = o) →
                segments ≠ [])) ∧
            InLink mt exact i (Refresh i f ids remaining objects done) c l)
          Always := by
      intro segments hall hsome
      refine bind ih fun rest => assume fun hfacts => ?_
      refine Triple.pure hst.lift fun w l _ h => ⟨⟨fun s hs => ?_, fun hexact g' hg' hf => ?_⟩, h⟩
      · exact (List.mem_append.mp hs).elim (hall s) (hfacts.1 s)
      · rcases List.mem_cons.mp hg' with rfl | hg'
        · exact List.append_ne_nil_of_left_ne_nil (hsome hexact hf) rest
        · exact List.append_ne_nil_of_right_ne_nil segments (hfacts.2 hexact g' hg' hf)
    unfold Tamoss.objectSegments
    dsimp only
    split
    · rename_i hgf
      refine hrest _ (fun s hs => ?_) fun _ hf hnil => ?_
      · obtain ⟨hs, hso⟩ := List.mem_filter.mp hs
        replace hso : s.objectId = o := by simpa using hso
        obtain ⟨m, hm, ht⟩ := htied o ho s hs (.inl hso)
        obtain rfl := Option.some.inj (hmedia.symm.trans hm)
        exact ⟨.inl hso, ht⟩
      · obtain ⟨s, hs, hso⟩ := hf hgf
        have : s ∈ remaining.filter (·.objectId = o) := List.mem_filter.mpr ⟨hs, by simpa using hso⟩
        rw [hnil] at this
        cases this
    · rename_i hgf
      refine bind (listSegmentsOfOther ho hdone hmedia hgf
        (hflows g List.mem_cons_self)) fun segments => assume fun hfacts => ?_
      exact hrest segments hfacts.1 fun hexact _ => hfacts.2 hexact

theorem objectTimerange (L : mt.Lawful) (T : exact → mt.Arithmetic)
    (htied : RemainingTied mt exact ids remaining objects)
    (hremaining : ∀ s ∈ remaining, s.initObjectId ≠ some "") (ho : o ∈ ids) (hdone : o ∉ done)
    (hmedia : objects.get o = some media) (hok : ObjectOk mt media)
    (hkind : media.objectKind ≠ .init)
    (hne : (discarded f remaining o media).referencedByFlows ≠ []) :
    LinkSpec mt fc exact D i (InLink mt exact i (Refresh i f ids remaining objects done))
      (objectTimerange mt f remaining (discarded f remaining o media))
      (fun timerange c l => (exact → timerange = media.timerange) ∧
        InLink mt exact i (Refresh i f ids remaining objects done) c l) Always := by
  have hst : LinkStable mt exact i
      (InLink mt exact i (Refresh i f ids remaining objects done)) := InLink.stable Refresh.carried
  have hmid : media.id = o := (Lib.Table.get_eq_some.mp hmedia).2
  unfold Tamoss.objectTimerange
  rw [(discarded_same f remaining o media).1, hmid]
  refine bind (objectSegments htied ho hdone hmedia _ fun g => discarded_subset) fun segments =>
    assume fun hfacts => ?_
  refine bind (except hst (fun _ _ _ _ => trivial) _) fun ranges =>
    assume fun hranges => ?_
  refine Triple.post (except hst (fun _ _ _ _ => trivial) _) fun timerange w l _ h =>
    ⟨fun hexact => ?_, h.2⟩
  refine union_of_ties L (T hexact) hexact hok hkind ?_ hfacts.1 hranges h.1
  obtain ⟨g, hg⟩ := List.exists_mem_of_ne_nil _ hne
  refine hfacts.2 hexact g hg fun hgf => ?_
  -- the flow is still listed, so a remaining segment names the object, as media
  subst hgf
  have hmem : o ∈ remaining.flatMap SegmentRecord.objectIds := by
    by_contra hnot
    rw [discarded, if_neg hnot] at hg
    exact (MediaObjectRecord.mem_discardReference.mp hg).2 rfl
  obtain ⟨s, hs, hos⟩ := List.mem_flatMap.mp hmem
  have hn := (SegmentRecord.mem_objectIds (hremaining s hs)).mp hos
  obtain ⟨m, hm, ht⟩ := htied o ho s hs hn
  obtain rfl := Option.some.inj (hmedia.symm.trans hm)
  exact ⟨s, hs, ht.objectId_eq hn hkind⟩

theorem refreshObject (L : mt.Lawful) (T : exact → mt.Arithmetic)
    (htied : RemainingTied mt exact ids remaining objects)
    (hremaining : ∀ s ∈ remaining, s.initObjectId ≠ some "")
    (hread : ∀ o m, objects.get o = some m → ObjectOk mt m) (requestId : Option QueueId)
    (ho : o ∈ ids) (hdone : o ∉ done) :
    LinkSpec mt fc exact D i (InLink mt exact i (Refresh i f ids remaining objects done))
      (refreshObject mt f remaining requestId objects o)
      (fun _ => InLink mt exact i (Refresh i f ids remaining objects (done ++ [o]))) Always := by
  have hC : ∀ done, Carried mt exact i (Refresh i f ids remaining objects done) :=
    fun _ => Refresh.carried
  unfold Tamoss.refreshObject
  cases hmedia : objects.get o with
  | none =>
    refine Triple.pure (InLink.stable (hC done)).lift fun w l _ h => ?_
    obtain ⟨htx, hdel, hrows, hobjects⟩ := h
    refine ⟨htx, hdel, hrows, fun o' ho' => ?_⟩
    obtain ⟨hheld, hleft, hinit⟩ := hobjects o' ho'
    exact ⟨hheld, fun hn => hleft fun hm => hn (List.mem_append_left _ hm), hinit⟩
  | some media =>
    have hsame := discarded_same f remaining o media
    have hmid : media.id = o := (Lib.Table.get_eq_some.mp hmedia).2
    dsimp only
    rw [show (if o ∈ remaining.flatMap SegmentRecord.objectIds then media
      else media.discardReference f) = discarded f remaining o media from rfl]
    split
    · rename_i hempty
      refine bind (calm (hC done) (queueControlledObjectCleanup_calm o _ requestId))
        fun _ => ?_
      refine write (InLink.stable (hC done)) (InLink.stable (hC _))
        (fun _ _ h => h.1.inTransaction) fun c l ⟨htx, h⟩ => ?_
      refine ⟨htx.push_refreshDelete h ho hdone hmedia (List.isEmpty_iff.mp hempty),
        h.push (by simp [Write.TouchesFlow]) (fun o' ho' => ho'.symm) fun m' hm' => ?_⟩
      simp [Write.onObject] at hm'
    · rename_i hne
      rw [List.isEmpty_iff] at hne
      have hsave : ∀ timerange : Option String, (media.objectKind = .init → timerange = none) →
          (media.objectKind ≠ .init → exact → timerange = media.timerange) →
          LinkSpec mt fc exact D i (InLink mt exact i (Refresh i f ids remaining objects done))
            (call (.write (.saveObject { discarded f remaining o media with timerange })))
            (fun _ => InLink mt exact i (Refresh i f ids remaining objects (done ++ [o])))
            Always := by
        intro timerange hinit htime
        refine write (InLink.stable (hC done)) (InLink.stable (hC _))
          (fun _ _ h => h.1.inTransaction) fun c l ⟨htx, h⟩ => ?_
        refine ⟨htx.push_refreshSave h ho hdone hmedia hne hinit htime,
          h.push (by simp [Write.TouchesFlow])
            (fun o' ho' => ho'.symm.trans (hsame.1.trans hmid)) fun m' hm' => ⟨media, hmedia, ?_⟩⟩
        obtain rfl : _ = m' := by simpa [Write.onObject, hsame.1, hmid] using hm'
        exact hsame.2.2
      split
      · rename_i hkind
        rw [hsame.2.1] at hkind
        exact hsave none (fun _ => rfl) fun hnot => absurd hkind hnot
      · rename_i hkind
        rw [hsame.2.1] at hkind
        refine bind (objectTimerange L T htied hremaining ho hdone hmedia (hread o media hmedia)
          hkind hne)
          fun timerange => assume fun htime => ?_
        exact hsave timerange (fun hk => absurd hk hkind) fun _ => htime

theorem listSegmentsForObjects {F : CoreAssertion} (hF : Carried mt exact i F) :
    LinkSpec mt fc exact D i
      (InLink mt exact i fun c l => (Deleting i f c l ∧ F c l) ∧ HoldsObjects i ids c l)
      (call (.listSegmentsForObjects f ids))
      (fun remaining c l => (∀ s ∈ remaining, s.initObjectId ≠ some "") ∧
        InLink mt exact i (fun c l => (Deleting i f c l ∧ F c l ∧ RowsLeft i f ids remaining c l ∧
          ∀ o, o ∈ ids → c.Holds i (.object o) ∧ ∀ s ∈ remaining, s.Names o →
            ∃ m, (c.view l).objects.get o = some m ∧ Ties mt exact s o m) ∧
          HoldsObjects i ids c l) c l) E := by
  have hQ : ∀ remaining : List SegmentRecord, Carried mt exact i fun c l =>
      (Deleting i f c l ∧ F c l ∧ RowsLeft i f ids remaining c l ∧
        ∀ o, o ∈ ids → c.Holds i (.object o) ∧ ∀ s ∈ remaining, s.Names o →
          ∃ m, (c.view l).objects.get o = some m ∧ Ties mt exact s o m) ∧
        HoldsObjects i ids c l := by
    intro remaining
    refine ((Deleting.carried f).and (hF.and (RowsLeft.carried.and ?_))).and
      (HoldsObjects.carried ids)
    exact .forall_of fun o => .imp fun _ => .object o fun x => ∀ s ∈ remaining, s.Names o →
      ∃ m, x = some m ∧ Ties mt exact s o m
  refine read (by trivial)
    (InLink.stable (((Deleting.carried f).and hF).and (HoldsObjects.carried ids)))
    (fun remaining c c' l h hr hi => ⟨h.1, InLink.stable (hQ remaining) c c' l h.2 hr hi⟩) ?_
  intro ch w l r w' l' hA hg he
  obtain ⟨rfl, -⟩ := Prod.mk.inj (Option.some.inj he)
  obtain ⟨htx, ⟨hdel, hFw⟩, hheld⟩ := hA
  have hmem : ∀ row, row ∈ (w.view l).listSegmentsForObjects f ids ↔
      row ∈ (w.view l).segmentsOf f ∧ ∃ o ∈ ids, row.record.Names o := by
    intro row
    simp [Database.listSegmentsForObjects]
  have hrow : ∀ s ∈ ((w.view l).listSegmentsForObjects f ids).map (·.record),
      ∃ row ∈ (w.view l).segments.rows, row.record = s := by
    intro s hs
    obtain ⟨row, hrow, rfl⟩ := List.mem_map.mp hs
    exact ⟨row, (Database.mem_segmentsOf.mp ((hmem row).mp hrow).1).1, rfl⟩
  refine ⟨fun s hs => ?_, htx, ⟨hdel, hFw, ⟨hdel.held, fun row hmemRow hf => ?_⟩,
    fun o ho => ⟨hheld o ho, fun s hs hn => ?_⟩⟩, hheld⟩
  · obtain ⟨row, hrow, rfl⟩ := hrow s hs
    exact (hg.wellFormed.row row hrow).init
  · refine ⟨(hg.wellFormed.row row hmemRow).init, fun o ho hn => ?_⟩
    refine List.mem_map_of_mem ((hmem row).mpr ⟨Database.mem_segmentsOf.mpr ⟨hmemRow, hf⟩, ?_⟩)
    exact ⟨o, ho, hn⟩
  · obtain ⟨row, hrow, rfl⟩ := hrow s hs
    exact htx.linked.tied row hrow o hn

end LinkSpec

variable (i f ids) in
def Known (κ : ObjectId → Option ObjectId → Prop) : CoreAssertion := fun c l =>
  ∀ o x, κ o x → o ∈ ids ∧ InitIs i f o x c l

theorem Known.carried (κ : ObjectId → Option ObjectId → Prop) :
    Carried mt exact i (Known i f ids κ) :=
  .forall_of fun o => .forall_of fun x => .imp fun _ => (Carried.const _).and
    (InitIs.carried f o x)

theorem Known.lockable (κ : ObjectId → Option ObjectId → Prop) :
    Lockable i (Known i f ids κ) := fun c l locks h hk hk' o x hκ =>
  ⟨(h o x hκ).1, InitIs.lockable f o x c l locks (h o x hκ).2 hk hk'⟩

namespace LinkSpec

theorem refreshDeletedObjectReferences (L : mt.Lawful) (T : exact → mt.Arithmetic)
    (κ : ObjectId → Option ObjectId → Prop) (deleted : List SegmentRecord)
    (requestId : Option QueueId) (hids : ids = (deleted.flatMap SegmentRecord.objectIds).dedup) :
    LinkSpec mt fc exact D i
      (InLink mt exact i fun c l => (Deleting i f c l ∧ Known i f ids κ c l) ∧ Free i ids c l)
      (refreshDeletedObjectReferences mt f deleted requestId)
      (fun _ => InLink mt exact i fun c l => Deleting i f c l ∧ HoldsObjects i ids c l ∧
        Known i f ids κ c l) Always := by
  have hF : Carried mt exact i fun c l => Deleting i f c l ∧ Known i f ids κ c l :=
    (Deleting.carried f).and (Known.carried κ)
  unfold Tamoss.refreshDeletedObjectReferences
  rw [← hids]
  refine bind (lockObjects hF ((Deleting.lockable f).and (Known.lockable κ))
    fun c l h => h) fun _ => ?_
  refine bind (listSegmentsForObjects (Known.carried κ)) fun remaining =>
    assume fun hremaining => ?_
  refine bind (getObjects ((Deleting.carried f).and ((Known.carried κ).and
    (RowsLeft.carried.and (.forall_of fun o => .imp fun _ => .object o fun x =>
      ∀ s ∈ remaining, s.Names o → ∃ m, x = some m ∧ Ties mt exact s o m)))) ids)
    fun objects => assume fun hread => ?_
  -- what has been read says it all
  refine pre (B := fun c l => (RemainingTied mt exact ids remaining objects ∧
      ∀ o x, κ o x → o ∈ ids ∧ ∀ m, objects.get o = some m → m.initObjectId = x) ∧
    InLink mt exact i (Refresh i f ids remaining objects []) c l)
    (assume fun ⟨htied, hκ⟩ => ?_) fun c l _ h => ?_
  · let I (done : List ObjectId) : CoreAssertion :=
      InLink mt exact i (Refresh i f ids remaining objects done)
    have hloop : LinkSpec mt fc exact D i (I [])
        (ids.forM (Tamoss.refreshObject mt f remaining requestId objects)) (fun _ => I ids)
        Always := by
      refine Triple.forM (I := fun done => (I done).lift mt fc)
        (fun done => (InLink.stable Refresh.carried).lift) ?_
      intro done o rest hxs
      refine refreshObject L T htied hremaining (fun o m hm => (hread o m hm).2.1) requestId
        (by rw [hxs]; simp) fun hm => ?_
      have hnodup : ids.Nodup := hids ▸ List.nodup_dedup _
      rw [hxs, List.nodup_append] at hnodup
      exact hnodup.2.2 o hm o (by simp) rfl
    refine Triple.post hloop fun _ w l _ h => ?_
    obtain ⟨htx, hdel, -, hobjects⟩ := h
    refine ⟨htx, hdel, fun o ho => (hobjects o ho).1, fun o x hx => ?_⟩
    obtain ⟨ho, hinit⟩ := hκ o x hx
    refine ⟨ho, .inl ⟨(hobjects o ho).1, fun m' hm' => ?_⟩⟩
    obtain ⟨m, hm, hsame⟩ := (hobjects o ho).2.2 m' hm'
    exact hsame.trans (hinit m hm)
  · obtain ⟨htx, ⟨hdel, hknown, hrows, htied⟩, hobjects⟩ := h
    refine ⟨⟨fun o ho s hs hn => ?_, fun o x hx => ?_⟩, htx, hdel, hrows, fun o ho => ?_⟩
    · rw [← (hobjects o ho).2]
      exact (htied o ho).2 s hs hn
    · obtain ⟨ho, hinit⟩ := hknown o x hx
      exact ⟨ho, fun m hm => hinit.view_eq ((hobjects o ho).2.trans hm)⟩
    · obtain ⟨hheld, hview⟩ := hobjects o ho
      exact ⟨hheld, fun _ => hview, fun m' hm' => ⟨m', hview.symm.trans hm', rfl⟩⟩

end LinkSpec

end Refresh

variable (i) in
def Draining (filter : SegmentDeleteFilter) : CoreAssertion := fun c l =>
  (∀ o, ¬ c.Holds i (.object o)) ∨ ∃ o x, filter.objectId = some o ∧
    HoldsObjects i (o :: x.toList) c l ∧ InitIs i filter.flowId o x c l

theorem noObjects_carried : Carried mt exact i (fun c _ => ∀ o, ¬ c.Holds i (.object o)) :=
  Carried.held (P := fun S => ∀ o, ¬ S (.object o)) fun _ _ h hS o ho => hS o ((h _ id).mpr ho)

theorem Draining.carried (filter : SegmentDeleteFilter) : Carried mt exact i (Draining i filter) :=
  noObjects_carried.or (.exists_of fun _ => .exists_of fun _ => (Carried.const _).and
    ((HoldsObjects.carried _).and (InitIs.carried _ _ _)))

theorem mem_segmentBatch {db : Database} {filter : SegmentDeleteFilter} {limit : Nat}
    {skip : SegmentRow → Bool} {row : SegmentRow} (h : row ∈ db.segmentBatch filter limit skip) :
    row ∈ db.segments.rows ∧ row.record.flowId = filter.flowId ∧
      ∀ o, filter.objectId = some o → row.record.objectId = o := by
  have hmem := List.mem_of_mem_take h
  rw [mem_orderRows, List.mem_filter, Bool.and_eq_true] at hmem
  obtain ⟨hin, hsel, -⟩ := hmem
  simp only [SegmentDeleteFilter.selects, Bool.and_eq_true, decide_eq_true_eq] at hsel
  refine ⟨hin, hsel.1.1.1.1, fun o ho => ?_⟩
  have := hsel.1.1.2
  rw [ho] at this
  simpa [eq_comm] using this

namespace LinkSpec

theorem deleteSegmentBatch (filter : SegmentDeleteFilter) (limit : Nat) : LinkSpec mt fc exact D i
      (InLink mt exact i fun c l => Deleting i filter.flowId c l ∧ Draining i filter c l)
      (call (.deleteSegmentBatch filter limit))
      (fun deleted => InLink mt exact i fun c l => Deleting i filter.flowId c l ∧
        (deleted = [] → Draining i filter c l) ∧
        Free i (deleted.flatMap SegmentRecord.objectIds).dedup c l ∧
        ∀ o, filter.objectId = some o → deleted ≠ [] →
          ∃ x, (o :: x.toList) ⊆ (deleted.flatMap SegmentRecord.objectIds).dedup ∧
            InitIs i filter.flowId o x c l) E := by
  have hfree : ∀ ids, Carried mt exact i (Free i ids) := fun ids =>
    (HoldsObjects.carried ids).or (noObjects_carried.or (.running GeneratesIds))
  refine push (InLink.stable ((Deleting.carried _).and (Draining.carried _)))
    (fun deleted => InLink.stable ((Deleting.carried _).and ((Carried.imp fun _ =>
      Draining.carried _).and ((hfree _).and (.forall_of fun o => .imp fun _ => .imp fun _ =>
        .exists_of fun x => (Carried.const _).and (InitIs.carried _ _ _))))))
    (fun _ _ h => h.1.inTransaction) (fun _ _ _ h => h) ?_
  intro ch w l r w' l' hi hA hg he
  obtain ⟨htx, hdel, hdrain⟩ := hA
  set rows := (w.view l).segmentBatch filter limit ch.skip with hrows
  obtain ⟨rfl, hl⟩ := Prod.mk.inj (Option.some.inj he)
  have hrow : ∀ row ∈ rows, row ∈ (w.core.view l).segments.rows ∧
      row.record.flowId = filter.flowId ∧
      ∀ o, filter.objectId = some o → row.record.objectId = o := fun row hrow =>
    mem_segmentBatch hrow
  have hwrites : ∀ wr ∈ rows.map Write.deleteSegment, ∃ row ∈ rows, wr = .deleteSegment row := by
    intro wr hwr
    obtain ⟨row, hrow, rfl⟩ := List.mem_map.mp hwr
    exact ⟨row, hrow, rfl⟩
  have hobjects : ∀ wr ∈ rows.map Write.deleteSegment, ∀ o, ¬ wr.TouchesObject o := by
    intro wr hwr o
    obtain ⟨row, -, rfl⟩ := hwrites wr hwr
    exact id
  have hids : ∀ row ∈ rows, ∀ o, row.record.Names o →
      o ∈ ((rows.map (·.record)).flatMap SegmentRecord.objectIds).dedup := by
    intro row hmem o hn
    have hinit := (hg.wellFormed.row row (hrow row hmem).1).init
    rw [List.mem_dedup, List.mem_flatMap]
    exact ⟨row.record, List.mem_map_of_mem hmem, (SegmentRecord.mem_objectIds hinit).mpr hn⟩
  -- the media object of a row, with the row's init object
  have hmedia : ∀ row ∈ rows, ∃ m, (w.core.view l).objects.get row.record.objectId = some m ∧
      filter.flowId ∈ m.referencedByFlows ∧ m.initObjectId = row.record.initObjectId := by
    intro row hmem
    obtain ⟨m, hm, ht⟩ := htx.linked.tied row (hrow row hmem).1 _ (.inl rfl)
    exact ⟨m, hm, (hrow row hmem).2.1 ▸ ht.listed, (ht.media rfl).2.1⟩
  have hinits : ∀ o, filter.objectId = some o → ∀ row ∈ rows,
      InitIs i filter.flowId o row.record.initObjectId w.core l := by
    intro o ho row hmem
    obtain ⟨m, hm, hlisted, hinit⟩ := hmedia row hmem
    rw [(hrow row hmem).2.2 o ho] at hm
    rcases hdrain with hnone | ⟨o', x, ho', -, hx⟩
    · refine .inr ⟨hdel.held, fun wr hwr ht => hnone o (htx.objectWrites wr hwr o ht), m, ?_,
        hlisted, hinit⟩
      rw [← htx.view_object (hnone o)]
      exact hm
    · obtain rfl := Option.some.inj (ho.symm.trans ho')
      have := hx.view_eq hm
      rw [← hinit, this]
      exact hx
  refine ⟨rows.map .deleteSegment, hl, htx.push_removes hdel.adds fun wr hwr => ?_,
    hdel.push (fun row hm => ?_) (fun wr hwr g ht => ?_), fun hnil => ?_, ?_, fun o ho hne => ?_⟩
  · obtain ⟨row, -, rfl⟩ := hwrites wr hwr
    exact .inl ⟨row, rfl⟩
  · obtain ⟨row, -, he⟩ := hwrites _ hm
    cases he
  · obtain ⟨row, hmem, rfl⟩ := hwrites wr hwr
    exact ht.symm.trans (hrow row hmem).2.1
  · rcases hdrain with hnone | ⟨o, x, ho, hheld, hx⟩
    · exact .inl hnone
    · exact .inr ⟨o, x, ho, hheld, hx.push_rows hobjects⟩
  · rcases hdrain with hnone | ⟨o, x, ho, hheld, hx⟩
    · exact .inr (.inl hnone)
    · -- the rows name the drained object and its init object only
      refine .inl fun o' ho' => ?_
      rw [List.mem_dedup, List.mem_flatMap] at ho'
      obtain ⟨s, hs, ho'⟩ := ho'
      obtain ⟨row, hmem, rfl⟩ := List.mem_map.mp hs
      have hinit := (hg.wellFormed.row row (hrow row hmem).1).init
      obtain ⟨m, hm, -, hmi⟩ := hmedia row hmem
      rw [(hrow row hmem).2.2 o ho] at hm
      refine hheld o' ?_
      rcases (SegmentRecord.mem_objectIds hinit).mp ho' with he | he
      · rw [← he, (hrow row hmem).2.2 o ho]
        exact List.mem_cons_self
      · rw [← hmi, hx.view_eq hm] at he
        simp [he]
  · obtain ⟨s, hs⟩ := List.exists_mem_of_ne_nil _ hne
    obtain ⟨row, hmem, rfl⟩ := List.mem_map.mp hs
    refine ⟨row.record.initObjectId, fun o' ho' => hids row hmem o' ?_,
      (hinits o ho row hmem).push_rows hobjects⟩
    rcases List.mem_cons.mp ho' with rfl | ho'
    · exact .inl ((hrow row hmem).2.2 o' ho)
    · exact .inr (Option.mem_toList.mp ho')

theorem deleteRounds (L : mt.Lawful) (T : exact → mt.Arithmetic) (filter : SegmentDeleteFilter)
    (requestId : Option QueueId) (drain : Bool)
    (hdrain : drain = true → ∃ o, filter.objectId = some o) (rounds : Nat) :
    LinkSpec mt fc exact D i
      (InLink mt exact i fun c l => Deleting i filter.flowId c l ∧ Draining i filter c l)
      (deleteRounds mt filter requestId drain rounds)
      (fun _ => InLink mt exact i (Deleting i filter.flowId)) Always := by
  have hD : Carried mt exact i (Deleting i filter.flowId) := Deleting.carried _
  induction rounds with
  | zero => exact Triple.throw fun _ _ _ => trivial
  | succ rounds ih =>
    unfold Tamoss.deleteRounds
    refine bind (deleteSegmentBatch filter deleteSegmentBatchSize) fun deleted => ?_
    split
    · refine Triple.pre (timerange hD filter) fun w l _ h => ⟨h.1, h.2.1⟩
    · rename_i hne
      rw [List.isEmpty_iff] at hne
      -- name the init object of the object that is being drained
      refine pre (B := fun c l => ∃ x : Option ObjectId, (∀ o, filter.objectId = some o →
          (o :: x.toList) ⊆ (deleted.flatMap SegmentRecord.objectIds).dedup) ∧
        InLink mt exact i (fun c l => (Deleting i filter.flowId c l ∧
          Known i filter.flowId (deleted.flatMap SegmentRecord.objectIds).dedup
            (fun o y => filter.objectId = some o ∧ y = x) c l) ∧
          Free i (deleted.flatMap SegmentRecord.objectIds).dedup c l) c l)
        (exists_pre fun x => assume fun hsub => ?_) fun c l _ h => ?_
      · refine bind (refreshDeletedObjectReferences L T _ deleted requestId rfl) fun _ => ?_
        have hG : Carried mt exact i fun c l => Deleting i filter.flowId c l ∧
            HoldsObjects i (deleted.flatMap SegmentRecord.objectIds).dedup c l ∧
            Known i filter.flowId (deleted.flatMap SegmentRecord.objectIds).dedup
              (fun o y => filter.objectId = some o ∧ y = x) c l :=
          hD.and ((HoldsObjects.carried _).and (Known.carried _))
        refine bind (timerange hG filter) fun answer => ?_
        split
        · exact Triple.pure (InLink.stable hG).lift fun _ _ _ h => ⟨h.1, h.2.1⟩
        · rename_i hgo
          refine Triple.pre ih fun w l _ h => ⟨h.1, h.2.1, .inr ?_⟩
          obtain ⟨o, ho⟩ := hdrain (by
            by_contra hfalse
            exact hgo (.inr (by simpa using hfalse)))
          exact ⟨o, x, ho, fun o' ho' => h.2.2.1 o' (hsub o ho ho'), (h.2.2.2 o x ⟨ho, rfl⟩).2⟩
      · obtain ⟨htx, hdel, -, hfree, hknown⟩ := h
        cases hobject : filter.objectId with
        | none =>
          exact ⟨none, by simp, htx, ⟨hdel, fun o x hx => by simp at hx⟩, hfree⟩
        | some o =>
          obtain ⟨x, hsub, hx⟩ := hknown o hobject hne
          refine ⟨x, fun o' ho' => Option.some.inj ho' ▸ hsub, htx, ⟨hdel, fun o' y hy => ?_⟩,
            hfree⟩
          obtain ⟨ho', rfl⟩ := hy
          obtain rfl := Option.some.inj ho'
          exact ⟨hsub List.mem_cons_self, hx⟩

theorem deleteMatchingSegments {P : Option Op → Prop} (L : mt.Lawful) (T : exact → mt.Arithmetic)
    (filter : SegmentDeleteFilter) (requestId : Option QueueId) (drain : Bool)
    (hdrain : drain = true → ∃ o, filter.objectId = some o) (rounds : Nat) :
    LinkSpec mt fc exact D i (InLink mt exact i (Opening i P))
      (deleteMatchingSegments mt filter requestId drain rounds)
      (fun _ => InLink mt exact i (Deleting i filter.flowId)) Always := by
  have hF : Carried mt exact i fun c l =>
      Deleting i filter.flowId c l ∧ Draining i filter c l :=
    (Deleting.carried _).and (Draining.carried _)
  refine bind (lockFlow (Opening.carried P) hF filter.flowId
    (fun c l h => .inr h.2.1) ?_) fun _ => ?_
  · intro c l locks h hk
    refine ⟨⟨(hk _).mpr (.inl rfl), fun g hg => ?_, addsNone_of_neutral h.1, fun w hw g ht => ?_⟩,
      .inl fun o ho => ?_⟩
    · rcases (hk _).mp hg with he | hg
      · simpa using he
      · exact (h.2.1 _ hg).elim
    · exact absurd ht ((h.1 w hw).not_touchesFlow g)
    · rcases (hk _).mp ho with he | ho
      · cases he
      · exact h.2.1 _ ho
  · refine reading (InLink.stable hF) trivial fun _ => ?_
    exact deleteRounds L T filter requestId drain hdrain rounds

theorem removeFlow (flow : FlowRecord) (f : FlowId) :
    LinkOk mt fc exact D i (fun _ l => AddsNone l) (removeFlow flow f) := by
  refine bind (unlinkFlowCollectionReferences AddsNone.carried f) fun _ => ?_
  refine bind (write (InLink.stable AddsNone.carried) (InLink.stable .true)
    (fun _ _ h => h.1.inTransaction) fun c l h => ⟨?_, trivial⟩) fun _ =>
      tame .true (deleteOrphanSource_tame flow.sourceId)
  refine h.1.push_removes h.2 fun w hw => .inr ⟨f, ?_⟩
  exact List.mem_singleton.mp hw

end LinkSpec

end Tamoss
