/-
  **Deletion keeps the protocol.**
-/
import Tamoss.Store.RegistrationSafety

namespace Tamoss

open Lib.Machine

variable {mt : MediaTimestamp} {fc : FlowContract} {noDeletes : Prop} {i : SessionId}
variable {dirty : FlowId → ObjectId → Prop} {A F : CoreAssertion}
variable {E : PyError → Session → Prop}

theorem segmentDeleteFilter_ok {f : FlowId} {timerange : Option String}
    {o : Option ObjectId} {filter : SegmentDeleteFilter}
    (h : segmentDeleteFilter mt f timerange o = .ok filter) :
    filter.flowId = f ∧ filter.objectId = o := by
  unfold segmentDeleteFilter at h
  split at h
  · cases h
    exact ⟨rfl, rfl⟩
  · obtain ⟨requested, -, h⟩ := Lib.bind_eq_ok h
    cases h
    exact ⟨rfl, rfl⟩

namespace Spec

theorem objectTimerange (hF : Frame mt i F) (f : FlowId)
    (remaining : List SegmentRecord) (o : MediaObjectRecord) :
    Spec mt fc noDeletes i (InTx mt i dirty F) (objectTimerange mt f remaining o)
      (fun timerange c l => (∀ t, timerange = some t → ∃ r, mt.str r = t) ∧
        InTx mt i dirty F c l) Always := by
  refine bind (calm hF (objectSegments_calm f remaining o.id o.referencedByFlows))
    fun segments => ?_
  refine bind (except (Steady.inTx hF) _) fun ranges => assume fun _ => ?_
  refine post (except (Steady.inTx hF) _) fun timerange c l _ h => ⟨fun t ht => ?_, h.2⟩
  exact timerangeUnionStrings_ok (ht ▸ h.1)

end Spec

variable (i) in
def ObjectsLeft (ids : List ObjectId) (objects : ObjectsById) (done : List ObjectId) :
    CoreAssertion :=
  fun c l => ∀ o, o ∈ ids → c.Holds i (.object o) ∧
    (o ∉ done → (c.view l).objects.get o = objects.get o)

theorem ObjectsLeft.frame (ids : List ObjectId) (objects : ObjectsById)
    (done : List ObjectId) : Frame mt i (ObjectsLeft i ids objects done) :=
  .forall_of fun o => .imp fun _ => .object o fun x => o ∉ done → x = objects.get o

variable {o : ObjectId} {l : Session} {w : Write}

theorem ObjectsLeft.push {ids done : List ObjectId} {objects : ObjectsById} {c : Core}
    (h : ObjectsLeft i ids objects done c l) (hw : ∀ o', w.TouchesObject o' → o' = o) :
    ObjectsLeft i ids objects (done ++ [o]) c (l.push [w]) := by
  intro o' ho'
  refine ⟨(h o' ho').1, fun hnot => ?_⟩
  rw [List.mem_append, not_or, List.mem_singleton] at hnot
  rw [← (h o' ho').2 hnot.1, Core.view_push, objects_get_applyAll]
  refine objectAfter_of_not_touches (fun x hx ht => hnot.2 ?_) _
  exact hw o' (List.mem_singleton.mp hx ▸ ht)

def dirtyLeft (f : FlowId) (ids done : List ObjectId) : FlowId → ObjectId → Prop :=
  fun g o => g = f ∧ o ∈ ids ∧ o ∉ done

def Remaining (rows : List SegmentRow) (ids : List ObjectId)
    (remaining : List SegmentRecord) : Prop :=
  ∀ s, s ∈ remaining ↔ ∃ row ∈ rows, row.record = s ∧ ∃ o ∈ ids, row.record.Names o

theorem Remaining.mem_objectIds {rows : List SegmentRow} {ids : List ObjectId}
    {remaining : List SegmentRecord} (h : Remaining rows ids remaining)
    (hinit : ∀ row ∈ rows, row.record.initObjectId ≠ some "") (ho : o ∈ ids) :
    o ∈ remaining.flatMap SegmentRecord.objectIds ↔ NamesObject rows o := by
  rw [List.mem_flatMap]
  constructor
  · rintro ⟨s, hs, hmem⟩
    obtain ⟨row, hrow, rfl, -⟩ := (h s).mp hs
    exact ⟨row, hrow, (SegmentRecord.mem_objectIds (hinit row hrow)).mp hmem⟩
  · rintro ⟨row, hrow, hn⟩
    refine ⟨row.record, (h _).mpr ⟨row, hrow, rfl, o, ho, hn⟩, ?_⟩
    exact (SegmentRecord.mem_objectIds (hinit row hrow)).mpr hn

theorem TxInv.push_refresh {c : Core} {f : FlowId} {ids done : List ObjectId}
    {rows : List SegmentRow} {media : MediaObjectRecord} {new : Option MediaObjectRecord}
    (h : TxInv mt i (dirtyLeft f ids done) c l) (hrows : RowsAre i f rows c l)
    (hheld : c.Holds i (.object o)) (hget : (c.view l).objects.get o = some media)
    (hw : w.onObject o ((c.view l).objects.get o) = new)
    (hflow : ∀ f, ¬ w.TouchesFlow f) (htouch : ∀ o', w.TouchesObject o' → o' = o)
    (hok : ∀ obj, new = some obj → ObjectOk mt obj) (hrefs : ∀ g, g ∈ refsOf new ↔
      g ∈ media.referencedByFlows ∧ (g = f → NamesObject rows o)) :
    TxInv mt i (dirtyLeft f ids (done ++ [o])) c (l.push [w]) := by
  have hview : ∀ g, g ∈ refsOf ((c.view l).objects.get o) ↔ g ∈ media.referencedByFlows := by
    intro g
    rw [hget, refsOf_some]
  refine h.push_object hw hflow htouch hheld hok (fun g hg => ?_) (fun g hg hn => ?_)
    (fun g hg _ hm => ?_) (fun g o' hne hd => ?_)
  · rw [hrefs, hview]
    exact and_iff_left fun he => absurd hrows.1 (he ▸ hg)
  · refine (hrefs g).mpr ⟨(hview g).mp (h.listed g o hg hheld hn), fun he => ?_⟩
    subst he
    exact hrows.2 ▸ hn
  · obtain ⟨hm, hf⟩ := (hrefs g).mp hm
    by_cases he : g = f
    · subst he
      exact hrows.2.symm ▸ hf rfl
    · exact h.listedOnly g o hg hheld (fun hd => he hd.1) ((hview g).mpr hm)
  · exact ⟨hd.1, hd.2.1, by simpa [hne] using hd.2.2⟩

section Refresh

variable {f : FlowId} {ids : List ObjectId} {rows : List SegmentRow} {objects : ObjectsById}

def Refreshing (i : SessionId) (F : CoreAssertion) (f : FlowId) (rows : List SegmentRow)
    (ids : List ObjectId) (objects : ObjectsById) (done : List ObjectId) : CoreAssertion :=
  fun c l => F c l ∧ RowsAre i f rows c l ∧ ObjectsLeft i ids objects done c l

theorem Refreshing.frame (hF : Memo mt i F) (done : List ObjectId) :
    Frame mt i (Refreshing i F f rows ids objects done) :=
  hF.frame.and ((RowsAre.frame _ _).and (ObjectsLeft.frame _ _ _))

theorem Refreshing.push (hF : Memo mt i F) {done : List ObjectId} {o : ObjectId} (ho : o ∈ ids)
    (hdone : o ∉ done) {media : MediaObjectRecord} (hmedia : objects.get o = some media)
    {w : Write} {new : Option MediaObjectRecord} (hw : ∀ x, w.onObject o x = new)
    (hflow : ∀ f, ¬ w.TouchesFlow f) (htouch : ∀ o', w.TouchesObject o' → o' = o)
    (hrequest : ∀ request, w ≠ .saveDeleteRequest request)
    (hok : ObjectOk mt media → ∀ obj, new = some obj → ObjectOk mt obj)
    (hrefs : ∀ g, g ∈ refsOf new ↔
      g ∈ media.referencedByFlows ∧ (g = f → NamesObject rows o)) {c : Core} {l : Session}
    (h : InTx mt i (dirtyLeft f ids done) (Refreshing i F f rows ids objects done) c l) :
    InTx mt i (dirtyLeft f ids (done ++ [o]))
      (Refreshing i F f rows ids objects (done ++ [o])) c (l.push [w]) := by
  obtain ⟨htx, hFc, hrows, hleft⟩ := h
  obtain ⟨hheld, hget⟩ := hleft o ho
  replace hget := (hget hdone).trans hmedia
  refine ⟨htx.push_refresh hrows hheld hget (hw _) hflow htouch
    (hok (htx.object o media hheld hget)) hrefs, ?_, ⟨hrows.1, ?_⟩, hleft.push htouch⟩
  · exact hF.push c l [w] hFc fun x hx => List.mem_singleton.mp hx ▸ hrequest
  · rw [Core.view_push, segmentsOf_applyAll, rowsAfter_eq_self Core.segmentsOf_flowId, hrows.2]
    exact fun x hx ht => absurd (List.mem_singleton.mp hx ▸ ht) (hflow f)

namespace Spec

theorem refreshObject (hF : Memo mt i F) {remaining : List SegmentRecord}
    (hrem : Remaining rows ids remaining)
    (hinit : ∀ row ∈ rows, row.record.initObjectId ≠ some "") (requestId : Option QueueId)
    {done : List ObjectId} {o : ObjectId} (ho : o ∈ ids) (hdone : o ∉ done) : Spec mt fc noDeletes i
      (InTx mt i (dirtyLeft f ids done) (Refreshing i F f rows ids objects done))
      (refreshObject mt f remaining requestId objects o)
      (fun _ => InTx mt i (dirtyLeft f ids (done ++ [o]))
        (Refreshing i F f rows ids objects (done ++ [o]))) Always := by
  have hfr : Frame mt i (Refreshing i F f rows ids objects done) := Refreshing.frame hF done
  have hfr' : Frame mt i (Refreshing i F f rows ids objects (done ++ [o])) :=
    Refreshing.frame hF (done ++ [o])
  unfold Tamoss.refreshObject
  cases hmedia : objects.get o with
  | none =>
    refine Triple.pure (InTx.stable hfr).lift fun w l _ h => ?_
    obtain ⟨htx, hFc, hrows, hleft⟩ := h
    refine ⟨htx.tidy fun g o' _ hd => ?_, hFc, hrows, fun o' ho' => ⟨(hleft o' ho').1, fun hn =>
      (hleft o' ho').2 fun hm => hn (List.mem_append_left _ hm)⟩⟩
    -- the object is gone, so it lists no flow
    by_cases he : o' = o
    · subst he
      refine .inr ⟨(hleft o' ho).1, fun hm => ?_⟩
      rw [(hleft o' ho).2 hdone, hmedia] at hm
      cases hm
    · exact .inl ⟨hd.1, hd.2.1, by simpa [he] using hd.2.2⟩
  | some media =>
    have hid : media.id = o := (Lib.Table.get_eq_some.mp hmedia).2
    dsimp only
    set media' := if o ∈ remaining.flatMap SegmentRecord.objectIds then media
      else media.discardReference f with hmedia'
    have hrefs : ∀ g, g ∈ media'.referencedByFlows ↔
        g ∈ media.referencedByFlows ∧ (g = f → NamesObject rows o) := by
      intro g
      rw [hmedia']
      split
      · rename_i hn
        exact (and_iff_left fun _ => (hrem.mem_objectIds hinit ho).mp hn).symm
      · rename_i hn
        rw [MediaObjectRecord.mem_discardReference]
        refine and_congr_right fun _ => imp_congr_right fun _ => ?_
        rw [← hrem.mem_objectIds hinit ho]
        exact ⟨fun h => h.elim, hn⟩
    have hsame : media'.id = media.id ∧ media'.initObjectId = media.initObjectId := by
      rw [hmedia']
      split <;> exact ⟨rfl, rfl⟩
    split
    · rename_i hempty
      rw [List.isEmpty_iff] at hempty
      refine bind (calm hfr (queueControlledObjectCleanup_calm o _ requestId)) fun _ => ?_
      have hw : ∀ x, Write.onObject o x (.deleteObject o) = none := by simp [Write.onObject]
      refine write (InTx.stable hfr) (InTx.stable hfr') (fun _ _ h => h.1.inTransaction)
        fun c l _ h _ => Refreshing.push hF ho hdone hmedia hw (by simp [Write.TouchesFlow])
          (fun o' ho' => ho'.symm) (by simp) (fun _ obj hobj => by cases hobj) (fun g => ?_) h
      rw [← hrefs, hempty]
      rfl
    · have hsave : ∀ timerange : Option String,
          (∀ t, timerange = some t → ∃ r, mt.str r = t) → Spec mt fc noDeletes i
            (InTx mt i (dirtyLeft f ids done) (Refreshing i F f rows ids objects done))
            (call (.write (.saveObject { media' with timerange })))
            (fun _ => InTx mt i (dirtyLeft f ids (done ++ [o]))
              (Refreshing i F f rows ids objects (done ++ [o]))) Always := by
        intro timerange htime
        have hw : ∀ x, Write.onObject o x (.saveObject { media' with timerange }) =
            some { media' with timerange } := by simp [Write.onObject, hsame.1, hid]
        refine write (InTx.stable hfr) (InTx.stable hfr') (fun _ _ h => h.1.inTransaction)
          fun c l _ h _ => Refreshing.push hF ho hdone hmedia hw (by simp [Write.TouchesFlow])
            (fun o' ho' => by rw [← ho', ← hid]; exact hsame.1) (by simp)
            (fun hok obj hobj => ?_) hrefs h
        obtain rfl := Option.some.inj hobj
        exact ⟨htime, hsame.2 ▸ hok.init⟩
      split
      · exact hsave none (by simp)
      · exact bind (objectTimerange hfr f remaining media') fun timerange =>
          assume fun htime => hsave timerange htime

theorem listSegmentsForObjects (hF : Frame mt i F) (ids : List ObjectId) :
    Spec mt fc noDeletes i (InTx mt i dirty fun c l => RowsAre i f rows c l ∧ F c l)
      (call (.listSegmentsForObjects f ids)) (fun remaining => InTx mt i dirty fun c l =>
        Remaining rows ids remaining ∧ RowsAre i f rows c l ∧ F c l) E := by
  refine readRows (by trivial) hF fun ch w l r w' l' hview he s => ?_
  obtain ⟨rfl, -⟩ := Prod.mk.inj (Option.some.inj he)
  simp only [Database.listSegmentsForObjects, hview, List.mem_map, mem_orderRows,
    List.mem_filter, List.any_eq_true, decide_eq_true_eq]
  constructor
  · rintro ⟨row, ⟨hrow, o, ho, hn⟩, rfl⟩
    exact ⟨row, hrow, rfl, o, ho, hn⟩
  · rintro ⟨row, hrow, rfl, o, ho, hn⟩
    exact ⟨row, ⟨hrow, o, ho, hn⟩, rfl⟩

/-- **`_refresh_deleted_object_references` settles every object that was dirty.** -/
theorem refreshDeletedObjectReferences (hF : Memo mt i F)
    (deleted : List SegmentRecord) (requestId : Option QueueId) : Spec mt fc noDeletes i
      (InTx mt i (fun g o => g = f ∧ o ∈ deleted.flatMap SegmentRecord.objectIds)
        fun c l => RowsAre i f rows c l ∧ F c l)
      (refreshDeletedObjectReferences mt f deleted requestId)
      (fun _ => InTx mt i clean fun c l => RowsAre i f rows c l ∧ F c l) Always := by
  unfold Tamoss.refreshDeletedObjectReferences
  set ids := (deleted.flatMap SegmentRecord.objectIds).dedup with hids
  have hG : Frame mt i fun c l => RowsAre i f rows c l ∧ F c l :=
    (RowsAre.frame f rows).and hF.frame
  -- a stored init object id is not empty
  refine pre (B := fun c l => (∀ row ∈ rows, row.record.initObjectId ≠ some "") ∧
    InTx mt i (dirtyLeft f ids []) (fun c l => RowsAre i f rows c l ∧ F c l) c l)
    (assume fun hinit => ?_) fun c l _ h => ⟨fun row hrow => ?_, ?_, h.2⟩
  · refine bind (lockObjects hG ids) fun _ => ?_
    refine bind (pre (listSegmentsForObjects (hF.frame.and (HoldsObjects.memo ids).frame) ids)
      fun c l _ h => ⟨h.1, h.2.1.1, h.2.1.2, h.2.2⟩) fun remaining => ?_
    refine pre (B := fun c l => Remaining rows ids remaining ∧ InTx mt i (dirtyLeft f ids [])
      (fun c l => (RowsAre i f rows c l ∧ F c l) ∧ HoldsObjects i ids c l) c l)
      (assume fun hrem => ?_) fun c l _ h => ⟨h.2.1, h.1, ⟨h.2.2.1, h.2.2.2.1⟩, h.2.2.2.2⟩
    refine bind (getObjects hG ids) fun objects => ?_
    let I (done : List ObjectId) : CoreAssertion :=
      InTx mt i (dirtyLeft f ids done) (Refreshing i F f rows ids objects done)
    have hloop : Spec mt fc noDeletes i (I [])
        (ids.forM (Tamoss.refreshObject mt f remaining requestId objects)) (fun _ => I ids)
        Always := by
      refine forM I (fun done => InTx.stable (Refreshing.frame hF done)) ?_
      intro done o rest hxs
      refine refreshObject hF hrem hinit requestId (by rw [hxs]; simp) fun hm => ?_
      have hnodup : ids.Nodup := List.nodup_dedup _
      rw [hxs, List.nodup_append] at hnodup
      exact hnodup.2.2 o hm o (by simp) rfl
    refine post (pre hloop fun c l _ h => ?_) fun _ c l _ h => ?_
    · exact ⟨h.1, h.2.2.1.2, h.2.2.1.1, fun o ho => ⟨(h.2.2.2 o ho).1, fun _ =>
        (h.2.2.2 o ho).2⟩⟩
    · exact ⟨h.1.tidy fun g o _ hd => absurd hd.2.1 hd.2.2, h.2.2.1, h.2.1⟩
  · have hrows := h.1.rows f h.2.1.1
    rw [h.2.1.2] at hrows
    exact (hrows.row row hrow).init
  · exact h.1.tidy fun g o _ hd => .inl ⟨hd.1, List.mem_dedup.mpr hd.2, by simp⟩

end Spec

end Refresh

namespace Spec

variable {cov : Prop}

theorem deleteRounds (hF : Memo mt i F) (filter : SegmentDeleteFilter)
    (hcov : cov → ¬ noDeletes ∧ ∀ c l, F c l → DeletesFlow i c l)
    (requestId : Option QueueId) (drain : Bool) (rounds : Nat) : Spec mt fc noDeletes i
      (InTx mt i clean fun c l => F c l ∧ c.Holds i (.flow filter.flowId))
      (deleteRounds mt filter requestId drain rounds)
      (fun answer => InTx mt i clean fun c l => F c l ∧ c.Holds i (.flow filter.flowId) ∧
        (answer = "()" → cov → (c.view l).segmentsOf filter.flowId = [])) Always := by
  have hS : ∀ P : List SegmentRow → Prop, Frame mt i fun c l => F c l ∧
      c.Holds i (.flow filter.flowId) ∧ P ((c.view l).segmentsOf filter.flowId) :=
    fun P => hF.frame.and (.rows _ P)
  induction rounds with
  | zero => exact Triple.throw fun _ _ _ => trivial
  | succ rounds ih =>
    unfold Tamoss.deleteRounds
    refine bind (deleteSegmentBatch hF filter hcov deleteSegmentBatchSize) fun deleted => ?_
    -- what is left when the filter, which selects every row, selects none
    have hnil : ∀ rows : List SegmentRow, (cov → ∀ row ∈ rows, filter.selects row = true) →
        (∀ row ∈ rows, filter.selects row = false) → cov → rows = [] := by
      intro rows hall hnone hc
      refine List.eq_nil_iff_forall_not_mem.mpr fun row hrow => ?_
      simpa [hall hc row hrow] using hnone row hrow
    have hask : Spec mt fc noDeletes i
        (InTx mt i clean fun c l => F c l ∧ c.Holds i (.flow filter.flowId) ∧
          (cov → ∀ row ∈ (c.view l).segmentsOf filter.flowId, filter.selects row = true))
        (call (.segmentDeleteTimerange filter))
        (fun answer => InTx mt i clean fun c l => F c l ∧ c.Holds i (.flow filter.flowId) ∧
          (answer = "()" → cov → (c.view l).segmentsOf filter.flowId = []))
        Always := by
      refine post (pre (timerange (hS fun rows =>
        cov → ∀ row ∈ rows, filter.selects row = true) filter)
        fun c l _ h => ⟨h.1, h.2, h.2.2.1⟩) fun answer c l _ h => ⟨h.1, h.2.1.1, h.2.2.1, ?_⟩
      exact fun hans => hnil _ h.2.1.2.2 (h.2.2.2 hans)
    split
    · rename_i hempty
      rw [List.isEmpty_iff] at hempty
      refine pre hask fun c l _ h => ⟨h.1.tidy fun g o _ hd => ?_, h.2⟩
      simp [hempty] at hd
    · refine pre (B := fun c l => ∃ rows, (cov → ∀ row ∈ rows, filter.selects row = true) ∧
        InTx mt i (fun g o => g = filter.flowId ∧
          o ∈ deleted.flatMap SegmentRecord.objectIds)
          (fun c l => RowsAre i filter.flowId rows c l ∧ F c l) c l)
        (exists_pre fun rows => assume fun hall => ?_)
        fun c l _ h => ⟨_, h.2.2.2, h.1, ⟨h.2.2.1, rfl⟩, h.2.1⟩
      refine bind (refreshDeletedObjectReferences hF deleted requestId) fun _ => ?_
      refine bind (pre hask fun c l _ h => ⟨h.1, h.2.2, h.2.1.1, h.2.1.2.symm ▸ hall⟩)
        fun remaining => ?_
      split
      · exact Triple.pure (InTx.stable (hS fun rows =>
          remaining = "()" → cov → rows = [])).lift fun _ _ _ h => h
      · exact pre ih fun c l _ h => ⟨h.1, h.2.1, h.2.2.1⟩

theorem deleteMatchingSegments (hF : Memo mt i F) (filter : SegmentDeleteFilter)
    (hcov : cov → ¬ noDeletes ∧ ∀ c l, F c l → DeletesFlow i c l)
    (requestId : Option QueueId) (drain : Bool) (rounds : Nat) :
    Spec mt fc noDeletes i (InTx mt i clean F)
      (deleteMatchingSegments mt filter requestId drain rounds)
      (fun answer => InTx mt i clean fun c l => F c l ∧ c.Holds i (.flow filter.flowId) ∧
        (answer = "()" → cov → (c.view l).segmentsOf filter.flowId = [])) Always := by
  refine bind (lockFlow hF.frame filter.flowId) fun _ => ?_
  refine bind (read' trivial (InTx.stable (hF.frame.and (.holds _)))) fun _ => ?_
  exact deleteRounds hF filter hcov requestId drain rounds

end Spec

variable (noDeletes i) in
/-- The flow's segments are gone: seen so under its lock, or found so by `delete_flow`. -/
def Deletable (f : FlowId) : CoreAssertion := fun c l => ¬ noDeletes →
  (c.Holds i (.flow f) ∧ (c.view l).segmentsOf f = []) ∨
    (f ∈ c.condemned i ∧ ∀ w ∈ l.writes, w.Neutral)

theorem Deletable.frame (f : FlowId) : Frame mt i (Deletable noDeletes i f) :=
  .imp fun _ => (Frame.rows f (· = [])).or
    ((Frame.running fun _ condemned => f ∈ condemned).and (.writes fun _ hw => hw.1))

namespace Spec

theorem unlinkFlowCollectionReferences (hF : Frame mt i F) (f : FlowId) :
    Spec mt fc noDeletes i (InTx mt i dirty F) (unlinkFlowCollectionReferences f)
      (fun _ => InTx mt i dirty F) E := by
  refine bind (read' trivial (InTx.stable hF)) fun parents => ?_
  refine forM (fun _ => InTx mt i dirty F) (fun _ => InTx.stable hF)
    fun _ ⟨parent, version⟩ _ _ => ?_
  dsimp only
  split
  · exact Triple.pure (InTx.stable hF).lift fun _ _ _ h => h
  · exact saveFlow hF _ version

theorem removeFlow (flow : FlowRecord) (f : FlowId) :
    TxOk mt fc noDeletes i clean (Deletable noDeletes i f) (removeFlow flow f) := by
  refine bind (unlinkFlowCollectionReferences (Deletable.frame f) f) fun _ => ?_
  refine bind ?_ fun _ => quiet .true (quiet_of_tame (deleteOrphanSource_tame flow.sourceId))
  refine write (InTx.stable (Deletable.frame f)) (InTx.stable .true)
    (fun _ _ h => h.1.inTransaction) fun c l hi h hdel => ⟨?_, trivial⟩
  rcases h.2 (hdel ⟨f, rfl⟩) with ⟨hheld, hnil⟩ | ⟨hcon, hneutral⟩
  · exact h.1.push_deleteFlow (.inl hheld) hnil
  · refine h.1.push_deleteFlow (.inr hcon) ?_
    rw [Core.view, segmentsOf_applyAll_neutral hneutral]
    exact hi.condemned i f hcon

theorem recordDeletionRequest {P : Option Op → List FlowId → Prop} (f : FlowId)
    (timerange : String) (deletesFlow : Bool) :
    Spec mt fc noDeletes i (Idle i P) (recordDeletionRequest f timerange deletesFlow)
      (fun _ => Idle i P) E := by
  refine bind (read' trivial Idle.stable) fun now => ?_
  refine bind (read' trivial Idle.stable) fun id => ?_
  exact autocommit (by simp [Write.Neutral])

theorem deleteFlow (hdel : ¬ noDeletes) (f : FlowId) :
    Spec mt fc noDeletes i (Idle i fun op _ => op = some (.deleteFlow f)) (deleteFlow f)
      (fun _ => AtRest) AtRest := by
  refine bind (requireFlow Steady.idle f false) fun ⟨flow, _⟩ => assume fun _ => ?_
  refine bind (ensureFlowWritable Steady.idle flow) fun _ => ?_
  refine bind (timerangeCondemns hdel f) fun answer => ?_
  split
  · rename_i hans
    refine post (pre (unitOfWork (R := fun _ => True) (Deletable.frame f)
      (post (removeFlow flow f) fun _ _ _ _ h => h)) fun c l _ h => ?_) fun _ _ _ _ h => h.1
    exact ⟨h.1, fun _ => .inr ⟨h.2 hans, by simp⟩⟩
  · exact post (recordDeletionRequest f answer true) fun _ _ _ _ h => h.1

theorem deleteSegments (f : FlowId) (timerange : Option String)
    (objectId : Option ObjectId) (rounds : Nat) : Spec mt fc noDeletes i
      (Idle i fun op _ => op = some (.deleteSegments f timerange objectId rounds))
      (deleteSegments mt f timerange objectId rounds) (fun _ => AtRest) AtRest := by
  refine bind (requireFlow Steady.idle f _) fun ⟨flow, version⟩ => assume fun _ => ?_
  refine bind (ensureFlowWritable Steady.idle flow) fun _ => ?_
  split
  · exact throw Steady.idle _
  · rename_i filter _
    refine bind (timerangeIdle (fun op _ hop g => by rw [hop]; simp) filter) fun matching => ?_
    split
    · exact Triple.pure Idle.stable.lift fun _ _ _ h => h.1
    · split
      · refine post (pre (unitOfWork (R := fun _ => True) Frame.true ?_)
          fun c l _ h => ⟨h.1, trivial⟩) fun _ _ _ _ h => h.1
        refine bind (deleteMatchingSegments .true filter (fun h : False => h.elim) none true
          rounds) fun _ => ?_
        refine bind (pre (read' trivial (InTx.stable .true)) fun c l _ h => ⟨h.1, trivial⟩)
          fun now => ?_
        exact saveFlow .true _ version
      · exact post (recordDeletionRequest f _ false) fun _ _ _ _ h => h.1

end Spec

theorem deleteRequests_applyAll {ws : List Write}
    (h : ∀ w ∈ ws, ∀ request, w ≠ .saveDeleteRequest request) (db : Database) :
    (db.applyAll ws).deleteRequests = db.deleteRequests := by
  induction ws generalizing db with
  | nil => rfl
  | cons w ws ih =>
    rw [Database.applyAll_cons, ih fun w' hw' => h w' (by simp [hw'])]
    have hw := h w (by simp)
    cases w with
    | saveDeleteRequest request => exact absurd rfl (hw request)
    | _ => rfl

def RequestIs (request : DeletionRequestRecord) : CoreAssertion := fun _ l =>
  ∀ db : Database, (db.applyAll l.writes).deleteRequests.get request.id = some request

theorem RequestIs.push (request : DeletionRequestRecord) (c : Core) (l : Session) :
    RequestIs request c (l.push [.saveDeleteRequest request]) := by
  intro db
  simp only [Session.push, Database.applyAll_append]
  exact Lib.Table.get_upsert_self _ request

theorem RequestIs.memo (request : DeletionRequestRecord) : Memo mt i (RequestIs request) where
  stable := .local fun l => ∀ db : Database,
    (db.applyAll l.writes).deleteRequests.get request.id = some request
  lock _ _ _ h _ := h
  push c l ws h hws db := by
    simp only [Session.push, Database.applyAll_append]
    rw [deleteRequests_applyAll hws]
    exact h db

theorem Memo.running (op : Op) : Memo mt i (fun c _ => c.running i = some op) where
  stable := (Frame.running fun running _ => running = some op).stable
  lock _ _ _ h _ := h
  push _ _ _ h _ := h

namespace Spec

section Worker

variable {request : DeletionRequestRecord} {rounds : Nat} {filter : SegmentDeleteFilter}

theorem processFlowDeleteRequest (hflow : filter.flowId = request.flowId)
    (hdel : request.deleteFlow = true) : Spec mt fc noDeletes i (InTx mt i clean fun c l =>
        c.running i = some (.processDeleteRequest request.id rounds) ∧ RequestIs request c l)
      (processFlowDeleteRequest mt request filter rounds)
      (fun _ => InTx mt i clean Always) Always := by
  have hcov : ¬ noDeletes → ¬ noDeletes ∧ ∀ c l,
      (c.running i = some (.processDeleteRequest request.id rounds) ∧ RequestIs request c l) →
        DeletesFlow i c l := fun hn =>
    ⟨hn, fun c l h => ⟨request.id, rounds, request, h.1, h.2 c.db, hdel⟩⟩
  refine bind (deleteMatchingSegments ((Memo.running _).and (RequestIs.memo request)) filter
    hcov (some request.id) false rounds) fun remaining => ?_
  have hF : Frame mt i fun c l =>
      (c.running i = some (.processDeleteRequest request.id rounds) ∧ RequestIs request c l) ∧
        c.Holds i (.flow filter.flowId) ∧
          (remaining = "()" → ¬ noDeletes → (c.view l).segmentsOf filter.flowId = []) :=
    ((Memo.running _).and (RequestIs.memo request)).frame.and
      (.rows _ fun rows => remaining = "()" → ¬ noDeletes → rows = [])
  have hdone : ∀ answer : Option String, TxOk mt fc noDeletes i clean Always (Pure.pure answer) :=
    fun _ => Triple.pure (InTx.stable .true).lift fun _ _ _ h => h
  split
  · exact pre (hdone _) fun c l _ h => ⟨h.1, trivial⟩
  · rename_i hrem
    refine bind (read' trivial (InTx.stable hF)) fun read => ?_
    split
    · exact pre (hdone _) fun c l _ h => ⟨h.1, trivial⟩
    · rename_i flow _
      refine bind (pre (removeFlow flow request.flowId) fun c l _ h => ⟨h.1, fun hn => ?_⟩)
        fun _ => hdone none
      exact .inl ⟨hflow ▸ h.2.2.1, hflow ▸ h.2.2.2 (not_not.mp hrem) hn⟩

theorem processSegmentDeleteRequest :
    TxOk mt fc noDeletes i clean Always (processSegmentDeleteRequest mt request filter rounds) := by
  have hdone : ∀ answer : Option String, TxOk mt fc noDeletes i clean Always (Pure.pure answer) :=
    fun _ => Triple.pure (InTx.stable .true).lift fun _ _ _ h => h
  refine bind (read' trivial (InTx.stable .true)) fun read => ?_
  split
  · exact hdone none
  · refine bind (deleteMatchingSegments .true filter (fun h : False => h.elim) _ false
      rounds) fun _ => ?_
    refine bind (pre (read' trivial (InTx.stable .true)) fun c l _ h => ⟨h.1, trivial⟩)
      fun now => ?_
    exact bind (saveFlow .true _ _) fun _ => hdone _

end Worker

theorem applyDeleteMetadata (requestId : QueueId) (rounds : Nat) : Spec mt fc noDeletes i
      (Idle i fun op _ => op = some (.processDeleteRequest requestId rounds))
      (applyDeleteMetadata mt requestId rounds) (fun _ => AtRest) AtRest := by
  refine post (pre (unitOfWork (R := fun _ => True)
    (Memo.running (.processDeleteRequest requestId rounds)).frame ?_) fun c l _ h => h)
    fun _ _ _ _ h => h.1
  set F : CoreAssertion := fun c _ => c.running i = some (.processDeleteRequest requestId rounds)
  have hF : Frame mt i F := (Memo.running _).frame
  have hT : Frame mt i Always := .true
  have hdone : ∀ answer : Option DeletionRequestRecord, ∀ G : CoreAssertion, Frame mt i G →
      TxOk mt fc noDeletes i clean G (Pure.pure answer) := fun _ G hG =>
    Triple.pure (InTx.stable hG).lift fun _ _ _ h => ⟨h.1, trivial⟩
  refine bind (Q := fun answer c l => (∀ request, answer = some request →
    request.id = requestId) ∧ InTx mt i clean F c l) ?_ fun answer => assume fun hid => ?_
  · refine read trivial (InTx.stable hF) (fun _ => ((Steady.inTx hF).and_const _).stable) ?_
    intro ch w l r w' l' _ hA he
    obtain ⟨rfl, -⟩ := Prod.mk.inj (Option.some.inj he)
    exact ⟨fun request h => (Lib.Table.get_eq_some.mp h).2, hA⟩
  split
  · exact hdone _ F hF
  · rename_i request
    obtain rfl := hid request rfl
    split
    · exact hdone _ F hF
    · refine bind (read' trivial (InTx.stable hF)) fun now => ?_
      set started : DeletionRequestRecord := { request with
        status := .started, error := none, updated := now } with hstarted
      have hG : Memo mt i fun c l => F c l ∧ RequestIs started c l :=
        (Memo.running _).and (RequestIs.memo started)
      refine bind (saveRequest hF hG.frame fun c l h => ⟨h, RequestIs.push started c l⟩)
        fun _ => ?_
      split
      · exact hdone _ _ hG.frame
      · rename_i timerange _
        refine bind (except (Steady.inTx hG.frame) _) fun filter => assume fun hfilter => ?_
        have hflow : filter.flowId = started.flowId := (segmentDeleteFilter_ok hfilter).1
        have hsave : ∀ remaining : Option String, Spec mt fc noDeletes i
            (InTx mt i clean Always)
            (do
              let now ← call .utcNow
              let request := { started with timerangeRemaining := remaining, updated := now }
              call (.write (.saveDeleteRequest request))
              Pure.pure (some request))
            (fun _ => InTx mt i clean Always) Always := by
          intro remaining
          refine bind (read' trivial (InTx.stable hT)) fun now => ?_
          exact bind (saveRequest hT hT fun _ _ _ => trivial) fun _ => hdone _ _ hT
        split
        · rename_i hdel
          exact bind (processFlowDeleteRequest hflow hdel) hsave
        · exact bind (pre processSegmentDeleteRequest fun c l _ h => ⟨h.1, trivial⟩) hsave

end Spec

end Tamoss
