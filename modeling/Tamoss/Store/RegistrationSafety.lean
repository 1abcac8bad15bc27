/-
  **Registration keeps the protocol.**
-/
import Tamoss.Store.ValidPosts
import Tamoss.Store.Statements

namespace Tamoss

open Lib.Machine

variable {mt : MediaTimestamp} {fc : FlowContract} {noDeletes : Prop} {i : SessionId}
variable {dirty : FlowId → ObjectId → Prop} {A F : CoreAssertion}
variable {E : PyError → Session → Prop}

namespace Spec

theorem getFlow (hA : Steady mt i A E) (f : FlowId) (toSave : Bool) :
    Spec mt fc noDeletes i A (call (.getFlow f toSave))
      (fun read c l => (∀ flow, read.flow = some flow → flow.id = f) ∧ A c l) E := by
  refine read trivial hA.stable (fun _ => (hA.and_const _).stable) ?_
  intro ch w l r w' l' _ hAw he
  obtain ⟨rfl, -⟩ := Prod.mk.inj (Option.some.inj he)
  exact ⟨fun flow h => (Lib.Table.get_eq_some.mp h).2, hAw⟩

theorem requireFlow (hA : Steady mt i A E) (f : FlowId) (toSave : Bool) :
    Spec mt fc noDeletes i A (requireFlow f toSave) (fun r c l => r.1.id = f ∧ A c l) E := by
  refine bind (getFlow hA f toSave) fun read => ?_
  split
  · exact throw (hA.and_const _) _
  · rename_i flow hflow
    exact Triple.pure (hA.and_const _).stable.lift fun w l _ h => ⟨h.1 flow hflow, h.2⟩

theorem ensureFlowWritable (hA : Steady mt i A E) (flow : FlowRecord) :
    Spec mt fc noDeletes i A (ensureFlowWritable flow) (fun _ => A) E := by
  unfold Tamoss.ensureFlowWritable
  split
  · exact throw hA _
  · exact pure hA _

end Spec

variable {s : SegmentRecord} {row : SegmentRow}

theorem segmentRow_ok {r : mt.TimeRange}
    {b : SegmentTimerangeBounds} (h : segmentRow mt s = .ok row)
    (hr : SegmentRange mt s.timerange r b) : row = ⟨s, b.start, b.stop⟩ := by
  unfold segmentRow at h
  rw [parseTimerange_of_finite hr.parsed] at h
  obtain ⟨r', hparsed, h⟩ := Lib.bind_eq_ok h
  obtain rfl := Except.ok.inj hparsed
  obtain ⟨b', hbounds, h⟩ := Lib.bind_eq_ok h
  obtain rfl := Except.ok.inj (hbounds.symm.trans hr.bounds)
  exact (Except.ok.inj h).symm

theorem segmentRow_record (h : segmentRow mt s = .ok row) : row.record = s := by
  unfold segmentRow at h
  obtain ⟨_, _, h⟩ := Lib.bind_eq_ok h
  obtain ⟨_, _, h⟩ := Lib.bind_eq_ok h
  obtain rfl := Except.ok.inj h
  rfl

theorem mapM_segmentRow_ok {segments : List SegmentRecord} {rows : List SegmentRow}
    (h : segments.mapM (segmentRow mt) = .ok rows) :
    rows.map (·.record) = segments ∧ ∀ row ∈ rows, segmentRow mt row.record = .ok row := by
  induction segments generalizing rows with
  | nil =>
    cases h
    simp
  | cons s segments ih =>
    rw [List.mapM_cons] at h
    obtain ⟨row, hrow, h⟩ := Lib.bind_eq_ok h
    obtain ⟨rest, hrest, h⟩ := Lib.bind_eq_ok h
    obtain rfl := Except.ok.inj h
    obtain ⟨hmap, hall⟩ := ih hrest
    have hrec := segmentRow_record hrow
    refine ⟨by simp [hrec, hmap], fun x hx => ?_⟩
    rcases List.mem_cons.mp hx with rfl | hx
    · rwa [hrec]
    · exact hall x hx

section Rows

variable {flow : FlowRecord} {locked : List ObjectId} {objects : ObjectsById}
variable {ws : WorkingSet mt} {rows : List SegmentRow}

theorem BatchOk.rowOk (h : BatchOk flow locked objects ws)
    (hrows : ws.accepted.mapM (segmentRow mt) = .ok rows) {row : SegmentRow} (hrow : row ∈ rows) :
    row.record ∈ ws.accepted ∧ row.record.flowId = flow.id ∧ RowOk mt row := by
  obtain ⟨hmap, hall⟩ := mapM_segmentRow_ok hrows
  have hmem : row.record ∈ ws.accepted := hmap ▸ List.mem_map_of_mem hrow
  obtain ⟨hflow, hinit, r, b, hr, -⟩ := h.row _ hmem
  have := segmentRow_ok (hall row hrow) hr
  exact ⟨hmem, hflow, ⟨⟨r, b, hr, by rw [this], by rw [this]⟩, hinit⟩⟩

theorem BatchOk.rows_apart (h : BatchOk flow locked objects ws)
    (hrows : ws.accepted.mapM (segmentRow mt) = .ok rows) : rows.Pairwise SegmentRow.Apart := by
  have hpair : rows.Pairwise fun a b => a.record.Apart mt b.record := by
    rw [← List.pairwise_map (f := SegmentRow.record), (mapM_segmentRow_ok hrows).1]
    exact h.apart
  refine hpair.imp_of_mem fun {a b} ha hb hab => ?_
  obtain ⟨r, s, hr, hstart, hstop⟩ := (h.rowOk hrows ha).2.2.range
  obtain ⟨r', s', hr', hstart', hstop'⟩ := (h.rowOk hrows hb).2.2.range
  have := hab r s r' s' hr hr'
  rw [SegmentRow.Apart, hstart, hstop, hstart', hstop']
  exact this

end Rows

def NoDeletion : CoreAssertion := fun _ l => ∀ w ∈ l.writes, ∀ f, w ≠ .deleteFlow f

theorem NoDeletion.frame : Frame mt i NoDeletion :=
  .writes fun w hw f he => by simp [he, Write.Side, Write.Neutral] at hw

variable {l : Session}

theorem NoDeletion.push {c : Core} {w : Write} (h : NoDeletion c l)
    (hw : ∀ f, w ≠ .deleteFlow f) : NoDeletion c (l.push [w]) := by
  intro x hx
  rcases List.mem_append.mp hx with hx | hx
  · exact h x hx
  · exact List.mem_singleton.mp hx ▸ hw

def dirtyIn (f : FlowId) (ids : List ObjectId) : FlowId → ObjectId → Prop :=
  fun g o => g = f ∧ o ∈ ids

variable (i) in
def ObjectsSaved (ids : List ObjectId) (objects : ObjectsById)
    (saved : List MediaObjectRecord) : CoreAssertion :=
  fun c l => ∀ o, o ∈ ids → c.Holds i (.object o) ∧
    ((∀ u ∈ saved, u.id = o → (c.view l).objects.get o = some u) ∧
      ((∀ u ∈ saved, u.id ≠ o) → (c.view l).objects.get o = objects.get o))

theorem ObjectsSaved.frame (ids : List ObjectId) (objects : ObjectsById)
    (saved : List MediaObjectRecord) : Frame mt i (ObjectsSaved i ids objects saved) :=
  .forall_of fun o => .imp fun _ => .object o fun x =>
    (∀ u ∈ saved, u.id = o → x = some u) ∧ ((∀ u ∈ saved, u.id ≠ o) → x = objects.get o)

theorem ObjectsSaved.push {ids : List ObjectId} {objects : ObjectsById}
    {saved : List MediaObjectRecord} {c : Core} {u : MediaObjectRecord}
    (h : ObjectsSaved i ids objects saved c l) (hnew : ∀ v ∈ saved, v.id ≠ u.id) :
    ObjectsSaved i ids objects (saved ++ [u]) c (l.push [.saveObject u]) := by
  intro o ho
  have hget : (c.view (l.push [.saveObject u])).objects.get o =
      if u.id = o then some u else (c.view l).objects.get o := by
    rw [Core.view_push]
    exact Lib.Table.get_upsert _ u o
  refine ⟨(h o ho).1, fun v hv hid => ?_, fun hne => ?_⟩
  · rw [hget]
    rcases List.mem_append.mp hv with hv | hv
    · rw [if_neg fun he => hnew v hv (hid.trans he.symm)]
      exact (h o ho).2.1 v hv hid
    · obtain rfl := List.mem_singleton.mp hv
      rw [if_pos hid]
  · rw [hget, if_neg (hne u (by simp))]
    exact (h o ho).2.2 fun v hv => hne v (by simp [hv])

section Saving

variable {flow : FlowRecord} {locked : List ObjectId} {objects : ObjectsById}
variable {ws : WorkingSet mt} {stored : List SegmentRow}

variable {u : MediaObjectRecord}

theorem BatchOk.updated_locked (h : BatchOk flow locked objects ws)
    (hu : u ∈ ws.updated.rows) : u.id ∈ locked := by
  obtain ⟨⟨s, hs, hn⟩, -⟩ := h.updated u hu
  exact (h.named s hs u.id hn).1

theorem BatchOk.push_saveObject (h : BatchOk flow locked objects ws) {c : Core} {l : Session}
    {saved : List MediaObjectRecord} (hu : u ∈ ws.updated.rows)
    (hnew : ∀ v ∈ saved, v.id ≠ u.id) (hflow : c.Holds i (.flow flow.id))
    (htx : TxInv mt i (dirtyIn flow.id (saved.map (·.id))) c l)
    (hsaved : ObjectsSaved i locked objects saved c l) :
    TxInv mt i (dirtyIn flow.id ((saved ++ [u]).map (·.id))) c (l.push [.saveObject u]) := by
  obtain ⟨-, hok, hrefs⟩ := h.updated u hu
  obtain ⟨hheld, -, hget⟩ := hsaved u.id (h.updated_locked hu)
  replace hget := hget hnew
  have hw : Write.onObject u.id ((c.view l).objects.get u.id) (.saveObject u) = some u := by
    simp [Write.onObject]
  refine htx.push_object hw (by simp [Write.TouchesFlow])
    (fun o ho => ho.symm) hheld (fun obj hobj => ?_) (fun g hg => ?_) (fun g hg hn => ?_)
    (fun g hg hd hm => ?_) (fun g o _ hd => ?_)
  · exact Option.some.inj hobj ▸ hok
  · rw [refsOf_some, hrefs, hget]
    exact or_iff_left fun he => hg (he ▸ hflow)
  · rw [refsOf_some, hrefs, ← hget]
    exact .inl (htx.listed g u.id hg hheld hn)
  · -- another locked flow is listed because it names the object
    have hne : g ≠ flow.id := fun he => hd ⟨he, by simp⟩
    rw [refsOf_some, hrefs, ← hget] at hm
    exact htx.listedOnly g u.id hg hheld (fun hd' => hne hd'.1) (hm.resolve_right hne)
  · exact ⟨hd.1, by simp only [List.map_append, List.mem_append]; exact .inl hd.2⟩

namespace Spec

theorem saveObjects (h : BatchOk flow locked objects ws) : Spec mt fc noDeletes i
      (InTx mt i clean fun c l => RowsAre i flow.id stored c l ∧
        ObjectsAre i locked objects c l ∧ NoDeletion c l)
      (ws.updated.rows.forM fun o => call (.write (.saveObject o)))
      (fun _ => InTx mt i (dirtyIn flow.id (ws.updated.rows.map (·.id))) fun c l =>
        RowsAre i flow.id stored c l ∧
          ObjectsSaved i locked objects ws.updated.rows c l ∧ NoDeletion c l) E := by
  let I (saved : List MediaObjectRecord) : CoreAssertion :=
    InTx mt i (dirtyIn flow.id (saved.map (·.id))) fun c l => RowsAre i flow.id stored c l ∧
      ObjectsSaved i locked objects saved c l ∧ NoDeletion c l
  have hI : ∀ saved, (I saved).Stable mt i := fun saved => InTx.stable
    ((RowsAre.frame _ _).and ((ObjectsSaved.frame _ _ _).and NoDeletion.frame))
  refine pre (B := I []) (forM I hI fun saved u rest hxs => ?_) fun c l _ hA => ?_
  · have hu : u ∈ ws.updated.rows := by rw [hxs]; simp
    have hnew : ∀ v ∈ saved, v.id ≠ u.id := by
      have hnodup := ws.updated.nodup
      rw [hxs, List.map_append, List.nodup_append] at hnodup
      exact fun v hv => hnodup.2.2 v.id (List.mem_map_of_mem hv) u.id (by simp)
    refine write (hI saved) (hI _) (fun c l hA => hA.1.inTransaction) fun c l _ hA _ => ?_
    obtain ⟨htx, hrows, hsaved, hnodel⟩ := hA
    refine ⟨h.push_saveObject hu hnew hrows.1 htx hsaved, ⟨hrows.1, ?_⟩, hsaved.push hnew,
      hnodel.push (by simp)⟩
    rw [Core.view_push]
    exact hrows.2
  · refine ⟨hA.1.tidy fun g o _ hd => hd.elim, hA.2.1, fun o ho => ?_, hA.2.2.2⟩
    exact ⟨(hA.2.2.1 o ho).1, by simp, fun _ => (hA.2.2.1 o ho).2⟩

theorem saveSegments (h : BatchOk flow locked objects ws) {rows : List SegmentRow}
    (hrows : ws.accepted.mapM (segmentRow mt) = .ok rows)
    (hstored : ∀ row ∈ rows, ∀ x ∈ stored, row.Apart x) : Spec mt fc noDeletes i
      (InTx mt i (dirtyIn flow.id (ws.updated.rows.map (·.id))) fun c l =>
        RowsAre i flow.id stored c l ∧
          ObjectsSaved i locked objects ws.updated.rows c l ∧ NoDeletion c l)
      (rows.forM fun row => call (.write (.saveSegment row)))
      (fun _ => InTx mt i clean Always) E := by
  set dirty := dirtyIn flow.id (ws.updated.rows.map (·.id)) with hdirty
  let I (done : List SegmentRow) : CoreAssertion :=
    InTx mt i dirty fun c l => RowsAre i flow.id (stored ++ done) c l ∧
      ObjectsSaved i locked objects ws.updated.rows c l ∧ NoDeletion c l
  have hI : ∀ done, (I done).Stable mt i := fun done => InTx.stable
    ((RowsAre.frame _ _).and ((ObjectsSaved.frame _ _ _).and NoDeletion.frame))
  -- what an accepted segment names has been saved with the flow in its list
  have hsaved : ∀ c l, ObjectsSaved i locked objects ws.updated.rows c l →
      ∀ s ∈ ws.accepted, ∀ o, s.Names o →
        c.Holds i (.object o) ∧ flow.id ∈ refsOf ((c.view l).objects.get o) := by
    intro c l hs s hsmem o ho
    obtain ⟨hlocked, hsome⟩ := h.named s hsmem o ho
    obtain ⟨u, hu⟩ := Option.isSome_iff_exists.mp hsome
    obtain ⟨humem, rfl⟩ := Lib.Table.get_eq_some.mp hu
    obtain ⟨hheld, hget, -⟩ := hs u.id hlocked
    rw [hget u humem rfl]
    exact ⟨hheld, ((h.updated u humem).2.2 flow.id).mpr (.inr rfl)⟩
  have hloop : Spec mt fc noDeletes i (I [])
      (rows.forM fun row => call (.write (.saveSegment row))) (fun _ => I rows) E := by
    refine forM I hI fun done row rest hxs => ?_
    have hrow : row ∈ rows := by rw [hxs]; simp
    obtain ⟨hacc, hflow, hok⟩ := h.rowOk hrows hrow
    refine write (hI done) (hI _) (fun c l hA => hA.1.inTransaction) fun c l _ hA _ => ?_
    obtain ⟨htx, ⟨hheld, hview⟩, hs, hnodel⟩ := hA
    rw [← hflow] at hheld hview
    have hapart : ∀ x ∈ (c.view l).segmentsOf row.record.flowId, row.Apart x := by
      intro x hx
      rw [hview] at hx
      rcases List.mem_append.mp hx with hx | hx
      · exact hstored row hrow x hx
      · have hpair := h.rows_apart hrows
        rw [hxs, List.pairwise_append] at hpair
        exact (hpair.2.2 x hx row (by simp)).symm
    refine ⟨htx.push_saveSegment hheld hok hapart (fun o ho => ?_) (fun hm => ?_),
      ⟨hflow ▸ hheld, ?_⟩, fun o ho => ?_, hnodel.push (by simp)⟩
    · rw [hflow]
      exact hsaved c l hs _ hacc o ho
    · exact hnodel _ hm _ rfl
    · rw [← hflow, htx.view_saveSegment hheld hok hapart, hview, List.append_assoc]
    · rw [Core.view_push]
      exact hs o ho
  refine post (pre hloop fun c l _ hA => ⟨hA.1, ?_, hA.2.2⟩) fun _ c l _ hA => ⟨?_, trivial⟩
  · rw [List.append_nil]
    exact hA.2.1
  · -- every saved object is named by an accepted segment, whose row is now stored
    refine hA.1.tidy fun g o _ hd => .inr ?_
    obtain ⟨rfl, ho⟩ := hd
    obtain ⟨u, hu, rfl⟩ := List.mem_map.mp ho
    obtain ⟨⟨s, hs, hn⟩, -⟩ := h.updated u hu
    refine ⟨(hsaved c l hA.2.2.1 s hs u.id hn).1, fun _ => ?_⟩
    rw [hA.2.1.2]
    rw [← (mapM_segmentRow_ok hrows).1] at hs
    obtain ⟨row, hrow, rfl⟩ := List.mem_map.mp hs
    exact ⟨row, List.mem_append_right _ hrow, hn⟩

theorem saveRegisteredSegments (h : BatchOk flow locked objects ws) {flow' : FlowRecord}
    (hid : flow'.id = flow.id) (version : Nat) : Spec mt fc noDeletes i
      (InTx mt i clean fun c l => RowsAre i flow.id stored c l ∧
        ObjectsAre i locked objects c l ∧ NoDeletion c l)
      (saveRegisteredSegments mt flow' version ws.updated.rows ws.accepted)
      (fun _ => InTx mt i clean Always) Always := by
  have hF : Frame mt i fun c l => RowsAre i flow.id stored c l ∧
      ObjectsAre i locked objects c l ∧ NoDeletion c l :=
    (RowsAre.frame _ _).and ((ObjectsAre.frame _ _).and NoDeletion.frame)
  have hG : Frame mt i fun c l => RowsAre i flow.id stored c l ∧
      ObjectsSaved i locked objects ws.updated.rows c l ∧ NoDeletion c l :=
    (RowsAre.frame _ _).and ((ObjectsSaved.frame _ _ _).and NoDeletion.frame)
  refine bind (lockFlow hF flow'.id) fun _ => ?_
  refine bind (saveFlow (hF.and (.holds _)) flow' version) fun _ => ?_
  refine bind (pre (saveObjects h) fun c l _ hA => ⟨hA.1, hA.2.1⟩) fun _ => ?_
  refine bind (except (Steady.inTx hG) _) fun rows => assume fun hrows => ?_
  rw [hid]
  refine bind (segmentsOverlap ((ObjectsSaved.frame locked objects ws.updated.rows).and
    NoDeletion.frame) rows) fun overlap => ?_
  refine throwIf (Steady.inTx ((Frame.const _).and hG)) fun hno => ?_
  exact fun w l hi hA => saveSegments h hrows (hA.2.1 (by simpa using hno)) w l hi
    ⟨hA.1, hA.2.2⟩

end Spec

end Saving

theorem requestedObjectIds_yields (flow : FlowRecord) (posts : List SegmentPost) :
    Lib.Yields (fun requested => ∀ post ∈ posts, post.objectId ∈ requested)
      (requestedObjectIds flow posts) := by
  have hmem : ∀ more : List ObjectId, ∀ post ∈ posts, post.objectId ∈
      posts.map (·.objectId) ++ posts.filterMap (·.initObjectId) ++ more := fun more post hp =>
    List.mem_append_left _ (List.mem_append_left _ (List.mem_map_of_mem hp))
  unfold requestedObjectIds
  dsimp only
  split
  · exact Lib.yields_bind fun objects => Lib.yields_pure (hmem _)
  · exact Lib.yields_pure (by simpa using hmem [])

namespace Spec

theorem requestedObjectIds (hA : Steady mt i A E) (flow : FlowRecord) (posts : List SegmentPost) :
    Spec mt fc noDeletes i A (requestedObjectIds flow posts)
      (fun requested c l => (∀ post ∈ posts, post.objectId ∈ requested) ∧ A c l) E := by
  refine Triple.yields (requestedObjectIds_yields flow posts) ?_
  unfold Tamoss.requestedObjectIds
  dsimp only
  split
  · exact bind (read' trivial hA.stable) fun objects => pure hA _
  · exact pure hA _

theorem registerCandidates (L : mt.Lawful) (flow : FlowRecord) (version : Nat)
    (checks : UploadChecks) (readings : Nat → Readings)
    (validated : List (Option SegmentPost)) (known : List mt.TimeRange)
    (hvalid : ∀ post, some post ∈ validated → IsSegmentRange mt post.timerange) :
    Spec mt fc noDeletes i (InTx mt i clean fun c l => c.Holds i (.flow flow.id) ∧ NoDeletion c l)
      (registerCandidates mt flow version checks readings validated known)
      (fun _ => InTx mt i clean Always) Always := by
  -- the rows stored for the flow will not change any more
  refine pre (B := fun c l => ∃ stored, InTx mt i clean (fun c l =>
    RowsAre i flow.id stored c l ∧ NoDeletion c l) c l) (exists_pre fun stored => ?_)
    fun c l _ hA => ⟨_, hA.1, ⟨hA.2.1, rfl⟩, hA.2.2⟩
  have hF : Frame mt i fun c l => RowsAre i flow.id stored c l ∧ NoDeletion c l :=
    (RowsAre.frame _ _).and NoDeletion.frame
  refine bind (requestedObjectIds (Steady.inTx hF) _ _) fun requested =>
    assume fun hrequested => ?_
  refine bind (lockObjects hF requested) fun _ => ?_
  refine bind (getObjects hF requested) fun objects => ?_
  refine pre (B := fun c l => (∀ o obj, objects.get o = some obj → ObjectOk mt obj) ∧
    InTx mt i clean (fun c l => RowsAre i flow.id stored c l ∧
      ObjectsAre i requested objects c l ∧ NoDeletion c l) c l)
    (assume fun hobjects => ?_) fun c l _ hA => ⟨fun o obj hget => ?_, hA.1, hA.2.2.1.1,
      hA.2.2.2, hA.2.2.1.2⟩
  · have hG : Frame mt i fun c l => RowsAre i flow.id stored c l ∧
        ObjectsAre i requested objects c l ∧ NoDeletion c l :=
      (RowsAre.frame _ _).and ((ObjectsAre.frame _ _).and NoDeletion.frame)
    refine bind (except (Steady.inTx hG) _) fun ⟨ws, results⟩ => assume fun hrun => ?_
    have hbatch : BatchOk flow requested objects ws := by
      refine registerPosts_ok L hobjects (fun post hpost => ⟨hrequested post ?_, hvalid post hpost⟩)
        (BatchOk.start flow requested known) hrun
      exact List.mem_filterMap.mpr ⟨some post, hpost, rfl⟩
    dsimp only
    split
    · refine bind (read' trivial (InTx.stable hG)) fun now => ?_
      refine bind (saveRegisteredSegments hbatch (by rfl) version) fun _ => ?_
      exact Triple.pure (InTx.stable .true).lift fun _ _ _ h => h
    · exact Triple.pure (InTx.stable hG).lift fun _ _ _ h => ⟨h.1, trivial⟩
  · have hid : o ∈ requested := by
      obtain ⟨hmem, rfl⟩ := Lib.Table.get_eq_some.mp hget
      exact hA.2.1 obj hmem
    obtain ⟨hheld, hview⟩ := hA.2.2.2 o hid
    exact hA.1.object o obj hheld (hview.trans hget)

theorem registerSegmentsLocked (L : mt.Lawful) (f : FlowId) (posts : List SegmentPostInput)
    (checks : UploadChecks) (readings : Nat → Readings) : Spec mt fc noDeletes i
      (InTx mt i clean fun c l => NoDeletion c l ∧ c.Holds i (.flow f))
      (registerSegmentsLocked mt f posts checks readings)
      (fun _ => InTx mt i clean Always) Always := by
  have hS : Steady mt i (InTx mt i clean fun c l => NoDeletion c l ∧ c.Holds i (.flow f))
      Always := Steady.inTx (NoDeletion.frame.and (.holds (.flow f)))
  have hdone : ∀ results : List SegmentWriteResult, Spec mt fc noDeletes i
      (InTx mt i clean fun c l => NoDeletion c l ∧ c.Holds i (.flow f)) (Pure.pure results)
      (fun _ => InTx mt i clean Always) Always := fun results =>
    Triple.pure hS.stable.lift fun _ _ _ h => ⟨h.1, trivial⟩
  refine bind (requireFlow hS f true) fun ⟨flow, version⟩ => assume fun hid => ?_
  obtain rfl : flow.id = f := hid
  refine bind (ensureFlowWritable hS flow) fun _ => ?_
  split
  · exact hdone _
  · refine bind (read' trivial hS.stable) fun backends => ?_
    dsimp only
    split
    · exact hdone _
    · refine bind (read' trivial hS.stable) fun stored => ?_
      refine bind (except hS _) fun known => assume fun _ => ?_
      refine pre (registerCandidates L flow version checks readings _ known
        fun post hpost => validatePosts_range hpost) fun c l _ hA => ⟨hA.1, hA.2.2, hA.2.1⟩

theorem registerSegments (L : mt.Lawful) (f : FlowId) (posts : List SegmentPostInput)
    (rd : Readings) (readings : Nat → Readings) :
    Spec mt fc noDeletes i (Idle i Always) (registerSegments mt f posts rd readings)
      (fun _ => AtRest) AtRest := by
  refine bind (calmIdle (verifyControlledUploads_calm posts rd)) fun checks => ?_
  have hst : CoreAssertion.Stable mt i (fun _ l => l = Session.idle) := .local _
  refine tryCatch (E := fun _ l => l = .idle) (fun _ => hst) ?_ fun e => ?_
  · refine post (pre (unitOfWork (R := fun _ => True) NoDeletion.frame ?_)
      fun c l _ hA => ⟨hA.1, by simp [NoDeletion]⟩) fun _ _ _ _ h => h.1
    exact bind (lockFlow NoDeletion.frame f) fun _ =>
      registerSegmentsLocked L f posts checks readings
  · split
    · exact Triple.pure hst.lift fun _ _ _ h => h
    · exact Triple.throw fun _ _ h => h

end Spec

end Tamoss
