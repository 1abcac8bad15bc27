/-
  **A batch of posts is its posts one by one.**
-/
import Tamoss.Store.Alone
import Tamoss.Store.Retiming
import Tamoss.Store.WellFormed

namespace Tamoss

open Lib (Runs Returns)

variable {mt : MediaTimestamp} {db : Database}

variable {r : mt.TimeRange}

theorem SegmentRange.lt {value : String} {b : SegmentTimerangeBounds}
    (h : SegmentRange mt value r b) : b.start < b.stop :=
  (finiteNormalizedTimerangeBounds_ok h.bounds).choose_spec.choose_spec.2.2.2.2

theorem SegmentRange.meets_iff (L : mt.Lawful) {value value' : String} {r r' : mt.TimeRange}
    {b b' : SegmentTimerangeBounds} (h : SegmentRange mt value r b)
    (h' : SegmentRange mt value' r' b') :
    (!mt.isEmpty (mt.intersectWith r r')) = true ↔ b'.start < b.stop ∧ b.start < b'.stop := by
  rw [Bool.not_eq_true', ← Bool.not_eq_true,
    isEmpty_intersectWith_iff L h.bounds h.includesStart h'.bounds h'.includesStart]
  omega

theorem SegmentRow.overlaps_iff {row : SegmentRow} {start stop : Int} :
    row.overlaps start stop = true ↔ row.timerangeStart < stop ∧ start < row.timerangeEnd := by
  simp [SegmentRow.overlaps]

theorem Database.WellFormed.knownRanges (L : mt.Lawful) (h : db.WellFormed mt) (f : FlowId)
    (candidates : List SegmentTimerangeBounds) :
    ∃ known, db.knownRanges mt f candidates = .ok known ∧
      ∀ value r b, SegmentRange mt value r b → b ∈ candidates →
        (meetsKnown mt known r = true ↔
          ∃ row ∈ db.segmentsOf f, row.overlaps b.start b.stop = true) := by
  have hrows : ∀ rows : List SegmentRow, (∀ row ∈ rows, RowOk mt row) →
      ∃ known, (rows.map (·.record)).mapM (fun segment =>
          parseTimerange mt "timerange" true segment.timerange) = .ok known ∧
        ∀ value r b, SegmentRange mt value r b → (meetsKnown mt known r = true ↔
          ∃ row ∈ rows, row.overlaps b.start b.stop = true) := by
    intro rows
    induction rows with
    | nil => exact fun _ => ⟨[], rfl, by simp [meetsKnown]⟩
    | cons row rows ih =>
      intro hok
      obtain ⟨known, hknown, hmeets⟩ := ih fun x hx => hok x (List.mem_cons_of_mem _ hx)
      obtain ⟨r', b', hr', hstart, hstop⟩ := (hok row List.mem_cons_self).range
      refine ⟨r' :: known, ?_, fun value r b hr => ?_⟩
      · rw [List.map_cons, List.mapM_cons, hr'.parsed, Lib.ok_bind, hknown]
        rfl
      · have hhead := hr.meets_iff L hr'
        rw [← hstart, ← hstop, ← SegmentRow.overlaps_iff] at hhead
        simp only [meetsKnown, List.any_cons, Bool.or_eq_true, List.exists_mem_cons_iff]
        rw [hhead]
        exact or_congr_right (hmeets value r b hr)
  obtain ⟨known, hknown, hmeets⟩ := hrows (db.listSegmentsOverlapping f candidates)
    fun row hrow => h.row row (by
      simp only [Database.listSegmentsOverlapping, mem_orderRows, List.mem_filter,
        Database.mem_segmentsOf] at hrow
      exact hrow.1.1)
  refine ⟨known, hknown, fun value r b hr hb => ?_⟩
  rw [hmeets value r b hr]
  -- a row that meets the candidate is among those that were selected
  have hend : queryEnd b = b.stop := by
    have := hr.lt
    simp [queryEnd]
    omega
  constructor
  · rintro ⟨row, hrow, hover⟩
    simp only [Database.listSegmentsOverlapping, mem_orderRows, List.mem_filter] at hrow
    exact ⟨row, hrow.1, hover⟩
  · rintro ⟨row, hrow, hover⟩
    refine ⟨row, ?_, hover⟩
    simp only [Database.listSegmentsOverlapping, mem_orderRows, List.mem_filter, List.any_eq_true]
    exact ⟨hrow, b, hb, by rw [hend]; exact hover⟩

theorem not_overlaps_of_apart {known : List mt.TimeRange}
    {b : SegmentTimerangeBounds} {rows : List SegmentRow} (hknown : meetsKnown mt known r = true ↔
      ∃ row ∈ rows, row.overlaps b.start b.stop = true)
    (hapart : ∀ r' ∈ known, mt.isEmpty (mt.intersectWith r r') = true) :
    ∀ row ∈ rows, row.overlaps b.start b.stop = false := by
  intro row hrow
  by_contra hover
  obtain ⟨r', hr', hmeet⟩ := List.any_eq_true.mp
    (hknown.mpr ⟨row, hrow, by simpa using hover⟩)
  rw [hapart r' hr'] at hmeet
  cases hmeet

theorem applyAll_registrationWrites (db : Database) (flow : FlowRecord) (version : Nat)
    (objects : List MediaObjectRecord) (rows : List SegmentRow) :
    db.applyAll (registrationWrites flow version objects rows) = { db with
        flows := db.flows.upsert flow
        objects := objects.foldl Lib.Table.upsert db.objects
        segments := rows.foldl Lib.Table.upsert db.segments } := by
  have hobjects : ∀ (os : List MediaObjectRecord) (db : Database),
      db.applyAll (os.map .saveObject) =
        { db with objects := os.foldl Lib.Table.upsert db.objects } := by
    intro os
    induction os with
    | nil => exact fun db => rfl
    | cons o os ih => exact fun db => ih (Write.apply db (.saveObject o))
  have hrows : ∀ (rs : List SegmentRow) (db : Database),
      db.applyAll (rs.map .saveSegment) =
        { db with segments := rs.foldl Lib.Table.upsert db.segments } := by
    intro rs
    induction rs with
    | nil => exact fun db => rfl
    | cons r rs ih => exact fun db => ih (Write.apply db (.saveSegment r))
  rw [registrationWrites, Database.applyAll_cons, Database.applyAll_append, hobjects, hrows]
  rfl

/-- **What a registration adds to the tables.** -/
structure Added (db : Database) (flow : FlowRecord) (updated : ObjectsById)
    (rows : List SegmentRow) (db' : Database) : Prop where
  flow : ∃ t, db'.flows.get flow.id = some { flow with segmentsUpdated := t }
  backends : db'.storageBackends = db.storageBackends
  segments : db'.segments.rows = db.segments.rows ++ rows
  objects : ∀ o, db'.objects.get o = (updated.get o).or (db.objects.get o)

section Added

variable {flow : FlowRecord} {locked : List ObjectId} {objects : ObjectsById}
variable {ws : WorkingSet mt} {rows : List SegmentRow}

theorem SegmentRow.apart_of_not_overlaps {a b : SegmentRow}
    (h : a.overlaps b.timerangeStart b.timerangeEnd = false) : a.Apart b := by
  have h' := mt SegmentRow.overlaps_iff.mpr (by rw [h]; exact Bool.false_ne_true)
  rw [SegmentRow.Apart]
  omega

theorem BatchOk.added (h : BatchOk flow locked objects ws) (hwf : db.WellFormed mt)
    (hflow : db.flows.get flow.id = some flow) (hrows : ws.accepted.mapM (segmentRow mt) = .ok rows)
    (hfree : ∀ row ∈ db.segmentsOf flow.id, ∀ new ∈ rows,
      row.overlaps new.timerangeStart new.timerangeEnd = false) (now : Time) :
    Added db flow ws.updated rows
      (db.saveRegistered { flow with segmentsUpdated := some now } 0 ws.updated.rows rows) := by
  unfold Database.saveRegistered
  split
  · rename_i hempty
    obtain rfl := List.isEmpty_iff.mp hempty
    -- nothing accepted, nothing updated
    have hnone : ∀ o, ws.updated.get o = none := by
      have haccepted : ws.accepted = [] := by
        rw [← (mapM_segmentRow_ok hrows).1]
        rfl
      refine fun o => Lib.Table.get_eq_none.mpr fun u hu => ?_
      obtain ⟨⟨s, hs, -⟩, -⟩ := h.updated u hu
      rw [haccepted] at hs
      cases hs
    exact ⟨⟨flow.segmentsUpdated, hflow⟩, rfl, by simp, fun o => by simp [hnone]⟩
  · rw [applyAll_registrationWrites]
    refine ⟨⟨some now, ?_⟩, rfl, ?_, fun o => Lib.Table.get_foldl_upsert_rows _ _ o⟩
    · exact Lib.Table.get_upsert_self db.flows { flow with segmentsUpdated := some now }
    · refine Lib.Table.rows_foldl_upsert (fun row hrow new hnew => ?_) ?_
      · obtain ⟨-, hid, hok⟩ := h.rowOk hrows hnew
        by_cases hsame : row.record.flowId = flow.id
        · have hmem : row ∈ db.segmentsOf flow.id := Database.mem_segmentsOf.mpr ⟨hrow, hsame⟩
          exact (hwf.row row hrow).key_ne hok
            (SegmentRow.apart_of_not_overlaps (hfree row hmem new hnew))
        · exact fun hkey => hsame ((congrArg Prod.fst hkey).trans hid)
      · exact (h.rows_apart hrows).imp_of_mem fun {a b} ha hb hab =>
          (h.rowOk hrows ha).2.2.key_ne (h.rowOk hrows hb).2.2 hab

theorem BatchOk.added_wellFormed {db' : Database} (h : BatchOk flow locked objects ws)
    (hwf : db.WellFormed mt) (hrows : ws.accepted.mapM (segmentRow mt) = .ok rows)
    (hadded : Added db flow ws.updated rows db') : db'.WellFormed mt where
  row row hrow := by
    rw [hadded.segments] at hrow
    rcases List.mem_append.mp hrow with hrow | hrow
    · exact hwf.row row hrow
    · exact (h.rowOk hrows hrow).2.2
  object o obj hobj := by
    rw [hadded.objects] at hobj
    cases hu : ws.updated.get o with
    | none =>
      rw [hu] at hobj
      exact hwf.object o obj hobj
    | some u =>
      rw [hu] at hobj
      obtain rfl := Option.some.inj hobj
      exact (h.updated u (Lib.Table.get_eq_some.mp hu).1).2.1

end Added

def LiveChecks (stored : ObjectId → StorageBackend → Option Nat) (db : Database)
    (checks : UploadChecks) : Prop :=
  ∀ o m, db.objects.get o = some m → Checked stored checks m

theorem liveChecks_uploadChecks (stored : ObjectId → StorageBackend → Option Nat) (db : Database)
    (posts : List SegmentPostInput) (t : Time) :
    LiveChecks stored db (db.uploadChecks posts ⟨t, stored⟩) := by
  intro o m hm hrefs now
  unfold ensureControlledObjectUploaded
  cases hfind : (db.uploadChecks posts ⟨t, stored⟩).find? fun entry =>
      entry.1 = (m.id, m.created) with
  | none => rfl
  | some entry =>
    obtain ⟨key, answer⟩ := entry
    have hkey : key = (m.id, m.created) := by simpa using List.find?_some hfind
    have hentry := List.mem_of_find?_eq_some hfind
    simp only [Database.uploadChecks, List.mem_filterMap, Lib.Table.mem_filter] at hentry
    obtain ⟨m', ⟨hm', -⟩, hentry⟩ := hentry
    split at hentry
    · obtain ⟨backend, hbackend, hentry⟩ := Option.map_eq_some_iff.mp hentry
      obtain ⟨rfl, rfl⟩ := Prod.mk.inj hentry
      -- the entry is about this very object
      obtain rfl : m' = m := db.objects.eq_of_key_eq hm' (Lib.Table.get_eq_some.mp hm).1
        (congrArg Prod.fst hkey)
      simp only [hbackend, List.find?_nil]
      cases stored m'.id backend <;> rfl
    · cases hentry

theorem SameLookup.or {a a' b b' : Option MediaObjectRecord} (ha : SameLookup a a')
    (hb : SameLookup b b') : SameLookup (a.or b) (a'.or b') := by
  rcases ha.cases with ⟨rfl, rfl⟩ | ⟨m, t, rfl, rfl⟩
  · exact hb
  · exact sameObject_created m t |> congrArg some

theorem sameLookup_find {xs ys : List MediaObjectRecord} (h : List.Forall₂ SameObject xs ys)
    (o : ObjectId) : SameLookup (xs.find? fun u => u.id = o) (ys.find? fun u => u.id = o) := by
  induction h with
  | nil => rfl
  | cons hxy _ ih =>
    obtain ⟨t, rfl⟩ := hxy.exists_eq
    rename_i x y xs ys
    simp only [List.find?_cons]
    cases decide (x.id = o) with
    | true => exact congrArg some (sameObject_created x t)
    | false => exact ih

theorem SegmentRow.place_eq {a b : SegmentRow} (h : a.untimed = b.untimed) :
    a.record.flowId = b.record.flowId ∧ ∀ start stop, a.overlaps start stop =
      b.overlaps start stop := by
  have hplace := congrArg (fun row : SegmentRow =>
    (row.record.flowId, row.timerangeStart, row.timerangeEnd)) h
  simp only [SegmentRow.untimed, SegmentRecord.untimed, Prod.mk.injEq] at hplace
  exact ⟨hplace.1, fun start stop => by simp only [SegmentRow.overlaps, hplace.2]⟩

theorem SegmentRange.segmentRow {s : SegmentRecord} {r : mt.TimeRange}
    {b : SegmentTimerangeBounds} (h : SegmentRange mt s.timerange r b) :
    segmentRow mt s = .ok ⟨s, b.start, b.stop⟩ := by
  unfold Tamoss.segmentRow
  rw [parseTimerange_of_finite h.parsed, Lib.ok_bind, h.bounds]
  rfl

section One

variable {flow : FlowRecord} {post : SegmentPost} {b : SegmentTimerangeBounds}
variable {checks : UploadChecks} {readings : Nat → Readings} {known : List mt.TimeRange}
variable {locked : List ObjectId}

theorem registers_none (hwf : db.WellFormed mt) (L : mt.Lawful) (flow : FlowRecord)
    (checks : UploadChecks) (readings : Nat → Readings) : ∃ ws : WorkingSet mt,
      Registers mt db flow [none] checks readings ws [.error invalidSegmentJson] [] := by
  obtain ⟨known, hknown, -⟩ := hwf.knownRanges L flow.id []
  exact ⟨_, ⟨known, _, hknown, rfl, rfl⟩, rfl, by simp⟩

theorem registers_rejected {detail : String}
    (hknown : db.knownRanges mt flow.id [b] = .ok known)
    (hlocked : db.requestedObjectIds flow [post] = locked)
    (hprep : prepareSegmentRegistrationOrRaise mt flow locked checks (readings 0) known
      (db.objects.filter (·.id ∈ locked)) post = .error (.badRequest detail)) :
    Registers mt db flow [some (post, b)] checks readings
      ⟨known, db.objects.filter (·.id ∈ locked), .empty, []⟩ [.error detail] [] where
  loop := ⟨known, locked, hknown, hlocked, by simp [registerPosts, registerPost, hprep]⟩
  saved := rfl
  free := by simp

theorem registers_accepted {p : Prepared mt}
    (hknown : db.knownRanges mt flow.id [b] = .ok known)
    (hlocked : db.requestedObjectIds flow [post] = locked)
    (hprep : prepareSegmentRegistrationOrRaise mt flow locked checks (readings 0) known
      (db.objects.filter (·.id ∈ locked)) post = .ok p)
    {r : mt.TimeRange} (hsegment : SegmentRange mt p.segment.timerange r b)
    (hfree : ∀ row ∈ db.segmentsOf flow.id, row.overlaps b.start b.stop = false) :
    Registers mt db flow [some (post, b)] checks readings
      (WorkingSet.accept ⟨known, db.objects.filter (·.id ∈ locked), .empty, []⟩ p)
      [.segment p.segment] [⟨p.segment, b.start, b.stop⟩] where
  loop := ⟨known, locked, hknown, hlocked, by simp [registerPosts, registerPost, hprep]⟩
  saved := by
    show [p.segment].mapM (segmentRow mt) = _
    rw [List.mapM_cons, hsegment.segmentRow]
    rfl
  free row hrow new hnew := by
    obtain rfl := List.mem_singleton.mp hnew
    exact hfree row hrow

end One

/-- The working set after some posts of a batch on `db`, and the tables `db'` after the
    same posts one by one. -/
structure Sim (db : Database) (flow : FlowRecord) (locked : List ObjectId)
    (candidates : List SegmentTimerangeBounds) (ws : WorkingSet mt) (rows : List SegmentRow)
    (db' : Database) : Prop where
  batch : BatchOk flow locked (db.objects.filter (·.id ∈ locked)) ws
  saved : ws.accepted.mapM (segmentRow mt) = .ok rows
  free : ∀ row ∈ db.segmentsOf flow.id, ∀ new ∈ rows,
    row.overlaps new.timerangeStart new.timerangeEnd = false
  wellFormed : db'.WellFormed mt
  backends : db'.storageBackends = db.storageBackends
  segments : db'.segments.rows.map SegmentRow.untimed =
    (db.segments.rows ++ rows).map SegmentRow.untimed
  objects : ∀ o, SameLookup ((ws.updated.get o).or (db.objects.get o)) (db'.objects.get o)
  known : ∀ value r b, SegmentRange mt value r b → b ∈ candidates →
    (meetsKnown mt ws.known r = true ↔
      ∃ row ∈ db'.segmentsOf flow.id, row.overlaps b.start b.stop = true)
  current : ∃ t, db'.flows.get flow.id = some { flow with segmentsUpdated := t }

structure Requested (db : Database) (flow : FlowRecord) (locked : List ObjectId)
    (post : SegmentPost) : Prop where
  media : post.objectId ∈ locked
  init : ∀ o, post.initObjectId = some o → o ∈ locked
  storedInit : flow.initSegments = true → ∀ m, db.objects.get post.objectId = some m →
    ∀ o, m.initObjectId = some o → o ∈ locked

theorem requested_of_mem {flow : FlowRecord} {posts : List SegmentPost} {post : SegmentPost}
    (h : post ∈ posts) : Requested db flow (db.requestedObjectIds flow posts) post where
  media := List.mem_append_left _ (List.mem_append_left _ (List.mem_map.mpr ⟨post, h, rfl⟩))
  init o ho := List.mem_append_left _ (List.mem_append_right _
    (List.mem_filterMap.mpr ⟨post, h, ho⟩))
  storedInit hs m hm o ho := by
    refine List.mem_append_right _ ?_
    rw [if_pos hs]
    obtain ⟨hmem, hid⟩ := Lib.Table.get_eq_some.mp hm
    refine List.mem_filterMap.mpr ⟨m, Lib.Table.mem_filter.mpr ⟨hmem, ?_⟩, ho⟩
    simpa using ⟨post, h, hid.symm⟩

namespace Sim

variable {flow : FlowRecord} {locked : List ObjectId}
variable {candidates : List SegmentTimerangeBounds}

theorem start (hwf : db.WellFormed mt) (hflow : db.flows.get flow.id = some flow)
    {known : List mt.TimeRange}
    (hknown : ∀ value r b, SegmentRange mt value r b → b ∈ candidates →
      (meetsKnown mt known r = true ↔
        ∃ row ∈ db.segmentsOf flow.id, row.overlaps b.start b.stop = true)) :
    Sim db flow locked candidates ⟨known, db.objects.filter (·.id ∈ locked), .empty, []⟩ [] db where
  batch := BatchOk.start flow locked known
  saved := rfl
  free := by simp
  wellFormed := hwf
  current := ⟨flow.segmentsUpdated, hflow⟩
  backends := rfl
  segments := by simp
  objects o := rfl
  known := hknown

variable {ws : WorkingSet mt} {rows : List SegmentRow} {db' : Database}
variable {stored : ObjectId → StorageBackend → Option Nat} {checks checks' : UploadChecks}
variable {post : SegmentPost}

variable {o : ObjectId}

theorem get_objects (h : Sim db flow locked candidates ws rows db')
    (ho : o ∈ locked) : ws.objects.get o = (ws.updated.get o).or (db.objects.get o) := by
  rw [h.batch.objects, Lib.Table.get_filter fun m hm => by simpa [hm] using ho]

variable {locked' : List ObjectId}

theorem agree (h : Sim db flow locked candidates ws rows db') (hlive : LiveChecks stored db checks)
    (hlive' : LiveChecks stored db' checks') (ho : o ∈ locked) (ho' : o ∈ locked') :
    Agree stored checks checks' ws.objects (db'.objects.filter (·.id ∈ locked')) o := by
  have hget' : (db'.objects.filter (·.id ∈ locked')).get o = db'.objects.get o :=
    Lib.Table.get_filter fun m hm => by simpa [hm] using ho'
  constructor
  · rw [h.get_objects ho, hget']
    exact h.objects o
  · intro m hm
    rw [h.get_objects ho] at hm
    cases hu : ws.updated.get o with
    | none =>
      rw [hu] at hm
      exact hlive o m hm
    | some u =>
      -- an object the batch has updated lists the flow
      rw [hu] at hm
      obtain rfl := Option.some.inj hm
      have href := ((h.batch.updated u (Lib.Table.get_eq_some.mp hu).1).2.2 flow.id).mpr (.inr rfl)
      exact fun hempty => absurd href (by simp [hempty])
  · intro m hm
    rw [hget'] at hm
    exact hlive' o m hm

theorem initCandidate (h : Sim db flow locked candidates ws rows db')
    (hpost : Requested db flow locked post) {flow' : FlowRecord}
    (hpost' : Requested db' flow' locked' post) (hs : flow.initSegments = true)
    (hs' : flow'.initSegments = true) (ho : InitCandidate ws.objects post o) :
    o ∈ locked ∧ o ∈ locked' := by
  rcases ho with ho | ⟨m, hm, hkind, ho⟩
  · exact ⟨hpost.init o ho, hpost'.init o ho⟩
  · rw [h.get_objects hpost.media] at hm
    have hsame := h.objects post.objectId
    rw [hm] at hsame
    constructor
    · cases hu : ws.updated.get post.objectId with
      | none =>
        rw [hu] at hm
        exact hpost.storedInit hs m hm o ho
      | some u =>
        rw [hu] at hm
        obtain rfl := Option.some.inj hm
        exact h.batch.inits hs u (Lib.Table.get_eq_some.mp hu).1 hkind o ho
    · rcases hsame.cases with ⟨hnone, -⟩ | ⟨m', t, hm', hget⟩
      · cases hnone
      · obtain rfl := Option.some.inj hm'
        exact hpost'.storedInit hs' _ hget o ho

variable {t : Option Time} {r : mt.TimeRange}

theorem accept (L : mt.Lawful) (h : Sim db flow locked candidates ws rows db')
    (hmedia : post.objectId ∈ locked) {b : SegmentTimerangeBounds}
    (hr : SegmentRange mt post.timerange r b) (hb : b ∈ candidates) {p p' : Prepared mt}
    (hp : PreparedOk mt flow locked ws.known ws.objects post p) (hsame : SamePrepared p p')
    {updated : ObjectsById} {db'' : Database}
    (hadded : Added db' { flow with segmentsUpdated := t } updated
      [⟨p'.segment, b.start, b.stop⟩] db'')
    (hupdated : ∀ o, updated.get o = p'.objects.reverse.find? fun u => u.id = o)
    (hwf : db''.WellFormed mt) :
    Sim db flow locked candidates (ws.accept p) (rows ++ [⟨p.segment, b.start, b.stop⟩]) db'' := by
  obtain rfl : r = p.range := Except.ok.inj (hr.parsed.symm.trans hp.parsed)
  have hsegment : SegmentRange mt p.segment.timerange p.range b := hp.timerange.symm ▸ hr
  -- no row in the tables meets the new one
  have hapart := not_overlaps_of_apart (h.known _ p.range b hr hb) hp.apart
  constructor
  · exact h.batch.accept L hp hmedia ⟨_, b, hr⟩
  · show (ws.accepted ++ [p.segment]).mapM (segmentRow mt) = _
    rw [List.mapM_append, h.saved, Lib.ok_bind, List.mapM_cons, hsegment.segmentRow]
    rfl
  · intro row hrow new hnew
    rcases List.mem_append.mp hnew with hnew | hnew
    · exact h.free row hrow new hnew
    · obtain rfl := List.mem_singleton.mp hnew
      -- the row is still there, up to its creation time
      obtain ⟨hmem, hid⟩ := Database.mem_segmentsOf.mp hrow
      have hrow' : row.untimed ∈ db'.segments.rows.map SegmentRow.untimed := by
        rw [h.segments]
        exact List.mem_map_of_mem (List.mem_append_left _ hmem)
      obtain ⟨row', hrow', heq⟩ := List.mem_map.mp hrow'
      obtain ⟨hid', hover⟩ := SegmentRow.place_eq heq
      rw [← hover]
      exact hapart row' (Database.mem_segmentsOf.mpr ⟨hrow', hid'.trans hid⟩)
  · exact hwf
  · rw [hadded.backends, h.backends]
  · rw [hadded.segments, List.map_append, h.segments, ← List.append_assoc, List.map_append,
      List.map_append, List.map_append]
    simp only [List.map_cons, List.map_nil, SegmentRow.untimed, hsame.segment]
  · intro o
    have hget : (ws.accept p).updated.get o =
        (p.objects.reverse.find? fun u => u.id = o).or (ws.updated.get o) :=
      Lib.Table.get_foldl_upsert _ _ o
    rw [hget, hadded.objects, hupdated, Option.or_assoc]
    exact (sameLookup_find (List.forall₂_reverse_iff.mpr hsame.objects) o).or (h.objects o)
  · intro value r₂ b₂ hr₂ hb₂
    have hnew := hr₂.meets_iff L hr
    have hmem : ∀ row, row ∈ db''.segmentsOf flow.id ↔
        row ∈ db'.segmentsOf flow.id ∨ row = ⟨p'.segment, b.start, b.stop⟩ := by
      intro row
      have hid : p'.segment.flowId = flow.id :=
        (congrArg SegmentRecord.flowId hsame.segment).symm.trans hp.flowId
      rw [Database.mem_segmentsOf, Database.mem_segmentsOf, hadded.segments, List.mem_append,
        List.mem_singleton, or_and_right, and_iff_left_of_imp (a := row = _)]
      rintro rfl
      exact hid
    have hknown : meetsKnown mt (ws.accept p).known r₂ = true ↔
        meetsKnown mt ws.known r₂ = true ∨
          (!mt.isEmpty (mt.intersectWith r₂ p.range)) = true := by
      simp [meetsKnown, WorkingSet.accept]
    rw [hknown, h.known value r₂ b₂ hr₂ hb₂, hnew]
    simp only [hmem, or_and_right, exists_or, exists_eq_left, SegmentRow.overlaps_iff]
  · exact hadded.flow

theorem prepare (h : Sim db flow locked candidates ws rows db')
    (hlive : LiveChecks stored db checks) (hlive' : LiveChecks stored db' checks')
    {b : SegmentTimerangeBounds} (hr : SegmentRange mt post.timerange r b)
    (hb : b ∈ candidates) (hpost : Requested db flow locked post)

    (hpost' : Requested db' { flow with segmentsUpdated := t } locked' post)
    {known' : List mt.TimeRange}
    (hknown' : meetsKnown mt known' r = true ↔
      ∃ row ∈ db'.segmentsOf flow.id, row.overlaps b.start b.stop = true) (now now' : Time) :
    Lib.Rel SamePrepared
      (prepareSegmentRegistrationOrRaise mt flow locked checks ⟨now, stored⟩ ws.known ws.objects
        post)
      (prepareSegmentRegistrationOrRaise mt { flow with segmentsUpdated := t } locked' checks'
        ⟨now', stored⟩ known' (db'.objects.filter (·.id ∈ locked')) post) := by
  refine prepare_rel ⟨rfl, rfl, rfl⟩ (fun r' hr' => ?_)
    (h.agree hlive hlive' hpost.media hpost'.media) (fun hs o ho => ?_) _ _
  · obtain rfl : r = r' := Except.ok.inj (hr.parsed.symm.trans hr')
    rw [Bool.eq_iff_iff, h.known _ r b hr hb, hknown']
  · obtain ⟨hlocked, hlocked'⟩ := h.initCandidate hpost hpost' hs hs ho
    exact ⟨hlocked, hlocked', h.agree hlive hlive' hlocked hlocked'⟩

theorem step_some (L : mt.Lawful) (h : Sim db flow locked candidates ws rows db')
    (hdb : db.WellFormed mt) (hlive : LiveChecks stored db checks)
    (hlive' : LiveChecks stored db' checks') {b : SegmentTimerangeBounds}
    (hvalid : ValidPost mt post b) (hb : b ∈ candidates) (hpost : Requested db flow locked post)
    (hflow : db'.flows.get flow.id = some { flow with segmentsUpdated := t })
    (now saved : Time) (prepared : Nat → Time) :
    ∃ ws' result ws₁ result₁ rows₁ rows',
      registerPost mt flow locked checks ⟨now, stored⟩ ws post = .ok (ws', result) ∧
      Registers mt db' { flow with segmentsUpdated := t } [some (post, b)] checks'
        (fun n => ⟨prepared n, stored⟩) ws₁ [result₁] rows₁ ∧
      result.untimed = result₁.untimed ∧
      Sim db flow locked candidates ws' rows' (db'.saveRegistered
        { flow with segmentsUpdated := some saved } 0 ws₁.updated.rows rows₁) ∧
      ((∃ text, result₁ = .error text) → rows₁ = []) := by
  obtain ⟨r, hr⟩ := hvalid.range
  obtain ⟨known', hknown', hmeets⟩ := h.wellFormed.knownRanges L flow.id [b]
  have hmeets := hmeets _ r b hr (List.mem_singleton.mpr rfl)
  have hpost' : Requested db' { flow with segmentsUpdated := t }
      (db'.requestedObjectIds { flow with segmentsUpdated := t } [post]) post :=
    requested_of_mem (List.mem_singleton.mpr rfl)
  generalize hlocked : db'.requestedObjectIds { flow with segmentsUpdated := t } [post] =
    locked' at hpost'
  have hobjects' : ∀ o obj, (db'.objects.filter (·.id ∈ locked')).get o = some obj →
      ObjectOk mt obj := fun o obj hobj => h.wellFormed.object o obj (Lib.Table.get_of_filter hobj)
  have hobjects := h.batch.objectOk fun o obj hobj => hdb.object o obj (Lib.Table.get_of_filter hobj)
  have hrel := h.prepare hlive hlive' hr hb hpost hpost' hmeets now (prepared 0)
  have hbad := prepare_badRequest L hvalid hobjects flow locked checks ⟨now, stored⟩ ws.known
  revert hrel hbad
  cases hprep : prepareSegmentRegistrationOrRaise mt flow locked checks ⟨now, stored⟩ ws.known
    ws.objects post with
  | error e =>
    cases hprep' : prepareSegmentRegistrationOrRaise mt { flow with segmentsUpdated := t } locked'
        checks' ⟨prepared 0, stored⟩ known' (db'.objects.filter (·.id ∈ locked')) post with
    | error e' =>
      rintro rfl hbad
      obtain ⟨detail, rfl⟩ := hbad e rfl
      exact ⟨ws, .error detail, _, .error detail, [], rows,
        by simp [registerPost, hprep], registers_rejected hknown' hlocked hprep', rfl, h,
        fun _ => rfl⟩
    | ok p' => exact fun hrel => hrel.elim
  | ok p =>
    cases hprep' : prepareSegmentRegistrationOrRaise mt { flow with segmentsUpdated := t } locked'
        checks' ⟨prepared 0, stored⟩ known' (db'.objects.filter (·.id ∈ locked')) post with
    | error e' => exact fun hrel => hrel.elim
    | ok p' =>
      intro hsame _
      have hp := prepareSegmentRegistrationOrRaise_ok hobjects hprep
      have hp' := prepareSegmentRegistrationOrRaise_ok hobjects' hprep'
      have hsegment : SegmentRange mt p'.segment.timerange r b := hp'.timerange.symm ▸ hr
      have hapart' := hp'.apart
      rw [← Except.ok.inj (hr.parsed.symm.trans hp'.parsed)] at hapart'
      have hbatch : BatchOk { flow with segmentsUpdated := t } locked' _ (WorkingSet.accept
          ⟨known', db'.objects.filter (·.id ∈ locked'), .empty, []⟩ p') :=
        (BatchOk.start _ locked' known').accept L hp' hpost'.media ⟨r, b, hr⟩
      have hreg : Registers mt db' { flow with segmentsUpdated := t } [some (post, b)] checks'
          (fun n => ⟨prepared n, stored⟩) _ _ _ :=
        registers_accepted hknown' hlocked hprep' hsegment (not_overlaps_of_apart hmeets hapart')
      have hadded := hbatch.added h.wellFormed hflow hreg.saved hreg.free saved
      refine ⟨ws.accept p, .segment p.segment, _, _, _, _, by simp [registerPost, hprep], hreg, ?_,
        h.accept L hpost.media hr hb hp hsame hadded (fun o => ?_)
          (hbatch.added_wellFormed h.wellFormed hreg.saved hadded), by simp⟩
      · exact congrArg SegmentWriteResult.segment hsame.segment
      · refine (Lib.Table.get_foldl_upsert _ _ o).trans ?_
        simp [Lib.Table.get]

/-- **One post of the batch**: it gives the same result in the batch and by itself, and
    keeps the simulation; a post that is rejected leaves the tables alone. -/
theorem step (L : mt.Lawful) (h : Sim db flow locked candidates ws rows db')
    (hdb : db.WellFormed mt) (hlive : LiveChecks stored db checks)
    (hlive' : LiveChecks stored db' checks') (x : Option (SegmentPost × SegmentTimerangeBounds))
    (hx : ∀ post b, x = some (post, b) →
      ValidPost mt post b ∧ b ∈ candidates ∧ Requested db flow locked post)
    (hflow : db'.flows.get flow.id = some { flow with segmentsUpdated := t })
    (prepared prepared' : Nat → Time) (n : Nat) (saved : Time) :
    ∃ ws' result ws₁ result₁ rows₁ rows',
      (∀ posts, registerPosts mt flow locked checks (fun n => ⟨prepared n, stored⟩) n ws
          (x.map (·.1) :: posts) = do
        let (ws, results) ← registerPosts mt flow locked checks (fun n => ⟨prepared n, stored⟩)
          (n + 1) ws' posts
        pure (ws, result :: results)) ∧
      Registers mt db' { flow with segmentsUpdated := t } [x] checks'
        (fun n => ⟨prepared' n, stored⟩) ws₁ [result₁] rows₁ ∧
      result.untimed = result₁.untimed ∧
      Sim db flow locked candidates ws' rows' (db'.saveRegistered
        { flow with segmentsUpdated := some saved } 0 ws₁.updated.rows rows₁) ∧
      ((∃ text, result₁ = .error text) → rows₁ = []) := by
  cases x with
  | none =>
    obtain ⟨ws₁, hreg⟩ := registers_none h.wellFormed L { flow with segmentsUpdated := t }
      checks' fun n => ⟨prepared' n, stored⟩
    exact ⟨ws, _, ws₁, _, [], rows, fun posts => rfl, hreg, rfl, h, fun _ => rfl⟩
  | some x =>
    obtain ⟨post, b⟩ := x
    obtain ⟨hvalid, hb, hpost⟩ := hx post b rfl
    obtain ⟨ws', result, ws₁, result₁, rows₁, rows', hrun, hrest⟩ :=
      h.step_some L hdb hlive hlive' hvalid hb hpost hflow (prepared n) saved prepared'
    refine ⟨ws', result, ws₁, result₁, rows₁, rows', fun posts => ?_, hrest⟩
    rw [Option.map_some, registerPosts, hrun]
    rfl

end Sim

end Tamoss
