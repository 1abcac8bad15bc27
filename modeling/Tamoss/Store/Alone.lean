/-
  **A registration that has the database to itself.**
-/
import Tamoss.Lib.Eval
import Tamoss.Store.Service

namespace Tamoss

open Lib (Runs Returns)

variable {mt : MediaTimestamp} {i : SessionId} {ch : Choice}

variable (mt i ch) in
def alone (c : Call) (s : World × Session) : Option (c.Resp × (World × Session)) :=
  exec mt i ch c s.1 s.2

/-- The tables are `db`, nobody holds a lock, and the session has no transaction. -/
structure Ready (db : Database) (s : World × Session) : Prop where
  db : s.1.db = db
  locks : ∀ lock, s.1.locks lock = none
  idle : s.2 = .idle

/-- The session is in a transaction on the tables `db` and sees `view`; nobody else holds a lock.
    -/
structure Working (i : SessionId) (db view : Database) (s : World × Session) : Prop where
  db : s.1.db = db
  locks : ∀ lock j, s.1.locks lock = some j → j = i
  inTransaction : s.2.inTransaction = true
  view : s.1.view s.2 = view

variable {db seen : Database} {P : World × Session → Prop}

variable {s : World × Session}

theorem Ready.sees (h : Ready db s) : s.1.view s.2 = db := by
  rw [h.idle]
  exact h.db

theorem returns_call {c : Call} {A : c.Resp → World × Session → Prop}
    (h : ∀ s, P s → ∃ r w l, exec mt i ch c s.1 s.2 = some (r, w, l) ∧ A r (w, l)) :
    Returns (alone mt i ch) P (call c) A :=
  Returns.call fun s hs =>
    let ⟨r, w, l, hexec, hA⟩ := h s hs
    ⟨r, (w, l), hexec, hA⟩

theorem returns_read {c : Call} {a : c.Resp}
    (h : ∀ s, P s → exec mt i ch c s.1 s.2 = some (a, s.1, s.2)) :
    Returns (alone mt i ch) P (call c) fun r s => r = a ∧ P s :=
  returns_call fun s hs => ⟨a, s.1, s.2, h s hs, rfl, hs⟩

theorem acquire_own {w : World} {l : Session} (lock : Lock)
    (hl : ∀ lock j, w.locks lock = some j → j = i) (ht : l.inTransaction = true) :
    w.acquire i lock l = some { w with locks := Function.update w.locks lock (some i) } := by
  unfold World.acquire
  cases hlock : w.locks lock with
  | none => simp [ht]
  | some j =>
    obtain rfl := hl lock j hlock
    have : Function.update w.locks lock (some j) = w.locks := by
      rw [← hlock, Function.update_eq_self]
    simp [this]

theorem Working.lock (h : Working i db seen s) (lock : Lock) : Working i db seen
      ({ s.1 with locks := Function.update s.1.locks lock (some i) }, s.2) where
  db := h.db
  locks k j hk := by
    have hk : Function.update s.1.locks lock (some i) k = some j := hk
    by_cases he : k = lock
    · subst he
      simpa using hk.symm
    · rw [Function.update_of_ne he] at hk
      exact h.locks k j hk
  inTransaction := h.inTransaction
  view := h.view

theorem returns_lockFlowSegments (f : FlowId) :
    Returns (alone mt i ch) (Working i db seen) (call (.lockFlowSegments f))
      fun _ => Working i db seen :=
  returns_call fun s hs => ⟨(), _, s.2,
    by rw [exec, acquire_own _ hs.locks hs.inTransaction]; rfl, hs.lock _⟩

theorem returns_lockObject (o : ObjectId) :
    Returns (alone mt i ch) (Working i db seen) (call (.lockObject o)) fun _ => Working i db seen :=
  returns_call fun s hs => ⟨(), _, s.2,
    by rw [exec, acquire_own _ hs.locks hs.inTransaction]; rfl, hs.lock _⟩

theorem returns_write (wr : Write) : Returns (alone mt i ch) (Working i db seen) (call (.write wr))
      fun _ => Working i db (wr.apply seen) := by
  refine returns_call fun s hs => ⟨(), s.1, { s.2 with writes := s.2.writes ++ [wr] }, ?_, ?_⟩
  · simp only [exec, World.submit, if_pos hs.inTransaction]
  · refine ⟨hs.db, hs.locks, hs.inTransaction, ?_⟩
    rw [← hs.view]
    simp [World.view]

theorem returns_writes {α : Type} (xs : List α) (g : α → Write) :
    Returns (alone mt i ch) (Working i db seen) (xs.forM fun x => call (.write (g x)))
      fun _ => Working i db (seen.applyAll (xs.map g)) := by
  refine Returns.forM (I := fun done => Working i db (seen.applyAll (done.map g)))
    fun done x rest _ => ?_
  rw [List.map_append, Database.applyAll_append]
  exact returns_write (g x)

def afterTransaction {α : Type} (db view : Database) : Except PyError α → Database
  | .ok _ => view
  | .error _ => db

/-- **A unit of work.** Its effect on the tables is what its statements saw in the end;
    an exception undoes it. -/
theorem runs_unitOfWork {α : Type} {body : App α} {Q : Except PyError α → Database → Prop}
    (h : Runs (alone mt i ch) (Working i db db) body fun r s =>
      ∃ view, Working i db view s ∧ Q r (afterTransaction db view r)) :
    Runs (alone mt i ch) (Ready db) (unitOfWork body) fun r s => ∃ db', Ready db' s ∧ Q r db' := by
  rw [unitOfWork_eq]
  have hbegin : Returns (alone mt i ch) (Ready db) (call .begin) fun _ => Working i db db := by
    refine returns_call fun s hs => ⟨(), s.1, { s.2 with inTransaction := true }, rfl, ?_⟩
    refine ⟨hs.db, fun lock j hj => ?_, rfl, hs.sees⟩
    rw [hs.locks lock] at hj
    cases hj
  refine hbegin.bind fun _ => Runs.attempt h fun r => ?_
  have hfree : ∀ {w : World} lock, (∀ lock j, w.locks lock = some j → j = i) →
      (w.release i).locks lock = none := by
    intro w lock hw
    show (if w.locks lock = some i then none else w.locks lock) = none
    cases hlock : w.locks lock with
    | none => rfl
    | some j => rw [hw lock j hlock, if_pos rfl]
  cases r with
  | ok a =>
    refine Returns.bind (A := fun _ s => ∃ db', Ready db' s ∧ Q (.ok a) db')
      (returns_call fun s ⟨view, hs, hQ⟩ => ⟨(), _, _, rfl, view, ?_, hQ⟩)
      fun _ => Runs.pure fun s hs => hs
    exact ⟨hs.view, fun lock => hfree lock hs.locks, rfl⟩
  | error e =>
    refine Returns.bind (A := fun _ s => ∃ db', Ready db' s ∧ Q (.error e) db')
      (returns_call fun s ⟨view, hs, hQ⟩ => ⟨(), _, _, rfl, db, ?_, hQ⟩)
      fun _ => Runs.throw fun s hs => hs
    exact ⟨hs.db, fun lock => hfree lock hs.locks, rfl⟩

def Database.uploadChecks (db : Database) (posts : List SegmentPostInput) (rd : Readings) :
    UploadChecks :=
  (db.objects.filter (·.id ∈ posts.flatMap SegmentPostInput.objectIds)).rows.filterMap fun o =>
    if o.referencedByFlows.isEmpty then
      (controlledBackend o).map fun backend =>
        ((o.id, o.created), rd.objectMetadata o.id backend)
    else none

def Database.reservedLabels (db : Database) : List String :=
  (db.storageBackends.rows.map (·.label)).filter (· ≠ "")

def Database.requestedObjectIds (db : Database) (flow : FlowRecord)
    (posts : List SegmentPost) : List ObjectId :=
  posts.map (·.objectId) ++ posts.filterMap (·.initObjectId) ++
    if flow.initSegments then
      (db.objects.filter (·.id ∈ posts.map (·.objectId))).rows.filterMap (·.initObjectId)
    else []

def Database.knownRanges (mt : MediaTimestamp) (db : Database) (f : FlowId)
    (candidates : List SegmentTimerangeBounds) : Except PyError (List mt.TimeRange) :=
  ((db.listSegmentsOverlapping f candidates).map (·.record)).mapM fun segment =>
    parseTimerange mt "timerange" true segment.timerange

theorem returns_verifyControlledUploads (posts : List SegmentPostInput) (rd : Readings) :
    Returns (alone mt i ch) (Ready db) (verifyControlledUploads posts rd)
      fun checks s => checks = db.uploadChecks posts rd ∧ Ready db s := by
  unfold verifyControlledUploads
  dsimp only
  split
  · rename_i hempty
    refine Returns.pure fun s hs => ⟨?_, hs⟩
    simp [Database.uploadChecks, Lib.Table.filter, List.isEmpty_iff.mp hempty]
  · refine Returns.bind_value (returns_read fun s hs => ?_)
      (Returns.pure fun s hs => ⟨rfl, hs⟩)
    rw [exec, hs.sees]

theorem returns_getObjects (ids : List ObjectId) :
    Returns (alone mt i ch) (Working i db seen) (call (.getObjects ids))
      fun a s => a = seen.objects.filter (·.id ∈ ids) ∧ Working i db seen s :=
  returns_read fun s hs => by rw [exec, hs.view]

theorem returns_requestedObjectIds (flow : FlowRecord) (posts : List SegmentPost) :
    Returns (alone mt i ch) (Working i db seen) (requestedObjectIds flow posts)
      fun a s => a = seen.requestedObjectIds flow posts ∧ Working i db seen s := by
  unfold requestedObjectIds Database.requestedObjectIds
  dsimp only
  split
  · exact Returns.bind_value (returns_getObjects _) (Returns.pure fun s hs => ⟨rfl, hs⟩)
  · exact Returns.pure fun s hs => ⟨by simp, hs⟩

def registrationWrites (flow : FlowRecord) (version : Nat) (objects : List MediaObjectRecord)
    (rows : List SegmentRow) : List Write :=
  .saveFlow flow version :: (objects.map .saveObject ++ rows.map .saveSegment)

theorem segmentsOf_saveFlow_saveObjects (seen : Database) (flow : FlowRecord) (version : Nat)
    (objects : List MediaObjectRecord) (f : FlowId) :
    (seen.applyAll (.saveFlow flow version :: objects.map .saveObject)).segmentsOf f =
      seen.segmentsOf f := by
  rw [Database.applyAll_cons]
  show Database.segmentsOf _ f = (Write.apply seen (.saveFlow flow version)).segmentsOf f
  generalize Write.apply seen (.saveFlow flow version) = db
  induction objects generalizing db with
  | nil => rfl
  | cons o objects ih => exact ih (Write.apply db (.saveObject o))

variable {rows : List SegmentRow} {segments : List SegmentRecord}

theorem returns_saveRegisteredSegments {flow : FlowRecord} {version : Nat}
    {objects : List MediaObjectRecord} (hrows : segments.mapM (segmentRow mt) = .ok rows)
    (hfree : ∀ row ∈ seen.segmentsOf flow.id, ∀ new ∈ rows,
      row.overlaps new.timerangeStart new.timerangeEnd = false) :
    Returns (alone mt i ch) (Working i db seen)
      (saveRegisteredSegments mt flow version objects segments)
      fun _ => Working i db (seen.applyAll (registrationWrites flow version objects rows)) := by
  unfold saveRegisteredSegments
  refine (returns_lockFlowSegments _).bind fun _ => (returns_write _).bind fun _ =>
    (returns_writes objects .saveObject).bind fun _ =>
    (Returns.except hrows fun s hs => ⟨rfl, hs⟩).bind_value ?_
  refine (returns_read (a := false) fun s hs => ?_).bind_value ?_
  · rw [exec, hs.view]
    show some (List.any (Database.segmentsOf (seen.applyAll
      (.saveFlow flow version :: objects.map .saveObject)) flow.id) _, s.1, s.2) = _
    rw [segmentsOf_saveFlow_saveObjects]
    congr 2
    rw [List.any_eq_false]
    intro row hrow
    rw [Bool.not_eq_true, List.any_eq_false]
    intro b hb
    obtain ⟨new, hnew, rfl⟩ := List.mem_map.mp hb
    simpa using hfree row hrow new hnew
  · refine (returns_writes rows .saveSegment).post fun r s ⟨a, ha, hs⟩ => ⟨a, ha, ?_⟩
    rwa [registrationWrites, Database.applyAll_cons, Database.applyAll_append]

def Database.saveRegistered (db : Database) (flow : FlowRecord) (version : Nat)
    (objects : List MediaObjectRecord) (rows : List SegmentRow) : Database :=
  if rows.isEmpty then db else db.applyAll (registrationWrites flow version objects rows)

variable (mt) in
/-- **What a registration comes to**, for a flow that takes segments and the validated
    posts `posts`: the outcome of the loop over the posts, and the rows of the segments it
    accepts. -/
structure Registers (db : Database) (flow : FlowRecord)
    (posts : List (Option (SegmentPost × SegmentTimerangeBounds)))
    (checks : UploadChecks) (readings : Nat → Readings) (ws : WorkingSet mt)
    (results : List SegmentWriteResult) (rows : List SegmentRow) : Prop where
  loop : ∃ known locked, db.knownRanges mt flow.id ((posts.filterMap id).map (·.2)) = .ok known ∧
    db.requestedObjectIds flow ((posts.map (Option.map (·.1))).filterMap id) = locked ∧
    registerPosts mt flow locked checks readings 0
      ⟨known, db.objects.filter (·.id ∈ locked), .empty, []⟩
      (posts.map (Option.map (·.1))) = .ok (ws, results)
  saved : ws.accepted.mapM (segmentRow mt) = .ok rows
  free : ∀ row ∈ db.segmentsOf flow.id, ∀ new ∈ rows,
    row.overlaps new.timerangeStart new.timerangeEnd = false

theorem registerPosts_none (flow : FlowRecord) (locked : List ObjectId) (checks : UploadChecks)
    (readings : Nat → Readings) (n : Nat) (ws : WorkingSet mt) (k : Nat) :
    registerPosts mt flow locked checks readings n ws (List.replicate k none) =
      .ok (ws, List.replicate k (.error invalidSegmentJson)) := by
  induction k generalizing n with
  | zero => rfl
  | succ k ih =>
    rw [List.replicate_succ, registerPosts, ih]
    rfl

theorem returns_lockObjects (ids : List ObjectId) :
    Returns (alone mt i ch) (Working i db seen) (lockObjects ids) fun _ => Working i db seen :=
  Returns.forM (I := fun _ => Working i db seen) fun _ o _ _ => returns_lockObject o

theorem mapM_nil_iff
    (h : segments.mapM (segmentRow mt) = .ok rows) : rows.isEmpty = segments.isEmpty := by
  cases segments with
  | nil =>
    cases h
    rfl
  | cons s segments =>
    rw [List.mapM_cons] at h
    obtain ⟨row, -, h⟩ := Lib.bind_eq_ok h
    obtain ⟨rows', -, h⟩ := Lib.bind_eq_ok h
    cases h
    rfl

theorem returns_requireFlow {f : FlowId} {flow : FlowRecord} (toSave : Bool)
    (hflow : seen.flows.get f = some flow) :
    Returns (alone mt i ch) (Working i db seen) (requireFlow f toSave)
      fun r s => r.1 = flow ∧ Working i db seen s := by
  unfold requireFlow
  refine Returns.bind (A := fun read s => read.flow = some flow ∧ Working i db seen s)
    (returns_call fun s hs => ?_) fun read => Runs.assume fun hread => ?_
  · refine ⟨_, _, _, rfl, by rw [hs.view, hflow], ?_⟩
    cases toSave
    · exact hs
    · exact ⟨hs.db, hs.locks, hs.inTransaction, hs.view⟩
  · rw [hread]
    exact Returns.pure fun s hs => ⟨rfl, hs⟩

theorem Registers.returns_locked {flow : FlowRecord} {posts : List SegmentPostInput}
    {checks : UploadChecks} {readings : Nat → Readings} {ws : WorkingSet mt}
    {results : List SegmentWriteResult}
    (h : Registers mt db flow (validatePosts mt db.reservedLabels posts) checks readings ws
      results rows) {f : FlowId}
    (hflow : db.flows.get f = some flow) (hwritable : flow.readOnly = false)
    (hcontainer : ¬ (flow.container = none ∨ flow.container = some "")) :
    Returns (alone mt i ch) (Working i db db) (registerSegmentsLocked mt f posts checks readings)
      fun r s => r = results ∧ Working i db
        (db.saveRegistered { flow with segmentsUpdated := some ch.now } 0 ws.updated.rows rows) s := by
  obtain rfl : flow.id = f := (Lib.Table.get_eq_some.mp hflow).2
  obtain ⟨known, locked, hknown, rfl, hloop⟩ := h.loop
  have hempty := mapM_nil_iff h.saved
  unfold registerSegmentsLocked
  refine (returns_requireFlow true hflow).bind fun ⟨flow', version⟩ => Runs.assume fun heq => ?_
  obtain rfl : flow' = flow := heq
  have hensure : ensureFlowWritable flow' = pure () := by
    simp [ensureFlowWritable, hwritable]
  dsimp only
  rw [hensure]
  refine (Returns.pure fun s hs => ⟨rfl, hs⟩).bind_value ?_
  rw [if_neg hcontainer]
  refine (returns_read (a := db.storageBackends.rows)
    fun s hs => by rw [exec, hs.view]).bind_value ?_
  show Runs _ _ (if List.isEmpty (((validatePosts mt db.reservedLabels posts).filterMap id).map
    (·.2)) = true then _ else _) _
  split
  · -- no post is valid: the loop accepts nothing
    rename_i hnone
    have hvalidated : (validatePosts mt db.reservedLabels posts).map (Option.map (·.1)) =
        List.replicate posts.length none := by
      refine List.eq_replicate_iff.mpr ⟨by simp [validatePosts], fun x hx => ?_⟩
      obtain ⟨y, hy, rfl⟩ := List.mem_map.mp hx
      cases y with
      | none => rfl
      | some y =>
        have hmem : y.2 ∈ ((validatePosts mt db.reservedLabels posts).filterMap id).map (·.2) :=
          List.mem_map.mpr ⟨y, List.mem_filterMap.mpr ⟨some y, hy, rfl⟩, rfl⟩
        rw [List.isEmpty_iff.mp hnone] at hmem
        cases hmem
    rw [hvalidated, registerPosts_none] at hloop
    cases hloop
    have hrows : rows.isEmpty = true := hempty
    refine Returns.pure fun s hs => ⟨by simp, ?_⟩
    rw [Database.saveRegistered, if_pos hrows]
    exact hs
  · refine (returns_read fun s hs => by rw [exec, hs.view]).bind_value ?_
    refine (Returns.except hknown fun s hs => ⟨rfl, hs⟩).bind_value ?_
    unfold registerCandidates
    refine (returns_requestedObjectIds _ _).bind_value ?_
    refine (returns_lockObjects _).bind fun _ => (returns_getObjects _).bind_value ?_
    refine (Returns.except hloop fun s hs => ⟨rfl, hs⟩).bind_value ?_
    dsimp only
    split
    · rename_i haccepted
      refine (returns_read (a := ch.now) fun s hs => rfl).bind_value ?_
      refine (returns_saveRegisteredSegments h.saved ?_).bind fun _ => ?_
      · exact h.free
      refine Returns.pure fun s hs => ⟨rfl, ?_⟩
      rw [Database.saveRegistered, if_neg (by simpa [hempty] using haccepted)]
      exact hs
    · rename_i haccepted
      refine Returns.pure fun s hs => ⟨rfl, ?_⟩
      rw [Database.saveRegistered, if_pos (by simpa [hempty] using haccepted)]
      exact hs

theorem runs_registerSegments {f : FlowId} {posts : List SegmentPostInput} {rd : Readings}
    {readings : Nat → Readings} {Q : Except PyError (List SegmentWriteResult) → Database → Prop}
    (hQ : ∀ db', ¬ Q (.error .segmentOverlap) db') (h : Runs (alone mt i ch) (Working i db db)
      (registerSegmentsLocked mt f posts (db.uploadChecks posts rd) readings) fun r s =>
        ∃ view, Working i db view s ∧ Q r (afterTransaction db view r)) :
    Runs (alone mt i ch) (Ready db) (registerSegments mt f posts rd readings)
      fun r s => ∃ db', Ready db' s ∧ Q r db' := by
  unfold registerSegments
  refine (returns_verifyControlledUploads posts rd).bind_value ?_
  refine Runs.tryCatch (runs_unitOfWork ((returns_lockFlowSegments f).bind fun _ => h))
    (fun _ _ hs => hs) fun e => ?_
  cases e with
  | segmentOverlap => exact fun s ⟨db', _, hs⟩ => absurd hs (hQ db')
  | _ => exact Runs.throw fun s hs => hs

section Registration

variable {f : FlowId} {flow : FlowRecord} {posts : List SegmentPostInput} {rd : Readings}
  {readings : Nat → Readings}

theorem Registers.returns {ws : WorkingSet mt} {results : List SegmentWriteResult}
    {rows : List SegmentRow} (h : Registers mt db flow (validatePosts mt db.reservedLabels posts)
      (db.uploadChecks posts rd) readings ws results rows)
    (hflow : db.flows.get f = some flow) (hwritable : flow.readOnly = false)
    (hcontainer : ¬ (flow.container = none ∨ flow.container = some "")) :
    Runs (alone mt i ch) (Ready db) (registerSegments mt f posts rd readings)
      fun r s => ∃ db', Ready db' s ∧ r = .ok results ∧
        db' = db.saveRegistered { flow with segmentsUpdated := some ch.now } 0
          ws.updated.rows rows := by
  refine runs_registerSegments (fun db' hc => by cases hc.1) ?_
  refine (h.returns_locked hflow hwritable hcontainer).post fun r s ⟨a, hr, ha, hs⟩ => ?_
  subst hr ha
  exact ⟨_, hs, rfl, rfl⟩

theorem registerSegments_missing (hflow : db.flows.get f = none) :
    Runs (alone mt i ch) (Ready db) (registerSegments mt f posts rd readings)
      fun r s => ∃ db', Ready db' s ∧
        r = .error (.notFound "The requested Flow does not exist.") ∧ db' = db := by
  refine runs_registerSegments (fun db' hc => by cases hc.1) ?_
  unfold registerSegmentsLocked requireFlow
  refine Runs.bind (Q := fun r s => r = .error (.notFound "The requested Flow does not exist.") ∧
    Working i db db s) ?_ (fun a s hs => by cases hs.1) fun e s hs => ?_
  · refine Returns.bind (A := fun read s => read.flow = none ∧ Working i db db s)
      (returns_call fun s hs => ?_) fun read => Runs.assume fun hread => ?_
    · exact ⟨_, _, _, rfl, by rw [hs.view, hflow], hs.db, hs.locks, hs.inTransaction, hs.view⟩
    · rw [hread]
      exact Runs.throw fun s hs => ⟨rfl, hs⟩
  · cases hs.1
    exact ⟨db, hs.2, rfl, rfl⟩

theorem registerSegments_readOnly (hflow : db.flows.get f = some flow)
    (hreadOnly : flow.readOnly = true) :
    Runs (alone mt i ch) (Ready db) (registerSegments mt f posts rd readings)
      fun r s => ∃ db', Ready db' s ∧
        r = .error (.forbidden ("Forbidden. You do not have permission to modify this Flow. " ++
          "It may be marked read-only.")) ∧ db' = db := by
  refine runs_registerSegments (fun db' hc => by cases hc.1) ?_
  unfold registerSegmentsLocked
  refine (returns_requireFlow true hflow).bind fun ⟨flow', version⟩ => Runs.assume fun heq => ?_
  obtain rfl : flow' = flow := heq
  dsimp only
  rw [ensureFlowWritable, if_pos hreadOnly]
  refine Runs.bind (Q := fun r s => r = .error _ ∧ Working i db db s)
    (Runs.throw fun s hs => ⟨rfl, hs⟩) (fun a s hs => by cases hs.1) fun e s hs => ?_
  cases hs.1
  exact ⟨db, hs.2, rfl, rfl⟩

theorem registerSegments_noContainer (hflow : db.flows.get f = some flow)
    (hwritable : flow.readOnly = false)
    (hcontainer : flow.container = none ∨ flow.container = some "") :
    Runs (alone mt i ch) (Ready db) (registerSegments mt f posts rd readings)
      fun r s => ∃ db', Ready db' s ∧
        r = .ok (posts.map fun _ => .error "Bad request. The Flow 'container' is not set.") ∧
        db' = db := by
  refine runs_registerSegments (fun db' hc => by cases hc.1) ?_
  unfold registerSegmentsLocked
  refine (returns_requireFlow true hflow).bind fun ⟨flow', version⟩ => Runs.assume fun heq => ?_
  obtain rfl : flow' = flow := heq
  have hensure : ensureFlowWritable flow' = pure () := by
    simp [ensureFlowWritable, hwritable]
  dsimp only
  rw [hensure]
  refine (Returns.pure fun s hs => ⟨rfl, hs⟩).bind_value ?_
  rw [if_pos hcontainer]
  exact Runs.pure fun s hs => ⟨db, hs, rfl, rfl⟩

end Registration

end Tamoss
