/-
  **The service as a machine: any number of sessions over one database.**

  `Op` lists the operations of clients and workers with their arguments, `exec` says
  what PostgreSQL does with one call of one session, and `service` puts them together
  as a `Lib.Machine`: a run is any interleaving of any operations, with sessions that
  fail or crash at any point.
-/
import Tamoss.Lib.Threads
import Tamoss.Store.Catalogue
import Tamoss.Store.Objects

namespace Tamoss

/-- The operations of clients and workers. `rd` and `readings` are what the clock and
    the object store answer during a registration, `rounds` bounds a loop. -/
inductive Op where
  | registerSegments (flowId : FlowId) (posts : List SegmentPostInput) (rd : Readings)
      (readings : Nat → Readings)
  | deleteSegments (flowId : FlowId) (timerange : Option String)
      (objectId : Option ObjectId) (rounds : Nat)
  | deleteFlow (flowId : FlowId)
  | processDeleteRequest (requestId : QueueId) (rounds : Nat)
  | putFlow (flowId : FlowId) (flow : FlowData) (suppliedFields : Option (List String))
      (subject : String)
  | editFlow (flowId : FlowId) (edit : FlowEdit) (identity : Option String)
  | allocateFlowStorage (settings : StorageSettings) (flowId : FlowId)
      (request : StorageRequest) (rounds : Nat)
  | registerObjectInstance (objectId : ObjectId) (url label : Option String)
  | queueControlledObjectCopy (objectId : ObjectId) (destination : BackendId)
  | deleteObjectInstance (objectId : ObjectId) (storageId : Option BackendId)
      (label : Option String)
  | runObjectCopy (copy : ObjectCopyRecord)
  | processObjectCleanups (cleanups : List ObjectCleanupRecord)
  | queueStaleAllocatedObjectCleanups (before : Time) (maxObjects : Nat)
  | editSource (sourceId : SourceId) (edit : SourceEdit)
  | createProfile (profileId : ProfileId) (payload : ProfileRecord)
  | ensureProfile (profileId : ProfileId) (payload : ProfileRecord)
  | deleteProfileIfUnused (profileId : ProfileId)

/-- The use case that an operation runs (`application/contexts/`) -/
def operation (mt : MediaTimestamp) (fc : FlowContract) : Op → App Unit
  | .registerSegments f posts rd readings => discard (registerSegments mt f posts rd readings)
  | .deleteSegments f timerange objectId rounds =>
      deleteSegments mt f timerange objectId rounds
  | .deleteFlow f => deleteFlow f
  | .processDeleteRequest requestId rounds => processDeleteRequest mt requestId rounds
  | .putFlow f flow suppliedFields subject => putFlow fc f flow suppliedFields subject
  | .editFlow f edit identity => editFlow f edit identity
  | .allocateFlowStorage settings f request rounds =>
      allocateFlowStorage settings f request rounds
  | .registerObjectInstance o url label => registerObjectInstance o url label
  | .queueControlledObjectCopy o destination => queueControlledObjectCopy o destination
  | .deleteObjectInstance o storageId label => deleteObjectInstance o storageId label
  | .runObjectCopy copy => runObjectCopy copy
  | .processObjectCleanups cleanups => processObjectCleanups cleanups
  | .queueStaleAllocatedObjectCleanups before maxObjects =>
      queueStaleAllocatedObjectCleanups before maxObjects
  | .editSource s edit => editSource s edit
  | .createProfile p payload => createProfile fc p payload
  | .ensureProfile p payload => ensureProfile fc p payload
  | .deleteProfileIfUnused p => deleteProfileIfUnused p

/-! ## Bookkeeping for the specifications -/

structure FlowCopy where
  flowId : FlowId
  version : Nat
  locked : Bool
deriving DecidableEq

/-- The deletion of a flow row: the segments stored at that moment, and the objects
    that list the flow right after the transaction. -/
structure FlowDeletion where
  flowId : FlowId
  segments : List SegmentRow
  listedBy : List ObjectId
deriving DecidableEq

/-- A committed save of a flow row: the version its copy was read at, the version it
    overwrites, whether a row was there, and whether `put_flow` made it. -/
structure FlowSave where
  flowId : FlowId
  basis : Nat
  current : Nat
  present : Bool
  byPut : Bool
deriving DecidableEq

/-- What the proofs keep book of beside the tables; no operation reads it. -/
structure History where
  /-- how often the flow's metadata has changed, creation and deletion included -/
  version : FlowId → Nat
  copies : SessionId → List FlowCopy
  /-- the flows whose segments `delete_flow` found to be none and is about to delete -/
  condemned : SessionId → List FlowId
  deletions : List FlowDeletion
  saves : List FlowSave

/-- The row of a flow without the time of its last segment change. -/
def Database.metadataOf (db : Database) (f : FlowId) : Option FlowRecord :=
  (db.flows.get f).map FlowRecord.metadata

def Database.flowDeletions (db : Database) : List Write → List (FlowId × List SegmentRow)
  | [] => []
  | w :: ws =>
      (match w with
        | .deleteFlow f => if (db.flows.get f).isSome then [(f, db.segmentsOf f)] else []
        | _ => []) ++ (w.apply db).flowDeletions ws

def Database.flowSaves (db : Database) : List Write → List (FlowId × Nat × Bool)
  | [] => []
  | w :: ws =>
      (match w with
        | .saveFlow flow basis => [(flow.id, basis, (db.flows.get flow.id).isSome)]
        | _ => []) ++ (w.apply db).flowSaves ws

def Database.listing (db : Database) (f : FlowId) : List ObjectId :=
  (db.objects.rows.filter (fun o => f ∈ o.referencedByFlows)).map (·.id)

/-! ## Sessions over a database -/

/-- The database with its locks, the object store, and the bookkeeping. -/
structure World where
  db : Database
  locks : Lock → Option SessionId
  running : SessionId → Option Op
  history : History

/-- A connection of `connection.py`: whether it is in a transaction, and what it has written. -/
structure Session where
  inTransaction : Bool
  writes : List Write

def Session.idle : Session := ⟨false, []⟩

/-- What a session sees: the committed tables with its own writes. -/
def World.view (w : World) (l : Session) : Database := w.db.applyAll l.writes

/-- The answers the environment chooses: the clock, a new id, whether the object store succeeds,
    and the rows that a statement skips as locked. -/
structure Choice where
  now : Time
  uuid : Nat
  storageOk : Bool
  skip : SegmentRow → Bool

def Op.puts (f : FlowId) : Option Op → Bool
  | some (.putFlow g _ _ _) => g = f
  | _ => false

/-- `COMMIT`: the writes become the tables, and the locks are given back. -/
def World.commit (i : SessionId) (writes : List Write) (w : World) : World :=
  let db := w.db.applyAll writes
  { w with
    db
    history := { w.history with
      version := fun f =>
        if db.metadataOf f = w.db.metadataOf f then w.history.version f
        else w.history.version f + 1
      deletions := w.history.deletions ++ (w.db.flowDeletions writes).map
        (fun deletion => ⟨deletion.1, deletion.2, db.listing deletion.1⟩)
      saves := w.history.saves ++ (w.db.flowSaves writes).map
        (fun (f, basis, present) =>
          ⟨f, basis, w.history.version f, present, Op.puts f (w.running i)⟩) } }

/-- `ROLLBACK`, and the end of a connection. -/
def World.release (i : SessionId) (w : World) : World :=
  { w with
    locks := fun lock => if w.locks lock = some i then none else w.locks lock
    history := { w.history with
      copies := Function.update w.history.copies i []
      condemned := Function.update w.history.condemned i [] } }

/-- Take a lock; `none` while another session holds it. Outside a transaction the
    lock is released with the statement. -/
def World.acquire (i : SessionId) (lock : Lock) (w : World) (l : Session) : Option World :=
  match w.locks lock with
  | none => if l.inTransaction then
      some { w with locks := Function.update w.locks lock (some i) } else some w
  | some j => if j = i then some w else none

/-- A statement that writes: in a transaction it is kept back, otherwise committed at once. -/
def World.submit (i : SessionId) (writes : List Write) (w : World) (l : Session) :
    World × Session :=
  if l.inTransaction then
    (w, { l with writes := l.writes ++ writes })
  else
    (w.commit i writes, l)

/-- Bookkeeping of the copies of flow rows that a session has read. -/
def World.noteCopies (i : SessionId) (flows : List FlowId) (w : World) : World :=
  let copies := flows.map fun f =>
    (⟨f, w.history.version f, w.locks (.flow f) = some i⟩ : FlowCopy)
  { w with history := { w.history with
      copies := Function.update w.history.copies i (w.history.copies i ++ copies) } }

/-- Bookkeeping of `delete_flow` finding no segment. -/
def World.noteCondemned (i : SessionId) (f : FlowId) (answer : String) (w : World)
    (l : Session) : World :=
  match w.running i with
  | some (.deleteFlow g) =>
      if g = f ∧ answer = "()" ∧ l.inTransaction = false then
        { w with history := { w.history with
            condemned := Function.update w.history.condemned i
              (f :: w.history.condemned i) } }
      else w
  | _ => w

/-- One statement of a repository method (`adapters/postgres_repository/`) or one request to the
    object store; `none` while it waits for a lock. -/
def exec (mt : MediaTimestamp) (i : SessionId) (ch : Choice) :
    (c : Call) → World → Session → Option (c.Resp × World × Session)
  | .begin, w, l => some ((), w, { l with inTransaction := true })
  | .commit, w, l => some ((), (w.commit i l.writes).release i, .idle)
  | .rollback, w, _ => some ((), w.release i, .idle)
  | .lockFlowSegments f, w, l => (w.acquire i (.flow f) l).map fun w => ((), w, l)
  | .lockObject o, w, l => (w.acquire i (.object o) l).map fun w => ((), w, l)
  | .lockProfile p, w, l => (w.acquire i (.profile p) l).map fun w => ((), w, l)
  -- `FOR UPDATE` locks the row if there is one
  | .lockSource s, w, l =>
      if ((w.view l).sources.get s).isSome then
        (w.acquire i (.source s) l).map fun w => ((), w, l)
      else some ((), w, l)
  | .getFlow f toSave, w, l =>
      some (⟨(w.view l).flows.get f, w.history.version f⟩,
        if toSave then w.noteCopies i [f] else w, l)
  | .listFlowsCollecting f, w, l =>
      let parents := (w.view l).listFlowsCollecting f
      some (parents.map (fun flow => (flow, w.history.version flow.id)),
        w.noteCopies i (parents.map (·.id)), l)
  | .listFlowsBySource s, w, l =>
      some ((w.view l).flows.rows.filter (·.sourceId = some s), w, l)
  | .getSource s, w, l => some ((w.view l).sources.get s, w, l)
  | .getProfile p, w, l => some ((w.view l).profiles.get p, w, l)
  | .countFlowsByProfile p, w, l =>
      some (((w.view l).flows.rows.filter (·.profileId = some p)).length, w, l)
  | .createProfile profile, w, l =>
      let fresh := ((w.view l).profiles.get profile.id).isNone
      let (w, l) := w.submit i (if fresh then [.saveProfile profile] else []) l
      some (fresh, w, l)
  | .deleteProfile p, w, l =>
      let found := ((w.view l).profiles.get p).isSome
      let (w, l) := w.submit i (if found then [.deleteProfile p] else []) l
      some (found, w, l)
  | .listStorageBackends, w, l => some ((w.view l).storageBackends.rows, w, l)
  | .getStorageBackend b, w, l => some ((w.view l).storageBackends.get b, w, l)
  | .hasSegments f, w, l => some (!((w.view l).segmentsOf f).isEmpty, w, l)
  | .getObjects ids, w, l => some ((w.view l).objects.filter (·.id ∈ ids), w, l)
  | .listSegmentsOverlapping f candidates, w, l =>
      some (((w.view l).listSegmentsOverlapping f candidates).map (·.record), w, l)
  | .segmentsOverlap f bounds, w, l =>
      some (((w.view l).segmentsOf f).any (fun row =>
        bounds.any fun b => row.overlaps b.1 b.2), w, l)
  | .listSegmentsForObjects f ids, w, l =>
      some (((w.view l).listSegmentsForObjects f ids).map (·.record), w, l)
  | .segmentDeleteTimerange filter, w, l =>
      let answer := (w.view l).segmentDeleteTimerange mt filter
      some (answer, w.noteCondemned i filter.flowId answer l, l)
  | .deleteSegmentBatch filter limit, w, l =>
      let rows := (w.view l).segmentBatch filter limit ch.skip
      let (w, l) := w.submit i (rows.map .deleteSegment) l
      some (rows.map (·.record), w, l)
  | .createObjects objects, w, l =>
      let fresh := objects.filter fun o => ((w.view l).objects.get o.id).isNone
      let (w, l) := w.submit i (fresh.map .saveObject) l
      some (fresh.map (·.id), w, l)
  | .listUnreferencedObjectsCreatedBefore before limit, w, l =>
      let free o := w.locks (.object o) = none || w.locks (.object o) = some i
      let objects := (w.view l).unreferencedObjects free before limit
      let locks lock := if lock ∈ objects.map (fun o => Lock.object o.id) then some i
        else w.locks lock
      some (objects, if l.inTransaction then { w with locks } else w, l)
  | .getDeleteRequest r, w, l => some ((w.view l).deleteRequests.get r, w, l)
  | .listObjectCleanups r, w, l =>
      some ((w.view l).objectCleanups.rows.filter (fun c =>
        c.deleteRequestId = some r && c.status ≠ .done), w, l)
  | .write wr, w, l => let (w, l) := w.submit i [wr] l; some ((), w, l)
  | .utcNow, w, l => some (ch.now, w, l)
  | .uuid4, w, l => some (ch.uuid, w, l)
  | .storageDelete _ _, w, l => some (ch.storageOk, w, l)
  | .storageCopy _ _ _, w, l => some (ch.storageOk, w, l)

/-- The service: any number of sessions, each at one operation. -/
def service (mt : MediaTimestamp) (fc : FlowContract) :
    Lib.Machine SessionId Call Call.Resp where
  Op := Op
  Shared := World
  Local := Session
  Choice := Choice
  program op := (ExceptT.run (operation mt fc op)).bind fun _ => .pure ()
  idle := .idle
  enter i op w := { w with running := Function.update w.running i (some op) }
  exec := exec mt
  leave i w := { w.release i with running := Function.update w.running i none }

/-- The tables, with nothing locked and nothing on record. -/
def World.initial (db : Database) : World where
  db := db
  locks := fun _ => none
  running := fun _ => none
  history := ⟨fun _ => 0, fun _ => [], fun _ => [], [], []⟩

end Tamoss
