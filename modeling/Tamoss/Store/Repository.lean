/-
  **The repository: its statements, and what PostgreSQL does with them.**

  A `Call` is one statement of `adapters/postgres_repository` (or one answer from the clock, the
  id generator or the object store).
-/
import Tamoss.Store.Registration
import Mathlib.Data.List.Sort

namespace Tamoss

abbrev SessionId := Nat

/-- What a session can hold: `pg_advisory_xact_lock` on a flow's segments, on a
    media object (with the row lock on it) or on a profile, and the row lock on a
    source. -/
inductive Lock where
  | flow (flowId : FlowId)
  | object (objectId : ObjectId)
  | profile (profileId : ProfileId)
  | source (sourceId : SourceId)
deriving DecidableEq

/-- `SegmentDeleteFilter` of `domain/segments.py` -/
structure SegmentDeleteFilter where
  flowId : FlowId
  timerangeStart : Option Int
  timerangeEnd : Option Int
  timerangeIsEmpty : Bool
  objectId : Option ObjectId
deriving DecidableEq

def SegmentDeleteFilter.selects (filter : SegmentDeleteFilter) (row : SegmentRow) : Bool :=
  row.record.flowId = filter.flowId && !filter.timerangeIsEmpty &&
    filter.objectId.all (· = row.record.objectId) &&
    filter.timerangeStart.all (row.timerangeStart ≥ ·) &&
    filter.timerangeEnd.all (row.timerangeEnd ≤ ·)

def SegmentRow.le (a b : SegmentRow) : Prop :=
  a.timerangeEnd < b.timerangeEnd ∨ a.timerangeEnd = b.timerangeEnd ∧
    (a.timerangeStart < b.timerangeStart ∨ a.timerangeStart = b.timerangeStart ∧
      a.record.objectId ≤ b.record.objectId)

instance : DecidableRel SegmentRow.le := fun _ _ =>
  inferInstanceAs (Decidable (_ ∨ _ ∧ (_ ∨ _ ∧ _)))

def orderRows (rows : List SegmentRow) : List SegmentRow :=
  rows.insertionSort SegmentRow.le

@[simp] theorem mem_orderRows {rows : List SegmentRow} {row : SegmentRow} :
    row ∈ orderRows rows ↔ row ∈ rows :=
  (List.perm_insertionSort SegmentRow.le rows).mem_iff

def queryEnd (bounds : SegmentTimerangeBounds) : Int :=
  if bounds.isPoint && bounds.stop = bounds.start then bounds.start + 1 else bounds.stop

def SegmentRow.overlaps (row : SegmentRow) (start stop : Int) : Bool :=
  row.timerangeStart < stop && row.timerangeEnd > start

def timerangeFromBounds (mt : MediaTimestamp) : Option Int → Option Int → String
  | some start, some stop =>
      if start = stop then "[" ++ mt.timestampStr start ++ "]"
      else "[" ++ mt.timestampStr start ++ "_" ++ mt.timestampStr stop ++ ")"
  | _, _ => "()"

namespace Database

def listSegmentsOverlapping (db : Database) (f : FlowId)
    (candidates : List SegmentTimerangeBounds) : List SegmentRow :=
  orderRows ((db.segmentsOf f).filter fun row =>
    candidates.any fun c => row.overlaps c.start (queryEnd c))

/-- The rows `delete_segment_batch` deletes; `skip` are the rows that other
    sessions have locked. -/
def segmentBatch (db : Database) (filter : SegmentDeleteFilter) (limit : Nat)
    (skip : SegmentRow → Bool) : List SegmentRow :=
  (orderRows (db.segments.rows.filter fun row => filter.selects row && !skip row)).take limit

def listSegmentsForObjects (db : Database) (f : FlowId) (ids : List ObjectId) :
    List SegmentRow :=
  orderRows ((db.segmentsOf f).filter fun row => ids.any fun o => row.record.Names o)

def segmentDeleteTimerange (mt : MediaTimestamp) (db : Database)
    (filter : SegmentDeleteFilter) : String :=
  let rows := db.segments.rows.filter filter.selects
  timerangeFromBounds mt (rows.map (·.timerangeStart)).min? (rows.map (·.timerangeEnd)).max?

def listFlowsCollecting (db : Database) (f : FlowId) : List FlowRecord :=
  (db.flows.rows.filter fun flow => flow.flowCollection.any (·.id = f)).insertionSort
    (fun a b => a.id ≤ b.id)

def unreferencedObjects (db : Database) (free : ObjectId → Bool) (before : Time)
    (limit : Nat) : List MediaObjectRecord :=
  ((db.objects.rows.filter fun o =>
      o.referencedByFlows.isEmpty && o.created < before && free o.id).insertionSort
    (fun a b => a.created < b.created ∨ a.created = b.created ∧ a.id ≤ b.id)).take limit

end Database

/-- A flow as read from the database. `version` is bookkeeping: it identifies
    the state of the flow's metadata that was read. -/
structure FlowRead where
  flow : Option FlowRecord
  version : Nat

/-- A statement, or a question to the clock, the id generator or the object store. -/
inductive Call where
  | begin
  | commit
  | rollback
  | lockFlowSegments (flowId : FlowId)
  | lockObject (objectId : ObjectId)
  | lockProfile (profileId : ProfileId)
  | lockSource (sourceId : SourceId)
  /-- `toSave` is bookkeeping: the operation saves the copy it reads -/
  | getFlow (flowId : FlowId) (toSave : Bool)
  | listFlowsCollecting (flowId : FlowId)
  | listFlowsBySource (sourceId : SourceId)
  | getSource (sourceId : SourceId)
  | getProfile (profileId : ProfileId)
  | countFlowsByProfile (profileId : ProfileId)
  | createProfile (profile : ProfileRecord)
  | deleteProfile (profileId : ProfileId)
  | listStorageBackends
  | getStorageBackend (backendId : BackendId)
  | hasSegments (flowId : FlowId)
  | getObjects (objectIds : List ObjectId)
  | listSegmentsOverlapping (flowId : FlowId) (candidates : List SegmentTimerangeBounds)
  | segmentsOverlap (flowId : FlowId) (bounds : List (Int × Int))
  | listSegmentsForObjects (flowId : FlowId) (objectIds : List ObjectId)
  | segmentDeleteTimerange (filter : SegmentDeleteFilter)
  | deleteSegmentBatch (filter : SegmentDeleteFilter) (limit : Nat)
  | createObjects (objects : List MediaObjectRecord)
  | listUnreferencedObjectsCreatedBefore (before : Time) (limit : Nat)
  | getDeleteRequest (requestId : QueueId)
  | listObjectCleanups (requestId : QueueId)
  | write (w : Write)
  | utcNow
  | uuid4
  | storageDelete (objectIds : List ObjectId) (backendId : BackendId)
  | storageCopy (objectId : ObjectId) (source destination : BackendId)

@[reducible] def Call.Resp : Call → Type
  | .getFlow _ _ => FlowRead
  | .listFlowsCollecting _ => List (FlowRecord × Nat)
  | .listFlowsBySource _ => List FlowRecord
  | .getSource _ => Option SourceRecord
  | .getProfile _ => Option ProfileRecord
  | .countFlowsByProfile _ => Nat
  | .createProfile _ => Bool
  | .deleteProfile _ => Bool
  | .listStorageBackends => List StorageBackend
  | .getStorageBackend _ => Option StorageBackend
  | .hasSegments _ => Bool
  | .getObjects _ => ObjectsById
  | .listSegmentsOverlapping _ _ => List SegmentRecord
  | .segmentsOverlap _ _ => Bool
  | .listSegmentsForObjects _ _ => List SegmentRecord
  | .segmentDeleteTimerange _ => String
  | .deleteSegmentBatch _ _ => List SegmentRecord
  | .createObjects _ => List ObjectId
  | .listUnreferencedObjectsCreatedBefore _ _ => List MediaObjectRecord
  | .getDeleteRequest _ => Option DeletionRequestRecord
  | .listObjectCleanups _ => List ObjectCleanupRecord
  | .utcNow => Time
  | .uuid4 => Nat
  | .storageDelete _ _ => Bool
  | .storageCopy _ _ _ => Bool
  | _ => Unit

end Tamoss
