/-
  **The records, the database and its writes.**

  The record types are those of `tamoss/domain/model.py`, restricted to the fields some modelled
  function reads or writes; the tables are those of `db/migrations/assets/schema.sql` with their
  primary keys.
-/
import Tamoss.Lib.Table
import Tamoss.Store.TimeRange

namespace Tamoss

/-! ## Identifiers and instants

Flow, source, profile, backend, request and queue ids are UUIDs; object ids are
strings chosen by clients; instants are integers. -/

abbrev FlowId := Nat
abbrev SourceId := Nat
abbrev ProfileId := Nat
abbrev BackendId := Nat
abbrev QueueId := Nat
abbrev ObjectId := String
abbrev Time := Nat

/-! ## Flows and sources -/

/-- One entry of a flow's `flow_collection`: the collected flow, and the other
    fields as text. -/
structure CollectionItem where
  id : FlowId
  rest : String
deriving DecidableEq

inductive DataValue where
  | text (value : String)
  | int (value : Int)
  | bool (value : Bool)
  | uuid (value : Nat)
  | instant (value : Time)
  | tags (values : List (String × String))
  | collection (items : List CollectionItem)
  | json (serialised : String)
deriving DecidableEq

abbrev FlowData := List (String × DataValue)

namespace FlowData

def get (data : FlowData) (name : String) : Option DataValue :=
  (data.find? (fun entry => entry.1 = name)).map (·.2)

def pop (data : FlowData) (name : String) : FlowData :=
  data.filter (fun entry => entry.1 ≠ name)

def set (data : FlowData) (name : String) (value : DataValue) : FlowData :=
  data.pop name ++ [(name, value)]

def setdefault (data : FlowData) (name : String) (value : DataValue) : FlowData :=
  if (data.get name).isSome then data else data.set name value

/-- `{**data, **other}` -/
def merge (data other : FlowData) : FlowData :=
  other.foldl (fun acc entry => acc.set entry.1 entry.2) data

end FlowData

structure FlowRecord where
  id : FlowId
  data : FlowData
  sourceId : Option SourceId
  format : Option String
  container : Option String
  profileId : Option ProfileId
  status : Option String
  initSegments : Bool
  readOnly : Bool
  tags : List (String × String)
  created : Time
  metadataUpdated : Time
  segmentsUpdated : Option Time
deriving DecidableEq

namespace FlowRecord

def flowCollection (flow : FlowRecord) : List CollectionItem :=
  match flow.data.get "flow_collection" with
  | some (.collection items) => items
  | _ => []

def metadata (flow : FlowRecord) : FlowRecord := { flow with segmentsUpdated := none }

end FlowRecord

structure SourceRecord where
  id : SourceId
  format : Option String
  label : Option DataValue
  description : Option DataValue
  tags : List (String × String)
  created : Time
  metadataUpdated : Time
deriving DecidableEq

structure ProfileRecord where
  id : ProfileId
  flowMetadata : FlowData
  label : Option String := none
  description : Option String := none
  tags : List (String × String) := []
deriving DecidableEq

/-! ## Media objects and segments -/

inductive TagValue where
  | text (value : String)
  | list (values : List String)
deriving DecidableEq

structure StorageBackend where
  id : BackendId
  label : String
  defaultStorage : Bool := false
  provider : String := ""
  region : String := ""
  storeProduct : String := ""
  storeType : String := "http_object_store"
  bucketName : Option String := none
  endpointUrl : Option String := none
  publicEndpointUrl : Option String := none
  accessKey : Option String := none
  secretKey : Option String := none
  tags : List (String × TagValue) := []
deriving DecidableEq

structure ObjectInstance where
  storageBackend : Option StorageBackend
  url : Option String
  label : Option String
  controlled : Bool
  presigned : Bool
deriving DecidableEq

inductive ObjectKind where
  | unassigned
  | media
  | init
deriving DecidableEq

/-- `MediaObjectRecord`; `referenced_by_flows` is a set, kept as a list. -/
structure MediaObjectRecord where
  id : ObjectId
  timerange : Option String
  initObjectId : Option ObjectId
  firstReferencedByFlow : Option FlowId
  allocatedByFlow : Option FlowId
  referencedByFlows : List FlowId
  instances : List ObjectInstance
  keyFrameCount : Option Int
  bytesWritten : Nat
  objectKind : ObjectKind
  contentType : Option String
  created : Time
deriving DecidableEq

namespace MediaObjectRecord

def new (id : ObjectId) (now : Time) : MediaObjectRecord where
  id := id
  timerange := none
  initObjectId := none
  firstReferencedByFlow := none
  allocatedByFlow := none
  referencedByFlows := []
  instances := []
  keyFrameCount := none
  bytesWritten := 0
  objectKind := .unassigned
  contentType := none
  created := now

def addReference (o : MediaObjectRecord) (f : FlowId) : MediaObjectRecord :=
  if f ∈ o.referencedByFlows then o
  else { o with referencedByFlows := o.referencedByFlows ++ [f] }

def discardReference (o : MediaObjectRecord) (f : FlowId) : MediaObjectRecord :=
  { o with referencedByFlows := o.referencedByFlows.filter (· ≠ f) }

@[simp] theorem addReference_id (o : MediaObjectRecord) (f : FlowId) :
    (o.addReference f).id = o.id := by
  unfold addReference
  split <;> rfl

variable {o : MediaObjectRecord} {f g : FlowId}

@[simp] theorem mem_addReference :
    g ∈ (o.addReference f).referencedByFlows ↔ g ∈ o.referencedByFlows ∨ g = f := by
  unfold addReference
  split
  · rename_i h
    exact ⟨.inl, fun hg => hg.elim (fun hg => hg) (fun hgf => hgf ▸ h)⟩
  · simp

@[simp] theorem mem_discardReference :
    g ∈ (o.discardReference f).referencedByFlows ↔ g ∈ o.referencedByFlows ∧ g ≠ f := by
  simp [discardReference]

end MediaObjectRecord

structure SegmentRecord where
  flowId : FlowId
  objectId : ObjectId
  timerange : String
  initObjectId : Option ObjectId
  tsOffset : Option String
  lastDuration : Option String
  objectTimerange : Option String
  sampleOffset : Option Int
  sampleCount : Option Int
  keyFrameCount : Option Int
  created : Time
deriving DecidableEq

def SegmentRecord.Names (segment : SegmentRecord) (o : ObjectId) : Prop :=
  segment.objectId = o ∨ segment.initObjectId = some o

instance (segment : SegmentRecord) (o : ObjectId) : Decidable (segment.Names o) :=
  inferInstanceAs (Decidable (_ ∨ _))

structure SegmentRow where
  record : SegmentRecord
  timerangeStart : Int
  timerangeEnd : Int
deriving DecidableEq

def SegmentRow.key (row : SegmentRow) : FlowId × ObjectId × String :=
  (row.record.flowId, row.record.objectId, row.record.timerange)

/-! ## Queue records -/

inductive QueueStatus where
  | created
  | pending
  | started
  | done
  | error
deriving DecidableEq

/-- `DomainErrorPayload`, without its time. -/
structure DomainError where
  type : String
  summary : String
deriving DecidableEq

structure DeletionRequestRecord where
  id : QueueId
  flowId : FlowId
  timerangeToDelete : String
  timerangeRemaining : Option String
  deleteFlow : Bool
  status : QueueStatus
  error : Option DomainError
  claimedBy : Option String
  updated : Time
deriving DecidableEq

structure ObjectCleanupRecord where
  id : QueueId
  objectId : ObjectId
  storageBackendId : BackendId
  status : QueueStatus
  deleteRequestId : Option QueueId
  attemptCount : Nat
  error : Option DomainError
  claimedBy : Option String
  updated : Time
deriving DecidableEq

structure ObjectCopyRecord where
  id : QueueId
  objectId : ObjectId
  sourceStorageBackendId : BackendId
  destinationStorageBackendId : BackendId
  objectCreated : Option Time
  created : Time
  status : QueueStatus
  attemptCount : Nat
  error : Option DomainError
  claimedBy : Option String
  updated : Time
deriving DecidableEq

/-! ## The database and its writes -/

structure Database where
  flows : Lib.Table FlowId FlowRecord FlowRecord.id
  sources : Lib.Table SourceId SourceRecord SourceRecord.id
  profiles : Lib.Table ProfileId ProfileRecord ProfileRecord.id
  storageBackends : Lib.Table BackendId StorageBackend StorageBackend.id
  objects : Lib.Table ObjectId MediaObjectRecord MediaObjectRecord.id
  segments : Lib.Table (FlowId × ObjectId × String) SegmentRow SegmentRow.key
  deleteRequests : Lib.Table QueueId DeletionRequestRecord DeletionRequestRecord.id
  objectCleanups : Lib.Table QueueId ObjectCleanupRecord ObjectCleanupRecord.id
  objectCopies : Lib.Table QueueId ObjectCopyRecord ObjectCopyRecord.id

def Database.empty : Database where
  flows := .empty
  sources := .empty
  profiles := .empty
  storageBackends := .empty
  objects := .empty
  segments := .empty
  deleteRequests := .empty
  objectCleanups := .empty
  objectCopies := .empty

/-- The row-level effect of the data-changing statements. -/
inductive Write where
  /-- `basis` is bookkeeping: the version of the copy being saved -/
  | saveFlow (flow : FlowRecord) (basis : Nat)
  | deleteFlow (flowId : FlowId)
  | saveSource (source : SourceRecord)
  | deleteSource (sourceId : SourceId)
  | saveProfile (profile : ProfileRecord)
  | deleteProfile (profileId : ProfileId)
  | saveObject (object : MediaObjectRecord)
  | deleteObject (objectId : ObjectId)
  | saveSegment (row : SegmentRow)
  | deleteSegment (row : SegmentRow)
  | saveDeleteRequest (request : DeletionRequestRecord)
  | saveObjectCleanup (cleanup : ObjectCleanupRecord)
  | saveObjectCopy (copy : ObjectCopyRecord)
deriving DecidableEq

def Database.segmentsOf (db : Database) (f : FlowId) : List SegmentRow :=
  db.segments.rows.filter (fun row => row.record.flowId = f)

def Write.apply (db : Database) : Write → Database
  | .saveFlow flow _ => { db with flows := db.flows.upsert flow }
  | .deleteFlow f => { db with
      flows := db.flows.erase f
      -- FOREIGN KEY (flow_id) .. ON DELETE CASCADE
      segments := db.segments.filter (fun row => row.record.flowId ≠ f) }
  | .saveSource source => { db with sources := db.sources.upsert source }
  | .deleteSource sourceId => { db with sources := db.sources.erase sourceId }
  | .saveProfile profile => { db with profiles := db.profiles.upsert profile }
  | .deleteProfile profileId => { db with profiles := db.profiles.erase profileId }
  | .saveObject object => { db with objects := db.objects.upsert object }
  | .deleteObject objectId => { db with objects := db.objects.erase objectId }
  | .saveSegment row => { db with segments := db.segments.upsert row }
  | .deleteSegment row => { db with segments := db.segments.erase row.key }
  | .saveDeleteRequest request =>
      { db with deleteRequests := db.deleteRequests.upsert request }
  | .saveObjectCleanup cleanup =>
      { db with objectCleanups := db.objectCleanups.upsert cleanup }
  | .saveObjectCopy copy => { db with objectCopies := db.objectCopies.upsert copy }

def Database.applyAll (db : Database) (writes : List Write) : Database :=
  writes.foldl Write.apply db

@[simp] theorem Database.applyAll_nil (db : Database) : db.applyAll [] = db := rfl

@[simp] theorem Database.applyAll_cons (db : Database) (w : Write) (ws : List Write) :
    db.applyAll (w :: ws) = (w.apply db).applyAll ws := rfl

@[simp] theorem Database.applyAll_append (db : Database) (ws ws' : List Write) :
    db.applyAll (ws ++ ws') = (db.applyAll ws).applyAll ws' := by
  simp [Database.applyAll]

@[simp] theorem Database.mem_segmentsOf {db : Database} {f : FlowId} {row : SegmentRow} :
    row ∈ db.segmentsOf f ↔ row ∈ db.segments.rows ∧ row.record.flowId = f := by
  simp [Database.segmentsOf]

end Tamoss
