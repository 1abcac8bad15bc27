/-
  **Operations on segments and media objects.**

  Segment registration (`contexts/segments.py`), segment and flow deletion with its
  worker (`contexts/deletion.py`, `contexts/deletion_processor.py`), object
  instances, copies, allocation and the clean-up queues (`contexts/objects.py`,
  `object_copy.py`, `storage.py`), as programs over repository calls.
-/
import Tamoss.Store.Flows

namespace Tamoss

variable (mt : MediaTimestamp)

/-- `lock_objects`: every id once, in the one global order -/
def lockObjects (ids : List ObjectId) : App Unit :=
  (ids.dedup.insertionSort (· ≤ ·)).forM fun o => call (.lockObject o)

/-! ## Registration -/

def verifyControlledUploads (posts : List SegmentPostInput) (rd : Readings) :
    App UploadChecks := do
  let ids := posts.flatMap SegmentPostInput.objectIds
  if ids.isEmpty then
    pure []
  else
    let objects ← call (.getObjects ids)
    pure (objects.rows.filterMap fun o =>
      if o.referencedByFlows.isEmpty then
        (controlledBackend o).map fun backend =>
          ((o.id, o.created), rd.objectMetadata o.id backend)
      else none)

def segmentRow (segment : SegmentRecord) : Except PyError SegmentRow := do
  let parsed ← parseTimerange mt "timerange" false segment.timerange
  let bounds ← finiteNormalizedTimerangeBounds mt parsed
  pure ⟨segment, bounds.start, bounds.stop⟩

def saveRegisteredSegments (flow : FlowRecord) (version : Nat)
    (objects : List MediaObjectRecord) (segments : List SegmentRecord) : App Unit := do
  call (.lockFlowSegments flow.id)
  call (.write (.saveFlow flow version))
  objects.forM fun o => call (.write (.saveObject o))
  let rows ← (segments.mapM (segmentRow mt) : Except PyError (List SegmentRow))
  let overlap ← call (.segmentsOverlap flow.id
    (rows.map fun row => (row.timerangeStart, row.timerangeEnd)))
  if overlap then
    throw .segmentOverlap
  rows.forM fun row => call (.write (.saveSegment row))

def requestedObjectIds (flow : FlowRecord) (posts : List SegmentPost) :
    App (List ObjectId) := do
  let media := posts.map (·.objectId)
  let requested := media ++ posts.filterMap (·.initObjectId)
  if flow.initSegments then
    let objects ← call (.getObjects media)
    pure (requested ++ objects.rows.filterMap (·.initObjectId))
  else
    pure requested

def registerCandidates (flow : FlowRecord) (version : Nat) (uploadChecks : UploadChecks)
    (readings : Nat → Readings) (validated : List (Option SegmentPost))
    (known : List mt.TimeRange) : App (List SegmentWriteResult) := do
  let requested ← requestedObjectIds flow (validated.filterMap id)
  lockObjects requested
  let objects ← call (.getObjects requested)
  let (ws, results) ← (registerPosts mt flow requested uploadChecks readings 0
    ⟨known, objects, .empty, []⟩ validated :
      Except PyError (WorkingSet mt × List SegmentWriteResult))
  if !ws.accepted.isEmpty then
    let now ← call .utcNow
    saveRegisteredSegments mt { flow with segmentsUpdated := some now } version
      ws.updated.rows ws.accepted
  pure results

def validatePosts (reservedLabels : List String) (posts : List SegmentPostInput) :
    List (Option (SegmentPost × SegmentTimerangeBounds)) :=
  posts.map fun post => (validateSegmentPayload mt reservedLabels post).toOption

def registerSegmentsLocked (f : FlowId) (posts : List SegmentPostInput)
    (uploadChecks : UploadChecks) (readings : Nat → Readings) :
    App (List SegmentWriteResult) := do
  let (flow, version) ← requireFlow f true
  ensureFlowWritable flow
  if flow.container = none ∨ flow.container = some "" then
    return posts.map fun _ => .error "Bad request. The Flow 'container' is not set."
  let backends ← call .listStorageBackends
  let reservedLabels := (backends.map (·.label)).filter (· ≠ "")
  let validated := validatePosts mt reservedLabels posts
  let bounds := (validated.filterMap id).map (·.2)
  if bounds.isEmpty then
    return posts.map fun _ => .error invalidSegmentJson
  let stored ← call (.listSegmentsOverlapping f bounds)
  let known ← (stored.mapM (fun segment =>
    parseTimerange mt "timerange" true segment.timerange) :
      Except PyError (List mt.TimeRange))
  registerCandidates mt flow version uploadChecks readings
    (validated.map (Option.map (·.1))) known

def registerSegments (f : FlowId) (posts : List SegmentPostInput) (rd : Readings)
    (readings : Nat → Readings) : App (List SegmentWriteResult) := do
  let uploadChecks ← verifyControlledUploads posts rd
  tryCatch
    (unitOfWork do
      call (.lockFlowSegments f)
      registerSegmentsLocked mt f posts uploadChecks readings)
    fun
      | .segmentOverlap => pure (posts.map fun _ => .error segmentOverlapMessage)
      | e => throw e

/-! ## Deleting segments -/

def segmentDeleteFilter (f : FlowId) (timerange : Option String)
    (objectId : Option ObjectId) : Except PyError SegmentDeleteFilter :=
  if timerange = none ∨ timerange = some "" ∨ timerange = some "_" then
    pure ⟨f, none, none, false, objectId⟩
  else do
    let requested ← parseTimerange mt "timerange" false (timerange.getD "")
    let bounds := normalizedTimerangeBounds mt requested
    pure ⟨f, bounds.start, bounds.stop, bounds.isEmpty, objectId⟩

/-- The object ids a segment names, as `deletion_processor.py` collects them: an
    empty init object id does not count. -/
def SegmentRecord.objectIds (segment : SegmentRecord) : List ObjectId :=
  segment.objectId :: segment.initObjectId.toList.filter (· ≠ "")

def queueControlledObjectCleanup (objectId : ObjectId) (instances : List ObjectInstance)
    (requestId : Option QueueId) : App Unit :=
  let backends := instances.filterMap fun i =>
    if i.controlled then i.storageBackend.map (·.id) else none
  backends.dedup.forM fun backend => do
    let id ← call .uuid4
    let now ← call .utcNow
    call (.write (.saveObjectCleanup {
      id, objectId
      storageBackendId := backend
      status := .pending
      deleteRequestId := requestId
      attemptCount := 0
      error := none
      claimedBy := none
      updated := now }))

def segmentObjectTimerange (segment : SegmentRecord) : Except PyError String :=
  objectTimerangeFromSegmentFields mt segment.timerange segment.tsOffset
    segment.objectTimerange

/-- The segments of every referencing flow that use the object as media; those of
    flow `f` are already known. -/
def objectSegments (f : FlowId) (remaining : List SegmentRecord) (o : ObjectId) :
    List FlowId → App (List SegmentRecord)
  | [] => pure []
  | g :: flows => do
      let segments ← if g = f then
          pure (remaining.filter (·.objectId = o))
        else call (.listSegmentsForObjects g [o])
      let rest ← objectSegments f remaining o flows
      pure (segments ++ rest)

def objectTimerange (f : FlowId) (remaining : List SegmentRecord)
    (o : MediaObjectRecord) : App (Option String) := do
  let segments ← objectSegments f remaining o.id o.referencedByFlows
  let ranges ← (segments.mapM (segmentObjectTimerange mt) : Except PyError (List String))
  (timerangeUnionStrings mt (ranges.map some) : Except PyError (Option String))

def refreshObject (f : FlowId) (remaining : List SegmentRecord)
    (requestId : Option QueueId) (objects : ObjectsById) (o : ObjectId) : App Unit :=
  match objects.get o with
  | none => pure ()
  | some media => do
      let media := if o ∈ remaining.flatMap SegmentRecord.objectIds then media
        else media.discardReference f
      if media.referencedByFlows.isEmpty then
        queueControlledObjectCleanup o media.instances requestId
        call (.write (.deleteObject o))
      else
        let timerange ← if media.objectKind = .init then pure none
          else objectTimerange mt f remaining media
        call (.write (.saveObject { media with timerange }))

def refreshDeletedObjectReferences (f : FlowId) (deleted : List SegmentRecord)
    (requestId : Option QueueId) : App Unit := do
  let ids := (deleted.flatMap SegmentRecord.objectIds).dedup
  lockObjects ids
  let remaining ← call (.listSegmentsForObjects f ids)
  let objects ← call (.getObjects ids)
  ids.forM (refreshObject mt f remaining requestId objects)

def deleteSegmentBatchSize : Nat := 1000

def deleteRounds (filter : SegmentDeleteFilter) (requestId : Option QueueId)
    (drain : Bool) : Nat → App String
  | 0 => throw (.runtimeError "interrupted")
  | rounds + 1 => do
      let deleted ← call (.deleteSegmentBatch filter deleteSegmentBatchSize)
      if deleted.isEmpty then
        call (.segmentDeleteTimerange filter)
      else
        refreshDeletedObjectReferences mt filter.flowId deleted requestId
        let remaining ← call (.segmentDeleteTimerange filter)
        if remaining = "()" ∨ drain = false then
          pure remaining
        else
          deleteRounds filter requestId drain rounds

def deleteMatchingSegments (filter : SegmentDeleteFilter) (requestId : Option QueueId)
    (drain : Bool) (rounds : Nat) : App String := do
  call (.lockFlowSegments filter.flowId)
  let _ ← call (.getFlow filter.flowId false)
  deleteRounds mt filter requestId drain rounds

def recordDeletionRequest (f : FlowId) (timerange : String) (deleteFlow : Bool) :
    App Unit := do
  let now ← call .utcNow
  let id ← call .uuid4
  call (.write (.saveDeleteRequest {
    id
    flowId := f
    timerangeToDelete := timerange
    timerangeRemaining := some timerange
    deleteFlow
    status := .created
    error := none
    claimedBy := none
    updated := now }))

def deleteSegments (f : FlowId) (timerange : Option String) (objectId : Option ObjectId)
    (rounds : Nat) : App Unit := do
  let (flow, version) ← requireFlow f objectId.isSome
  ensureFlowWritable flow
  match segmentDeleteFilter mt f timerange objectId with
  | .error _ => throw (.badRequest "Bad request. Invalid query options.")
  | .ok filter => do
      let matching ← call (.segmentDeleteTimerange filter)
      if matching = "()" then
        pure ()
      else if objectId.isSome then
        unitOfWork do
          let _ ← deleteMatchingSegments mt filter none true rounds
          let now ← call .utcNow
          call (.write (.saveFlow { flow with segmentsUpdated := some now } version))
      else
        recordDeletionRequest f
          (if timerange = none ∨ timerange = some "" ∨ timerange = some "_" then matching
            else timerange.getD "") false

/-! ## Deleting flows -/

def deleteOrphanSource (sourceId : Option SourceId) : App Unit :=
  match sourceId with
  | none => pure ()
  | some sourceId => do
      let flows ← call (.listFlowsBySource sourceId)
      if flows.isEmpty then
        let _ ← call (.getSource sourceId)
        call (.write (.deleteSource sourceId))
      else
        pure ()

def removeFlow (flow : FlowRecord) (f : FlowId) : App Unit := do
  unlinkFlowCollectionReferences f
  call (.write (.deleteFlow f))
  deleteOrphanSource flow.sourceId

def deleteFlow (f : FlowId) : App Unit := do
  let (flow, _) ← requireFlow f false
  ensureFlowWritable flow
  let filter : SegmentDeleteFilter := ⟨f, none, none, false, none⟩
  let timerange ← call (.segmentDeleteTimerange filter)
  if timerange = "()" then
    unitOfWork (removeFlow flow f)
  else
    recordDeletionRequest f timerange true

def processFlowDeleteRequest (request : DeletionRequestRecord)
    (filter : SegmentDeleteFilter) (rounds : Nat) : App (Option String) := do
  let remaining ← deleteMatchingSegments mt filter (some request.id) false rounds
  if remaining ≠ "()" then
    return some remaining
  let read ← call (.getFlow request.flowId false)
  match read.flow with
  | none => pure none
  | some flow => do
      removeFlow flow request.flowId
      pure none

def processSegmentDeleteRequest (request : DeletionRequestRecord)
    (filter : SegmentDeleteFilter) (rounds : Nat) : App (Option String) := do
  let read ← call (.getFlow request.flowId true)
  match read.flow with
  | none => pure none
  | some flow => do
      let remaining ← deleteMatchingSegments mt filter (some request.id) false rounds
      let now ← call .utcNow
      call (.write (.saveFlow { flow with segmentsUpdated := some now } read.version))
      pure (if remaining = "()" then none else some remaining)

def QueueStatus.active (status : QueueStatus) : Bool :=
  status = .created || status = .started || status = .error

def applyDeleteMetadata (requestId : QueueId) (rounds : Nat) :
    App (Option DeletionRequestRecord) :=
  unitOfWork do
    match ← call (.getDeleteRequest requestId) with
    | none => pure none
    | some request =>
        if !request.status.active then
          pure (some request)
        else do
          let now ← call .utcNow
          let request := { request with status := .started, error := none, updated := now }
          call (.write (.saveDeleteRequest request))
          match request.timerangeRemaining with
          | none => pure (some request)
          | some timerange => do
              let filter ← (segmentDeleteFilter mt request.flowId (some timerange) none :
                Except PyError SegmentDeleteFilter)
              let remaining ← if request.deleteFlow then
                  processFlowDeleteRequest mt request filter rounds
                else
                  processSegmentDeleteRequest mt request filter rounds
              let now ← call .utcNow
              let request := { request with timerangeRemaining := remaining, updated := now }
              call (.write (.saveDeleteRequest request))
              pure (some request)

end Tamoss
