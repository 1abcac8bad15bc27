/-
  **Operations on media objects, and the workers.**

  Allocation (`contexts/storage.py`), instances and copies (`contexts/objects.py`,
  `object_copy.py`), the clean-up queue with the stale-allocation reaper, and the
  worker that processes one delete request (`contexts/deletion_processor.py`).
-/
import Tamoss.Store.Programs

namespace Tamoss

variable (mt : MediaTimestamp)

/-! ## Allocation -/

def allocatedObject (f : FlowId) (backend : StorageBackend) (contentType : String)
    (now : Time) (objectId : ObjectId) : MediaObjectRecord :=
  { MediaObjectRecord.new objectId now with
    allocatedByFlow := some f
    contentType := some contentType
    instances := [{
      storageBackend := some backend
      url := none
      label := some backend.label
      controlled := true
      presigned := false }] }

structure StorageRequest where
  limit : Option Nat
  objectIds : Option (List ObjectId)
  storageId : Option BackendId
  contentType : Option String
  /-- the body has the unsupported field `content-type` -/
  hasHyphenatedContentType : Bool
deriving DecidableEq

structure StorageSettings where
  storageAllocationMaxObjects : Nat
  storageObjectIdMaxLength : Nat
deriving DecidableEq

def validStorageObjectId (settings : StorageSettings) (o : ObjectId) : Bool :=
  o ≠ "" && o.length ≤ settings.storageObjectIdMaxLength && o.toList.head? ≠ some '/' &&
    o.toList.all (fun c => c.toNat ≥ 32) &&
    (o.toList.splitOn '/').all (fun part => part ∉ [[], ['.'], ['.', '.']])

def lockAndCreate (f : FlowId) (backend : StorageBackend) (contentType : String)
    (ids : List ObjectId) : App (List ObjectId) := do
  lockObjects ids
  let now ← call .utcNow
  call (.createObjects (ids.map (allocatedObject f backend contentType now)))

def freshObjectIds : Nat → App (List ObjectId)
  | 0 => pure []
  | n + 1 => do
      let id ← call .uuid4
      let ids ← freshObjectIds n
      pure (toString id :: ids)

def allocateFresh (f : FlowId) (backend : StorageBackend) (contentType : String) :
    Nat → Nat → App Unit
  | _, 0 => pure ()
  | 0, _ + 1 => throw (.runtimeError "interrupted")
  | rounds + 1, wanted + 1 => do
      let ids ← freshObjectIds (wanted + 1)
      let created ← lockAndCreate f backend contentType ids.dedup
      allocateFresh f backend contentType rounds (wanted + 1 - created.length)

def storageContentType (flow : FlowRecord) (request : StorageRequest) : App String :=
  match request.contentType with
  | none => pure (flow.container.getD "")
  | some requested =>
      if !flow.initSegments || some requested = flow.container then
        throw (.badRequest ("Bad request. content_type is only valid for init Objects " ++
          "whose type differs from the Flow container."))
      else
        pure (if requested = "" then flow.container.getD "" else requested)

def storageBackendOf (request : StorageRequest) : App StorageBackend := do
  let backend ← match request.storageId with
    | some id => call (.getStorageBackend id)
    | none => do
        let backends ← call .listStorageBackends
        pure (backends.find? (·.defaultStorage))
  match backend with
  | none => throw (.badRequest "The requested Storage Backend does not exist.")
  | some backend => pure backend

def allocateFlowStorage (settings : StorageSettings) (f : FlowId)
    (request : StorageRequest) (rounds : Nat) : App Unit := do
  let (flow, _) ← requireFlow f false
  ensureFlowWritable flow
  if flow.container = none ∨ flow.container = some "" then
    throw (.badRequest "Bad request. The Flow 'container' is not set.")
  if request.hasHyphenatedContentType then
    throw (.badRequest ("Bad request. Use content_type instead of the unsupported " ++
      "content-type field."))
  let contentType ← storageContentType flow request
  if request.limit.isSome && request.objectIds.isSome then
    throw (.badRequest "Specify either limit or object_ids, not both.")
  -- `limit or 1`: an absent or zero limit asks for one object
  let wanted := max 1 (request.limit.getD 1)
  if wanted > settings.storageAllocationMaxObjects then
    throw (.badRequest "Bad request. Storage allocation limit is too high.")
  let backend ← storageBackendOf request
  let requested := request.objectIds.getD []
  if requested.length > settings.storageAllocationMaxObjects then
    throw (.badRequest "Bad request. Storage allocation limit is too high.")
  if ¬ requested.Nodup then
    throw (.badRequest "One or more supplied object_ids are duplicated.")
  if !requested.all (validStorageObjectId settings) then
    throw (.badRequest "Bad request. Invalid object_id.")
  unitOfWork <|
    match request.objectIds with
    | none => allocateFresh f backend contentType rounds wanted
    | some ids => do
        let created ← lockAndCreate f backend contentType ids
        if created.length ≠ ids.length then
          throw (.badRequest "One or more supplied object_ids already exist.")

/-! ## Instances and copies -/

/-- `get_object` of the use case: an object that no flow references is not there -/
def requireReferencedObject (o : ObjectId) : App MediaObjectRecord := do
  let objects ← call (.getObjects [o])
  match objects.get o with
  | none => throw (.notFound "The requested Media Object does not exist.")
  | some media =>
      if media.referencedByFlows.isEmpty then
        throw (.notFound "The requested Media Object does not exist.")
      else
        pure media

/-- Why `_register_uncontrolled_object_instance` refuses label and URL; the `ValueError` of
    `urlparse` is not caught. -/
def uncontrolledRefusal (url label : Option String) : Option PyError :=
  let invalid := PyError.badRequest "Bad request. Invalid request JSON."
  if label.all (· = "") || url.all (· = "") then some invalid
  else
    match isHttpUrl (url.getD "") with
    | .error e => some e
    | .ok false => some invalid
    | .ok true => none

def registerObjectInstance (o : ObjectId) (url label : Option String) : App Unit :=
  unitOfWork do
    lockObjects [o]
    let media ← requireReferencedObject o
    let invalid := PyError.badRequest "Bad request. Invalid request JSON."
    if (uncontrolledRefusal url label).isSome then
      throw ((uncontrolledRefusal url label).getD invalid)
    let backends ← call .listStorageBackends
    if label.any (· ∈ backends.map (·.label)) then
      throw invalid
    match appendUncontrolledInstance media (url.getD "") label false with
    | .error _ => throw invalid
    | .ok media => call (.write (.saveObject media))

/-- `_controlled_instance` of `object_copy.py` -/
def hasControlledInstanceOn (instances : List ObjectInstance) (b : BackendId) : Bool :=
  instances.any fun i => i.controlled && i.storageBackend.any (·.id = b)

def queueControlledObjectCopy (o : ObjectId) (destination : BackendId) : App Unit :=
  unitOfWork do
    lockObjects [o]
    let media ← requireReferencedObject o
    match ← call (.getStorageBackend destination) with
    | none => throw (.badRequest "The requested Storage Backend does not exist.")
    | some _ =>
        match controlledBackend media with
        | none => throw (.badRequest "Bad request. Invalid request JSON.")
        | some source => do
            if hasControlledInstanceOn media.instances destination then
              throw (.badRequest "Bad request. Invalid request JSON.")
            let id ← call .uuid4
            let now ← call .utcNow
            call (.write (.saveObjectCopy {
              id
              objectId := o
              sourceStorageBackendId := source.id
              destinationStorageBackendId := destination
              objectCreated := some media.created
              created := now
              status := .pending
              attemptCount := 0
              error := none
              claimedBy := none
              updated := now }))

def objectInstanceMatches (storageId : Option BackendId) (label : Option String)
    (i : ObjectInstance) : Bool :=
  storageId.all (fun b => i.storageBackend.any (·.id = b)) &&
    label.all (fun l => i.label = some l)

def instancesToDelete (storageId : Option BackendId) (label : Option String)
    (instances : List ObjectInstance) : List ObjectInstance :=
  let matching := instances.filter (objectInstanceMatches storageId label)
  let backends := matching.filterMap fun i =>
    if i.controlled then i.storageBackend.map (·.id) else none
  instances.filter fun i => i ∈ matching ||
    (i.controlled && i.storageBackend.any (·.id ∈ backends))

def deleteObjectInstance (o : ObjectId) (storageId : Option BackendId)
    (label : Option String) : App Unit := do
  if storageId.isSome = label.isSome then
    throw (.badRequest "Bad request. Invalid query options.")
  unitOfWork do
    lockObjects [o]
    let media ← requireReferencedObject o
    let toDelete := instancesToDelete storageId label media.instances
    if toDelete.isEmpty then
      throw (.notFound "The requested Object instance does not exist.")
    if toDelete.length = media.instances.length then
      throw (.badRequest ("Bad request. All instances would be deleted. " ++
        "Use Flow Segment deletion instead."))
    queueControlledObjectCleanup o toDelete none
    call (.write (.saveObject { media with
      instances := media.instances.filter (· ∉ toDelete) }))

def markObjectCopyDone (copy : ObjectCopyRecord) : App Unit := do
  let now ← call .utcNow
  call (.write (.saveObjectCopy { copy with
    status := .done, error := none, claimedBy := none, updated := now }))

def copyIsStale (copy : ObjectCopyRecord) : Option MediaObjectRecord → Bool
  | none => true
  | some media => media.referencedByFlows.isEmpty ||
      (match copy.objectCreated with
        | some created => media.created ≠ created
        | none => media.created > copy.created)

def performObjectCopy (copy : ObjectCopyRecord) (media : MediaObjectRecord)
    (destination : Option StorageBackend) : App Unit := do
  let source ← call (.getStorageBackend copy.sourceStorageBackendId)
  match source, destination with
  | some source, some destination => do
      if hasControlledInstanceOn media.instances destination.id then
        markObjectCopyDone copy
      else if !hasControlledInstanceOn media.instances source.id then
        throw (.runtimeError "Object copy source instance no longer exists.")
      else
        let copied ← call (.storageCopy copy.objectId source.id destination.id)
        if !copied then
          throw (.runtimeError "object storage")
        call (.write (.saveObject { media with instances := media.instances ++ [{
          storageBackend := some destination
          url := none
          label := some destination.label
          controlled := true
          presigned := false }] }))
        markObjectCopyDone copy
  | _, _ => throw (.runtimeError "Object copy references an unknown storage backend.")

def processObjectCopy (copy : ObjectCopyRecord) : App Unit :=
  unitOfWork do
    lockObjects [copy.objectId]
    let objects ← call (.getObjects [copy.objectId])
    let media := objects.get copy.objectId
    let destination ← call (.getStorageBackend copy.destinationStorageBackendId)
    if copyIsStale copy media then
      if let some backend := destination then
        if media.all (fun m => !hasControlledInstanceOn m.instances backend.id) then
          let deleted ← call (.storageDelete [copy.objectId] backend.id)
          if !deleted then
            throw (.runtimeError "object storage")
      markObjectCopyDone copy
    else
      match media with
      | none => pure ()
      | some media => performObjectCopy copy media destination

def runObjectCopy (copy : ObjectCopyRecord) : App Unit := do
  let now ← call .utcNow
  let copy := { copy with
    status := .started, error := none, attemptCount := copy.attemptCount + 1, updated := now }
  call (.write (.saveObjectCopy copy))
  tryCatch (processObjectCopy copy) fun _ => do
    let now ← call .utcNow
    call (.write (.saveObjectCopy { copy with
      status := .error
      error := some ⟨"object_copy_failed", "Object copy failed; retry will continue."⟩
      claimedBy := none
      updated := now }))
    throw .objectCopyFailed

/-! ## Clean-ups -/

def markObjectCleanupError (cleanup : ObjectCleanupRecord) : App Unit := do
  let now ← call .utcNow
  call (.write (.saveObjectCleanup { cleanup with
    status := .error
    error := some ⟨"object_cleanup_failed",
      "Object storage cleanup failed; retry will continue."⟩
    claimedBy := none
    updated := now }))

def markObjectCleanupDone (cleanup : ObjectCleanupRecord) : App Unit := do
  let now ← call .utcNow
  call (.write (.saveObjectCleanup { cleanup with
    status := .done, error := none, claimedBy := none, updated := now }))

def startObjectCleanup (cleanup : ObjectCleanupRecord) : App ObjectCleanupRecord := do
  let now ← call .utcNow
  let cleanup := { cleanup with
    status := .started, error := none, attemptCount := cleanup.attemptCount + 1
    updated := now }
  call (.write (.saveObjectCleanup cleanup))
  pure cleanup

def startObjectCleanups : List ObjectCleanupRecord → App (List ObjectCleanupRecord × Bool)
  | [] => pure ([], false)
  | cleanup :: cleanups => do
      let cleanup ← startObjectCleanup cleanup
      match ← call (.getStorageBackend cleanup.storageBackendId) with
      | none => do
          markObjectCleanupError cleanup
          let (started, _) ← startObjectCleanups cleanups
          pure (started, true)
      | some _ => do
          let (started, failed) ← startObjectCleanups cleanups
          pure (cleanup :: started, failed)

def cleanupBackend (backend : BackendId) (batch : List ObjectCleanupRecord) : App Unit :=
  unitOfWork do
    let ids := batch.map (·.objectId)
    lockObjects ids
    let objects ← call (.getObjects ids)
    let deletable := ids.filter fun o =>
      (objects.get o).all fun media => !hasControlledInstanceOn media.instances backend
    if !deletable.isEmpty then
      let deleted ← call (.storageDelete deletable backend)
      if !deleted then
        throw (.runtimeError "object storage")
    batch.forM markObjectCleanupDone

def cleanupBackends (started : List ObjectCleanupRecord) : List BackendId → App Bool
  | [] => pure false
  | backend :: backends => do
      let batch := started.filter (·.storageBackendId = backend)
      let ok ← tryCatch (do cleanupBackend backend batch; pure true) fun _ => do
        batch.forM markObjectCleanupError
        pure false
      let failed ← cleanupBackends started backends
      pure (!ok || failed)

def processObjectCleanups (cleanups : List ObjectCleanupRecord) : App Unit := do
  let (started, failed) ← startObjectCleanups cleanups
  let failed' ← cleanupBackends started (started.map (·.storageBackendId)).dedup
  if failed || failed' then
    throw .objectCleanupFailed

/-- `_has_controlled_instance` of `deletion.py` -/
def hasControlledBackend (o : MediaObjectRecord) : Bool :=
  o.instances.any fun i => i.controlled && i.storageBackend.isSome

def queueStaleAllocatedObjectCleanups (before : Time) (maxObjects : Nat) : App Unit :=
  unitOfWork do
    let objects ← call (.listUnreferencedObjectsCreatedBefore before maxObjects)
    objects.forM fun o =>
      if hasControlledBackend o then do
        queueControlledObjectCleanup o.id o.instances none
        call (.write (.deleteObject o.id))
      else
        pure ()

/-! ## The delete-request worker -/

def markDeleteRequestError (requestId : QueueId) (error : DomainError) : App Unit := do
  match ← call (.getDeleteRequest requestId) with
  | none => pure ()
  | some request => do
      let now ← call .utcNow
      call (.write (.saveDeleteRequest { request with
        status := .error, error := some error, claimedBy := none, updated := now }))

def releaseDeleteRequestClaim (requestId : QueueId) : App Unit :=
  unitOfWork do
    match ← call (.getDeleteRequest requestId) with
    | none => pure ()
    | some request => do
        let now ← call .utcNow
        call (.write (.saveDeleteRequest { request with claimedBy := none, updated := now }))

def markDeleteRequestDone (requestId : QueueId) : App Unit :=
  unitOfWork do
    match ← call (.getDeleteRequest requestId) with
    | none => pure ()
    | some request => do
        let cleanups ← call (.listObjectCleanups requestId)
        if !cleanups.isEmpty then
          throw .objectCleanupFailed
        let now ← call .utcNow
        call (.write (.saveDeleteRequest { request with
          timerangeRemaining := none
          status := .done
          error := none
          claimedBy := none
          updated := now }))

def processActiveDeleteRequest (requestId : QueueId) (rounds : Nat) : App Unit := do
  match ← applyDeleteMetadata mt requestId rounds with
  | none => pure ()
  | some request => do
      let cleanups ← call (.listObjectCleanups request.id)
      processObjectCleanups cleanups
      if request.timerangeRemaining.isSome then
        releaseDeleteRequestClaim request.id
      else
        markDeleteRequestDone request.id

def processDeleteRequest (requestId : QueueId) (rounds : Nat) : App Unit := do
  match ← call (.getDeleteRequest requestId) with
  | none => pure ()
  | some request =>
      if !request.status.active then
        pure ()
      else
        tryCatch (processActiveDeleteRequest mt requestId rounds) fun
          | .objectCleanupFailed => markDeleteRequestError requestId
              ⟨"object_cleanup_failed",
                "Object storage cleanup failed; retry will continue."⟩
          | _ => markDeleteRequestError requestId
              ⟨"delete_request_failed",
                "Delete request processing failed; retry will continue."⟩

end Tamoss
