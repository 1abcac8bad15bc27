/-
  **The `StorageBackend` reconciler.**

  `reconcileStorageBackend` is `StorageBackendReconciler.Reconcile` with its stages and its
  finalizer.
-/
import Tamoss.Jobs.Calls

namespace Tamoss.Jobs

open Lib Operator

/-- `storageBackendStatusInput` -/
structure BackendReport where
  ready : Bool := false
  bucketReady : Bool := false
  databaseReady : Bool := false
  degraded : Bool := false
  reason : String := ""
  message : String := ""
deriving DecidableEq

def backendStatus (b : StorageBackend) (s : BackendSpec) (r : BackendReport) : BackendStatus where
  observedGeneration := b.generation
  phase := if r.degraded then "Degraded" else if r.ready then "Ready" else "Progressing"
  backendID := s.id
  bucketName := s.bucketName
  bucketReady := r.bucketReady
  databaseReady := r.databaseReady
  ready := r.ready
  reason := r.reason
  message := r.message

def updateStorageBackendStatus (key : Key) (b : StorageBackend) (s : BackendSpec)
    (r : BackendReport) : Reconcile :=
  if backendStatus b s r = b.status then pure ()
  else do
    let _ ← ask (.patchBackendStatus key b (backendStatus b s r))
    pure ()

def missingStorageBackendFields (s : BackendSpec) : List String :=
  let checks : Labels :=
    [(".spec.bucketName", s.bucketName)] ++
      (if s.webIdentity then []
      else [(".spec.credentials.existingSecret", s.existingSecret)]) ++
      [(".spec.endpoint.default.url", s.endpointURL), (".spec.tamossRef.name", s.tamossRef)]
  (checks.filter fun c => trimmed c.2 = "").map Prod.fst

def StorageBackend.resolved (d : Site) (key : Key) (b : StorageBackend) : BackendSpec :=
  b.spec.applyDefaults d key

def checkStorageBackendSpec (key : Key) (b : StorageBackend) (next : BackendSpec → Reconcile)
    (s : BackendSpec) : Reconcile :=
  if s.provider ≠ .rustfs ∧ ¬ s.isExternalObjectStore then
    updateStorageBackendStatus key b s
      { degraded := true, reason := "UnsupportedProvider"
        message := "StorageBackend provider " ++ quoted (providerText s.provider) ++
          " is not supported" }
  else if missingStorageBackendFields s ≠ [] then
    updateStorageBackendStatus key b s
      { degraded := true, reason := "MissingProviderConfiguration"
        message := "Required StorageBackend fields are missing: " ++
          String.intercalate ", " (missingStorageBackendFields s) }
  else if !s.validTags then
    updateStorageBackendStatus key b s
      { degraded := true, reason := "InvalidStorageBackendTags"
        message := "StorageBackend tags are invalid" }
  else next s

def resolveStorageBackendSpec (d : Site) (key : Key) (b : StorageBackend)
    (next : BackendSpec → Reconcile) : Reconcile :=
  checkStorageBackendSpec key b next (b.resolved d key)

def loadStorageBackendTamoss (d : Site) (key : Key) (b : StorageBackend) (s : BackendSpec)
    (next : Instance → Reconcile) : Reconcile := do
  onFound (← ask (.getTamoss ⟨key.namespaceName, s.tamossRef⟩)) fun
  | none =>
    updateStorageBackendStatus key b s
      { reason := "TamossNotFound"
        message := "Referenced Tamoss " ++ s.tamossRef ++ " was not found" }
  | some t =>
    match resolveTamoss d.installation t with
    | .error e => updateStorageBackendStatus key b s { reason := e.reason, message := e.message }
    | .ok t => next t

def reconcileStorageBackendCredentials (key : Key) (b : StorageBackend) (t : Instance)
    (s : BackendSpec) (next : Reconcile) : Reconcile := do
  match ← ask (.checkCredentials key s) with
  | .ok () => next
  | .error refusal =>
    onOk (← ask (.syncRuntimeCredentials t.key)) fun () =>
    updateStorageBackendStatus key b s { reason := refusal.1, message := refusal.2 }

def recordBucketState (key : Key) (b : StorageBackend) (t : Instance) (s : BackendSpec)
    (next : Reconcile) : Reconcile := do
  onOk (← ask (.applyConfigMap (storageBackendResourceKey key "bucket-state") b.uid
    (bucketState key b t s))) fun () => next

def reconcileBucketState (key : Key) (b : StorageBackend) (t : Instance) (s : BackendSpec)
    (next : Reconcile) (state : Option ConfigMap) : Reconcile :=
  if bucketReady state t s then next
  else if s.isExternalObjectStore then recordBucketState key b t s next
  else do
    match ← ask (.ensureBucket s) with
    | none => recordBucketState key b t s next
    | some e =>
      updateStorageBackendStatus key b s
        { reason := "BucketCreationFailed"
          message := "RustFS bucket " ++ s.bucketName ++ " is not ready: " ++ e }

def reconcileStorageBackendBucket (key : Key) (b : StorageBackend) (t : Instance)
    (s : BackendSpec) (next : Reconcile) : Reconcile := do
  onFound (← ask (.getConfigMap (storageBackendResourceKey key "bucket-state")))
    (reconcileBucketState key b t s next)

def schemaStateReady (d : Site) (t : Instance) (next : Bool → Reconcile) : Reconcile := do
  match ← ask (.getConfigMap (schemaStateKey t)) with
  | .error _ => next false
  | .ok state =>
    match d.installation.selectRelease t with
    | .error _ => next false
    | .ok release => next (schemaStateMatchesTarget state release.schema)

def reportRegistration (key : Key) (b : StorageBackend) (s : BackendSpec)
    (reason message : String) : Reconcile :=
  updateStorageBackendStatus key b s { bucketReady := true, reason := reason, message := message }

def reconcileStorageBackendJob (key : Key) (b : StorageBackend) (t : Instance) (s : BackendSpec)
    (next : Reconcile) : Option Job → Reconcile
  | none => do
    onOk (← ask (.applyJob (storageBackendResourceKey key "db-register") (some b.uid)
      (registrationJob key t s))) fun () =>
    reportRegistration key b s "DatabaseRegistrationInProgress"
      "TAMS storage backend registration job was launched"
  | some job =>
    let jobKey := storageBackendResourceKey key "db-register"
    if job.desiredHash ≠ registrationHash s.row ∧ job.succeeded then do
      afterDelete (← ask (.deleteJob jobKey false))
        (reportRegistration key b s "DatabaseRegistrationInProgress"
          "TAMS storage backend registration job is being refreshed")
    else if job.failed then do
      afterDelete (← ask (.deleteJob jobKey false))
        (reportRegistration key b s "DatabaseRegistrationRetrying"
          ("TAMS storage backend registration job " ++ jobKey.name ++
            " failed and is being retried"))
    else if !job.succeeded then
      reportRegistration key b s "DatabaseRegistrationInProgress"
        ("TAMS storage backend registration job " ++ jobKey.name ++ " is still running")
    else do
      onOk (← ask (.applyConfigMap (storageBackendResourceKey key "db-state") b.uid
        (databaseState key b s))) fun () => next

def reconcileRegistrationState (key : Key) (b : StorageBackend) (t : Instance) (s : BackendSpec)
    (next : Reconcile) (state : Option ConfigMap) : Reconcile :=
  if databaseRegistered state s then next
  else do
    onFound (← ask (.getJob (storageBackendResourceKey key "db-register")))
      (reconcileStorageBackendJob key b t s next)

def reconcileStorageBackendDatabase (key : Key) (b : StorageBackend) (t : Instance)
    (s : BackendSpec) (next : Reconcile) : Reconcile := do
  onFound (← ask (.getConfigMap (storageBackendResourceKey key "db-state")))
    (reconcileRegistrationState key b t s next)

def reconcileStorageBackendDatabaseStage (d : Site) (key : Key) (b : StorageBackend)
    (t : Instance) (s : BackendSpec) (next : Reconcile) : Reconcile :=
  schemaStateReady d t fun ready =>
    if ready then reconcileStorageBackendDatabase key b t s next
    else
      updateStorageBackendStatus key b s
        { bucketReady := true, reason := "SchemaNotReady"
          message := "Tamoss " ++ t.key.name ++ " schema state is not ready" }

def reconcileStorageBackendCleanupJob (key : Key) (t : Instance) (s : BackendSpec)
    (next : Reconcile) : Option Job → Reconcile
  | none => do
    let _ ← ask (.applyJob (storageBackendResourceKey key "db-deregister") none
      (deregistrationJob key t s))
    pure ()
  | some job =>
    if (job.desiredHash ≠ deregistrationHash s ∧ job.succeeded) ∨ job.failed then do
      let _ ← ask (.deleteJob (storageBackendResourceKey key "db-deregister") false)
      pure ()
    else if !job.succeeded then pure ()
    else next

/-- `reconcileStorageBackendDatabaseDeletion` and `reconcileStorageBackendCleanupJob`; the
    reconcile goes on once the Job has succeeded, and is tried again otherwise.  Unlike the
    registration Job, this one is not given a controller reference. -/
def reconcileStorageBackendDatabaseDeletion (key : Key) (t : Instance) (s : BackendSpec)
    (next : Reconcile) : Reconcile := do
  onFound (← ask (.getJob (storageBackendResourceKey key "db-deregister")))
    (reconcileStorageBackendCleanupJob key t s next)

def storageBackendBucketDeletionRequired (key : Key) (s : BackendSpec)
    (next : Bool → Reconcile) : Reconcile :=
  if s.provider ≠ .rustfs ∨ trimmed s.bucketName = "" ∨ trimmed s.endpointURL = "" ∨
      trimmed s.existingSecret = "" then next false
  else do
    onFound (← ask (.getConfigMap (storageBackendResourceKey key "bucket-state"))) fun
    | none => next false
    | some state => next (managedBucketReady state s)

def storageBackendTamoss (d : Site) (key : Key) (s : BackendSpec)
    (next : Option Instance → Reconcile) : Reconcile :=
  if trimmed s.tamossRef = "" then next none
  else do
    onFound (← ask (.getTamoss ⟨key.namespaceName, s.tamossRef⟩)) fun
    | none => next none
    | some t =>
      match resolveTamoss d.installation t with
      | .error _ => pure ()
      | .ok t => next (some t)

def deleteStorageBackendCleanupObjects (key : Key) (next : Reconcile) : Reconcile := do
  let selector := storageBackendSelector key
  onOk (← ask (.listJobs key.namespaceName selector)) fun jobs =>
  deleteJobs (jobs.map Prod.fst) do
  afterDelete (← ask (.deleteConfigMap (storageBackendResourceKey key "bucket-state"))) do
  afterDelete (← ask (.deleteConfigMap (storageBackendResourceKey key "db-state"))) do
  onOk (← ask (.listPods key.namespaceName selector)) fun pods =>
  deletePods (pods.map Prod.fst) next

def removeStorageBackendFinalizer (key : Key) (b : StorageBackend) : Reconcile := do
  let _ ← ask (.patchBackendFinalizers key (b.finalizers.filter (· ≠ storageBackendFinalizer)))
  pure ()

def releaseStorageBackend (key : Key) (b : StorageBackend) (s : BackendSpec)
    (tamoss : Option Instance) : Reconcile :=
  deleteStorageBackendCleanupObjects key
    (match tamoss with
    | none => removeStorageBackendFinalizer key b
    | some t =>
      if ¬ s.isHibernateDestination ∧ ¬ t.deleting then do
        onOk (← ask (.syncRuntimeCredentials t.key)) fun () => removeStorageBackendFinalizer key b
      else removeStorageBackendFinalizer key b)

def deregisterStorageBackend (d : Site) (key : Key) (b : StorageBackend) (s : BackendSpec)
    (tamoss : Option Instance) : Reconcile :=
  let release := releaseStorageBackend key b s tamoss
  match tamoss with
  | none => release
  | some t =>
    if s.isHibernateDestination then release
    else schemaStateReady d t fun ready =>
      if ready then reconcileStorageBackendDatabaseDeletion key t s release else release

def dropStorageBackendBucket (s : BackendSpec) (required : Bool) (next : Reconcile) : Reconcile :=
  if required then do
    match ← ask (.deleteBucket s) with
    | none => next
    | some _ => pure ()
  else next

def finalizeWithTamoss (d : Site) (key : Key) (b : StorageBackend) (s : BackendSpec)
    (required : Bool) (tamoss : Option Instance) : Reconcile :=
  let rest := dropStorageBackendBucket s required (deregisterStorageBackend d key b s tamoss)
  match tamoss with
  | none => rest
  | some t =>
    if ¬ t.deleting ∧ ¬ s.isHibernateDestination then
      schemaStateReady d t fun ready => if ready then rest else pure ()
    else rest

def finalizeStorageBackend (d : Site) (key : Key) (b : StorageBackend) : Reconcile :=
  if storageBackendFinalizer ∉ b.finalizers then pure ()
  else
    storageBackendBucketDeletionRequired key (b.resolved d key) fun required =>
    storageBackendTamoss d key (b.resolved d key)
      (finalizeWithTamoss d key b (b.resolved d key) required)

def reconcileStorageBackendStages (d : Site) (key : Key) (b : StorageBackend) : Reconcile :=
  resolveStorageBackendSpec d key b fun s =>
  loadStorageBackendTamoss d key b s fun t =>
  reconcileStorageBackendCredentials key b t s do
  reconcileStorageBackendBucket key b t s do
    if s.isHibernateDestination then
      updateStorageBackendStatus key b s
        { ready := true, bucketReady := true, databaseReady := true
          reason := "StorageBackendReady"
          message := "StorageBackend hibernation destination is ready" }
    else
      reconcileStorageBackendDatabaseStage d key b t s do
        onOk (← ask (.syncRuntimeCredentials t.key)) fun () =>
        updateStorageBackendStatus key b s
          { ready := true, bucketReady := true, databaseReady := true
            reason := "StorageBackendReady"
            message := "StorageBackend bucket and database registration are ready" }

def reconcileStorageBackend (d : Site) (key : Key) : Reconcile := do
  ask (.begin (.storageBackend key))
  onFound (← ask (.getBackend key)) fun
  | none => pure ()
  | some b =>
    if !d.installation.allows key.namespaceName then pure ()
    else if b.deleting then finalizeStorageBackend d key b
    else if storageBackendFinalizer ∉ b.finalizers then do
      let _ ← ask (.patchBackendFinalizers key (b.finalizers ++ [storageBackendFinalizer]))
      pure ()
    else reconcileStorageBackendStages d key b

end Tamoss.Jobs
