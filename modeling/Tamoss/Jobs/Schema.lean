/-
  **The schema stage of a `Tamoss` reconcile.**

  `schemaStage` is `SchemaController.Reconcile`.
-/
import Tamoss.Jobs.Calls

namespace Tamoss.Jobs

open Lib Operator

def setEntry (labels : Labels) (name value : String) : Labels :=
  (name, value) :: labels.filter fun entry => entry.1 ≠ name

def deleteEntry (labels : Labels) (name : String) : Labels :=
  labels.filter fun entry => entry.1 ≠ name

def schemaStateHasAppliedVersion (state : Option ConfigMap) : Bool :=
  match state with
  | none => false
  | some m => trimmed (valueOf m.data "appliedVersion") ≠ ""

def consumedRetry (state : Option ConfigMap) : String :=
  match state with
  | none => ""
  | some m => valueOf m.annotations "tamoss.livewyer.io/schema-retry-consumed"

def schemaStateAnnotations (state : Option ConfigMap) : Labels :=
  if consumedRetry state = "" then []
  else [("tamoss.livewyer.io/schema-retry-consumed", consumedRetry state)]

def failuresCurrent (target : SchemaTarget) (t : Instance) (m : ConfigMap) : Bool :=
  valueOf m.data "failedVersion" = target.version &&
    valueOf m.data "failedGeneration" = toString t.generation

def terminalSchemaFailure (target : SchemaTarget) (t : Instance) (state : Option ConfigMap) :
    Bool :=
  match state with
  | none => false
  | some m => failuresCurrent target t m &&
      (match (valueOf m.data "failureCount").toNat? with
      | none => false
      | some count => 3 ≤ count)

def nextFailureCount (target : SchemaTarget) (t : Instance) (state : Option ConfigMap) : Nat :=
  match state with
  | none => 1
  | some m =>
    if failuresCurrent target t m then
      match (valueOf m.data "failureCount").toNat? with
      | none => 1
      | some count => count + 1
    else 1

def schemaState (target : SchemaTarget) (t : Instance) (job : Job) (fixturesApplied : Bool)
    (previous : Option ConfigMap) : ConfigMapSpec where
  labels := schemaLabels t
  annotations := schemaStateAnnotations previous
  data := [("appliedVersion", target.version), ("jobUID", toString job.uid),
    ("fixturesApplied",
      if fixturesApplied ∨ (previous.map fun m => valueOf m.data "fixturesApplied") = some "true"
      then "true" else "false"),
    ("supportedTAMSAPI", target.tamsAPI)]

def schemaFailureState (target : SchemaTarget) (t : Instance) (job : Job)
    (previous : Option ConfigMap) (failureCount : Nat) : ConfigMapSpec where
  labels := schemaLabels t
  annotations := schemaStateAnnotations previous
  data :=
    [("failureCount", toString failureCount), ("failedGeneration", toString t.generation),
      ("failedVersion", target.version), ("failedJobUID", toString job.uid)].foldl
      (fun data entry => setEntry data entry.1 entry.2)
      ((previous.map fun m => m.data).getD [])

def schemaRetryState (t : Instance) (previous : Option ConfigMap) (value : String) :
    ConfigMapSpec where
  labels := schemaLabels t
  annotations := setEntry ((previous.map fun m => m.annotations).getD [])
    "tamoss.livewyer.io/schema-retry-consumed" value
  data :=
    ["failureCount", "failedGeneration", "failedVersion", "failedJobUID"].foldl deleteEntry
      ((previous.map fun m => m.data).getD [])

def observedSchemaStateResult (target : SchemaTarget) (state : Option ConfigMap) :
    Option SchemaResult :=
  match state with
  | none => none
  | some m =>
    if !target.supports (valueOf m.data "appliedVersion") then
      some
        { ready := false, version := target.version, degraded := true
          reason := "UnsupportedSchemaVersion"
          message := "Observed schema revision " ++ quoted (valueOf m.data "appliedVersion") ++
            " is not supported by this operator" }
    else if schemaStateMatchesTarget m target then
      some
        { ready := true, version := target.version, reason := "AlreadyAtVersion"
          message := "Schema state already records the current version" }
    else none

def report (t : Instance) (result : SchemaResult) : Reconcile := ask (.reportSchema t.key t result)

def inProgress (target : SchemaTarget) (t : Instance) (reason message : String) : Reconcile :=
  report t { ready := false, version := target.version, reason := reason, message := message }

def reportTerminalFailure (target : SchemaTarget) (t : Instance) : Reconcile :=
  report t
    { ready := false, version := target.version, degraded := true
      reason := "SchemaMigrationFailed"
      message := "Schema migration failed three consecutive reconciles" }

def obsoleteJobs (t : Instance) (jobKey : Key) (jobs : List (Key × Job)) : List (Key × Job) :=
  jobs.filter fun j => j.1.name ≠ jobKey.name && j.2.controller = some t.uid

def reconcileObsoleteSchemaJobs (target : SchemaTarget) (t : Instance) (jobKey : Key)
    (next : Reconcile) : Reconcile := do
  onOk (← ask (.listJobs t.key.namespaceName (schemaLabels t))) fun jobs =>
    let obsolete := obsoleteJobs t jobKey jobs
    if obsolete = [] then next
    else deleteJobs ((obsolete.filter fun j => !j.2.deleting).map Prod.fst)
      (inProgress target t "MigrationInProgress"
        ("Waiting for obsolete schema migration Jobs to terminate before launching the " ++
          "current revision"))

def reconcileSchemaRetry (target : SchemaTarget) (t : Instance) (state : Option ConfigMap)
    (jobKey : Key) (job : Option Job) (next : Reconcile) : Reconcile :=
  let value := trimmed t.schemaRetry
  if value = "" ∨ ¬ terminalSchemaFailure target t state ∨ consumedRetry state = value then next
  else
    let reset : Reconcile := do
      onOk (← ask (.applyConfigMap (schemaStateKey t) t.uid (schemaRetryState t state value)))
        fun () => inProgress target t "SchemaRetryAccepted"
          "Schema retry annotation accepted; failed migration state was reset"
    if job.any Job.failed then do afterDelete (← ask (.deleteJob jobKey false)) reset
    else reset

def reconcileFailedSchemaJob (target : SchemaTarget) (t : Instance) (state : Option ConfigMap)
    (job : Job) : Reconcile :=
  if terminalSchemaFailure target t state then reportTerminalFailure target t
  else do
    let count := nextFailureCount target t state
    onOk (← ask (.applyConfigMap (schemaStateKey t) t.uid
      (schemaFailureState target t job state count))) fun () =>
    if 3 ≤ count then reportTerminalFailure target t
    else inProgress target t "SchemaMigrationFailed"
      ("Schema migration job failed; observed failed attempt " ++ toString count ++
        " of 3 before marking degraded")

def schemaJobPodOwned (p : Key × Pod) : Bool := p.2.owner.isSome

def launchSchemaJob (target : SchemaTarget) (t : Instance) (jobKey : Key) (desired : JobSpec) :
    Reconcile := do
  onOk (← ask (.listPods t.key.namespaceName desired.labels)) fun pods =>
    if pods.any schemaJobPodOwned then
      inProgress target t "MigrationInProgress"
        ("Waiting for stale schema migration Job pods to terminate before launching a " ++
          "replacement")
    else do
      onOk (← ask (.applyJob jobKey (some t.uid) desired)) fun () =>
      inProgress target t "MigrationInProgress" "Schema migration job was launched"

def reconcileSchemaJob (target : SchemaTarget) (t : Instance) (state : Option ConfigMap)
    (includeFixtures : Bool) (jobKey : Key) (desired : JobSpec) : Option Job → Reconcile
  | none => launchSchemaJob target t jobKey desired
  | some job =>
    if job.task ≠ desired.task then do
      afterDelete (← ask (.deleteJob jobKey true))
        (inProgress target t "MigrationInProgress"
          "Schema migration job template changed; the stale job was deleted for recreation")
    else if job.succeeded then do
      onOk (← ask (.applyConfigMap (schemaStateKey t) t.uid
        (schemaState target t job includeFixtures state))) fun () =>
      report t
        { ready := true, version := target.version, reason := "SchemaApplied"
          message := "Schema migration completed successfully" }
    else if job.failed then reconcileFailedSchemaJob target t state job
    else inProgress target t "MigrationInProgress"
      ("Schema migration job " ++ jobKey.name ++ " is running")

def schemaStage (target : SchemaTarget) (t : Instance) : Reconcile := do
  onFound (← ask (.getConfigMap (schemaStateKey t))) fun state =>
    match observedSchemaStateResult target state with
    | some result => report t result
    | none =>
      let includeFixtures :=
        t.spec.settings.database.applyFixtures && !schemaStateHasAppliedVersion state
      let jobKey := schemaMigrationJobKey target t
      let desired := schemaMigrationJob target t includeFixtures
      reconcileObsoleteSchemaJobs target t jobKey do
        onFound (← ask (.getJob jobKey)) fun job =>
          reconcileSchemaRetry target t state jobKey job
            (reconcileSchemaJob target t state includeFixtures jobKey desired job)

def reconcileSchema (d : Site) (key : Key) : Reconcile := do
  ask (.begin (.schema key))
  onFound (← ask (.getTamoss key)) fun
  | none => pure ()
  | some t =>
    match resolveTamoss d.installation t with
    | .error _ => pure ()
    | .ok t => schemaStage (d.installation.schemaTarget t) t

end Tamoss.Jobs
