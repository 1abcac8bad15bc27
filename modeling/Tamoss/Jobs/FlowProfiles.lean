/-
  **The `FlowProfile` reconciler.**

  `reconcileFlowProfile` is `FlowProfileReconciler.Reconcile` with its finalizer.
-/
import Mathlib.Data.List.Sort
import Tamoss.Jobs.StorageBackends

namespace Tamoss.Jobs

open Lib Operator

/-- `flowProfileStatusInput` -/
structure ProfileReport where
  phase : ProfilePhase
  ready : Bool := false
  registered : Bool := false
  deletionBlocked : Bool := false
  reason : String := ""
  message : String := ""
  tamossName : String := ""
  resolved : Option ResolvedProfile := none

def profileStatus (p : FlowProfile) (r : ProfileReport) : ProfileStatus where
  observedGeneration := p.generation
  phase := r.phase
  profileID := (r.resolved.map fun x => x.spec.id).getD ""
  tamossName := r.tamossName
  format := (r.resolved.map ResolvedProfile.format).getD ""
  codec := (r.resolved.map ResolvedProfile.codec).getD ""
  ready := r.ready
  registered := r.registered
  deletionBlocked := r.deletionBlocked
  reason := r.reason
  message := r.message

def updateFlowProfileStatus (key : Key) (p : FlowProfile) (r : ProfileReport) : Reconcile := do
  let _ ← ask (.patchProfileStatus key p (profileStatus p r))
  pure ()

def progressFlowProfile (key : Key) (p : FlowProfile) (resolved : ResolvedProfile)
    (tamossName reason message : String) : Reconcile :=
  updateFlowProfileStatus key p
    { phase := .progressing, reason := reason, message := message, tamossName := tamossName
      resolved := some resolved }

def claimsBefore (a b : Key × FlowProfile) : Bool :=
  if a.2.creationTimestamp = b.2.creationTimestamp then a.1.name < b.1.name
  else a.2.creationTimestamp < b.2.creationTimestamp

/-- A resource that claims the Profile: it is not being deleted, or it is the one that is
    being reconciled. -/
def claimsProfile (d : Site) (current : Key) (id : String) (x : Key × FlowProfile) : Bool :=
  (x.2.spec.applyDefaults d x.1).id = id && (!x.2.deleting || x.1.name = current.name)

def flowProfileIDCandidates (d : Site) (current : Key) (id : String)
    (listed : List (Key × FlowProfile)) : List (Key × FlowProfile) :=
  (listed.filter (claimsProfile d current id)).insertionSort fun a b => claimsBefore b a = false

def flowProfileTamoss (d : Site) (key : Key) (tamossRef : String)
    (failed : SelectionError → Reconcile) (next : Option Instance → Reconcile) : Reconcile := do
  onFound (← ask (.getTamoss ⟨key.namespaceName, tamossRef⟩)) fun
  | none => next none
  | some t =>
    match resolveTamoss d.installation t with
    | .error e => failed e
    | .ok t => next (some t)

def flowProfileSchemaReady (d : Site) (t : Instance) (next : Bool → Reconcile) : Reconcile :=
  if d.installation.appliedTo t then schemaStateReady d t next else next false

def flowProfileRegistered (d : Site) (key : Key) (resolved : ResolvedProfile)
    (next : Bool → Reconcile) : Reconcile := do
  onFound (← ask (.getConfigMap (flowProfileResourceKey d key "state"))) fun
  | none => next false
  | some state => next (profileRegistered state resolved)

def flowProfileJobExitCode (job : Job) (pods : List (Key × Pod)) : Option Nat :=
  (pods.filter fun p => p.2.owner = some job.uid).findSome? fun p => p.2.exitCode

def clearFlowProfileRegistrationState (d : Site) (key : Key) (next : Reconcile) : Reconcile := do
  afterDelete (← ask (.deleteConfigMap (flowProfileResourceKey d key "state"))) do
  afterDelete (← ask (.deleteJob (flowProfileResourceKey d key "register") true)) next

def deleteFlowProfileChildren (d : Site) (key : Key) (next : Reconcile) : Reconcile := do
  afterDelete (← ask (.deleteConfigMap (flowProfileResourceKey d key "document"))) do
  afterDelete (← ask (.deleteConfigMap (flowProfileResourceKey d key "state"))) do
  onOk (← ask (.listJobs key.namespaceName (flowProfileSelector key))) fun jobs =>
  deleteJobs (jobs.map Prod.fst) next

def removeFlowProfileFinalizer (key : Key) (p : FlowProfile) : Reconcile := do
  let _ ← ask (.patchProfileFinalizers key (p.finalizers.filter (· ≠ flowProfileFinalizer)))
  pure ()

def reconcileFailedRegistration (key jobKey : Key) (p : FlowProfile) (t : Instance)
    (resolved : ResolvedProfile) (job : Job) : Reconcile := do
  onOk (← ask (.listPods key.namespaceName [("job-name", jobKey.name)])) fun pods =>
    match flowProfileJobExitCode job pods with
    | some 2 => rejected "InvalidProfile"
    | some 3 => rejected "ProfileConflict"
    | _ => do
      afterDelete (← ask (.deleteJob jobKey true))
        (progressFlowProfile key p resolved t.key.name "RegistrationRetrying"
          "TAMS Flow Profile registration failed and will be retried")
where
  rejected (reason : String) : Reconcile :=
    updateFlowProfileStatus key p
      { phase := .degraded, reason := reason
        message := "TAMS Flow Profile registration was rejected; inspect the owned Job logs"
        tamossName := t.key.name, resolved := some resolved }

def reportRegistered (key : Key) (p : FlowProfile) (t : Instance) (resolved : ResolvedProfile) :
    Reconcile :=
  updateFlowProfileStatus key p
    { phase := .ready, ready := true, registered := true, reason := "FlowProfileReady"
      message := "TAMS Flow Profile is registered", tamossName := t.key.name
      resolved := some resolved }

def reconcileRegistrationJob (d : Site) (key : Key) (p : FlowProfile) (t : Instance)
    (resolved : ResolvedProfile) : Reconcile := do
  let jobKey := flowProfileResourceKey d key "register"
  let desired := flowProfileRegistrationJob d key p t resolved
  onFound (← ask (.getJob jobKey)) fun
  | none => do
    onOk (← ask (.applyJob jobKey (some p.uid) desired)) fun () =>
    progressFlowProfile key p resolved t.key.name "RegistrationInProgress"
      "TAMS Flow Profile registration job was launched"
  | some job =>
    if flowProfileJobDrifted job.toJobSpec desired then do
      afterDelete (← ask (.deleteJob jobKey true))
        (progressFlowProfile key p resolved t.key.name "RegistrationRuntimeChanged"
          "The registration runtime changed and the Job will be replaced")
    else if job.failed then reconcileFailedRegistration key jobKey p t resolved job
    else if !job.succeeded then
      progressFlowProfile key p resolved t.key.name "RegistrationInProgress"
        "TAMS Flow Profile registration job is running"
    else do
      onOk (← ask (.applyConfigMap (flowProfileResourceKey d key "state") p.uid
        (flowProfileState key p resolved))) fun () =>
      reportRegistered key p t resolved

def reconcileOwnedProfile (d : Site) (key : Key) (p : FlowProfile) (t : Instance)
    (resolved : ResolvedProfile) : Reconcile :=
  flowProfileRegistered d key resolved fun registered =>
    if registered then reportRegistered key p t resolved
    else do
      onOk (← ask (.applyConfigMap (flowProfileResourceKey d key "document") p.uid
        (flowProfileDocument key p resolved))) fun () =>
      reconcileRegistrationJob d key p t resolved

/-- A resource whose Profile and `Tamoss` are known: another resource may own the Profile. -/
def reconcileClaimedProfile (d : Site) (key : Key) (p : FlowProfile) (t : Instance)
    (resolved : ResolvedProfile) : Reconcile := do
  onOk (← ask (.listProfiles key.namespaceName resolved.spec.tamossRef)) fun listed =>
    let winner :=
      ((flowProfileIDCandidates d key resolved.spec.id listed).head?.map
        fun x => x.1.name).getD key.name
    if winner ≠ key.name then
      clearFlowProfileRegistrationState d key
        (updateFlowProfileStatus key p
          { phase := .degraded, reason := "DuplicateProfileID"
            message := "FlowProfile " ++ winner ++
              " owns this Profile UUID for the target Tamoss"
            tamossName := t.key.name, resolved := some resolved })
    else reconcileOwnedProfile d key p t resolved

def releaseFlowProfile (d : Site) (key : Key) (p : FlowProfile) : Reconcile :=
  deleteFlowProfileChildren d key (removeFlowProfileFinalizer key p)

def reconcileDeletionJob (d : Site) (key : Key) (p : FlowProfile) (t : Instance)
    (resolved : ResolvedProfile) : Reconcile := do
  let jobKey := flowProfileResourceKey d key "delete"
  let desired := flowProfileDeletionJob key p t resolved
  onFound (← ask (.getJob jobKey)) fun
  | none => do
    onOk (← ask (.applyJob jobKey (some p.uid) desired)) fun () =>
    updateFlowProfileStatus key p
      { phase := .deleting, registered := true, reason := "DeletionInProgress"
        message := "TAMS Flow Profile deletion job was launched", tamossName := t.key.name
        resolved := some resolved }
  | some job =>
    if flowProfileJobDrifted job.toJobSpec desired then do
      let _ ← ask (.deleteJob jobKey true)
      pure ()
    else if job.failed then do
      onOk (← ask (.listPods key.namespaceName [("job-name", jobKey.name)])) fun pods => do
      afterDelete (← ask (.deleteJob jobKey true))
        (if flowProfileJobExitCode job pods = some 4 then
          updateFlowProfileStatus key p
            { phase := .deleting, registered := true, deletionBlocked := true
              reason := "ProfileInUse"
              message := "Profile deletion is blocked while Flows still reference it"
              tamossName := t.key.name, resolved := some resolved }
        else pure ())
    else if !job.succeeded then pure ()
    else releaseFlowProfile d key p

def deleteRegisteredProfile (d : Site) (key : Key) (p : FlowProfile) (t : Instance)
    (resolved : ResolvedProfile) : Reconcile :=
  flowProfileSchemaReady d t fun ready =>
    if ready then reconcileDeletionJob d key p t resolved
    else updateFlowProfileStatus key p
      { phase := .deleting, registered := true, deletionBlocked := true
        reason := "WaitingForSchema"
        message := "Profile deletion is waiting for the target schema before checking Flow " ++
          "references"
        tamossName := t.key.name, resolved := some resolved }

def finaliseSoleClaim (d : Site) (key : Key) (p : FlowProfile) (resolved : ResolvedProfile) :
    Reconcile :=
  flowProfileTamoss d key resolved.spec.tamossRef (fun _ => pure ()) fun tamoss =>
  flowProfileRegistered d key resolved fun registered =>
    match tamoss with
    | none => releaseFlowProfile d key p
    | some t =>
      if t.deleting then releaseFlowProfile d key p
      else if registered then deleteRegisteredProfile d key p t resolved
      else do
        onFound (← ask (.getJob (flowProfileResourceKey d key "register"))) fun
        | none => releaseFlowProfile d key p
        | some job =>
          if job.controller ≠ some p.uid then releaseFlowProfile d key p
          else if job.unfinished then pure ()
          else if job.succeeded then deleteRegisteredProfile d key p t resolved
          else releaseFlowProfile d key p

def finaliseFlowProfile (d : Site) (key : Key) (p : FlowProfile) : Reconcile :=
  if flowProfileFinalizer ∉ p.finalizers then pure ()
  else match resolveFlowProfile d key p with
    | .error _ => removeFlowProfileFinalizer key p
    | .ok resolved => do
      onOk (← ask (.listProfiles key.namespaceName resolved.spec.tamossRef)) fun listed =>
        match flowProfileIDCandidates d key resolved.spec.id listed with
        | [] => finaliseSoleClaim d key p resolved
        | first :: rest =>
          if first.1.name ≠ key.name then releaseFlowProfile d key p
          else match rest with
            | [] => finaliseSoleClaim d key p resolved
            | second :: _ =>
              updateFlowProfileStatus key p
                { phase := .deleting, deletionBlocked := true
                  reason := "ProfileClaimedByFlowProfile"
                  message := "Profile deletion is blocked while FlowProfile " ++
                    second.1.name ++ " also claims its UUID"
                  tamossName := resolved.spec.tamossRef, resolved := some resolved }

/-- A resource that is not being deleted and has its finalizer. -/
def reconcileWantedProfile (d : Site) (key : Key) (p : FlowProfile) : Reconcile :=
  match resolveFlowProfile d key p with
  | .error e =>
    updateFlowProfileStatus key p { phase := .degraded, reason := "InvalidProfile", message := e }
  | .ok resolved =>
    flowProfileTamoss d key resolved.spec.tamossRef
      (fun e => updateFlowProfileStatus key p
        { phase := .pending, reason := e.reason, message := e.message }) fun
    | none =>
      updateFlowProfileStatus key p
        { phase := .pending, reason := "TamossNotFound"
          message := "Referenced Tamoss was not found", tamossName := resolved.spec.tamossRef
          resolved := some resolved }
    | some t =>
      flowProfileSchemaReady d t fun ready =>
        if ¬ ready ∨ t.status.tamsAPI ≠ (d.installation.schemaTarget t).tamsAPI then
          updateFlowProfileStatus key p
            { phase := .pending, reason := "WaitingForSchema"
              message := "The target TAMS 8.2 schema is not ready", tamossName := t.key.name
              resolved := some resolved }
        else reconcileClaimedProfile d key p t resolved

def reconcileFlowProfile (d : Site) (key : Key) : Reconcile := do
  ask (.begin (.flowProfile key))
  onFound (← ask (.getProfile key)) fun
  | none => pure ()
  | some p =>
    if !d.installation.allows key.namespaceName then pure ()
    else if p.deleting then finaliseFlowProfile d key p
    else if flowProfileFinalizer ∉ p.finalizers then do
      let _ ← ask (.updateProfileFinalizers key p (p.finalizers ++ [flowProfileFinalizer]))
      pure ()
    else reconcileWantedProfile d key p

end Tamoss.Jobs
