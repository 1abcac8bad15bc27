/-
  **The `IngestRun` reconciler.**

  `reconcileIngestRun` is `IngestRunReconciler.Reconcile`.
-/
import Tamoss.Jobs.Calls

namespace Tamoss.Jobs

open Lib Operator

def ingestResultVerificationRequired (r : ResultRef) : Bool := trimmed r.key ≠ ""

def isDigestVerifiedIngestResult (r : ResultRef) : Bool :=
  r.verified && trimmed r.key ≠ "" && 0 < r.size && trimmed r.mediaType ≠ "" &&
    r.sha256.length = 64 &&
    r.sha256.toList.all fun c => ('0' ≤ c ∧ c ≤ '9') ∨ ('a' ≤ c ∧ c ≤ 'f')

def ingestTerminalObservationDeadline : Nat := 15 * 60

def ingestObservationDeadlineExpired (reference : Option Nat) (now : Nat) : Bool :=
  match reference with
  | none => false
  | some t => ingestTerminalObservationDeadline < now - t

/-- What a reconcile is going to report. -/
structure PhaseReport where
  phase : RunPhase
  reason : String
  message : String
  progressing : Bool := false
deriving DecidableEq

def ingestStreamFailurePhase (job : Job) (now : Nat) : StreamError → PhaseReport
  | .invalid =>
    ⟨.failed, "IngestProtocolInvalid", "TAMSin produced an invalid terminal event stream", false⟩
  | .unavailable =>
    if ingestObservationDeadlineExpired job.terminalTime now then
      ⟨.failed, "IngestResultUnavailable", "The terminal TAMSin event stream was not " ++
        "available within the observation deadline", false⟩
    else
      ⟨.running, "IngestResultPending",
        "The Job is terminal, but its TAMSin event stream is not yet available", false⟩

def RunOutcome.report : RunOutcome → PhaseReport
  | .succeeded =>
    ⟨.succeeded, "IngestSucceeded", "TAMSin completed the ingest run", false⟩
  | .partially =>
    ⟨.partiallySucceeded, "IngestPartiallySucceeded",
      "TAMSin completed with both successful and failed inputs", false⟩
  | .interrupted =>
    ⟨.failed, "IngestInterrupted", "TAMSin was interrupted before the ingest completed", false⟩
  | .failed => ⟨.failed, "IngestFailed", "TAMSin reported an ingest failure", false⟩
  | .unknown =>
    ⟨.failed, "IngestProtocolInvalid", "TAMSin reported an unknown terminal outcome", false⟩

theorem RunOutcome.report_phase (o : RunOutcome) : o.report.phase ≠ .cancelled := by
  cases o <;> exact RunPhase.noConfusion

def ingestPhaseFromJob (job : Job) (result : ResultRef) (now : Nat)
    (stream : Option StreamSummary) : PhaseReport :=
  if job.outcome.isSome then
    match stream with
    | none => ⟨.running, "IngestResultPending",
        "The Job is terminal, but its TAMSin event stream is not yet available", false⟩
    | some s =>
      if !s.runFinished then
        ⟨.running, "IngestResultPending",
          "The Job is terminal, but its TAMSin event stream is not yet available", false⟩
      else if (s.outcome = .succeeded ∨ s.outcome = .partially) ∧
          ingestResultVerificationRequired result ∧ ¬ isDigestVerifiedIngestResult result then
        if ingestObservationDeadlineExpired job.terminalTime now then
          ⟨.failed, "ResultVerificationTimeout", "A durable result was recorded but did not " ++
            "pass digest verification within the observation deadline", false⟩
        else
          ⟨.running, "ResultVerificationPending",
            "A durable result was recorded but has not passed digest verification", false⟩
      else s.outcome.report
  else if 0 < job.active then
    ⟨.running, "IngestRunning", "TAMSin is processing media", true⟩
  else if job.startTime.isSome then
    ⟨.running, "JobStarting", "The TAMSin Pod is starting", true⟩
  else ⟨.queued, "JobQueued", "The TAMSin Job is waiting to be scheduled", true⟩

theorem ingestPhaseFromJob_ne_cancelled (job : Job) (result : ResultRef) (now : Nat)
    (stream : Option StreamSummary) :
    (ingestPhaseFromJob job result now stream).phase ≠ .cancelled := by
  unfold ingestPhaseFromJob
  repeat' split
  all_goals first
    | exact RunPhase.noConfusion
    | exact RunOutcome.report_phase _

/-- What a status is computed from besides the phase: the Job with its name, what the plan counts,
    and the stream. -/
structure StatusInput where
  job : Option (Key × Job) := none
  inputsTotal : Nat := 0
  attempt : Nat := 0
  stream : Option StreamSummary := none

def applyIngestStreamSummary (s : RunStatus) : Option StreamSummary → RunStatus
  | none => s
  | some summary =>
    { s with
      tamsinRunID := summary.runID
      lastEventSequence := max s.lastEventSequence summary.lastSequence
      inputsTotal := summary.total
      counters := summary.counters
      output := summary.output }

def PhaseReport.heldBack (report : PhaseReport) (result : ResultRef) : PhaseReport :=
  if (report.phase = .succeeded ∨ report.phase = .partiallySucceeded) ∧
      ingestResultVerificationRequired result ∧ ¬ isDigestVerifiedIngestResult result then
    ⟨.running, "ResultVerificationPending",
      "A durable result was recorded but has not passed digest verification", false⟩
  else report

def recordJob (s : RunStatus) (now : Nat) : Option (Key × Job) → RunStatus
  | none => s
  | some (key, job) =>
    { s with
      jobName := key.name
      jobUID := job.uid
      sourceName := valueOf job.annotations "tamoss.livewyer.io/ingest-source"
      policyDigest := valueOf job.annotations "tamoss.livewyer.io/ingest-source-policy-digest"
      startedAt := some (s.startedAt.getD now) }

def jobPhaseStatus (run : IngestRun) (now : Nat) (report : PhaseReport) (input : StatusInput) :
    RunStatus :=
  let s := applyIngestStreamSummary run.status input.stream
  let report := report.heldBack s.resultRef
  let s := recordJob s now input.job
  { s with
    observedGeneration := run.generation
    phase := report.phase
    inputsTotal := if 0 < input.inputsTotal then input.inputsTotal else s.inputsTotal
    attempt := if 0 < input.attempt then input.attempt else s.attempt
    completedAt :=
      if report.phase.terminal then some (s.completedAt.getD now) else s.completedAt
    ready := ⟨report.phase = .succeeded, report.reason, report.message⟩
    progressing := ⟨report.progressing, report.reason, report.message⟩ }

theorem jobPhaseStatus_phase (run : IngestRun) (now : Nat) (report : PhaseReport)
    (input : StatusInput) (h : (jobPhaseStatus run now report input).phase = .cancelled) :
    report.phase = .cancelled := by
  change (report.heldBack _).phase = .cancelled at h
  unfold PhaseReport.heldBack at h
  split at h
  · cases h
  · exact h

theorem jobPhaseStatus_terminal (run : IngestRun) (now : Nat) (report : PhaseReport)
    (input : StatusInput) (h : (jobPhaseStatus run now report input).phase.terminal = true) :
    report.phase.terminal = true := by
  change (report.heldBack _).phase.terminal = true at h
  unfold PhaseReport.heldBack at h
  split at h
  · cases h
  · exact h

theorem jobPhaseStatus_jobName (run : IngestRun) (now : Nat) (report : PhaseReport)
    (input : StatusInput) : (jobPhaseStatus run now report input).jobName =
      (input.job.map fun j => j.1.name).getD run.status.jobName := by
  obtain ⟨job, total, attempt, stream⟩ := input
  cases job <;> cases stream <;> rfl

def setIngestRunJobPhase (key : Key) (run : IngestRun) (report : PhaseReport)
    (input : StatusInput) : Reconcile := do
  let now ← ask .now
  let status := jobPhaseStatus run now report input
  if status = run.status then pure ()
  else
    let _ ← ask (.patchRunStatus key run.status status)
    pure ()

def setIngestRunPhase (key : Key) (run : IngestRun) (report : PhaseReport) : Reconcile :=
  setIngestRunJobPhase key run report {}

def podsRemain (run : IngestRun) (pods : List (Key × Pod)) : Bool :=
  pods.any fun p =>
    valueOf p.2.labels "tamoss.livewyer.io/tamoss" = run.spec.tamossRef &&
      (run.status.jobUID = 0 || p.2.owner = some run.status.jobUID)

def reconcileIngestCancellation (d : Site) (key : Key) (run : IngestRun) (job : Option Job) :
    Reconcile :=
  match job with
  | none => do
    onOk (← ask (.listPods key.namespaceName
      [("tamoss.livewyer.io/ingest-run", ingestRunSelectorValue d key.name)])) fun pods =>
    if podsRemain run pods then
      setIngestRunPhase key run
        ⟨.running, "CancellationRequested", "The TAMSin Pod is terminating", true⟩
    else
      setIngestRunPhase key run ⟨.cancelled, "Cancelled", "The ingest run was cancelled", false⟩
  | some job =>
    let record := setIngestRunJobPhase key run
      ⟨.running, "CancellationRequested", "The TAMSin Job is terminating", true⟩
      { job := some (ingestJobKey d key, job) }
    if job.deleting then record
    else do afterDelete (← ask (.deleteJob (ingestJobKey d key) true)) record

def abandonIngestRun (d : Site) (key : Key) (run : IngestRun) (job : Job) : Reconcile := do
  let tamossKey : Key := ⟨key.namespaceName, run.spec.tamossRef⟩
  match ← ask (.getTamossLive tamossKey) with
  | .ok _ => pure ()
  | .error .notFound =>
    let record := setIngestRunJobPhase key run
      ⟨.failed, "TamossNotFound", "Tamoss " ++ tamossKey.namespaceName ++ "/" ++ tamossKey.name ++
        " was deleted while the TAMSin Job was running", false⟩
      { job := some (ingestJobKey d key, job) }
    if job.deleting then record
    else do afterDelete (← ask (.deleteJob (ingestJobKey d key) true)) record
  | .error _ => pure ()

def reconcileMissingIngestJob (d : Site) (key : Key) (run : IngestRun) : Reconcile := do
  match ← ask (.getJobLive (ingestJobKey d key)) with
  | .ok _ => pure ()
  | .error .notFound =>
    setIngestRunPhase key run ⟨.failed, "IngestJobMissing", "The recorded TAMSin Job no longer " ++
      "exists, so the run outcome cannot be confirmed; the operator does not replay ingest " ++
      "automatically", false⟩
  | .error _ => pure ()

def trackIngestJob (d : Site) (key : Key) (run : IngestRun) (job : Job) : Reconcile := do
  let now ← ask .now
  if job.outcome.isSome then
    match ← ask (.collectStream (ingestJobKey d key)) with
    | .error e =>
      setIngestRunJobPhase key run (ingestStreamFailurePhase job now e)
        { job := some (ingestJobKey d key, job) }
    | .ok stream =>
      setIngestRunJobPhase key run
        (ingestPhaseFromJob job run.status.resultRef now (some stream))
        { job := some (ingestJobKey d key, job), stream := some stream }
  else
    setIngestRunJobPhase key run (ingestPhaseFromJob job run.status.resultRef now none)
      { job := some (ingestJobKey d key, job) }

def persistResolvedFlowProfiles (key : Key) (run : IngestRun) (profiles : List String)
    (next : Reconcile) : Reconcile :=
  if run.status.resolvedProfiles = profiles then next
  else do
    let _ ← ask (.patchRunStatus key run.status { run.status with resolvedProfiles := profiles })
    pure ()

def refuse (key : Key) (run : IngestRun) (refusal : Refusal) : Reconcile :=
  setIngestRunPhase key run ⟨.pending, refusal.1, refusal.2, false⟩

def desiredIngestJob (d : Site) (key : Key) (run : IngestRun) (plan : IngestPlan) : JobSpec where
  labels := ingestLabels d key run.spec.tamossRef
  annotations := [("tamoss.livewyer.io/ingest-source", plan.sourceName),
    ("tamoss.livewyer.io/ingest-source-policy-digest", plan.policyDigest)]
  task := .ingest plan.arguments

def launchIngestJob (d : Site) (key : Key) (run : IngestRun) (attempt : Nat) (plan : IngestPlan) :
    Reconcile := do
  let desired := desiredIngestJob d key run plan
  match ← ask (.createJob (ingestJobKey d key) run.uid desired) with
  | .error _ => pure ()
  | .ok uid =>
    setIngestRunJobPhase key run ⟨.queued, "JobCreated", "The TAMSin Job was created", true⟩
      { job := some (ingestJobKey d key, { desired with uid := uid })
        inputsTotal := plan.expectedInputs
        attempt := attempt }

def admitIngestRun (d : Site) (key : Key) (run : IngestRun) : Reconcile := do
  match ← ask (.admitRun key run) with
  | .error refusal => refuse key run refusal
  | .ok attempt =>
    match ← ask (.resolveRunProfiles key run) with
    | .error refusal => persistResolvedFlowProfiles key run [] (refuse key run refusal)
    | .ok profiles => persistResolvedFlowProfiles key run profiles do
      match ← ask (.planRun key run profiles) with
      | .error refusal => refuse key run refusal
      | .ok plan => launchIngestJob d key run attempt plan

def outputProblem (d : Site) (s : RunSpec) : Option String :=
  match s.output with
  | none => none
  | some output =>
    if (if s.maxInputs = 0 then 1000 else s.maxInputs) ≠ 1 then
      some "Root Flow output metadata requires maxInputs to equal 1"
    else if d.validRunOutput output then none
    else some "The Flow output metadata is invalid"

def reconcileWantedRun (d : Site) (key : Key) (run : IngestRun) (job : Option Job) :
    Reconcile := do
  onFound (← ask (.getTamoss ⟨key.namespaceName, run.spec.tamossRef⟩)) fun
  | none =>
    match job with
    | some job => abandonIngestRun d key run job
    | none => refuse key run ("TamossNotFound", "Tamoss " ++ key.namespaceName ++ "/" ++
        run.spec.tamossRef ++ " does not exist")
  | some _ =>
    match job with
    | some job => trackIngestJob d key run job
    | none =>
      if run.status.jobName ≠ "" then reconcileMissingIngestJob d key run
      else admitIngestRun d key run

def reconcileValidRun (d : Site) (key : Key) (run : IngestRun) (job : Option Job) : Reconcile :=
  if run.status.phase.terminal then pure ()
  else if job.any fun j => !ingestJobBelongsToRun d key run j then
    refuse key run ("JobOwnershipConflict", "Job " ++ key.namespaceName ++ "/" ++
      (ingestJobKey d key).name ++ " is not owned by this IngestRun")
  else if run.spec.desiredState = .cancelled then reconcileIngestCancellation d key run job
  else reconcileWantedRun d key run job

def reconcileIngestRun (d : Site) (key : Key) : Reconcile := do
  ask (.begin (.ingestRun key))
  onFound (← ask (.getRun key)) fun
  | none => pure ()
  | some run =>
    if !d.installation.allows key.namespaceName then pure ()
    else match outputProblem d run.spec with
      | some problem => refuse key run ("InvalidOutputIntent", problem)
      | none => do
        onFound (← ask (.getJob (ingestJobKey d key))) (reconcileValidRun d key run)

end Tamoss.Jobs
