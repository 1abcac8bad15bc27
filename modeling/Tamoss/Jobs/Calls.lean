/-
  **How the controllers that work through Jobs talk to the outside.**

  The calls of the four controllers: the request they take from their work queue, reads through
  the client's cache or past it, writes to the API server, and the services they consult.
-/
import Tamoss.Lib.Workers
import Tamoss.Jobs.Objects

namespace Tamoss

/-- What the API server may answer instead of a result. -/
inductive Operator.ApiError where
  | notFound
  | conflict
  | alreadyExists
  /-- the kind is not installed (`isKubernetesNoMatchError`) -/
  | noMatch
  | other (message : String)
deriving DecidableEq

namespace Jobs

open Lib Operator

/-- What a controller's work queue hands out. -/
inductive Request where
  | schema (key : Key)
  | storageBackend (key : Key)
  | flowProfile (key : Key)
  | ingestRun (key : Key)
deriving DecidableEq

/-- Why the events of a finished TAMSin Pod could not be had. -/
inductive StreamError where
  /-- `errIngestStreamInvalid` -/
  | invalid
  | unavailable
deriving DecidableEq

/-- What the gates for new work come to: the arguments of the TAMSin Job, and what is
    recorded of its inputs. -/
structure IngestPlan where
  arguments : List String := []
  expectedInputs : Nat := 0
  sourceName : String := ""
  policyDigest : String := ""
deriving DecidableEq

abbrev Refusal := String × String

structure SchemaResult where
  ready : Bool
  version : String
  degraded : Bool := false
  reason : String := ""
  message : String := ""
deriving DecidableEq

/-- What others do to the cluster. -/
inductive Change where
  /-- a `Tamoss` is created or changed, in whatever way -/
  | setTamoss (key : Key) (tamoss : Option Instance)
  | createBackend (key : Key) (spec : BackendSpec)
  | editBackend (key : Key) (spec : BackendSpec)
  | deleteBackend (key : Key)
  | createProfile (key : Key) (spec : ProfileSpec)
  | deleteProfile (key : Key)
  | createRun (key : Key) (spec : RunSpec)
  | cancelRun (key : Key)
  | deleteRun (key : Key)
  /-- a Pod of the Job carries out its task; a mounted ConfigMap may be an older one -/
  | runJob (key : Key) (age : Nat) (inUse : Bool)
  | finishJob (key : Key) (outcome : Outcome)
  | observeJob (key : Key) (active : Nat)
  | deleteJob (key : Key)
  /-- the Job is gone: its deletion is complete, it has outlived its time, or somebody
      has removed it -/
  | removeJob (key : Key)
  | createPod (key job : Key)
  | finishPod (key : Key) (exitCode : Nat)
  | removePod (key : Key)
  | tick
deriving DecidableEq

inductive Call where
  | begin (request : Request)
  | getTamoss (key : Key)
  | getBackend (key : Key)
  | getProfile (key : Key)
  | getRun (key : Key)
  | getConfigMap (key : Key)
  | getJob (key : Key)
  | listProfiles (namespaceName tamossRef : String)
  | listJobs (namespaceName : String) (selector : Labels)
  | listPods (namespaceName : String) (selector : Labels)
  | getTamossLive (key : Key)
  | getJobLive (key : Key)
  | now
  | applyConfigMap (key : Key) (controller : Uid) (spec : ConfigMapSpec)
  | applyJob (key : Key) (controller : Option Uid) (spec : JobSpec)
  | createJob (key : Key) (controller : Uid) (spec : JobSpec)
  | deleteConfigMap (key : Key)
  | deleteJob (key : Key) (foreground : Bool)
  | deletePod (key : Key)
  | patchBackendFinalizers (key : Key) (finalizers : List String)
  | patchBackendStatus (key : Key) (read : StorageBackend) (status : BackendStatus)
  | updateProfileFinalizers (key : Key) (read : FlowProfile) (finalizers : List String)
  | patchProfileFinalizers (key : Key) (finalizers : List String)
  | patchProfileStatus (key : Key) (read : FlowProfile) (status : ProfileStatus)
  | patchRunStatus (key : Key) (original status : RunStatus)
  /-- the gates for new work up to the retry parent and the storage backend; the answer is
      the number of the attempt -/
  | admitRun (key : Key) (run : IngestRun)
  | resolveRunProfiles (key : Key) (run : IngestRun)
  /-- the source policy, the endpoint and the rest of the Job's content -/
  | planRun (key : Key) (run : IngestRun) (profiles : List String)
  | collectStream (job : Key)
  | checkCredentials (key : Key) (spec : BackendSpec)
  | ensureBucket (spec : BackendSpec)
  | deleteBucket (spec : BackendSpec)
  | syncRuntimeCredentials (tamoss : Key)
  /-- the outcome of the schema stage, handed to the rest of the `Tamoss` reconcile -/
  | reportSchema (key : Key) (tamoss : Instance) (result : SchemaResult)
  | change (change : Change)

def Call.Resp : Call → Type
  | .getTamoss _ | .getTamossLive _ => Except ApiError Instance
  | .getBackend _ => Except ApiError StorageBackend
  | .getProfile _ => Except ApiError FlowProfile
  | .getRun _ => Except ApiError IngestRun
  | .getConfigMap _ => Except ApiError ConfigMap
  | .getJob _ | .getJobLive _ => Except ApiError Job
  | .listProfiles .. => Except ApiError (List (Key × FlowProfile))
  | .listJobs .. => Except ApiError (List (Key × Job))
  | .listPods .. => Except ApiError (List (Key × Pod))
  | .now => Nat
  -- the UID of the new Job
  | .createJob .. => Except ApiError Uid
  | .applyConfigMap .. | .applyJob .. | .deleteConfigMap _ | .deleteJob .. | .deletePod _
  | .patchBackendFinalizers .. | .patchBackendStatus .. | .updateProfileFinalizers ..
  | .patchProfileFinalizers .. | .patchProfileStatus .. | .patchRunStatus ..
  | .syncRuntimeCredentials _ => Except ApiError Unit
  | .admitRun .. => Except Refusal Nat
  | .resolveRunProfiles .. => Except Refusal (List String)
  | .planRun .. => Except Refusal IngestPlan
  | .collectStream _ => Except StreamError StreamSummary
  | .checkCredentials .. => Except Refusal Unit
  -- the error, if there is one
  | .ensureBucket _ | .deleteBucket _ => Option String
  | .begin _ | .reportSchema .. | .change _ => Unit

abbrev Reconcile := Prog Call Call.Resp Unit

def ask (c : Call) : Prog Call Call.Resp c.Resp := Prog.perform c

def onOk {α : Type} (answer : Except ApiError α) (next : α → Reconcile) : Reconcile :=
  match answer with
  | .ok a => next a
  | .error _ => pure ()

/-- Continue with what was found, or with its absence (`apierrors.IsNotFound`). -/
def onFound {α : Type} (answer : Except ApiError α) (next : Option α → Reconcile) : Reconcile :=
  match answer with
  | .ok a => next (some a)
  | .error .notFound => next none
  | .error _ => pure ()

def afterDelete (answer : Except ApiError Unit) (next : Reconcile) : Reconcile :=
  match answer with
  | .ok () | .error .notFound => next
  | .error _ => pure ()

def deleteJobs : List Key → Reconcile → Reconcile
  | [], next => next
  | key :: rest, next => do afterDelete (← ask (.deleteJob key true)) (deleteJobs rest next)

def deletePods : List Key → Reconcile → Reconcile
  | [], next => next
  | key :: rest, next => do afterDelete (← ask (.deletePod key)) (deletePods rest next)

/-! ## Reconciles that act on what they have been told -/

section Keeps

variable {μ α : Type} {𝒜 : Account Call Call.Resp μ} {m : μ}

@[irreducible]
def Keeps (𝒜 : Account Call Call.Resp μ) (p : Reconcile) (m : μ) : Prop :=
  p.Minds 𝒜 (fun _ _ => True) m

theorem Keeps.minds {p : Reconcile} (h : Keeps 𝒜 p m) : p.Minds 𝒜 (fun _ _ => True) m := by
  unfold Keeps at h
  exact h

theorem Keeps.done : Keeps 𝒜 (pure ()) m := by
  unfold Keeps
  trivial

theorem Keeps.ask {c : Call} {f : c.Resp → Reconcile} (hreq : 𝒜.Req c m)
    (h : ∀ r, Keeps 𝒜 (f r) (𝒜.note c r m)) : Keeps 𝒜 (ask c >>= f) m := by
  unfold Keeps
  exact ⟨hreq, fun r _ => (h r).minds⟩

variable {answer : Except ApiError α}

theorem Keeps.onOk {next : α → Reconcile}
    (h : ∀ a, answer = .ok a → Keeps 𝒜 (next a) m) : Keeps 𝒜 (onOk answer next) m := by
  cases answer with
  | ok a => exact h a rfl
  | error e => exact Keeps.done

theorem Keeps.onFound {next : Option α → Reconcile}
    (hnone : answer = .error .notFound → Keeps 𝒜 (next none) m)
    (hsome : ∀ a, answer = .ok a → Keeps 𝒜 (next (some a)) m) :
    Keeps 𝒜 (onFound answer next) m := by
  cases answer with
  | ok a => exact hsome a rfl
  | error e =>
    cases e with
    | notFound => exact hnone rfl
    | _ => exact Keeps.done

variable {next : Reconcile}

theorem Keeps.afterDelete {answer : Except ApiError Unit}
    (h : Keeps 𝒜 next m) : Keeps 𝒜 (afterDelete answer next) m := by
  cases answer with
  | ok a => exact h
  | error e =>
    cases e with
    | notFound => exact h
    | _ => exact Keeps.done

variable {keys : List Key} {I : μ → Prop}

theorem Keeps.deleteJobs (hreq : ∀ key ∈ keys, ∀ m, I m → 𝒜.Req (.deleteJob key true) m)
    (hnote : ∀ key r m, I m → I (𝒜.note (.deleteJob key true) r m))
    (hnext : ∀ m, I m → Keeps 𝒜 next m) (hm : I m) : Keeps 𝒜 (deleteJobs keys next) m := by
  induction keys generalizing m with
  | nil => exact hnext m hm
  | cons key rest ih =>
    refine Keeps.ask (hreq key List.mem_cons_self m hm) fun r => Keeps.afterDelete ?_
    exact ih (fun k hk => hreq k (List.mem_cons_of_mem key hk)) (hnote key r m hm)

theorem Keeps.deletePods (hreq : ∀ key ∈ keys, ∀ m, I m → 𝒜.Req (.deletePod key) m)
    (hnote : ∀ key r m, I m → I (𝒜.note (.deletePod key) r m))
    (hnext : ∀ m, I m → Keeps 𝒜 next m) (hm : I m) : Keeps 𝒜 (deletePods keys next) m := by
  induction keys generalizing m with
  | nil => exact hnext m hm
  | cons key rest ih =>
    refine Keeps.ask (hreq key List.mem_cons_self m hm) fun r => Keeps.afterDelete ?_
    exact ih (fun k hk => hreq k (List.mem_cons_of_mem key hk)) (hnote key r m hm)

end Keeps

def told {α : Type} : Except ApiError α → Option (Option α)
  | .ok a => some (some a)
  | .error .notFound => some none
  | .error _ => none

end Jobs

end Tamoss
