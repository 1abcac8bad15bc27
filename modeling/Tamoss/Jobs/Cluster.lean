/-
  **The cluster the controllers work in.**
-/
import Tamoss.Lib.Table
import Tamoss.Jobs.Ingest
import Tamoss.Jobs.FlowProfiles
import Tamoss.Jobs.Schema

namespace Tamoss.Jobs

open Lib Operator

/-- A row of `tamoss_storage_backends`, and the resource whose Job wrote it. -/
structure StoredRow where
  row : Row
  writer : Option Uid
deriving DecidableEq

/-- A stored Profile, and the resource whose Job created it. -/
structure StoredProfile where
  document : ProfileDocument
  creator : Option Uid
deriving DecidableEq

/-- What the Jobs of the controllers read and write in the database of an instance. -/
structure Database where
  backends : Table String StoredRow fun r => r.row.id := .empty
  profiles : Table String StoredProfile fun p => p.document.id := .empty

def StoredRow.demote (r : StoredRow) : StoredRow := { r with row.defaultStorage := false }

def clearDefault (t : Table String StoredRow fun r => r.row.id) (isDefault : Bool) (id : String) :
    Table String StoredRow fun r => r.row.id where
  rows := t.rows.map fun r => if isDefault ∧ r.row.id ≠ id then r.demote else r
  nodup := by
    have hids : (t.rows.map fun r => if isDefault ∧ r.row.id ≠ id then r.demote else r).map
        (fun r => r.row.id) = t.rows.map fun r => r.row.id := by
      rw [List.map_map]
      refine List.map_congr_left fun r _ => ?_
      simp only [Function.comp_apply]
      split <;> rfl
    exact hids ▸ t.nodup

def Database.register (db : Database) (row : Row) (writer : Option Uid) : Database :=
  { db with backends := (clearDefault db.backends row.defaultStorage row.id).upsert ⟨row, writer⟩ }

/-- `storageBackendDeregistrationSQL` -/
def Database.deregister (db : Database) (id : String) : Database :=
  { db with backends := db.backends.erase id }

/-- `ensure_profile`; `none` when the transaction fails. -/
def Database.ensureProfile (d : Site) (db : Database) (document : ProfileDocument)
    (creator : Option Uid) : Option Database :=
  if !d.validDocument document then none
  else match db.profiles.get document.id with
    | some stored => if stored.document = document then some db else none
    | none => some { db with profiles := db.profiles.upsert ⟨document, creator⟩ }

/-- `delete_profile_if_unused`; `none` when Flows refer to the Profile. -/
def Database.deleteProfile (db : Database) (id : String) (inUse : Bool) : Option Database :=
  match db.profiles.get id with
  | none => some db
  | some _ => if inUse then none else some { db with profiles := db.profiles.erase id }

structure World where
  tamosses : Directory Key Instance := {}
  backends : Directory Key StorageBackend := {}
  profiles : Directory Key FlowProfile := {}
  runs : Directory Key IngestRun := {}
  configMaps : Directory Key ConfigMap := {}
  jobs : Directory Key Job := {}
  pods : Directory Key Pod := {}
  databases : Connection → Database := fun _ => {}
  next : Nat := 1
  clock : Nat := 0
  /-- for which runs a Job has been created -/
  created : List Uid := []
  completed : List (Key × JobSpec) := []

/-- What the environment decides in a call. -/
structure Choice where
  age : Key → Nat := fun _ => 0
  fault : Option ApiError := none
  admission : Except Refusal Nat := .error ("", "")
  runProfiles : Except Refusal (List String) := .ok []
  plan : Except Refusal IngestPlan := .ok {}
  stream : Except StreamError StreamSummary := .error .unavailable
  credentials : Except Refusal Unit := .ok ()
  bucket : Option String := none

def found {α : Type} : Option α → Except ApiError α
  | some a => .ok a
  | none => .error .notFound

def World.setDatabase (w : World) (c : Connection) (db : Database) : World :=
  { w with databases := fun x => if x = c then db else w.databases x }

def World.putJob (w : World) (key : Key) (job : Option Job) : World :=
  { w with jobs := w.jobs.put key job }

def World.carryOut (d : Site) (w : World) (job : Job) (age : Nat) (inUse : Bool) :
    Option World :=
  match job.task with
  | .migrate .. | .ingest _ => some w
  | .register _ c row => some (w.setDatabase c ((w.databases c).register row job.controller))
  | .deregister _ c id => some (w.setDatabase c ((w.databases c).deregister id))
  | .ensureProfile _ c key _ =>
    match ((w.configMaps.object key).lagging age).bind fun m => m.document with
    | none => none
    | some document =>
      ((w.databases c).ensureProfile d document job.controller).map (w.setDatabase c)
  | .deleteProfile _ c id => ((w.databases c).deleteProfile id inUse).map (w.setDatabase c)

def BackendSpec.fixed (s : BackendSpec) :
    String × StorageBackendProvider × String × String × StorageBackendUsage :=
  (s.id, s.provider, s.bucketName, s.tamossRef, s.usage)

def World.orphanPods (w : World) (job : Uid) : World :=
  { w with
    pods := w.pods.alter fun p => if p.owner = some job then some { p with owner := none } else none }

def Job.finished (job : Job) (outcome : Outcome) (now : Nat) : Job :=
  { job with outcome := some outcome, active := 0, terminalTime := some now }

def Job.newPod (job : Job) (key : Key) : Pod where
  labels := job.labels ++ [("job-name", key.name)]
  owner := some job.uid
  job := job.uid
  jobController := job.controller

/-- What others do; `none` when it is not possible. -/
def World.change (d : Site) (w : World) : Change → Option World
  | .setTamoss key tamoss =>
    some { w with
      tamosses := w.tamosses.put key (tamoss.map fun t => { t with
        key := key
        uid := ((w.tamosses.current key).map Instance.uid).getD w.next })
      next := w.next + 1 }
  | .createBackend key spec =>
    if (w.backends.current key).isSome then none
    else some { w with
      backends := w.backends.put key
        (some { uid := w.next, resourceVersion := w.next, spec := spec })
      next := w.next + 1 }
  | .editBackend key spec =>
    match w.backends.current key with
    | none => none
    | some b =>
      if b.spec.fixed ≠ spec.fixed then none
      else some { w with
        backends := w.backends.put key (some
          { b with resourceVersion := w.next, generation := b.generation + 1, spec := spec })
        next := w.next + 1 }
  | .deleteBackend key =>
    match w.backends.current key with
    | none => none
    | some b => some { w with
        backends := w.backends.put key
          (if b.finalizers = [] then none
          else some { b with resourceVersion := w.next, deleting := true })
        next := w.next + 1 }
  | .createProfile key spec =>
    if (w.profiles.current key).isSome then none
    else some { w with
      profiles := w.profiles.put key (some
        { uid := w.next, resourceVersion := w.next, creationTimestamp := w.clock, spec := spec })
      next := w.next + 1 }
  | .deleteProfile key =>
    match w.profiles.current key with
    | none => none
    | some p => some { w with
        profiles := w.profiles.put key
          (if p.finalizers = [] then none
          else some { p with resourceVersion := w.next, deleting := true })
        next := w.next + 1 }
  | .createRun key spec =>
    if (w.runs.current key).isSome then none
    else some { w with
      runs := w.runs.put key (some { uid := w.next, spec := spec })
      next := w.next + 1 }
  | .cancelRun key =>
    match w.runs.current key with
    | none => none
    | some run => some { w with
        runs := w.runs.put key (some
          { run with generation := run.generation + 1, spec.desiredState := .cancelled }) }
  | .deleteRun key =>
    if (w.runs.current key).isSome then some { w with runs := w.runs.put key none } else none
  | .runJob key age inUse =>
    match w.jobs.current key with
    | none => none
    | some job =>
      if job.unfinished then
        (w.carryOut d job age inUse).map fun w' => w'.putJob key (some { job with done := true })
      else none
  | .finishJob key outcome =>
    match w.jobs.current key with
    | none => none
    | some job =>
      if job.unfinished ∧ (outcome = .complete → job.done) then
        some { w.putJob key (some (job.finished outcome w.clock)) with
          completed :=
            if outcome = .complete then (key, job.toJobSpec) :: w.completed else w.completed }
      else none
  | .observeJob key active =>
    match w.jobs.current key with
    | none => none
    | some job =>
      if job.unfinished then
        some (w.putJob key (some
          { job with active := active, startTime := some (job.startTime.getD w.clock) }))
      else none
  | .deleteJob key =>
    match w.jobs.current key with
    | none => none
    | some job => some (w.putJob key (some { job with deleting := true }))
  | .removeJob key =>
    if (w.jobs.current key).isSome then some (w.putJob key none) else none
  | .createPod key jobKey =>
    match w.jobs.current jobKey with
    | none => none
    | some job =>
      if (w.pods.current key).isSome ∨ ¬ job.unfinished ∨ job.deleting then none
      else some { w with pods := w.pods.put key (some (job.newPod jobKey)) }
  | .finishPod key exitCode =>
    match w.pods.current key with
    | none => none
    | some pod => some { w with
        pods := w.pods.put key (some { pod with exitCode := some exitCode }) }
  | .removePod key =>
    if (w.pods.current key).isSome then some { w with pods := w.pods.put key none } else none
  | .tick => some { w with clock := w.clock + 1 }

def World.applyConfigMap (w : World) (key : Key) (controller : Uid) (spec : ConfigMapSpec) :
    Except ApiError Unit × World :=
  match w.configMaps.current key with
  | none =>
    (.ok (), { w with configMaps :=
      w.configMaps.put key (some { spec with controller := some controller }) })
  | some m =>
    if m.controller = none ∨ m.controller = some controller then
      (.ok (), { w with configMaps :=
        w.configMaps.put key (some { spec with controller := some controller }) })
    else (.error (.other "Only one reference can have Controller set to true"), w)

def World.applyJob (w : World) (key : Key) (controller : Option Uid) (spec : JobSpec) :
    Except ApiError Unit × World :=
  match w.jobs.current key with
  | none =>
    (.ok (), { w.putJob key (some { spec with uid := w.next, controller := controller }) with
      next := w.next + 1 })
  | some job =>
    if ¬ (controller = none ∨ job.controller = none ∨ job.controller = controller) then
      (.error (.other "Only one reference can have Controller set to true"), w)
    else if job.task ≠ spec.task then (.error (.other "field is immutable"), w)
    else (.ok (), w.putJob key (some
      { job with toJobSpec := spec, controller := controller.or job.controller }))

def World.createJob (w : World) (key : Key) (controller : Uid) (spec : JobSpec) :
    Except ApiError Uid × World :=
  match w.jobs.current key with
  | some _ => (.error .alreadyExists, w)
  | none =>
    (.ok w.next,
      { w.putJob key (some { spec with uid := w.next, controller := some controller }) with
        next := w.next + 1
        created := controller :: w.created })

def World.deleteJob (w : World) (key : Key) (foreground : Bool) : Except ApiError Unit × World :=
  match w.jobs.current key with
  | none => (.error .notFound, w)
  | some job =>
    if foreground then (.ok (), w.putJob key (some { job with deleting := true }))
    else (.ok (), (w.putJob key none).orphanPods job.uid)

/-- A resource whose last finalizer is removed is gone once it is being deleted. -/
def World.setBackend (w : World) (key : Key) (b : StorageBackend) : World :=
  { w with
    backends := w.backends.put key
      (if b.deleting ∧ b.finalizers = [] then none else some { b with resourceVersion := w.next })
    next := w.next + 1 }

def World.setProfile (w : World) (key : Key) (p : FlowProfile) : World :=
  { w with
    profiles := w.profiles.put key
      (if p.deleting ∧ p.finalizers = [] then none else some { p with resourceVersion := w.next })
    next := w.next + 1 }

def guarded {α : Type} [Resource α] (current : Option α) (read : α) (w : World)
    (write : α → World) : Except ApiError Unit × World :=
  match current with
  | none => (.error .notFound, w)
  | some a =>
    if Resource.version a = Resource.version read then (.ok (), write a)
    else (.error .conflict, w)

def unguarded {α : Type} (current : Option α) (w : World) (write : α → World) :
    Except ApiError Unit × World :=
  match current with
  | none => (.error .notFound, w)
  | some a => (.ok (), write a)

def inNamespace {α : Type} (namespaceName : String) (l : List (Key × α)) : List (Key × α) :=
  l.filter fun x => x.1.namespaceName = namespaceName

def World.profilesOf (w : World) (age : Key → Nat) (ns tamossRef : String) :
    List (Key × FlowProfile) :=
  (inNamespace ns (w.profiles.list age)).filter fun x => x.2.spec.tamossRef = tamossRef

def World.jobsOf (w : World) (age : Key → Nat) (ns : String) (selector : Labels) :
    List (Key × Job) :=
  (inNamespace ns (w.jobs.list age)).filter fun x => matchingLabels selector x.2.labels

def World.podsOf (w : World) (age : Key → Nat) (ns : String) (selector : Labels) :
    List (Key × Pod) :=
  (inNamespace ns (w.pods.list age)).filter fun x => matchingLabels selector x.2.labels

def World.respond (w : World) (ch : Choice) : (c : Call) → c.Resp × World
  | .begin _ => ((), w)
  | .getTamoss key => (found ((w.tamosses.object key).lagging (ch.age key)), w)
  | .getBackend key => (found ((w.backends.object key).lagging (ch.age key)), w)
  | .getProfile key => (found ((w.profiles.object key).lagging (ch.age key)), w)
  | .getRun key => (found ((w.runs.object key).lagging (ch.age key)), w)
  | .getConfigMap key => (found ((w.configMaps.object key).lagging (ch.age key)), w)
  | .getJob key => (found ((w.jobs.object key).lagging (ch.age key)), w)
  | .listProfiles ns tamossRef => (.ok (w.profilesOf ch.age ns tamossRef), w)
  | .listJobs ns selector => (.ok (w.jobsOf ch.age ns selector), w)
  | .listPods ns selector => (.ok (w.podsOf ch.age ns selector), w)
  | .getTamossLive key => (found (w.tamosses.current key), w)
  | .getJobLive key => (found (w.jobs.current key), w)
  | .now => (w.clock, w)
  | .applyConfigMap key controller spec => w.applyConfigMap key controller spec
  | .applyJob key controller spec => w.applyJob key controller spec
  | .createJob key controller spec => w.createJob key controller spec
  | .deleteConfigMap key =>
    unguarded (w.configMaps.current key) w fun _ =>
      { w with configMaps := w.configMaps.put key none }
  | .deleteJob key foreground => w.deleteJob key foreground
  | .deletePod key =>
    unguarded (w.pods.current key) w fun _ => { w with pods := w.pods.put key none }
  | .patchBackendFinalizers key finalizers =>
    unguarded (w.backends.current key) w fun b => w.setBackend key { b with finalizers }
  | .patchBackendStatus key read status =>
    guarded (w.backends.current key) read w fun b => w.setBackend key { b with status }
  | .updateProfileFinalizers key read finalizers =>
    guarded (w.profiles.current key) read w fun p => w.setProfile key { p with finalizers }
  | .patchProfileFinalizers key finalizers =>
    unguarded (w.profiles.current key) w fun p => w.setProfile key { p with finalizers }
  | .patchProfileStatus key read status =>
    guarded (w.profiles.current key) read w fun p => w.setProfile key { p with status }
  | .patchRunStatus key original status =>
    unguarded (w.runs.current key) w fun run =>
      { w with
        runs := w.runs.put key (some
          { run with status := RunStatus.merge original status run.status }) }
  | .admitRun .. => (ch.admission, w)
  | .resolveRunProfiles .. => (ch.runProfiles, w)
  | .planRun .. => (ch.plan, w)
  | .collectStream _ => (ch.stream, w)
  | .checkCredentials .. => (ch.credentials, w)
  | .ensureBucket _ | .deleteBucket _ => (ch.bucket, w)
  | .syncRuntimeCredentials _ => (.ok (), w)
  | .reportSchema .. => ((), w)
  | .change _ => ((), w)

def Call.failure (e : ApiError) : (c : Call) → Option c.Resp
  | .begin _ | .now | .admitRun .. | .resolveRunProfiles .. | .planRun .. | .collectStream _
  | .checkCredentials .. | .ensureBucket _ | .deleteBucket _ | .reportSchema .. | .change _ => none
  | .getTamoss _ | .getBackend _ | .getProfile _ | .getRun _ | .getConfigMap _ | .getJob _
  | .listProfiles .. | .listJobs .. | .listPods .. | .getTamossLive _ | .getJobLive _
  | .applyConfigMap .. | .applyJob .. | .createJob .. | .deleteConfigMap _ | .deleteJob ..
  | .deletePod _ | .patchBackendFinalizers .. | .patchBackendStatus ..
  | .updateProfileFinalizers .. | .patchProfileFinalizers .. | .patchProfileStatus ..
  | .patchRunStatus .. | .syncRuntimeCredentials _ => some (.error e)

def World.perform (d : Site) (ch : Choice) (c : Call) (w : World) : Option (c.Resp × World) :=
  match c with
  | .change x => (w.change d x).map fun w' => ((), w')
  | c =>
    match ch.fault with
    | none => some (w.respond ch c)
    | some e =>
      match e with
      | .other _ => (c.failure e).map fun r => (r, w)
      | _ => none

def Fresh {α : Type} (current : Option α) : Except ApiError α → Prop
  | .error (.other _) => True
  | answer => answer = found current

instance Fresh.decidable {α : Type} [DecidableEq α] (current : Option α)
    (answer : Except ApiError α) : Decidable (Fresh current answer) := by
  unfold Fresh
  split <;> infer_instance

def FreshList {α : Type} (current : List α) : Except ApiError (List α) → Prop
  | .error _ => True
  | .ok listed => listed = current

instance FreshList.decidable {α : Type} [DecidableEq α] (current : List α)
    (answer : Except ApiError (List α)) : Decidable (FreshList current answer) := by
  unfold FreshList
  split <;> infer_instance

def World.Current (w : World) : (c : Call) → c.Resp → Prop
  | .getTamoss key, r => Fresh (w.tamosses.current key) r
  | .getBackend key, r => Fresh (w.backends.current key) r
  | .getProfile key, r => Fresh (w.profiles.current key) r
  | .getRun key, r => Fresh (w.runs.current key) r
  | .getConfigMap key, r => Fresh (w.configMaps.current key) r
  | .getJob key, r => Fresh (w.jobs.current key) r
  | .listProfiles ns tamossRef, r => FreshList (w.profilesOf (fun _ => 0) ns tamossRef) r
  | .listJobs ns selector, r => FreshList (w.jobsOf (fun _ => 0) ns selector) r
  | .listPods ns selector, r => FreshList (w.podsOf (fun _ => 0) ns selector) r
  | _, _ => True

instance World.Current.decidable (w : World) (c : Call) (r : c.Resp) :
    Decidable (w.Current c r) := by
  cases c
  case getTamoss => exact Fresh.decidable _ _
  case getBackend => exact Fresh.decidable _ _
  case getProfile => exact Fresh.decidable _ _
  case getRun => exact Fresh.decidable _ _
  case getConfigMap => exact Fresh.decidable _ _
  case getJob => exact Fresh.decidable _ _
  case listProfiles => exact FreshList.decidable _ _
  case listJobs => exact FreshList.decidable _ _
  case listPods => exact FreshList.decidable _ _
  all_goals exact .isTrue trivial

instance decidableForallStored {α : Type} (stored : Option α) (P : α → Prop) [DecidablePred P] :
    Decidable (∀ a, stored = some a → P a) :=
  match stored with
  | none => .isTrue nofun
  | some a => decidable_of_iff (P a) ⟨fun h _ heq => Option.some.inj heq ▸ h, fun h => h a rfl⟩

/-- What may be started. -/
inductive Operation where
  | schema (key : Key)
  | storageBackend (key : Key)
  | flowProfile (key : Key)
  | ingestRun (key : Key)
  | change (change : Change)

def operator (d : Site) : Service Call Call.Resp where
  Op := Operation
  World := World
  Request := Request
  Choice := Choice
  program
    | .schema key => reconcileSchema d key
    | .storageBackend key => reconcileStorageBackend d key
    | .flowProfile key => reconcileFlowProfile d key
    | .ingestRun key => reconcileIngestRun d key
    | .change x => ask (.change x)
  claim
    | .begin r => some r
    | _ => none
  perform := World.perform d

instance (d : Site) : DecidableEq (operator d).Request := inferInstanceAs (DecidableEq Request)

def plainSite : Site where
  installation :=
    { releases := fun version =>
        if version = "v1" then
          some { version := "v1", schema := { version := "s1", databaseRevision := "r1" } }
        else none
      apply := fun t => .ok { t.spec.settings with profile := "ci" }
      profile := fun _ t => t.spec.settings }
  shortDigest n text := firstChars n text
  storageBackendID key := "backend-" ++ key.name
  flowProfileID key := "profile-" ++ key.name
  validRunOutput _ := true
  validDocument _ := true

def demo : Instance where
  key := ⟨"media", "demo"⟩
  uid := 0
  spec := { version := "v1" }

abbrev Act (d : Site) := (operator d).machine.Action

def happens {d : Site} (x : Change) : List (Act d) :=
  [.start 0 (.change x), .call 0 ({} : Choice), .leave 0]

def works {d : Site} (op : Operation) (calls : Nat) (ch : Choice) : List (Act d) :=
  [.start 1 op] ++ List.replicate calls (.call 1 ch) ++ [.leave 1]

end Tamoss.Jobs
