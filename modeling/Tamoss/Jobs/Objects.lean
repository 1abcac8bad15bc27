/-
  **The objects of the controllers that work through Jobs.**

  Four controllers of the operator have their work done by Kubernetes Jobs: the schema stage
  of a `Tamoss` migrates its database, a `StorageBackend` and a `FlowProfile` are registered
  in that database, and an `IngestRun` runs TAMSin.
-/
import Tamoss.Operator.Records

namespace Tamoss.Jobs

open Lib Operator

/-! ## Labels, digests, owners -/

abbrev Labels := List (String × String)

def valueOf (labels : Labels) (name : String) : String := (labels.lookup name).getD ""

def matchingLabels (selector labels : Labels) : Bool :=
  selector.all fun entry => labels.lookup entry.1 = some entry.2

abbrev Digest := List String

/-- A Profile document, `profile.json`: its members, an empty text for a missing one. -/
structure ProfileDocument where
  id : String
  label : String := ""
  description : String := ""
  tags : String := ""
  flowMetadata : String := ""
deriving DecidableEq

/-- How the operator is installed, and what it takes from elsewhere. -/
structure Site where
  installation : Installation
  /-- the first hexadecimal digits of the SHA-256 digest of a text -/
  shortDigest : Nat → String → String
  storageBackendID : Key → String
  flowProfileID : Key → String
  validRunOutput : String → Bool
  /-- `_validated_record`: the Profile document passes the contract -/
  validDocument : ProfileDocument → Bool

/-! ## Jobs, Pods and ConfigMaps -/

structure Row where
  id : String
  label : String
  provider : StorageBackendProvider
  region : String
  storeProduct : String
  storeType : String
  tags : String
  defaultStorage : Bool
  bucketName : String
  endpointURL : String
  publicEndpointURL : String
deriving DecidableEq

/-- What the Pods of a Job run. -/
inductive Task where
  /-- `tamoss-db migrate` -/
  | migrate (image revision : String) (fixtures cnpgOwnership : Bool) (connection : Connection)
  /-- the script of `storageBackendRegistrationScript` -/
  | register (image : String) (connection : Connection) (row : Row)
  /-- the script of `storageBackendDeregistrationScript` -/
  | deregister (image : String) (connection : Connection) (id : String)
  /-- `tamoss-profile ensure`; the document is mounted from a ConfigMap -/
  | ensureProfile (image : String) (connection : Connection) (document : Key) (createdBy : String)
  | deleteProfile (image : String) (connection : Connection) (id : String)
  /-- TAMSin -/
  | ingest (arguments : List String)
deriving DecidableEq

/-- How a Job ended: its true terminal condition. -/
inductive Outcome where
  | complete | failed
deriving DecidableEq

/-- What a controller renders of a Job. -/
structure JobSpec where
  labels : Labels := []
  annotations : Labels := []
  /-- the annotation `tamoss.livewyer.io/desired-hash` -/
  desiredHash : Digest := []
  /-- the annotation `tamoss.livewyer.io/job-hash` -/
  jobHash : Digest := []
  task : Task
deriving DecidableEq

structure Job extends JobSpec where
  uid : Uid
  controller : Option Uid := none
  deleting : Bool := false
  outcome : Option Outcome := none
  active : Nat := 0
  startTime : Option Nat := none
  terminalTime : Option Nat := none
  done : Bool := false
deriving DecidableEq

def Job.succeeded (j : Job) : Bool := j.outcome = some .complete

def Job.failed (j : Job) : Bool := j.outcome = some .failed

def Job.unfinished (j : Job) : Bool := j.outcome = none

structure Pod where
  labels : Labels := []
  owner : Option Uid := none
  /-- the Job the Pod was created for, and what that Job was controlled by -/
  job : Uid
  jobController : Option Uid := none
  exitCode : Option Nat := none
deriving DecidableEq

/-- What a controller renders of a ConfigMap. -/
structure ConfigMapSpec where
  labels : Labels := []
  annotations : Labels := []
  data : Labels := []
  desiredHash : Digest := []
  document : Option ProfileDocument := none
deriving DecidableEq

structure ConfigMap extends ConfigMapSpec where
  controller : Option Uid := none
deriving DecidableEq

/-! ## Database connections -/

def appendResourceSuffix (baseName suffix : String) : String :=
  if suffix = "" then baseName else baseName ++ "-" ++ suffix

def connectionOf (d : DatabaseBackend) (baseName : String) : Connection :=
  match d.provider with
  | .cnpg =>
    { host := appendResourceSuffix baseName "db-rw"
      port := "5432"
      database := "tams"
      existingSecret := appendResourceSuffix baseName "db-app"
      usernameKey := "username"
      passwordKey := "password" }
  | _ => d.external.getD {}

def dbConnection (t : Instance) : Connection :=
  connectionOf t.spec.settings.database (t.resourceName "")

def schemaMigrationPostgresClientImage (t : Instance) : String :=
  if t.spec.settings.postgresClientImage ≠ "" then t.spec.settings.postgresClientImage
  else "postgres:18.6-alpine"

def schemaMigrationRuntimeImage (t : Instance) : String := t.spec.settings.apiImage

def commonLabels (app inst component : String) : Labels :=
  [("app.kubernetes.io/name", app), ("app.kubernetes.io/instance", inst),
    ("app.kubernetes.io/component", component),
    ("app.kubernetes.io/managed-by", "tamoss-operator")]

/-! ## Schema migration -/

def schemaStateKey (t : Instance) : Key := ⟨t.key.namespaceName, t.resourceName "schema-state"⟩

def schemaLabels (t : Instance) : Labels := commonLabels "tamoss" t.key.name "schema"

def schemaStateMatchesTarget (state : ConfigMap) (target : SchemaTarget) : Bool :=
  valueOf state.data "appliedVersion" = target.version

def schemaVersionForName (target : SchemaTarget) : String :=
  let version := match target.version.toList with
    | 'v' :: rest => rest
    | text => text
  let version := if version = [] then "dev".toList else version
  String.ofList (version.map fun c => if c = '.' ∨ c = '_' then '-' else c.toLower)

def schemaMigrationConnection (t : Instance) : Connection :=
  if t.spec.settings.database.provider = .cnpg then
    { dbConnection t with existingSecret := t.resourceName "db-superuser" }
  else dbConnection t

def schemaMigrationJobKey (target : SchemaTarget) (t : Instance) : Key :=
  ⟨t.key.namespaceName, t.resourceName ("schema-migrate-" ++ schemaVersionForName target)⟩

def schemaMigrationTask (target : SchemaTarget) (t : Instance) (includeFixtures : Bool) : Task :=
  .migrate (schemaMigrationRuntimeImage t) target.databaseRevision includeFixtures
    (t.spec.settings.database.provider = .cnpg) (schemaMigrationConnection t)

def schemaMigrationJob (target : SchemaTarget) (t : Instance) (includeFixtures : Bool) :
    JobSpec where
  labels := schemaLabels t
  task := schemaMigrationTask target t includeFixtures

/-! ## `StorageBackend` -/

structure BackendSpec extends StorageBackendSpec where
  tamossRef : String := ""
  id : String := ""
  label : String := ""
  storeProduct : String := ""
  storeType : String := ""
  tags : String := "{}"
  validTags : Bool := true
  defaultStorage : Bool := false
  publicEndpointURL : String := ""
  webIdentity : Bool := false
deriving DecidableEq

structure BackendStatus where
  observedGeneration : Nat := 0
  phase : String := ""
  backendID : String := ""
  bucketName : String := ""
  bucketReady : Bool := false
  databaseReady : Bool := false
  ready : Bool := false
  reason : String := ""
  message : String := ""
deriving DecidableEq

structure StorageBackend where
  uid : Uid
  resourceVersion : Nat := 0
  generation : Nat := 1
  deleting : Bool := false
  finalizers : List String := []
  spec : BackendSpec := {}
  status : BackendStatus := {}
deriving DecidableEq

instance : Resource StorageBackend where
  version := StorageBackend.resourceVersion
  stamp n b := { b with resourceVersion := n }
  version_stamp _ _ := rfl

def storageBackendFinalizer : String := "storagebackend.tamoss.livewyer.io/finalizer"

def BackendSpec.applyDefaults (d : Site) (key : Key) (s : BackendSpec) : BackendSpec :=
  let base := s.toStorageBackendSpec.applyDefaults
  { s with
    toStorageBackendSpec := base
    storeProduct := if s.storeProduct = "" then "s3" else s.storeProduct
    storeType := if s.storeType = "" then "http_object_store" else s.storeType
    publicEndpointURL :=
      if s.publicEndpointURL = "" then base.endpointURL else s.publicEndpointURL
    label :=
      if s.label = "" ∧ base.bucketName ≠ "" then
        "tamoss." ++ base.region ++ ":s3:" ++ base.bucketName
      else s.label
    id := if s.id = "" then d.storageBackendID key else s.id }

def storageBackendLabels (key : Key) (inst : String) : Labels :=
  commonLabels "tamoss" inst "storage-backend" ++
    [("tamoss.livewyer.io/storage-backend", key.name)]

def storageBackendSelector (key : Key) : Labels :=
  [("tamoss.livewyer.io/storage-backend", key.name)]

def storageBackendResourceKey (key : Key) (suffix : String) : Key :=
  ⟨key.namespaceName, appendResourceSuffix key.name suffix⟩

def BackendSpec.row (s : BackendSpec) : Row where
  id := s.id
  label := s.label
  provider := s.provider
  region := s.region
  storeProduct := s.storeProduct
  storeType := s.storeType
  tags := s.tags
  defaultStorage := s.defaultStorage
  bucketName := s.bucketName
  endpointURL := s.endpointURL
  publicEndpointURL := s.publicEndpointURL

def providerText : StorageBackendProvider → String
  | .unset => ""
  | .rustfs => "rustfs"
  | .externalS3 => "external-s3"

def registrationHash (r : Row) : Digest :=
  [r.id, r.label, providerText r.provider, r.region, r.storeProduct, r.storeType, r.tags,
    if r.defaultStorage then "true" else "false", r.bucketName, r.endpointURL,
    r.publicEndpointURL]

theorem registrationHash_injective : Function.Injective registrationHash := by
  intro a b h
  have hprovider : ∀ p q, providerText p = providerText q → p = q := by
    intro p q
    cases p <;> cases q <;> simp [providerText]
  have hdefault : ∀ p q : Bool, (if p then "true" else "false") = (if q then "true" else "false") →
      p = q := by decide
  simp only [registrationHash, List.cons.injEq, and_true] at h
  obtain ⟨h1, h2, h3, h4, h5, h6, h7, h8, h9, h10, h11⟩ := h
  cases a
  cases b
  simp_all only [Row.mk.injEq, true_and, and_true]
  exact ⟨hprovider _ _ h3, hdefault _ _ h8⟩

def deregistrationHash (s : BackendSpec) : Digest := ["delete", s.id, s.bucketName]

/-- `storageBackendDBRegistered` -/
def databaseRegistered (state : Option ConfigMap) (s : BackendSpec) : Bool :=
  match state with
  | none => false
  | some m =>
    valueOf m.data "ready" = "true" && valueOf m.data "backendID" = s.id &&
      valueOf m.data "bucketName" = s.bucketName &&
      valueOf m.data "endpointURL" = s.endpointURL && m.desiredHash = registrationHash s.row

def databaseState (key : Key) (b : StorageBackend) (s : BackendSpec) : ConfigMapSpec where
  labels := storageBackendLabels key b.spec.tamossRef
  data := [("ready", "true"), ("backendID", s.id), ("bucketName", s.bucketName),
    ("endpointURL", s.endpointURL)]
  desiredHash := registrationHash s.row

/-- `browserCORSOrigins`: each origin at its first place -/
def browserCORSOrigins (t : TamossSpec) : List String :=
  let ui := trimmed t.uiURL
  let ui := (ui.dropSuffix? "/").elim ui (·.toString)
  let host := trimmed t.uiHost
  let scheme := if t.ingressTLS then "https" else "http"
  ((if ui = "" then [] else [ui]) ++ (if host = "" then [] else [scheme ++ "://" ++ host]) ++
    (t.allowedOrigins.map trimmed).filter (· ≠ "")).eraseDups

def storageBackendCORSOrigins (t : TamossSpec) : List String :=
  if browserCORSOrigins t = [] then ["*"] else browserCORSOrigins t

/-- `storageBackendExternalBucketHash` and `storageBackendBucketHash` -/
def bucketHash (t : Instance) (s : BackendSpec) : Digest :=
  if s.isExternalObjectStore then
    [providerText s.provider, s.region, s.bucketName, s.endpointURL, s.publicEndpointURL,
      s.existingSecret, s.secretKeys]
  else
    [s.endpointURL, s.bucketName, s.region,
      "\n".intercalate (storageBackendCORSOrigins t.spec)]

def managedBucketReady (m : ConfigMap) (s : BackendSpec) : Bool :=
  valueOf m.data "ready" = "true" && valueOf m.data "bucketName" = s.bucketName &&
    valueOf m.data "endpointURL" = s.endpointURL

def bucketReady (state : Option ConfigMap) (t : Instance) (s : BackendSpec) : Bool :=
  match state with
  | none => false
  | some m => managedBucketReady m s && m.desiredHash = bucketHash t s

def bucketState (key : Key) (b : StorageBackend) (t : Instance) (s : BackendSpec) :
    ConfigMapSpec where
  labels := storageBackendLabels key b.spec.tamossRef
  data := [("ready", "true"), ("bucketName", s.bucketName), ("endpointURL", s.endpointURL)]
  desiredHash := bucketHash t s

def registrationJob (key : Key) (t : Instance) (s : BackendSpec) : JobSpec where
  labels := storageBackendLabels key t.key.name
  desiredHash := registrationHash s.row
  task := .register (schemaMigrationPostgresClientImage t) (dbConnection t) s.row

def deregistrationJob (key : Key) (t : Instance) (s : BackendSpec) : JobSpec where
  labels := storageBackendLabels key t.key.name
  desiredHash := deregistrationHash s
  task := .deregister (schemaMigrationPostgresClientImage t) (dbConnection t) s.id

/-! ## `FlowProfile` -/

/-- The fields of `spec.flowMetadata` the controller reads; `none` for a missing entry
    and for one that is not a text. -/
structure FlowMetadata where
  format : Option String
  hasCodec : Bool := false
  codec : Option String := none
  text : String := ""
deriving DecidableEq

/-- `FlowProfileSpec`; the metadata is `none` unless it is a JSON object. -/
structure ProfileSpec where
  tamossRef : String := ""
  id : String := ""
  label : String := ""
  description : String := ""
  tags : String := ""
  validTags : Bool := true
  flowMetadata : Option FlowMetadata := none
deriving DecidableEq

inductive ProfilePhase where
  | unset | pending | progressing | ready | degraded | deleting
deriving DecidableEq

structure ProfileStatus where
  observedGeneration : Nat := 0
  phase : ProfilePhase := .unset
  profileID : String := ""
  tamossName : String := ""
  format : String := ""
  codec : String := ""
  ready : Bool := false
  registered : Bool := false
  deletionBlocked : Bool := false
  reason : String := ""
  message : String := ""
deriving DecidableEq

structure FlowProfile where
  uid : Uid
  resourceVersion : Nat := 0
  generation : Nat := 1
  creationTimestamp : Nat := 0
  deleting : Bool := false
  finalizers : List String := []
  spec : ProfileSpec := {}
  status : ProfileStatus := {}
deriving DecidableEq

instance : Resource FlowProfile where
  version := FlowProfile.resourceVersion
  stamp n p := { p with resourceVersion := n }
  version_stamp _ _ := rfl

def flowProfileFinalizer : String := "flowprofile.tamoss.livewyer.io/finalizer"

def ProfileSpec.applyDefaults (d : Site) (key : Key) (s : ProfileSpec) : ProfileSpec :=
  { s with id := if s.id = "" then d.flowProfileID key else s.id }

structure ResolvedProfile where
  spec : ProfileSpec
  document : ProfileDocument
  hash : Digest
  format : String
  codec : String
deriving DecidableEq

def supportedFlowProfileFormat (value : String) : Bool :=
  value ∈ ["urn:x-nmos:format:video", "urn:x-nmos:format:audio", "urn:x-tam:format:image",
    "urn:x-nmos:format:data"]

def profileDocument (s : ProfileSpec) (metadata : FlowMetadata) : ProfileDocument where
  id := s.id
  label := s.label
  description := s.description
  tags := s.tags
  flowMetadata := metadata.text

def documentHash (p : ProfileDocument) : Digest :=
  [p.id, p.label, p.description, p.tags, p.flowMetadata]

def resolveFlowProfile (d : Site) (key : Key) (p : FlowProfile) :
    Except String ResolvedProfile :=
  let spec := p.spec.applyDefaults d key
  if trimmed spec.tamossRef = "" then .error "spec.tamossRef.name is required"
  else if !spec.validTags then .error "spec.tags is invalid"
  else match spec.flowMetadata with
    | none => .error "spec.flowMetadata must be a JSON object"
    | some metadata =>
      match metadata.format with
      | none => .error "spec.flowMetadata.format is not a supported TAMS Profile format"
      | some format =>
        if !supportedFlowProfileFormat format then
          .error "spec.flowMetadata.format is not a supported TAMS Profile format"
        else if metadata.hasCodec && metadata.codec = none then
          .error "spec.flowMetadata.codec must be a string"
        else
          let document := profileDocument spec metadata
          .ok ⟨spec, document, documentHash document, format, metadata.codec.getD ""⟩

def flowProfileLabels (key : Key) (p : FlowProfile) : Labels :=
  commonLabels "tamoss" p.spec.tamossRef "flow-profile" ++
    [("tamoss.livewyer.io/flow-profile", key.name)]

def flowProfileSelector (key : Key) : Labels := [("tamoss.livewyer.io/flow-profile", key.name)]

def trimRight (cutset : List Char) (text : String) : String :=
  String.ofList (text.toList.reverse.dropWhile (· ∈ cutset)).reverse

def firstChars (n : Nat) (text : String) : String := String.ofList (text.toList.take n)

def flowProfileResourceKey (d : Site) (key : Key) (suffix : String) : Key :=
  let base := key.name ++ "-" ++ suffix
  ⟨key.namespaceName,
    if base.length ≤ 63 then base
    else firstChars 54 (trimRight ['-'] key.name) ++ "-" ++ d.shortDigest 8 base⟩

def flowProfileJobInputHash (t : Instance) (r : ResolvedProfile) (action : String)
    (arguments : List String) : Digest :=
  let db := dbConnection t
  [action] ++ r.hash ++ [schemaMigrationRuntimeImage t, db.host, db.port, db.database,
    db.existingSecret, db.usernameKey, db.passwordKey] ++ arguments ++
    (match db.tls with
    | none => []
    | some (name, entry) => ["verify-full", name, entry])

def flowProfileRegistrationJob (d : Site) (key : Key) (p : FlowProfile) (t : Instance)
    (r : ResolvedProfile) : JobSpec where
  labels := flowProfileLabels key p
  desiredHash := r.hash
  jobHash := flowProfileJobInputHash t r "register" ["run", "tamoss-profile", "ensure", "--file",
    "/profile/profile.json", "--created-by",
    "tamoss-operator:" ++ key.namespaceName ++ "/" ++ key.name]
  task := .ensureProfile (schemaMigrationRuntimeImage t) (dbConnection t)
    (flowProfileResourceKey d key "document")
    ("tamoss-operator:" ++ key.namespaceName ++ "/" ++ key.name)

def flowProfileDeletionJob (key : Key) (p : FlowProfile) (t : Instance) (r : ResolvedProfile) :
    JobSpec where
  labels := flowProfileLabels key p
  desiredHash := r.hash
  jobHash := flowProfileJobInputHash t r "delete"
    ["run", "tamoss-profile", "delete-if-unused", "--id", r.spec.id]
  task := .deleteProfile (schemaMigrationRuntimeImage t) (dbConnection t) r.spec.id

def flowProfileJobDrifted (live desired : JobSpec) : Bool :=
  live.jobHash = [] || live.jobHash ≠ desired.jobHash

def flowProfileDocument (key : Key) (p : FlowProfile) (r : ResolvedProfile) : ConfigMapSpec where
  labels := flowProfileLabels key p
  document := some r.document

def flowProfileState (key : Key) (p : FlowProfile) (r : ResolvedProfile) : ConfigMapSpec where
  labels := flowProfileLabels key p
  data := [("ready", "true"), ("profileID", r.spec.id)]
  desiredHash := r.hash

/-- The condition of `flowProfileRegistered` on the state that was read. -/
def profileRegistered (m : ConfigMap) (r : ResolvedProfile) : Bool :=
  valueOf m.data "ready" = "true" && valueOf m.data "profileID" = r.spec.id &&
    m.desiredHash = r.hash

/-! ## `IngestRun` -/

inductive RunPhase where
  | unset | pending | queued | running | succeeded | partiallySucceeded | failed | cancelled
deriving DecidableEq

def RunPhase.terminal : RunPhase → Bool
  | .succeeded | .partiallySucceeded | .failed | .cancelled => true
  | _ => false

inductive DesiredState where
  | unset | running | cancelled
deriving DecidableEq

/-- `IngestRunSpec`: the fields the reconciler reads itself; the API server lets only the
    desired state change, and only to `Cancelled`. -/
structure RunSpec where
  tamossRef : String := ""
  maxInputs : Nat := 0
  output : Option String := none
  desiredState : DesiredState := .unset
  /-- the rest of the request, as it is rendered into the Job -/
  request : List String := []
deriving DecidableEq

/-- `IngestRunResultStatus` -/
structure ResultRef where
  key : String := ""
  verified : Bool := false
  size : Int := 0
  mediaType : String := ""
  sha256 : String := ""
deriving DecidableEq

structure Condition where
  status : Bool := false
  reason : String := ""
  message : String := ""
deriving DecidableEq

inductive RunOutcome where
  | succeeded | partially | interrupted | failed | unknown
deriving DecidableEq

/-- `ingestStreamSummary`; the counters are copied into the status as they are. -/
structure StreamSummary where
  runID : String := ""
  lastSequence : Nat := 0
  outcome : RunOutcome := .unknown
  runFinished : Bool := false
  total : Nat := 0
  counters : List Nat := []
  output : String := ""
deriving DecidableEq

structure RunStatus where
  observedGeneration : Nat := 0
  phase : RunPhase := .unset
  ready : Condition := {}
  progressing : Condition := {}
  jobName : String := ""
  jobUID : Uid := 0
  sourceName : String := ""
  policyDigest : String := ""
  resolvedProfiles : List String := []
  tamsinRunID : String := ""
  attempt : Nat := 0
  inputsTotal : Nat := 0
  counters : List Nat := []
  lastEventSequence : Nat := 0
  resultRef : ResultRef := {}
  output : String := ""
  startedAt : Option Nat := none
  completedAt : Option Nat := none
deriving DecidableEq

structure IngestRun where
  uid : Uid
  generation : Nat := 1
  spec : RunSpec := {}
  status : RunStatus := {}
deriving DecidableEq

def mergeField {α : Type} [DecidableEq α] (original changed stored : α) : α :=
  if changed = original then stored else changed

def RunStatus.merge (original changed stored : RunStatus) : RunStatus where
  observedGeneration := mergeField original.observedGeneration changed.observedGeneration
    stored.observedGeneration
  phase := mergeField original.phase changed.phase stored.phase
  ready := mergeField original.ready changed.ready stored.ready
  progressing := mergeField original.progressing changed.progressing stored.progressing
  jobName := mergeField original.jobName changed.jobName stored.jobName
  jobUID := mergeField original.jobUID changed.jobUID stored.jobUID
  sourceName := mergeField original.sourceName changed.sourceName stored.sourceName
  policyDigest := mergeField original.policyDigest changed.policyDigest stored.policyDigest
  resolvedProfiles := mergeField original.resolvedProfiles changed.resolvedProfiles
    stored.resolvedProfiles
  tamsinRunID := mergeField original.tamsinRunID changed.tamsinRunID stored.tamsinRunID
  attempt := mergeField original.attempt changed.attempt stored.attempt
  inputsTotal := mergeField original.inputsTotal changed.inputsTotal stored.inputsTotal
  counters := mergeField original.counters changed.counters stored.counters
  lastEventSequence := mergeField original.lastEventSequence changed.lastEventSequence
    stored.lastEventSequence
  resultRef := mergeField original.resultRef changed.resultRef stored.resultRef
  output := mergeField original.output changed.output stored.output
  startedAt := mergeField original.startedAt changed.startedAt stored.startedAt
  completedAt := mergeField original.completedAt changed.completedAt stored.completedAt

def cutName (d : Site) (lead : String) (room : Nat) (name : String) : String :=
  if lead.length + name.length ≤ 63 then lead ++ name
  else lead ++ trimRight ['-', '.'] (firstChars room name) ++ "-" ++ d.shortDigest 10 name

def ingestJobKey (d : Site) (key : Key) : Key :=
  ⟨key.namespaceName, cutName d "tamsin-" 45 key.name⟩

def ingestRunSelectorValue (d : Site) (name : String) : String := cutName d "" 52 name

def ingestLabels (d : Site) (key : Key) (tamossRef : String) : Labels :=
  commonLabels "tamsin" tamossRef "ingest" ++
    [("tamoss.livewyer.io/ingest-run", ingestRunSelectorValue d key.name),
      ("tamoss.livewyer.io/tamoss", tamossRef)]

def ingestJobBelongsToRun (d : Site) (key : Key) (run : IngestRun) (job : Job) : Bool :=
  job.controller = some run.uid &&
    valueOf job.labels "tamoss.livewyer.io/ingest-run" = ingestRunSelectorValue d key.name &&
    valueOf job.labels "tamoss.livewyer.io/tamoss" = run.spec.tamossRef

end Tamoss.Jobs
