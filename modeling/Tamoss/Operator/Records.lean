/-
  **The objects the operator reads and writes.**

  The custom resources of `api/v1alpha1`, with the fields that the controllers of this
  development read or set; what the profile and installation defaults fill in is one
  `Settings` record.
-/
import Tamoss.Lib.Versioned
import Tamoss.Lib.Program
import Tamoss.Operator.Artifacts

namespace Tamoss.Operator

open Lib

/-- A namespaced name. -/
structure Key where
  namespaceName : String
  name : String
deriving DecidableEq

abbrev Uid := Nat

/-- `BackendProvidedBy` -/
inductive DatabaseProvider where
  | unset | external | cnpg
deriving DecidableEq

/-- `S3BackendProvidedBy` -/
inductive S3Provider where
  | unset | external | rustfsOperator
deriving DecidableEq

/-- `DBCNPGSpec`: the settings rendered into the cluster. -/
structure CnpgSpec where
  rendered : String := ""
deriving DecidableEq

/-- `DBExternalSpec`: where a database is and how to log in. -/
structure Connection where
  host : String := ""
  port : String := ""
  database : String := ""
  existingSecret : String := ""
  usernameKey : String := ""
  passwordKey : String := ""
  tls : Option (String × String) := none
deriving DecidableEq

/-- `DBBackendSpec` -/
structure DatabaseBackend where
  providedBy : DatabaseProvider := .unset
  cnpg : Option CnpgSpec := none
  external : Option Connection := none
  applyFixtures : Bool := false
  rendered : String := ""
deriving DecidableEq

structure S3Backend where
  providedBy : S3Provider := .unset
  external : Option String := none
  rustfsOperator : Option String := none
deriving DecidableEq

/-- What installation defaults and profiles fill in. -/
structure Settings where
  profile : String := ""
  database : DatabaseBackend := {}
  s3 : S3Backend := {}
  httpRouteEnabled : Bool := false
  apiImage : String := ""
  postgresClientImage : String := ""
  rendered : String := ""
deriving DecidableEq

def DatabaseBackend.provider (d : DatabaseBackend) : DatabaseProvider :=
  if d.providedBy = .unset then
    if d.cnpg.isSome then .cnpg else .external
  else d.providedBy

structure TamossSpec where
  version : String := ""
  fullnameOverride : String := ""
  paused : Bool := false
  settings : Settings := {}
  /-- `publicEndpoint.uiURL` -/
  uiURL : String := ""
  /-- `ingress.ui.web.host` -/
  uiHost : String := ""
  ingressTLS : Bool := false
  /-- `api.cors.allowedOrigins` -/
  allowedOrigins : List String := []
deriving DecidableEq

structure TamossStatus where
  phase : String := ""
  currentVersion : String := ""
  targetVersion : String := ""
  appliedDefaultsRevision : String := ""
  schemaVersion : String := ""
  schemaMigrated : Bool := false
  tamsAPI : String := ""
deriving DecidableEq

structure Instance where
  key : Key
  uid : Uid
  resourceVersion : Nat := 0
  generation : Nat := 1
  deleting : Bool := false
  finalizers : List String := []
  /-- the annotation `tamoss.livewyer.io/schema-retry` -/
  schemaRetry : String := ""
  spec : TamossSpec := {}
  status : TamossStatus := {}
deriving DecidableEq

def Instance.resourceName (t : Instance) (suffix : String) : String :=
  let name := if t.spec.fullnameOverride ≠ "" then t.spec.fullnameOverride else t.key.name
  if suffix = "" then name else name ++ "-" ++ suffix

inductive StorageBackendProvider where
  | unset | rustfs | externalS3
deriving DecidableEq

inductive StorageBackendUsage where
  | unset | media | hibernate
deriving DecidableEq

inductive RetentionMode where
  | unset | retain | deleteAfterResume | ttl | other (text : String)
deriving DecidableEq

structure StorageBackendSpec where
  provider : StorageBackendProvider := .unset
  usage : StorageBackendUsage := .unset
  region : String := ""
  bucketName : String := ""
  endpointURL : String := ""
  existingSecret : String := ""
  secretKeys : String := ""
  retentionMode : RetentionMode := .unset
  ttlSecondsAfterResume : Int := 0
deriving DecidableEq

def StorageBackendSpec.applyDefaults (s : StorageBackendSpec) : StorageBackendSpec :=
  { s with
    provider := if s.provider = .unset then .rustfs else s.provider
    usage := if s.usage = .unset then .media else s.usage
    region := if s.region = "" then "us-east-1" else s.region
    retentionMode := if s.retentionMode = .unset then .retain else s.retentionMode }

def StorageBackendSpec.isHibernateDestination (s : StorageBackendSpec) : Bool :=
  s.usage = .hibernate

def StorageBackendSpec.isExternalObjectStore (s : StorageBackendSpec) : Bool :=
  s.provider = .externalS3

structure SchemaTarget where
  version : String := ""
  previousVersion : String := ""
  databaseRevision : String := ""
  tamsAPI : String := ""
deriving DecidableEq

def trimmed (text : String) : String := String.ofList (trimSpace text.toList)

def SchemaTarget.supports (t : SchemaTarget) (version : String) : Bool :=
  let value := trimmed version
  value = "" || value = t.version || (t.previousVersion ≠ "" && value = t.previousVersion)

/-- `Release`; the images are read by the profile defaults alone. -/
structure Release where
  version : String
  upgradeFrom : List String := []
  schema : SchemaTarget
deriving DecidableEq

abbrev Catalogue := String → Option Release

structure SelectionError where
  reason : String
  message : String
deriving DecidableEq

def Catalogue.select (c : Catalogue) (version current pending : String) :
    Except SelectionError Release :=
  if version = "" then
    .error ⟨"VersionRequired",
      "Set spec.version to the installed TAMOSS release before reconciliation can continue"⟩
  else match c version with
    | none => .error ⟨"UnsupportedVersion",
        "Release " ++ quoted version ++ " is not supported by this operator installation"⟩
    | some target =>
      if pending ≠ "" ∧ pending ≠ version then
        .error ⟨"UpgradeInProgress", "Complete the selected upgrade to " ++ quoted pending ++
          " before changing spec.version"⟩
      else if current ≠ "" ∧ current ≠ version ∧
          (((c current).map Release.version).getD "" = "" ∨ current ∉ target.upgradeFrom) then
        .error ⟨"UnsupportedUpgrade", "Release " ++ quoted current ++
          " cannot be upgraded directly to " ++ quoted version⟩
      else .ok target

structure Installation where
  releases : Catalogue
  watchNamespaces : List String := []
  revision : String := ""
  schemaVersion : String := ""
  apply : Instance → Except String Settings
  profile : Release → Instance → Settings

def Installation.allows (d : Installation) (namespaceName : String) : Bool :=
  d.watchNamespaces = [] || namespaceName ∈ d.watchNamespaces

def Installation.appliedTo (d : Installation) (t : Instance) : Bool :=
  t.status.appliedDefaultsRevision = d.revision

def Installation.schemaTarget (d : Installation) (t : Instance) : SchemaTarget :=
  ((d.releases t.spec.version).map Release.schema).getD {}

def Settings.undecided (s : Settings) : Bool :=
  s.profile = "" && s.database = {} && s.s3.providedBy = .unset && s.s3.external = none &&
    s.s3.rustfsOperator = none

def Installation.selectRelease (d : Installation) (t : Instance) : Except SelectionError Release :=
  d.releases.select t.spec.version t.status.currentVersion t.status.targetVersion

def resolveTamoss (d : Installation) (t : Instance) : Except SelectionError Instance := do
  let release ← d.selectRelease t
  match d.apply t with
  | .error message => throw ⟨"InvalidInstallationDefaults", message⟩
  | .ok settings =>
    let resolved : Instance := { t with spec.settings := settings }
    if settings.undecided then
      throw ⟨"InstallationDefaultsRequired", "Configure installation defaults or set " ++
        "spec.profile and the instance settings explicitly"⟩
    return { resolved with spec.settings := d.profile release resolved }

end Tamoss.Operator
