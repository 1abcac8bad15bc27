/-
  **Operations on flows.**

  The operations of `application/contexts/flows.py` that write flow records: `put_flow`, the
  property, tag and collection edits made through `_edit_flow`, and the unlinking of a
  deleted flow from the collections of other flows.
-/
import Tamoss.Lib.Program
import Tamoss.Store.Repository

namespace Tamoss

abbrev App := ExceptT PyError (Lib.Prog Call Call.Resp)

def call (c : Call) : App c.Resp := ExceptT.lift (Lib.Prog.perform c)

def unitOfWork {α : Type} (body : App α) : App α :=
  ExceptT.mk <| (Lib.Prog.perform .begin).bind fun _ =>
    (ExceptT.run body).bind fun
      | .ok a => (Lib.Prog.perform .commit).bind fun _ => .pure (.ok a)
      | .error e => (Lib.Prog.perform .rollback).bind fun _ => .pure (.error e)

theorem unitOfWork_eq {α : Type} (body : App α) : unitOfWork body = call .begin >>= fun _ =>
      ExceptT.mk ((ExceptT.run body).bind fun r => ExceptT.run (m := Lib.Prog Call Call.Resp)
        (match r with
          | .ok a => call .commit >>= fun _ => pure a
          | .error e => call .rollback >>= fun _ => throw e)) := by
  refine congrArg (fun k => ExceptT.mk (Lib.Prog.call .begin fun _ =>
    (ExceptT.run body).bind k)) (funext fun r => ?_)
  cases r <;> rfl

/-! ## Common helpers -/

def requireFlow (f : FlowId) (toSave : Bool) : App (FlowRecord × Nat) := do
  let read ← call (.getFlow f toSave)
  match read.flow with
  | none => throw (.notFound "The requested Flow does not exist.")
  | some flow => pure (flow, read.version)

def ensureFlowWritable (flow : FlowRecord) : App Unit :=
  if flow.readOnly then
    throw (.forbidden ("Forbidden. You do not have permission to modify this Flow. " ++
      "It may be marked read-only."))
  else
    pure ()

/-- The parent's record once `f` is unlinked from its collection; `none` when
    nothing is left to change. -/
def unlinked (f : FlowId) (parent : FlowRecord) : Option FlowRecord :=
  if parent.id = f then none
  else
    let collection := parent.flowCollection
    let remaining := collection.filter (·.id ≠ f)
    if remaining.length = collection.length then none
    else if remaining.isEmpty then
      some { parent with data := parent.data.pop "flow_collection" }
    else
      some { parent with data := parent.data.set "flow_collection" (.collection remaining) }

def unlinkFlowCollectionReferences (f : FlowId) : App Unit := do
  let parents ← call (.listFlowsCollecting f)
  parents.forM fun (parent, version) =>
    match unlinked f parent with
    | none => pure ()
    | some parent => call (.write (.saveFlow parent version))

/-! ## Edits -/

inductive FlowProperty where
  | label
  | description
  | avgBitRate
  | maxBitRate
  | readOnly
deriving DecidableEq

def FlowProperty.fieldName : FlowProperty → String
  | .label => "label"
  | .description => "description"
  | .avgBitRate => "avg_bit_rate"
  | .maxBitRate => "max_bit_rate"
  | .readOnly => "read_only"

inductive FlowEdit where
  | setProperty (property : FlowProperty) (value : DataValue)
  | deleteProperty (property : FlowProperty)
  | setTag (name : String) (value : String)
  | deleteTag (name : String)
  | setCollection (items : List CollectionItem)
deriving DecidableEq

def ensureBitRateEditable (property : FlowProperty) (flow : FlowRecord) : App Unit :=
  if property = .avgBitRate ∧ flow.profileId.isSome then
    throw (.badRequest ("Bad request. Profile-backed Flows cannot override " ++
      "average bit rate."))
  else
    pure ()

def setFlowProperty (property : FlowProperty) (value : DataValue) (flow : FlowRecord) :
    App FlowRecord :=
  match property with
  | .label | .description => do
      ensureFlowWritable flow
      match value with
      | .text _ => pure { flow with data := flow.data.set property.fieldName value }
      | _ => throw (.badRequest "Bad request. Invalid Flow property value.")
  | .avgBitRate | .maxBitRate => do
      ensureFlowWritable flow
      ensureBitRateEditable property flow
      match value with
      | .int n =>
          if n < 0 then throw (.badRequest "Bad request. Invalid Flow bit rate.")
          else pure { flow with data := flow.data.set property.fieldName value }
      | _ => throw (.badRequest "Bad request. Invalid Flow bit rate.")
  | .readOnly =>
      match value with
      | .bool b => pure { flow with
          readOnly := b
          data := flow.data.set property.fieldName value }
      | _ => throw (.badRequest "Bad request. Invalid Flow read_only value.")

def validateFlowCollection (f : FlowId) : List FlowId → List CollectionItem → App Unit
  | _, [] => pure ()
  | seen, item :: items => do
      if item.id = f ∨ item.id ∈ seen then
        throw (.badRequest "Bad request. Invalid flow collection.")
      let child ← call (.getFlow item.id false)
      if child.flow.isNone then
        throw (.badRequest "Bad request. Invalid flow collection.")
      validateFlowCollection f (item.id :: seen) items

def replaceFlowCollection (flow : FlowRecord) (items : List CollectionItem) :
    App FlowRecord := do
  validateFlowCollection flow.id [] items
  if items.isEmpty then
    pure { flow with data := flow.data.pop "flow_collection" }
  else
    pure { flow with data := flow.data.set "flow_collection" (.collection items) }

def applyEdit (flow : FlowRecord) : FlowEdit → App FlowRecord
  | .setProperty property value => setFlowProperty property value flow
  | .deleteProperty property => do
      ensureFlowWritable flow
      ensureBitRateEditable property flow
      pure { flow with data := flow.data.pop property.fieldName }
  | .setTag name value => do
      ensureFlowWritable flow
      let tags := flow.tags.filter (·.1 ≠ name) ++ [(name, value)]
      pure { flow with tags, data := flow.data.set "tags" (.tags tags) }
  | .deleteTag name => do
      ensureFlowWritable flow
      let tags := flow.tags.filter (·.1 ≠ name)
      pure { flow with tags, data := flow.data.set "tags" (.tags tags) }
  | .setCollection items => do
      ensureFlowWritable flow
      replaceFlowCollection flow items

def touchFlowMetadata (now : Time) (version : Nat) (identity : Option String)
    (flow : FlowRecord) : FlowRecord :=
  let data := (flow.data.set "metadata_updated" (.instant now)).set "metadata_version"
    (.uuid version)
  { flow with
    metadataUpdated := now
    data := match identity with
      | none => data
      | some subject => data.set "updated_by" (.text subject) }

def editFlow (f : FlowId) (edit : FlowEdit) (identity : Option String) : App Unit :=
  unitOfWork do
    call (.lockFlowSegments f)
    let (flow, version) ← requireFlow f true
    let flow ← applyEdit flow edit
    let now ← call .utcNow
    let metadataVersion ← call .uuid4
    call (.write (.saveFlow (touchFlowMetadata now metadataVersion identity flow) version))

/-! ## `put_flow` -/

structure FlowContract where
  flowPut : FlowData → Option (FlowId × SourceId)
  flowPayload : FlowData → Option (FlowData × SourceId × String)
  uuid : DataValue → Option Nat
  initSegments : FlowData → Bool
  textField : FlowData → String → Option String
  tagsField : FlowData → List (String × String)
  /-- `validate_flow_technical_metadata` and `Profile`, on the body of a Profile -/
  profileBody : ProfileRecord → Bool

def serverManagedFlowFields : List String :=
  ["timerange", "collected_by", "created", "metadata_updated", "segments_updated",
    "created_by", "updated_by"]

def technicalFlowFields : List String :=
  ["format", "codec", "container", "avg_bit_rate", "segment_duration",
    "container_mapping", "essence_parameters"]

def stripServerManagedFlowFields (data : FlowData) (preserveMetadataVersion : Bool) :
    FlowData :=
  let data := serverManagedFlowFields.foldl FlowData.pop data
  if preserveMetadataVersion then data else data.pop "metadata_version"

inductive RequestedProfile where
  | absent
  | unlink
  | profile (id : ProfileId)

variable (fc : FlowContract)

def requestedProfileId (data : FlowData) : App RequestedProfile :=
  match data.get "profile_id" with
  | none => pure .absent
  | some (.text "") => pure .unlink
  | some value =>
      match fc.uuid value with
      | none => throw (.badRequest "Bad request. Invalid Profile ID.")
      | some id => pure (.profile id)

def ensureNoTechnicalOverride (profile : ProfileRecord) (supplied : List String) :
    App Unit :=
  if (technicalFlowFields ++ profile.flowMetadata.map (·.1)).any (· ∈ supplied) then
    throw (.badRequest ("Bad request. Profile-backed Flows cannot override " ++
      "technical metadata."))
  else
    pure ()

/-- The profile branch of `_put_flow_locked`: the merged data, and the fields
    inherited from a profile that is being unlinked. -/
def applyProfile (existing : Option FlowRecord) (supplied : List String)
    (data : FlowData) : App (FlowData × Option (List String)) := do
  let requested ← requestedProfileId fc data
  match existing with
  | none =>
      match requested with
      | .unlink => throw (.badRequest "Bad request. A new Flow cannot unlink a Profile.")
      | .absent => pure (data, none)
      | .profile id => do
          call (.lockProfile id)
          match ← call (.getProfile id) with
          | none => throw (.badRequest "Bad request. Profile does not exist.")
          | some profile => do
              ensureNoTechnicalOverride profile supplied
              pure ((data.merge profile.flowMetadata).set "profile_id" (.uuid id), none)
  | some flow =>
      match flow.profileId, requested with
      | none, .unlink => throw (.badRequest "Bad request. The Flow is not Profile-backed.")
      | none, .profile _ => throw (.badRequest
          "Bad request. A Profile cannot be attached to an existing Flow.")
      | none, .absent => pure (data, none)
      | some stored, requested => do
          if let .profile id := requested then
            if id ≠ stored then
              throw (.badRequest
                "Bad request. A Flow cannot be re-pointed to another Profile.")
          match ← call (.getProfile stored) with
          | none => throw (.badRequest "Bad request. Stored Flow Profile does not exist.")
          | some profile =>
              match requested with
              | .unlink =>
                  pure (data.pop "profile_id", some (profile.flowMetadata.map (·.1)))
              | _ => do
                  ensureNoTechnicalOverride profile supplied
                  pure ((data.merge profile.flowMetadata).set "profile_id" (.uuid stored),
                    none)

def upsertSource (sourceId : SourceId) (format : String) (data : FlowData) : App Unit := do
  let source ← call (.getSource sourceId)
  let now ← call .utcNow
  match source with
  | none => call (.write (.saveSource {
      id := sourceId
      format := some format
      label := data.get "label"
      description := data.get "description"
      tags := fc.tagsField data
      created := now
      metadataUpdated := now }))
  | some source =>
      if source.format ≠ some format then
        throw (.badRequest "Bad request. Invalid Flow JSON.")
      else
        call (.write (.saveSource { source with metadataUpdated := now }))

def newFlowRecord (f : FlowId) (sourceId : SourceId) (format subject : String)
    (now : Time) (version : Nat) (data : FlowData) : FlowRecord :=
  let data := (((data.setdefault "created_by" (.text subject)).setdefault "created"
    (.instant now)).setdefault "metadata_version" (.uuid version)).set "metadata_updated"
    (.instant now)
  { id := f
    data
    sourceId := some sourceId
    format := some format
    container := fc.textField data "container"
    profileId := (data.get "profile_id").bind fc.uuid
    status := fc.textField data "status"
    initSegments := fc.initSegments data
    readOnly := data.get "read_only" = some (.bool true)
    tags := fc.tagsField data
    created := now
    metadataUpdated := now
    segmentsUpdated := none }

def replacedFlowRecord (f : FlowId) (existing : FlowRecord) (sourceId : SourceId)
    (format subject : String) (now : Time) (version : Nat) (tagsSupplied : Bool)
    (unlinkedFields : Option (List String)) (data : FlowData) : FlowRecord :=
  let replacementTags := fc.tagsField data
  let data := (((data.setdefault "created" ((existing.data.get "created").getD
    (.instant existing.created))).set "metadata_updated" (.instant now)).set
    "metadata_version" (.uuid version)).set "updated_by" (.text subject)
  let existingData := match unlinkedFields with
    | none => existing.data
    | some fields =>
        (fields ++ technicalFlowFields ++ ["profile_id"]).foldl FlowData.pop existing.data
  let stored := (existingData.merge data).pop "collected_by"
  let stored := if tagsSupplied then stored.set "tags" (.tags replacementTags)
    else stored.pop "tags"
  { id := f
    data := stored
    sourceId := some sourceId
    format := some format
    container := fc.textField stored "container"
    profileId := (stored.get "profile_id").bind fc.uuid
    status := fc.textField stored "status"
    initSegments := fc.initSegments stored
    readOnly := match data.get "read_only" with
      | some value => value = .bool true
      | none => existing.readOnly
    tags := replacementTags
    created := existing.created
    metadataUpdated := now
    segmentsUpdated := existing.segmentsUpdated }

def ensureInitSegmentsUnchanged (f : FlowId) (data : FlowData) :
    Option FlowRecord → App Unit
  | none => pure ()
  | some existing =>
      if fc.initSegments data ≠ existing.initSegments then do
        if ← call (.hasSegments f) then
          throw (.badRequest
            "Bad request. init_segments cannot change after Segments exist.")
      else
        pure ()

/-- The part of `_put_flow_locked` between reading the flow and saving it: the new
    record. -/
def putRecord (f : FlowId) (flow : FlowData) (supplied : List String) (subject : String)
    (existing : Option FlowRecord) : App FlowRecord := do
  existing.forM ensureFlowWritable
  let (data, unlinkedFields) ← applyProfile fc existing supplied
    (stripServerManagedFlowFields flow existing.isNone)
  match fc.flowPayload data with
  | none => throw (.badRequest "Bad request. Invalid Flow JSON.")
  | some (data, sourceId, format) => do
      ensureInitSegmentsUnchanged fc f data existing
      let collection := match data.get "flow_collection" with
        | some (.collection items) => items
        | _ => []
      let data := data.pop "flow_collection"
      upsertSource fc sourceId format data
      let now ← call .utcNow
      let version ← call .uuid4
      let record := match existing with
        | none => newFlowRecord fc f sourceId format subject now version data
        | some existing => replacedFlowRecord fc f existing sourceId format subject now
            version (flow.get "tags").isSome unlinkedFields data
      if "flow_collection" ∈ supplied then
        replaceFlowCollection record collection
      else
        pure record

def putFlowLocked (f : FlowId) (flow : FlowData) (suppliedFields : Option (List String))
    (subject : String) : App Unit :=
  match fc.flowPut flow with
  | none => throw (.badRequest "Bad request. Invalid Flow JSON.")
  | some (bodyFlowId, _) => do
      if bodyFlowId ≠ f then
        throw (.notFound "The requested Flow ID in the path is invalid.")
      let supplied := match suppliedFields with
        | some (field :: fields) => field :: fields
        | _ => flow.map (·.1)
      let read ← call (.getFlow f true)
      let record ← putRecord fc f flow supplied subject read.flow
      call (.write (.saveFlow record read.version))

def putFlow (f : FlowId) (flow : FlowData) (suppliedFields : Option (List String))
    (subject : String) : App Unit :=
  unitOfWork do
    call (.lockFlowSegments f)
    putFlowLocked fc f flow suppliedFields subject

end Tamoss
