/-
  **Operations on sources and Profiles.**

  The edits of a source made through `_edit_source` of `application/contexts/sources.py`, and
  the creation, adoption and deletion of Profiles in `application/contexts/profiles.py`.
-/
import Tamoss.Store.Flows

namespace Tamoss

inductive SourceProperty where
  | label
  | description
deriving DecidableEq

inductive SourceEdit where
  | setProperty (property : SourceProperty) (value : String)
  | deleteProperty (property : SourceProperty)
  | setTag (name : String) (value : String)
  | deleteTag (name : String)
deriving DecidableEq

def SourceRecord.edited (source : SourceRecord) : SourceEdit → SourceRecord
  | .setProperty .label value => { source with label := some (.text value) }
  | .setProperty .description value => { source with description := some (.text value) }
  | .deleteProperty .label => { source with label := none }
  | .deleteProperty .description => { source with description := none }
  | .setTag name value =>
      { source with tags := source.tags.filter (·.1 ≠ name) ++ [(name, value)] }
  | .deleteTag name => { source with tags := source.tags.filter (·.1 ≠ name) }

def editSource (sourceId : SourceId) (edit : SourceEdit) : App Unit :=
  unitOfWork do
    call (.lockSource sourceId)
    match ← call (.getSource sourceId) with
    | none => throw (.notFound "The requested Source does not exist.")
    | some source => do
        let now ← call .utcNow
        call (.write (.saveSource { source.edited edit with metadataUpdated := now }))

def protectedProfileFlowFields : List String :=
  ["id", "source_id", "label", "description", "created_by", "updated_by", "tags",
    "metadata_version", "generation", "created", "metadata_updated", "segments_updated",
    "status", "read_only", "max_bit_rate", "timerange", "flow_collection", "collected_by",
    "profile_id"]

variable (fc : FlowContract)

def validatedRecord (profileId : ProfileId) (payload : ProfileRecord) : App ProfileRecord := do
  if payload.flowMetadata.any (·.1 ∈ protectedProfileFlowFields) then
    throw (.badRequest "Bad request. Invalid Profile JSON.")
  if !fc.profileBody payload then
    throw (.badRequest "Bad request. Invalid Profile JSON.")
  if payload.id ≠ profileId then
    throw (.notFound "The requested Profile ID in the path is invalid.")
  return payload

def createProfile (profileId : ProfileId) (payload : ProfileRecord) : App Unit := do
  let record ← validatedRecord fc profileId payload
  unitOfWork do
    call (.lockProfile profileId)
    if (← call (.getProfile profileId)).isSome then
      throw (.badRequest "Bad request. Profile already exists.")
    if !(← call (.createProfile record)) then
      throw (.badRequest "Bad request. Profile already exists.")

def sameDictionary {α : Type} [DecidableEq α] (a b : List (String × α)) : Bool :=
  a.all (fun entry => b.lookup entry.1 = a.lookup entry.1) &&
    b.all fun entry => a.lookup entry.1 = b.lookup entry.1

def ProfileRecord.sameDefinition (left right : ProfileRecord) : Bool :=
  left.id = right.id && sameDictionary left.flowMetadata right.flowMetadata &&
    left.label = right.label && left.description = right.description &&
    sameDictionary left.tags right.tags

def ensureProfile (profileId : ProfileId) (payload : ProfileRecord) : App Unit := do
  let desired ← validatedRecord fc profileId payload
  unitOfWork do
    call (.lockProfile profileId)
    match ← call (.getProfile profileId) with
    | some existing =>
        if !existing.sameDefinition desired then
          throw (.runtimeError ("Profile " ++ toString profileId ++
            " already exists with different metadata"))
    | none =>
        if !(← call (.createProfile desired)) then
          throw (.runtimeError ("Profile " ++ toString profileId ++ " was created concurrently"))

def deleteProfileIfUnused (profileId : ProfileId) : App Unit :=
  unitOfWork do
    call (.lockProfile profileId)
    if (← call (.getProfile profileId)).isSome then
      let references ← call (.countFlowsByProfile profileId)
      if references ≠ 0 then
        throw (.runtimeError ("Profile " ++ toString profileId ++ " is referenced by " ++
          toString references ++ " Flow(s)"))
      let _ ← call (.deleteProfile profileId)

end Tamoss
