/-
  **Media objects as rows of `tamoss_media_objects`.**

  The mappers of `adapters/postgres_repository/mappers.py` between `MediaObjectRecord` and the
  table, and the look-up of storage backends that reading an object makes.

  The document of a row need not have every key: `MediaObjectRow` and `ObjectInstanceRow` of
  `types.py` are typed dictionaries with `total=False`, the mappers read them with defaults, and
  migration 0007 leaves rows without `object_kind` and `content_type`.  A save writes every key.
-/
import Mathlib.Data.List.Dedup
import Mathlib.Data.List.Sort
import Mathlib.Data.String.Basic
import Tamoss.Lib.Program
import Tamoss.Store.Datetimes
import Tamoss.Store.GetUrls

namespace Tamoss

open Lib

/-- `ObjectInstanceRow`: `none` is a key that is missing, `some none` one that is null. -/
structure ObjectInstanceRow where
  storageBackendId : Option (Option String)
  url : Option (Option String)
  label : Option (Option String)
  controlled : Option Bool
  presigned : Option Bool
deriving DecidableEq

/-- `MediaObjectRow`: the JSON document of the column `record` -/
structure MediaObjectDocument where
  id : Option ObjectId
  timerange : Option (Option String)
  initObjectId : Option (Option ObjectId)
  firstReferencedByFlow : Option (Option String)
  allocatedByFlow : Option (Option String)
  referencedByFlows : Option (List String)
  instances : Option (List ObjectInstanceRow)
  keyFrameCount : Option (Option Int)
  bytesWritten : Option Nat
  objectKind : Option ObjectKind
  contentType : Option (Option String)
  created : Option String
deriving DecidableEq

structure MediaObjectRow where
  id : ObjectId
  firstReferencedByFlow : Option FlowId
  referencedByFlows : List String
  objectKind : ObjectKind
  contentType : Option String
  record : MediaObjectDocument
deriving DecidableEq

/-- The columns are the same; `referenced_by_flows` holds a set in any order. -/
structure MediaObjectRow.Same (row row' : MediaObjectRow) : Prop where
  id : row.id = row'.id
  firstReferencedByFlow : row.firstReferencedByFlow = row'.firstReferencedByFlow
  referencedByFlows : row.referencedByFlows.Perm row'.referencedByFlows
  objectKind : row.objectKind = row'.objectKind
  contentType : row.contentType = row'.contentType
  record : row.record = row'.record

theorem MediaObjectRow.Same.trans {a b c : MediaObjectRow} (h : a.Same b) (h' : b.Same c) :
    a.Same c :=
  ⟨h.id.trans h'.id, h.firstReferencedByFlow.trans h'.firstReferencedByFlow,
    h.referencedByFlows.trans h'.referencedByFlows, h.objectKind.trans h'.objectKind,
    h.contentType.trans h'.contentType, h.record.trans h'.record⟩

/-- `str` and `UUID` of ids, `isoformat` and `fromisoformat` of datetimes in UTC, and the order
    in which Python iterates over a set. -/
structure RowText where
  uuidText : Nat → String
  uuid : String → Except PyError Nat
  isoformat : Time → String
  fromisoformat : String → Except PyError Time
  setOrder : List Nat → List Nat

/-- The documented round trips, for UUIDs and for the instants that `datetime` has, and what a
    set has. -/
structure RowText.Lawful (text : RowText) : Prop where
  uuid_text : ∀ id < 2 ^ 128, text.uuid (text.uuidText id) = .ok id
  text_ne : ∀ id < 2 ^ 128, text.uuidText id ≠ ""
  uuid_lt : ∀ value id, text.uuid value = .ok id → id < 2 ^ 128
  fromisoformat_isoformat : ∀ d : Datetime,
    text.fromisoformat (text.isoformat d.instant) = .ok d.instant
  setOrder_nodup : ∀ ids, (text.setOrder ids).Nodup
  mem_setOrder : ∀ ids id, id ∈ text.setOrder ids ↔ id ∈ ids

variable (text : RowText)

def objectInstanceToRecord (inst : ObjectInstance) : ObjectInstanceRow where
  storageBackendId := some (inst.storageBackend.map fun backend => text.uuidText backend.id)
  url := some inst.url
  label := some inst.label
  controlled := some inst.controlled
  presigned := some inst.presigned

def mediaObjectToRecord (object : MediaObjectRecord) : MediaObjectDocument where
  id := some object.id
  timerange := some object.timerange
  initObjectId := some object.initObjectId
  firstReferencedByFlow := some (object.firstReferencedByFlow.map text.uuidText)
  allocatedByFlow := some (object.allocatedByFlow.map text.uuidText)
  referencedByFlows :=
    some (((text.setOrder object.referencedByFlows).map text.uuidText).insertionSort (· ≤ ·))
  instances := some (object.instances.map (objectInstanceToRecord text))
  keyFrameCount := some object.keyFrameCount
  bytesWritten := some object.bytesWritten
  objectKind := some object.objectKind
  contentType := some object.contentType
  created := some (text.isoformat object.created)

/-- The row that `_save_object` writes -/
def savedRow (object : MediaObjectRecord) : MediaObjectRow where
  id := object.id
  firstReferencedByFlow := object.firstReferencedByFlow
  referencedByFlows := (text.setOrder object.referencedByFlows).map text.uuidText
  objectKind := object.objectKind
  contentType := object.contentType
  record := mediaObjectToRecord text object

def optionalUuid : Option String → Except PyError (Option Nat)
  | none | some "" => .ok none
  | some value => (text.uuid value).map some

abbrev BackendTable := Table BackendId StorageBackend StorageBackend.id

/-- `storageBackendDeregistrationSQL` -/
def deregisterBackend (backends : BackendTable) (id : BackendId) : BackendTable :=
  backends.erase id

def storageBackendFromRecord (configured backend : StorageBackend) : StorageBackend :=
  if configured.id = backend.id ∨
      (backend.endpointUrl.isSome ∧ backend.endpointUrl = configured.endpointUrl) then
    { backend with
      endpointUrl := orText configured.endpointUrl backend.endpointUrl
      publicEndpointUrl := orText configured.publicEndpointUrl backend.publicEndpointUrl
      accessKey := configured.accessKey
      secretKey := configured.secretKey }
  else backend

def objectStorageBackendIds (record : MediaObjectDocument) : Except PyError (List BackendId) := do
  let ids ← (record.instances.getD []).mapM fun inst =>
    optionalUuid text inst.storageBackendId.join
  return ids.filterMap id

def storageBackendsForObjectRecords (configured : StorageBackend) (backends : BackendTable)
    (records : List MediaObjectDocument) : Except PyError (List StorageBackend) := do
  let ids ← records.mapM (objectStorageBackendIds text)
  return (backends.rows.filter (·.id ∈ ids.flatten)).map (storageBackendFromRecord configured)

def objectInstanceFromRecord (backends : List StorageBackend) (record : ObjectInstanceRow) :
    Except PyError ObjectInstance := do
  let storageBackendId ← optionalUuid text record.storageBackendId.join
  return { storageBackend := storageBackendId.bind fun id => backends.find? (·.id = id)
           url := record.url.join
           label := record.label.join
           controlled := record.controlled.getD false
           presigned := record.presigned.getD false }

/-- `_datetime_from_record`: the time of the read if there is none -/
def datetimeFromRecord (now : Time) : Option String → Except PyError Time
  | none => .ok now
  | some value => text.fromisoformat value

def mediaObjectFromRecord (backends : List StorageBackend) (now : Time)
    (record : MediaObjectDocument) : Except PyError MediaObjectRecord :=
  match record.id with
  | none => .error (.keyError "id")
  | some id => do
      let firstReferencedByFlow ← optionalUuid text record.firstReferencedByFlow.join
      let allocatedByFlow ← optionalUuid text record.allocatedByFlow.join
      let referencedByFlows ← (record.referencedByFlows.getD []).mapM text.uuid
      let instances ← (record.instances.getD []).mapM (objectInstanceFromRecord text backends)
      let created ← datetimeFromRecord text now record.created
      return { id
               timerange := record.timerange.join
               initObjectId := record.initObjectId.join
               firstReferencedByFlow
               allocatedByFlow
               referencedByFlows
               instances
               keyFrameCount := record.keyFrameCount.join
               bytesWritten := record.bytesWritten.getD 0
               objectKind := record.objectKind.getD .unassigned
               contentType := record.contentType.join
               created }

def getObject (configured : StorageBackend) (backends : BackendTable) (now : Time)
    (row : MediaObjectRow) : Except PyError MediaObjectRecord := do
  let found ← storageBackendsForObjectRecords text configured backends [row.record]
  mediaObjectFromRecord text found now row.record

/-- `get_objects`: the backends are looked up once for all the objects -/
def getObjects (configured : StorageBackend) (backends : BackendTable) (now : Time)
    (rows : List MediaObjectRow) : Except PyError (List MediaObjectRecord) := do
  let found ← storageBackendsForObjectRecords text configured backends (rows.map (·.record))
  rows.mapM fun row => mediaObjectFromRecord text found now row.record

/-- Ids are UUIDs, and the object was created at a time that `datetime` has. -/
structure MediaObjectRecord.Typed (object : MediaObjectRecord) : Prop where
  firstReferencedByFlow : ∀ f ∈ object.firstReferencedByFlow, f < 2 ^ 128
  allocatedByFlow : ∀ f ∈ object.allocatedByFlow, f < 2 ^ 128
  referencedByFlows : ∀ f ∈ object.referencedByFlows, f < 2 ^ 128
  instances : ∀ inst ∈ object.instances, ∀ backend ∈ inst.storageBackend, backend.id < 2 ^ 128
  created : ∃ d : Datetime, object.created = d.instant

section Read

variable {text} {configured : StorageBackend} {backends : BackendTable} {now : Time}

@[simp] theorem storageBackendFromRecord_id (backend : StorageBackend) :
    (storageBackendFromRecord configured backend).id = backend.id := by
  unfold storageBackendFromRecord
  split <;> rfl

theorem optionalUuid_text (hlawful : text.Lawful) {id : Option Nat} (h : ∀ x ∈ id, x < 2 ^ 128) :
    optionalUuid text (id.map text.uuidText) = .ok id := by
  cases id with
  | none => rfl
  | some id =>
    unfold optionalUuid
    split
    · rename_i heq
      cases heq
    · rename_i heq
      exact absurd (Option.some.inj heq) (hlawful.text_ne id (h id rfl))
    · rename_i value _ heq
      obtain rfl : text.uuidText id = value := Option.some.inj heq
      rw [hlawful.uuid_text id (h id rfl)]
      rfl

theorem optionalUuid_lt (hlawful : text.Lawful) {value : Option String} {id : Option Nat}
    (h : optionalUuid text value = .ok id) : ∀ x ∈ id, x < 2 ^ 128 := by
  unfold optionalUuid at h
  split at h
  · cases h
    exact nofun
  · cases h
    exact nofun
  · rename_i value _
    intro x hx
    cases hread : text.uuid value with
    | error e =>
      rw [hread] at h
      cases h
    | ok y =>
      rw [hread] at h
      cases h
      cases hx
      exact hlawful.uuid_lt value _ hread

def readInstance (configured : StorageBackend) (backends : BackendTable) (inst : ObjectInstance) :
    ObjectInstance :=
  { inst with storageBackend := inst.storageBackend.bind fun backend =>
      (backends.get backend.id).map (storageBackendFromRecord configured) }

def readObject (configured : StorageBackend) (backends : BackendTable)
    (object : MediaObjectRecord) (flows : List FlowId) : MediaObjectRecord :=
  { object with
    referencedByFlows := flows
    instances := object.instances.map (readInstance configured backends) }

variable {object : MediaObjectRecord}

theorem MediaObjectRecord.Typed.storageBackendId (htyped : object.Typed) (hlawful : text.Lawful)
    {inst : ObjectInstance} (hinst : inst ∈ object.instances) :
    optionalUuid text (objectInstanceToRecord text inst).storageBackendId.join =
      .ok (inst.storageBackend.map (·.id)) := by
  have hbound : ∀ x ∈ inst.storageBackend.map (·.id), x < 2 ^ 128 := by
    intro x hx
    obtain ⟨backend, hbackend, rfl⟩ := Option.map_eq_some_iff.mp hx
    exact htyped.instances inst hinst backend hbackend
  rw [← optionalUuid_text hlawful hbound, Option.map_map]
  rfl

theorem objectStorageBackendIds_savedRow (hlawful : text.Lawful) (htyped : object.Typed) :
    objectStorageBackendIds text (savedRow text object).record =
      .ok ((object.instances.map fun inst => inst.storageBackend.map (·.id)).filterMap id) := by
  have hids : ((savedRow text object).record.instances.getD []).mapM
      (fun inst => optionalUuid text inst.storageBackendId.join) =
        .ok (object.instances.map fun inst => inst.storageBackend.map (·.id)) := by
    rw [savedRow, mediaObjectToRecord, Option.getD_some, mapM_ok_iff, List.forall₂_map_left_iff,
      List.forall₂_map_right_iff, List.forall₂_same]
    exact fun inst hinst => htyped.storageBackendId hlawful hinst
  rw [objectStorageBackendIds, hids]
  rfl

theorem find_registered {ids : List BackendId} {id : BackendId} (hid : id ∈ ids) :
    ((backends.rows.filter (·.id ∈ ids)).map (storageBackendFromRecord configured)).find?
        (·.id = id) = (backends.get id).map (storageBackendFromRecord configured) := by
  rw [List.find?_map]
  congr 1
  have hcomp : ((fun backend : StorageBackend => decide (backend.id = id)) ∘
      storageBackendFromRecord configured) = fun backend => decide (backend.id = id) := by
    funext backend
    simp
  rw [hcomp, List.find?_filter, Table.get]
  congr 1
  funext backend
  by_cases h : backend.id = id
  · simp [h, hid]
  · simp [h]

theorem storageBackendsForObjectRecords_savedRow (hlawful : text.Lawful) (htyped : object.Typed) :
    storageBackendsForObjectRecords text configured backends [(savedRow text object).record] =
      .ok ((backends.rows.filter (·.id ∈ (object.instances.map fun inst =>
        inst.storageBackend.map (·.id)).filterMap id)).map (storageBackendFromRecord configured)) := by
  simp only [storageBackendsForObjectRecords, List.mapM_cons, List.mapM_nil,
    objectStorageBackendIds_savedRow hlawful htyped]
  simp [pure, Except.pure, bind, Except.bind]

theorem referencedByFlows_savedRow (hlawful : text.Lawful) (htyped : object.Typed) :
    ∃ flows : List FlowId, (∀ f, f ∈ flows ↔ f ∈ object.referencedByFlows) ∧
      ((savedRow text object).record.referencedByFlows.getD []).mapM text.uuid = .ok flows := by
  have hmem : ∀ value, value ∈ (savedRow text object).record.referencedByFlows.getD [] ↔
      ∃ f ∈ object.referencedByFlows, text.uuidText f = value := by
    intro value
    rw [savedRow, mediaObjectToRecord, Option.getD_some, List.mem_insertionSort, List.mem_map]
    simp only [hlawful.mem_setOrder]
  let read (value : String) : FlowId := (text.uuid value).toOption.getD 0
  have hread : ∀ f ∈ object.referencedByFlows, read (text.uuidText f) = f := by
    intro f hf
    simp only [read, hlawful.uuid_text f (htyped.referencedByFlows f hf)]
    rfl
  refine ⟨((savedRow text object).record.referencedByFlows.getD []).map read, ?_, mapM_of_ok ?_⟩
  · intro f
    rw [List.mem_map]
    constructor
    · rintro ⟨value, hvalue, rfl⟩
      obtain ⟨f, hf, rfl⟩ := (hmem value).mp hvalue
      rw [hread f hf]
      exact hf
    · intro hf
      exact ⟨text.uuidText f, (hmem _).mpr ⟨f, hf, rfl⟩, hread f hf⟩
  · intro value hvalue
    obtain ⟨f, hf, rfl⟩ := (hmem value).mp hvalue
    rw [hread f hf, hlawful.uuid_text f (htyped.referencedByFlows f hf)]

theorem getObject_savedRow (hlawful : text.Lawful) (htyped : object.Typed) :
    ∃ flows : List FlowId, (∀ f, f ∈ flows ↔ f ∈ object.referencedByFlows) ∧
      getObject text configured backends now (savedRow text object) =
        .ok (readObject configured backends object flows) := by
  obtain ⟨flows, hflows, hread⟩ := referencedByFlows_savedRow hlawful htyped
  refine ⟨flows, hflows, ?_⟩
  rw [getObject, storageBackendsForObjectRecords_savedRow hlawful htyped]
  generalize hids : (object.instances.map fun inst =>
    inst.storageBackend.map (·.id)).filterMap id = ids
  have hinstances : ((savedRow text object).record.instances.getD []).mapM
      (objectInstanceFromRecord text
        ((backends.rows.filter (·.id ∈ ids)).map (storageBackendFromRecord configured))) =
        .ok (object.instances.map (readInstance configured backends)) := by
    rw [savedRow, mediaObjectToRecord, Option.getD_some, mapM_ok_iff, List.forall₂_map_left_iff,
      List.forall₂_map_right_iff, List.forall₂_same]
    intro inst hinst
    rw [objectInstanceFromRecord, htyped.storageBackendId hlawful hinst]
    refine congrArg Except.ok ?_
    unfold readInstance
    congr 1
    cases hbackend : inst.storageBackend with
    | none => rfl
    | some backend =>
      have hmem : backend.id ∈ ids := by
        rw [← hids, List.mem_filterMap]
        exact ⟨some backend.id, List.mem_map.mpr ⟨inst, hinst, by rw [hbackend]; rfl⟩, rfl⟩
      exact find_registered hmem
  have hfirst : optionalUuid text (savedRow text object).record.firstReferencedByFlow.join =
      .ok object.firstReferencedByFlow := optionalUuid_text hlawful htyped.firstReferencedByFlow
  have hallocated : optionalUuid text (savedRow text object).record.allocatedByFlow.join =
      .ok object.allocatedByFlow := optionalUuid_text hlawful htyped.allocatedByFlow
  have hcreated : datetimeFromRecord text now (savedRow text object).record.created =
      .ok object.created := by
    obtain ⟨d, hd⟩ := htyped.created
    show text.fromisoformat (text.isoformat object.created) = _
    rw [hd]
    exact hlawful.fromisoformat_isoformat d
  have hid : (savedRow text object).record.id = some object.id := rfl
  dsimp only [bind, Except.bind]
  simp only [mediaObjectFromRecord, hid, hfirst, hallocated, hread, hinstances, hcreated]
  rfl

/-- What has been read of a document when reading it succeeds. -/
structure DocumentRead (text : RowText) (found : List StorageBackend) (now : Time)
    (record : MediaObjectDocument) (object : MediaObjectRecord) : Prop where
  first : optionalUuid text record.firstReferencedByFlow.join = .ok object.firstReferencedByFlow
  allocated : optionalUuid text record.allocatedByFlow.join = .ok object.allocatedByFlow
  flows : (record.referencedByFlows.getD []).mapM text.uuid = .ok object.referencedByFlows
  instances : (record.instances.getD []).mapM (objectInstanceFromRecord text found) =
    .ok object.instances
  created : datetimeFromRecord text now record.created = .ok object.created

theorem documentRead_of_ok {found : List StorageBackend} {record : MediaObjectDocument}
    (h : mediaObjectFromRecord text found now record = .ok object) :
    DocumentRead text found now record object := by
  unfold mediaObjectFromRecord at h
  split at h
  · cases h
  · obtain ⟨first, hfirst, h⟩ := bind_eq_ok h
    obtain ⟨allocated, hallocated, h⟩ := bind_eq_ok h
    obtain ⟨flows, hflows, h⟩ := bind_eq_ok h
    obtain ⟨instances, hinstances, h⟩ := bind_eq_ok h
    obtain ⟨created, hcreated, h⟩ := bind_eq_ok h
    cases h
    exact ⟨hfirst, hallocated, hflows, hinstances, hcreated⟩

/-- A backend that an instance is read with is the one that was found for its id. -/
theorem find_of_read {found : List StorageBackend} {record : MediaObjectDocument}
    (hread : DocumentRead text found now record object) {inst : ObjectInstance}
    (hinst : inst ∈ object.instances) {backend : StorageBackend}
    (hbackend : backend ∈ inst.storageBackend) :
    found.find? (·.id = backend.id) = some backend ∧
      ∃ value id, optionalUuid text value = .ok id ∧ backend.id ∈ id := by
  obtain ⟨row, -, hrow⟩ : ∃ row ∈ record.instances.getD [],
      objectInstanceFromRecord text found row = .ok inst :=
    exists_left_of_forall₂ (mapM_ok_iff.mp hread.instances) hinst
  obtain ⟨id, hid, hinst⟩ := bind_eq_ok hrow
  cases hinst
  obtain ⟨x, rfl, hfind⟩ := Option.bind_eq_some_iff.mp hbackend
  obtain rfl : backend.id = x := by simpa using List.find?_some hfind
  exact ⟨hfind, _, _, hid, rfl⟩

/-- Objects that are read together have one record of each backend. -/
theorem loaded_of_getObjects {rows : List MediaObjectRow} {objects : List MediaObjectRecord}
    (h : getObjects text configured backends now rows = .ok objects) :
    ∃ loaded : LoadedObjects, loaded.objects = objects := by
  obtain ⟨found, -, h⟩ := bind_eq_ok h
  have hfind : ∀ p ∈ instancesOf objects, ∀ backend ∈ p.2.storageBackend,
      found.find? (·.id = backend.id) = some backend := by
    intro p hp backend hbackend
    obtain ⟨object, hobject, hp⟩ := List.mem_flatMap.mp hp
    obtain ⟨inst, hinst, rfl⟩ := List.mem_map.mp hp
    obtain ⟨row, -, hrow⟩ := exists_left_of_forall₂ (mapM_ok_iff.mp h) hobject
    exact (find_of_read (documentRead_of_ok hrow) hinst hbackend).1
  refine ⟨⟨objects, fun p hp q hq backend hbackend backend' hbackend' hid => ?_⟩, rfl⟩
  have hsame := hfind q hq backend' hbackend'
  rw [← hid, hfind p hp backend hbackend] at hsame
  exact Option.some.inj hsame

/-- A backend that an instance is read with is registered, under the id that the row names. -/
theorem registered_of_read (hlawful : text.Lawful) {found : List StorageBackend}
    {record : MediaObjectDocument} (hread : DocumentRead text found now record object)
    (hfound : ∀ backend ∈ found, ∃ row ∈ backends.rows, row.id = backend.id) :
    ∀ inst ∈ object.instances, ∀ backend ∈ inst.storageBackend,
      backend.id < 2 ^ 128 ∧ (backends.get backend.id).isSome = true := by
  intro inst hinst backend hbackend
  obtain ⟨hfind, value, id, hid, hmem⟩ := find_of_read hread hinst hbackend
  refine ⟨optionalUuid_lt hlawful hid _ hmem, ?_⟩
  obtain ⟨registered, hmem, heq⟩ := hfound backend (List.mem_of_find?_eq_some hfind)
  rw [Table.get_eq_some.mpr ⟨hmem, heq⟩]
  rfl

end Read

section RoundTrip

variable {text} {configured : StorageBackend} {backends : BackendTable}

theorem objectInstanceToRecord_readInstance_iff {inst : ObjectInstance} :
    objectInstanceToRecord text (readInstance configured backends inst) =
        objectInstanceToRecord text inst ↔
      ∀ backend ∈ inst.storageBackend, (backends.get backend.id).isSome = true := by
  cases hbackend : inst.storageBackend with
  | none =>
    have hsame : readInstance configured backends inst = inst := by
      cases inst
      cases hbackend
      rfl
    simp [hsame]
  | some backend =>
    cases hget : backends.get backend.id with
    | none =>
      have hlost : (objectInstanceToRecord text
          (readInstance configured backends inst)).storageBackendId = some none := by
        simp [objectInstanceToRecord, readInstance, hbackend, hget]
      have hhad : (objectInstanceToRecord text inst).storageBackendId =
          some (some (text.uuidText backend.id)) := by
        simp [objectInstanceToRecord, hbackend]
      constructor
      · intro heq
        rw [heq, hhad] at hlost
        cases hlost
      · intro hregistered
        have := hregistered backend rfl
        rw [hget] at this
        cases this
    | some registered =>
      have hid : registered.id = backend.id := (Table.get_eq_some.mp hget).2
      simp [objectInstanceToRecord, readInstance, hbackend, hget, hid]

theorem setOrder_perm (hlawful : text.Lawful) {ids ids' : List Nat}
    (h : ∀ id, id ∈ ids ↔ id ∈ ids') : (text.setOrder ids).Perm (text.setOrder ids') := by
  rw [List.perm_ext_iff_of_nodup (hlawful.setOrder_nodup ids) (hlawful.setOrder_nodup ids')]
  intro id
  rw [hlawful.mem_setOrder, hlawful.mem_setOrder, h]

theorem savedRow_readObject_same_iff (hlawful : text.Lawful) {object : MediaObjectRecord}
    {flows : List FlowId} (hflows : ∀ f, f ∈ flows ↔ f ∈ object.referencedByFlows) :
    (savedRow text (readObject configured backends object flows)).Same (savedRow text object) ↔
      ∀ inst ∈ object.instances, ∀ backend ∈ inst.storageBackend,
        (backends.get backend.id).isSome = true := by
  have hperm : ((text.setOrder flows).map text.uuidText).Perm
      ((text.setOrder object.referencedByFlows).map text.uuidText) :=
    (setOrder_perm hlawful hflows).map _
  have hsorted : ((text.setOrder flows).map text.uuidText).insertionSort (· ≤ ·) =
      ((text.setOrder object.referencedByFlows).map text.uuidText).insertionSort (· ≤ ·) := by
    apply List.Perm.eq_of_pairwise' (List.pairwise_insertionSort (· ≤ ·) _)
      (List.pairwise_insertionSort (· ≤ ·) _)
    exact (List.perm_insertionSort _ _).trans (hperm.trans (List.perm_insertionSort _ _).symm)
  have hinstances : (object.instances.map (readInstance configured backends)).map
        (objectInstanceToRecord text) = object.instances.map (objectInstanceToRecord text) ↔
      ∀ inst ∈ object.instances, ∀ backend ∈ inst.storageBackend,
        (backends.get backend.id).isSome = true := by
    rw [List.map_map, List.map_inj_left]
    exact forall₂_congr fun inst _ => objectInstanceToRecord_readInstance_iff
  rw [← hinstances]
  constructor
  · intro hsame
    exact Option.some.inj (congrArg MediaObjectDocument.instances hsame.record)
  · intro heq
    refine ⟨rfl, rfl, hperm, rfl, rfl, ?_⟩
    show mediaObjectToRecord text _ = mediaObjectToRecord text object
    unfold mediaObjectToRecord readObject
    dsimp only
    rw [hsorted, heq]

end RoundTrip

section Unchanged

variable {text} {configured : StorageBackend} {backends : BackendTable} {now : Time}

theorem typed_of_unchanged (hlawful : text.Lawful) {row : MediaObjectRow}
    (hcreated : ∀ value ∈ row.record.created, ∃ d : Datetime, value = text.isoformat d.instant)
    {object : MediaObjectRecord} (hget : getObject text configured backends now row = .ok object)
    (hsame : (savedRow text object).Same row) : object.Typed ∧
      ∀ inst ∈ object.instances, ∀ backend ∈ inst.storageBackend,
        (backends.get backend.id).isSome = true := by
  obtain ⟨found, hfound, hget⟩ := bind_eq_ok hget
  have hread := documentRead_of_ok hget
  have hregistered : ∀ inst ∈ object.instances, ∀ backend ∈ inst.storageBackend,
      backend.id < 2 ^ 128 ∧ (backends.get backend.id).isSome = true :=
    registered_of_read hlawful hread (by
      obtain ⟨ids, -, hfound⟩ := bind_eq_ok hfound
      cases hfound
      intro backend hbackend
      obtain ⟨stored, hstored, rfl⟩ := List.mem_map.mp hbackend
      exact ⟨stored, List.mem_of_mem_filter hstored, (storageBackendFromRecord_id stored).symm⟩)
  refine ⟨⟨optionalUuid_lt hlawful hread.first, optionalUuid_lt hlawful hread.allocated, ?_,
    fun inst hinst backend hbackend => (hregistered inst hinst backend hbackend).1, ?_⟩,
    fun inst hinst backend hbackend => (hregistered inst hinst backend hbackend).2⟩
  · intro f hf
    obtain ⟨value, -, hvalue⟩ := exists_left_of_forall₂ (mapM_ok_iff.mp hread.flows) hf
    exact hlawful.uuid_lt value f hvalue
  · -- the row has a `created`, for the save has written one
    have hwritten : row.record.created = some (text.isoformat object.created) :=
      (congrArg MediaObjectDocument.created hsame.record).symm
    obtain ⟨d, hd⟩ := hcreated _ hwritten
    have hback := hread.created
    rw [hwritten, hd, datetimeFromRecord, hlawful.fromisoformat_isoformat] at hback
    exact ⟨d, (Except.ok.inj hback).symm⟩

end Unchanged

/-- Python's texts; a set is iterated in the order in which its elements were added. -/
def pythonText : RowText where
  uuidText := uuidText
  uuid value :=
    match readUuid value with
    | none => .error (.valueError "badly formed hexadecimal UUID string")
    | some id => .ok id
  isoformat instant := String.ofList (Datetime.textAt instant)
  fromisoformat value := .ok (Datetime.readInstant value.toList)
  setOrder := List.dedup

theorem pythonText_lawful : pythonText.Lawful where
  uuid_text id h := by
    have hread : readUuid (uuidText id) = some id := UUID.readUuid_str ⟨id, h⟩
    simp only [pythonText, hread]
  text_ne id h heq := by
    have hread : readUuid (uuidText id) = some id := UUID.readUuid_str ⟨id, h⟩
    rw [show uuidText id = "" from heq] at hread
    cases hread
  uuid_lt value id h := by
    simp only [pythonText] at h
    split at h
    · cases h
    · rename_i hread
      cases h
      exact readUuid_lt hread
  fromisoformat_isoformat d := by
    simp only [pythonText, String.toList_ofList, d.textAt_instant, d.readInstant_isoformat]
  setOrder_nodup ids := List.nodup_dedup ids
  mem_setOrder ids id := List.mem_dedup

def mainBackends : BackendTable := Table.empty.upsert (sampleBackend 1 "main")

def storedClip : MediaObjectRecord :=
  { MediaObjectRecord.new "clip" newYear.instant with
    instances := [⟨some (sampleBackend 1 "main"), none, none, true, false⟩] }

theorem storedClip_typed : storedClip.Typed where
  firstReferencedByFlow := nofun
  allocatedByFlow := nofun
  referencedByFlows _ h := absurd h List.not_mem_nil
  instances inst hinst backend hbackend := by
    obtain rfl := List.mem_singleton.mp hinst
    cases hbackend
    exact (by decide : 1 < 2 ^ 128)
  created := ⟨newYear, rfl⟩

/-- A row that migration 0007 has left without `object_kind` and `content_type` gets them. -/
example : ∃ object, getObject pythonText (sampleBackend 1 "main") mainBackends 5
      { savedRow pythonText storedClip with
        record := { (savedRow pythonText storedClip).record with
          objectKind := none, contentType := none } } = .ok object ∧
    (savedRow pythonText object).record.objectKind = some .unassigned :=
  ⟨storedClip, by decide +kernel, rfl⟩

end Tamoss
