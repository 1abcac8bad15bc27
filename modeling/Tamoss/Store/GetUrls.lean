/-
  **The URLs of media objects, with the filters of a request pushed into their construction.**

  `application/contexts/object_get_urls.py` with `build_get_urls_batch` of
  `adapters/object_storage.py` and `tags_match`.
-/
import Tamoss.Lib.Except
import Tamoss.Lib.Json
import Tamoss.Store.Records

namespace Tamoss

open Lib

/-! ## Tags and filters -/

def TagValue.values : TagValue → List String
  | .text value => [value]
  | .list values => values

def tagOf (tags : List (String × TagValue)) (name : String) : Option TagValue :=
  tags.lookup name

def tagsMatch (tags : List (String × TagValue)) (valueFilters : List (String × List String))
    (existenceFilters : List (String × Bool)) : Bool :=
  (valueFilters.all fun (name, expected) =>
    match tagOf tags name with
    | none => false
    | some actual => expected.any (· ∈ actual.values)) &&
  existenceFilters.all fun (name, shouldExist) => (tagOf tags name).isSome == shouldExist

/-- The filters of a request: sets are lists, and an absent dictionary is an empty one. -/
structure UrlFilter where
  acceptGetUrls : Option (List String)
  acceptStorageIds : Option (List String)
  presigned : Option Bool
  storageTagValues : List (String × List String)
  storageTagExists : List (String × Bool)

namespace UrlFilter

def effective (filter : UrlFilter) : UrlFilter :=
  { filter with acceptStorageIds :=
      if filter.acceptStorageIds = some [] then none else filter.acceptStorageIds }

def hasTags (filter : UrlFilter) : Bool :=
  !filter.storageTagValues.isEmpty || !filter.storageTagExists.isEmpty

def tagsMatch (filter : UrlFilter) (backend : StorageBackend) : Bool :=
  Tamoss.tagsMatch backend.tags filter.storageTagValues filter.storageTagExists

end UrlFilter

/-! ## The storage -/

structure ObjectStorage where
  uuidText : Nat → String
  /-- `quote(text, safe=safe)` -/
  quote : String → String → String
  credentials : BackendId → Option (String × String)
  generatePresignedUrl : StorageBackend → String → ObjectId → Except PyError String

structure ObjectGetUrlRequest where
  objectId : ObjectId
  backend : StorageBackend
  includeDirect : Bool
  includePresigned : Bool

abbrev ObjectGetUrlBatchKey := BackendId × ObjectId

def ObjectGetUrlRequest.key (request : ObjectGetUrlRequest) : ObjectGetUrlBatchKey :=
  (request.backend.id, request.objectId)

/-- One requested URL, as the storage returns it. -/
structure StorageGetUrl where
  url : String
  label : String
  presigned : Bool

abbrev UrlRequests := Table ObjectGetUrlBatchKey ObjectGetUrlRequest ObjectGetUrlRequest.key

def UrlRequests.add (requests : UrlRequests) (request : ObjectGetUrlRequest) : UrlRequests :=
  match requests.get request.key with
  | none => requests.upsert request
  | some existing => requests.upsert { existing with
      includeDirect := existing.includeDirect || request.includeDirect
      includePresigned := existing.includePresigned || request.includePresigned }

def rstripSlash (text : String) : String :=
  String.ofList (text.toList.reverse.dropWhile (· = '/')).reverse

variable (storage : ObjectStorage)

def resolveBackend (backend : StorageBackend) : StorageBackend :=
  match storage.credentials backend.id with
  | none => backend
  | some (accessKey, secretKey) =>
      { backend with accessKey := some accessKey, secretKey := some secretKey }

def requireBucket (backend : StorageBackend) : Except PyError String :=
  match backend.bucketName with
  | none | some "" => .error (.runtimeError
      ("Storage backend " ++ storage.uuidText backend.id ++ " is missing bucket_name"))
  | some bucket => .ok bucket

def orText : Option String → Option String → Option String
  | none, second | some "", second => second
  | first, _ => first

def publicObjectUrl (backend : StorageBackend) (objectId : ObjectId) : Except PyError String :=
  match orText backend.publicEndpointUrl backend.endpointUrl with
  | none | some "" => .error (.runtimeError
      ("Storage backend " ++ storage.uuidText backend.id ++ " is missing public endpoint"))
  | some endpoint => do
      let bucket ← requireBucket storage backend
      return rstripSlash endpoint ++ "/" ++ storage.quote bucket "" ++ "/" ++
        storage.quote objectId "/"

def presignGetUrl (backend : StorageBackend) (objectId : ObjectId) : Except PyError String := do
  let bucket ← requireBucket storage backend
  storage.generatePresignedUrl backend bucket objectId

def buildGetUrlsForResolvedBackend (objectId : ObjectId) (backend : StorageBackend)
    (includeDirect includePresigned : Bool) : Except PyError (List StorageGetUrl) := do
  let direct ← if includeDirect then do
      let url ← publicObjectUrl storage backend objectId
      pure [⟨url, backend.label, false⟩]
    else pure []
  let presigned ← if includePresigned then do
      let url ← presignGetUrl storage backend objectId
      pure [⟨url, backend.label, true⟩]
    else pure []
  return direct ++ presigned

def buildGetUrlsBatch (requests : List ObjectGetUrlRequest) :
    Except PyError (List (ObjectGetUrlBatchKey × List StorageGetUrl)) :=
  let unique := requests.foldl (fun (unique : UrlRequests) request =>
    unique.add { request with backend := resolveBackend storage request.backend }) .empty
  unique.rows.mapM fun request => do
    let urls ← buildGetUrlsForResolvedBackend storage request.objectId request.backend
      request.includeDirect request.includePresigned
    return (request.key, urls)

/-! ## Payloads -/

structure UrlPayload where
  url : Option String
  label : Option String
  storageId : Option String
  presigned : Bool
  controlled : Bool
  /-- `store_type`, `provider`, `region`, `store_product` and `tags` -/
  backend : Option StorageBackend

def controlledGetUrlPayload (backend : StorageBackend) (getUrl : StorageGetUrl) : UrlPayload where
  url := some getUrl.url
  label := orText (some getUrl.label) (some backend.label)
  storageId := some (storage.uuidText backend.id)
  presigned := getUrl.presigned
  controlled := true
  backend := some backend

def uncontrolledGetUrlPayload (inst : ObjectInstance) : UrlPayload where
  url := inst.url
  label := inst.label
  storageId := none
  presigned := inst.presigned
  controlled := false
  backend := none

def payloadMatches (filter : UrlFilter) (payload : UrlPayload) : Bool :=
  (filter.presigned.all fun presigned => payload.presigned == presigned) &&
  (filter.acceptGetUrls.all fun labels => payload.label.any (· ∈ labels)) &&
  filter.acceptStorageIds.all fun ids => payload.storageId.any (· ∈ ids)

def payloadDedupeKey (payload : UrlPayload) :
    Option String × Option String × Option String × Bool × Bool :=
  (payload.label, payload.storageId, payload.url, payload.presigned, payload.controlled)

def TagValue.json : TagValue → Json
  | .text value => .str value
  | .list values => .arr (values.map .str)

/-- An optional text as a member; `without_none` leaves `None` out. -/
def textMember (name : String) (value : Option String) : Members :=
  value.toList.map fun text => (name, .str text)

def payloadResponse (verbose : Bool) (payload : UrlPayload) : Json :=
  .obj (textMember "url" payload.url ++ textMember "label" payload.label ++
    [("presigned", .bool payload.presigned)] ++
    if verbose then
      textMember "storage_id" payload.storageId ++ [("controlled", .bool payload.controlled)] ++
      textMember "store_type" (payload.backend.map (·.storeType)) ++
      textMember "provider" (payload.backend.map (·.provider)) ++
      textMember "region" (payload.backend.map (·.region)) ++
      textMember "store_product" (payload.backend.map (·.storeProduct)) ++
      payload.backend.toList.map fun backend =>
        ("tags", .obj (backend.tags.map fun (name, value) => (name, value.json)))
    else [])

/-! ## The filtered construction -/

def instancesOf (objects : List MediaObjectRecord) : List (MediaObjectRecord × ObjectInstance) :=
  objects.flatMap fun object => object.instances.map fun inst => (object, inst)

/-- The body of the loops of `_controlled_get_urls_by_object` up to the request: `none` is a
    `continue`. -/
def requestOf (filter : UrlFilter) (objectId : ObjectId) (inst : ObjectInstance) :
    Option ObjectGetUrlRequest :=
  match inst.controlled, inst.storageBackend with
  | true, some backend =>
      if filter.hasTags && !filter.tagsMatch backend then none
      else if filter.acceptStorageIds.any (storage.uuidText backend.id ∉ ·) then none
      else
        let labelAccepted := filter.acceptGetUrls.all (backend.label ∈ ·)
        let includeDirect := filter.presigned != some true && labelAccepted
        let includePresigned := filter.presigned != some false && labelAccepted
        if !includeDirect && !includePresigned then none
        else some ⟨objectId, backend, includeDirect, includePresigned⟩
  | _, _ => none

def requestsOf (filter : UrlFilter) (objects : List MediaObjectRecord) :
    List ObjectGetUrlRequest :=
  (instancesOf objects).filterMap fun (object, inst) => requestOf storage filter object.id inst

def backendsByKey (requests : List ObjectGetUrlRequest) :
    Dict ObjectGetUrlBatchKey StorageBackend :=
  (requests.map fun request => (request.key, request.backend)).foldl Table.upsert .empty

def payloadsOfKey (backends : Dict ObjectGetUrlBatchKey StorageBackend)
    (entry : ObjectGetUrlBatchKey × List StorageGetUrl) :
    Except PyError (ObjectGetUrlBatchKey × List UrlPayload) :=
  match backends.get entry.1 with
  | none => .error (.runtimeError "KeyError")
  | some (_, backend) => .ok (entry.1, entry.2.map (controlledGetUrlPayload storage backend))

def controlledGetUrlsByObject (filter : UrlFilter) (objects : List MediaObjectRecord) :
    Except PyError (List (ObjectGetUrlBatchKey × List UrlPayload)) := do
  let requests := requestsOf storage filter objects
  let urlRequests := requests.foldl UrlRequests.add .empty
  if urlRequests.rows.isEmpty then
    return []
  let rawGetUrls ← buildGetUrlsBatch storage urlRequests.rows
  rawGetUrls.mapM (payloadsOfKey storage (backendsByKey requests))

def instanceGetUrls (objectId : ObjectId) (inst : ObjectInstance)
    (controlledGetUrls : List (ObjectGetUrlBatchKey × List UrlPayload)) : List UrlPayload :=
  match inst.controlled, inst.storageBackend with
  | true, some backend => (controlledGetUrls.lookup (backend.id, objectId)).getD []
  | _, _ => if inst.url.isNone then [] else [uncontrolledGetUrlPayload inst]

def skipsInstance (filter : UrlFilter) (inst : ObjectInstance) : Bool :=
  filter.hasTags && !inst.storageBackend.any filter.tagsMatch

structure Collected where
  getUrls : List Json
  seen : List (Option String × Option String × Option String × Bool × Bool)

def collectPayload (filter : UrlFilter) (verbose : Bool) (collected : Collected)
    (payload : UrlPayload) : Collected :=
  if !payloadMatches filter payload then collected
  else if payloadDedupeKey payload ∈ collected.seen then collected
  else ⟨collected.getUrls ++ [payloadResponse verbose payload],
    payloadDedupeKey payload :: collected.seen⟩

def objectGetUrlsFromPayloads (filter : UrlFilter) (verbose : Bool) (object : MediaObjectRecord)
    (controlledGetUrls : List (ObjectGetUrlBatchKey × List UrlPayload)) : List Json :=
  (object.instances.foldl (fun collected inst =>
    if skipsInstance filter inst then collected
    else (instanceGetUrls object.id inst controlledGetUrls).foldl
      (collectPayload filter verbose) collected) ⟨[], []⟩).getUrls

def urlsByObject (urls : List (ObjectId × List Json)) : Dict ObjectId (List Json) :=
  urls.foldl Table.upsert .empty

def objectsGetUrls (filter : UrlFilter) (verbose : Bool) (objects : List MediaObjectRecord) :
    Except PyError (Dict ObjectId (List Json)) := do
  if filter.acceptGetUrls = some [] then
    return urlsByObject (objects.map fun object => (object.id, []))
  let filter := filter.effective
  let controlledGetUrls ← controlledGetUrlsByObject storage filter objects
  return urlsByObject (objects.map fun object =>
    (object.id, objectGetUrlsFromPayloads filter verbose object controlledGetUrls))

/-! ## Building everything and filtering afterwards -/

def instanceUrls (objectId : ObjectId) (inst : ObjectInstance) :
    Except PyError (List UrlPayload) :=
  match inst.controlled, inst.storageBackend with
  | true, some backend => do
      let urls ← buildGetUrlsForResolvedBackend storage objectId (resolveBackend storage backend)
        true true
      return urls.map (controlledGetUrlPayload storage backend)
  | _, _ => return if inst.url.isNone then [] else [uncontrolledGetUrlPayload inst]

def allUrls (object : MediaObjectRecord) : Except PyError (List (ObjectInstance × UrlPayload)) := do
  let urls ← object.instances.mapM fun inst => do
    let payloads ← instanceUrls storage object.id inst
    return payloads.map fun payload => (inst, payload)
  return urls.flatten

def allUrlsByObject (objects : List MediaObjectRecord) :
    Except PyError (List (ObjectId × List (ObjectInstance × UrlPayload))) :=
  objects.mapM fun object => do
    let urls ← allUrls storage object
    return (object.id, urls)

def distinctBy {α κ : Type} [DecidableEq κ] (key : α → κ) : List α → List α
  | [] => []
  | x :: xs => x :: (distinctBy key xs).filter fun y => key y ≠ key x

def filterUrls (filter : UrlFilter) (verbose : Bool) (urls : List (ObjectInstance × UrlPayload)) :
    List Json :=
  let kept := urls.filter fun (inst, payload) =>
    !skipsInstance filter.effective inst && payloadMatches filter.effective payload
  (distinctBy payloadDedupeKey (kept.map (·.2))).map (payloadResponse verbose)

structure LoadedObjects where
  objects : List MediaObjectRecord
  sameBackends : ∀ p ∈ instancesOf objects, ∀ q ∈ instancesOf objects,
    ∀ backend ∈ p.2.storageBackend, ∀ backend' ∈ q.2.storageBackend,
      backend.id = backend'.id → backend = backend'

/-! ## The loop over payloads -/

section Collect

variable {filter : UrlFilter} {verbose : Bool}

theorem foldl_collectPayload (payloads : List UrlPayload) (collected : Collected) :
    (payloads.foldl (collectPayload filter verbose) collected).getUrls =
      collected.getUrls ++ ((distinctBy payloadDedupeKey
        (payloads.filter (payloadMatches filter))).filter fun payload =>
          payloadDedupeKey payload ∉ collected.seen).map (payloadResponse verbose) := by
  induction payloads generalizing collected with
  | nil => simp [distinctBy]
  | cons payload payloads ih =>
    rw [List.foldl_cons, ih]
    unfold collectPayload
    cases hmatch : payloadMatches filter payload with
    | false => simp [hmatch]
    | true =>
      simp only [Bool.not_true, Bool.false_eq_true, if_false, List.filter_cons, hmatch, if_true,
        distinctBy]
      by_cases hseen : payloadDedupeKey payload ∈ collected.seen
      · -- a payload with a key that was seen hides no other
        simp only [hseen, if_true, not_true_eq_false, decide_false, Bool.false_eq_true, if_false,
          List.filter_filter]
        congr 2
        apply List.filter_congr
        intro x _
        by_cases hx : payloadDedupeKey x = payloadDedupeKey payload
        · simp [hx, hseen]
        · simp [hx]
      · simp only [hseen, if_false, not_false_eq_true, decide_true, if_true, List.map_cons,
          List.append_assoc, List.singleton_append, List.filter_filter]
        congr 3
        apply List.filter_congr
        intro x _
        by_cases hx : payloadDedupeKey x = payloadDedupeKey payload
        · simp [hx]
        · simp [hx]

theorem objectGetUrlsFromPayloads_eq (object : MediaObjectRecord)
    (controlled : List (ObjectGetUrlBatchKey × List UrlPayload)) :
    objectGetUrlsFromPayloads filter verbose object controlled =
      (distinctBy payloadDedupeKey (object.instances.flatMap fun inst =>
        if skipsInstance filter inst then []
        else (instanceGetUrls object.id inst controlled).filter (payloadMatches filter))).map
          (payloadResponse verbose) := by
  have hflat : ∀ (instances : List ObjectInstance) (collected : Collected),
      instances.foldl (fun collected inst =>
        if skipsInstance filter inst then collected
        else (instanceGetUrls object.id inst controlled).foldl
          (collectPayload filter verbose) collected) collected =
      (instances.flatMap fun inst => if skipsInstance filter inst then []
        else instanceGetUrls object.id inst controlled).foldl
          (collectPayload filter verbose) collected := by
    intro instances collected
    rw [List.foldl_flatMap]
    congr 1
    funext collected inst
    split <;> rfl
  rw [objectGetUrlsFromPayloads, hflat, foldl_collectPayload, List.filter_flatMap]
  simp only [List.not_mem_nil, not_false_eq_true, decide_true, List.filter_true, List.nil_append]
  congr 3
  funext inst
  split <;> rfl

end Collect

/-! ## The batch of requests -/

section Batch

variable {storage} {filter : UrlFilter}

@[simp] theorem resolveBackend_id (backend : StorageBackend) :
    (resolveBackend storage backend).id = backend.id := by
  unfold resolveBackend
  split <;> rfl

@[simp] theorem resolveBackend_label (backend : StorageBackend) :
    (resolveBackend storage backend).label = backend.label := by
  unfold resolveBackend
  split <;> rfl

def acceptsBackend (storage : ObjectStorage) (filter : UrlFilter) (backend : StorageBackend) :
    Bool :=
  (!filter.hasTags || filter.tagsMatch backend) &&
  (filter.acceptStorageIds.all (storage.uuidText backend.id ∈ ·)) &&
  filter.acceptGetUrls.all (backend.label ∈ ·)

def requestFor (filter : UrlFilter) (objectId : ObjectId) (backend : StorageBackend) :
    ObjectGetUrlRequest :=
  ⟨objectId, backend, filter.presigned != some true, filter.presigned != some false⟩

variable {backend : StorageBackend} {objectId : ObjectId}

theorem requestOf_controlled {inst : ObjectInstance} (hcontrolled : inst.controlled = true)
    (hbackend : inst.storageBackend = some backend) : requestOf storage filter objectId inst =
      if acceptsBackend storage filter backend then some (requestFor filter objectId backend)
      else none := by
  have hids : filter.acceptStorageIds.any (storage.uuidText backend.id ∉ ·) =
      !filter.acceptStorageIds.all (storage.uuidText backend.id ∈ ·) := by
    cases filter.acceptStorageIds <;> simp
  have hsome : (filter.presigned != some true || filter.presigned != some false) = true := by
    rcases filter.presigned with - | - | - <;> rfl
  unfold requestOf acceptsBackend requestFor
  rw [hcontrolled, hbackend]
  dsimp only
  rw [hids]
  cases filter.hasTags <;> cases filter.tagsMatch backend <;>
    cases filter.acceptStorageIds.all (storage.uuidText backend.id ∈ ·) <;>
    cases filter.acceptGetUrls.all (backend.label ∈ ·) <;>
    simp_all

variable {request : ObjectGetUrlRequest}

theorem mem_requestsOf {objects : List MediaObjectRecord} :
    request ∈ requestsOf storage filter objects ↔
      ∃ p ∈ instancesOf objects, p.2.controlled = true ∧ ∃ backend ∈ p.2.storageBackend,
        acceptsBackend storage filter backend = true ∧
          request = requestFor filter p.1.id backend := by
  rw [requestsOf, List.mem_filterMap]
  constructor
  · rintro ⟨⟨object, inst⟩, hp, hrequest⟩
    have hshape : inst.controlled = true ∧ ∃ backend, inst.storageBackend = some backend := by
      dsimp only at hrequest
      unfold requestOf at hrequest
      split at hrequest
      · rename_i backend hcontrolled hbackend
        exact ⟨hcontrolled, backend, hbackend⟩
      · cases hrequest
    obtain ⟨hcontrolled, backend, hbackend⟩ := hshape
    dsimp only at hrequest
    rw [requestOf_controlled hcontrolled hbackend] at hrequest
    split at hrequest
    · rename_i haccepts
      exact ⟨(object, inst), hp, hcontrolled, backend, hbackend, haccepts,
        (Option.some.inj hrequest).symm⟩
    · cases hrequest
  · rintro ⟨⟨object, inst⟩, hp, hcontrolled, backend, hbackend, haccepts, rfl⟩
    refine ⟨(object, inst), hp, ?_⟩
    dsimp only at hcontrolled hbackend ⊢
    rw [requestOf_controlled hcontrolled hbackend, if_pos haccepts]

def KeyDetermines (requests : List ObjectGetUrlRequest) : Prop :=
  ∀ r ∈ requests, ∀ r' ∈ requests, r.key = r'.key → r = r'

theorem LoadedObjects.keyDetermines (loaded : LoadedObjects) :
    KeyDetermines (requestsOf storage filter loaded.objects) := by
  intro r hr r' hr' hkey
  obtain ⟨p, hp, -, backend, hbackend, -, rfl⟩ := mem_requestsOf.mp hr
  obtain ⟨q, hq, -, backend', hbackend', -, rfl⟩ := mem_requestsOf.mp hr'
  obtain ⟨hid, hobject⟩ := Prod.mk.inj hkey
  have hsame := loaded.sameBackends p hp q hq backend hbackend backend' hbackend' hid
  rw [show q.1.id = p.1.id from hobject.symm, ← hsame]

variable {requests : List ObjectGetUrlRequest}

theorem foldl_add {table : UrlRequests} (h : KeyDetermines (table.rows ++ requests)) :
    requests.foldl UrlRequests.add table = requests.foldl Table.upsert table := by
  induction requests generalizing table with
  | nil => rfl
  | cons request requests ih =>
    have hadd : table.add request = table.upsert request := by
      unfold UrlRequests.add
      split
      · rfl
      · rename_i existing hget
        obtain ⟨hmem, hkey⟩ := Table.get_eq_some.mp hget
        have heq := h existing (by simp [hmem]) request (by simp) hkey
        simp [heq]
    rw [List.foldl_cons, List.foldl_cons, hadd]
    apply ih
    have hsub : ∀ x ∈ (table.upsert request).rows ++ requests,
        x ∈ table.rows ++ request :: requests := by
      intro x hx
      rcases List.mem_append.mp hx with hx | hx
      · rcases Table.mem_upsert.mp hx with hx | rfl
        · simp [hx.1]
        · simp
      · simp [hx]
    exact fun r hr r' hr' => h r (hsub r hr) r' (hsub r' hr')

theorem get_foldl_add (h : KeyDetermines requests) {key : ObjectGetUrlBatchKey} :
    (requests.foldl UrlRequests.add .empty).get key = some request ↔
      request ∈ requests ∧ request.key = key := by
  rw [foldl_add (by simpa using h), Table.get_foldl_upsert]
  cases hfind : requests.reverse.find? fun r => r.key = key with
  | none =>
    have hnone := List.find?_eq_none.mp hfind
    simp only [Option.none_or, Table.get_eq_some, Table.rows_empty, List.not_mem_nil, false_and,
      false_iff, not_and]
    intro hmem hkey
    exact hnone request (List.mem_reverse.mpr hmem) (by simp [hkey])
  | some found =>
    have hmem := List.mem_reverse.mp (List.mem_of_find?_eq_some hfind)
    have hkey : found.key = key := by simpa using List.find?_some hfind
    simp only [Option.some_or, Option.some.injEq]
    constructor
    · rintro rfl
      exact ⟨hmem, hkey⟩
    · rintro ⟨hmem', hkey'⟩
      exact h found hmem request hmem' (hkey.trans hkey'.symm)

variable {urls : List StorageGetUrl}

theorem build_of_both
    (h : buildGetUrlsForResolvedBackend storage objectId backend true true = .ok urls) :
    ∃ direct presigned : StorageGetUrl, urls = [direct, presigned] ∧
      direct.presigned = false ∧ direct.label = backend.label ∧
      presigned.presigned = true ∧ presigned.label = backend.label ∧
      ∀ includeDirect includePresigned,
        buildGetUrlsForResolvedBackend storage objectId backend includeDirect includePresigned =
          .ok ((if includeDirect then [direct] else []) ++
            if includePresigned then [presigned] else []) := by
  unfold buildGetUrlsForResolvedBackend at h
  cases hdirect : publicObjectUrl storage backend objectId with
  | error e =>
    rw [hdirect] at h
    cases h
  | ok direct =>
    cases hpresigned : presignGetUrl storage backend objectId with
    | error e =>
      rw [hdirect, hpresigned] at h
      cases h
    | ok presigned =>
      rw [hdirect, hpresigned] at h
      cases h
      refine ⟨⟨direct, backend.label, false⟩, ⟨presigned, backend.label, true⟩, rfl, rfl, rfl, rfl,
        rfl, ?_⟩
      intro includeDirect includePresigned
      unfold buildGetUrlsForResolvedBackend
      rw [hdirect, hpresigned]
      cases includeDirect <;> cases includePresigned <;> rfl

def builtUrls (storage : ObjectStorage) (request : ObjectGetUrlRequest) : List StorageGetUrl :=
  (buildGetUrlsForResolvedBackend storage request.objectId
    (resolveBackend storage request.backend) request.includeDirect
    request.includePresigned).toOption.getD []

theorem buildGetUrlsBatch_ok {requests : UrlRequests}
    (hbuild : ∀ request ∈ requests.rows, ∃ urls, buildGetUrlsForResolvedBackend storage
      request.objectId (resolveBackend storage request.backend) request.includeDirect
      request.includePresigned = .ok urls) :
    ∃ raw, buildGetUrlsBatch storage requests.rows = .ok raw ∧
      (∀ entry ∈ raw, ∃ request ∈ requests.rows, entry.1 = request.key) ∧
      ∀ key, raw.lookup key = (requests.get key).map (builtUrls storage) := by
  let resolved (request : ObjectGetUrlRequest) : ObjectGetUrlRequest :=
    { request with backend := resolveBackend storage request.backend }
  have hkey : ∀ request, (resolved request).key = request.key := by
    intro request
    simp [resolved, ObjectGetUrlRequest.key]
  have hdetermines : KeyDetermines (requests.rows.map resolved) := by
    intro r hr r' hr' hkeys
    obtain ⟨request, hrequest, rfl⟩ := List.mem_map.mp hr
    obtain ⟨request', hrequest', rfl⟩ := List.mem_map.mp hr'
    rw [hkey, hkey] at hkeys
    rw [requests.eq_of_key_eq hrequest hrequest' hkeys]
  let unique : UrlRequests := (requests.rows.map resolved).foldl UrlRequests.add .empty
  have hunique : ∀ {r key}, unique.get key = some r ↔ r ∈ requests.rows.map resolved ∧ r.key = key :=
    get_foldl_add hdetermines
  let urls (r : ObjectGetUrlRequest) : List StorageGetUrl :=
    (buildGetUrlsForResolvedBackend storage r.objectId r.backend r.includeDirect
      r.includePresigned).toOption.getD []
  have hok : unique.rows.mapM (fun request => do
      let urls ← buildGetUrlsForResolvedBackend storage request.objectId request.backend
        request.includeDirect request.includePresigned
      return (request.key, urls)) = .ok (unique.rows.map fun r => (r.key, urls r)) := by
    apply mapM_of_ok
    intro r hr
    obtain ⟨hmem, -⟩ := hunique.mp (Table.get_eq_some.mpr ⟨hr, rfl⟩)
    obtain ⟨request, hrequest, rfl⟩ := List.mem_map.mp hmem
    obtain ⟨built, hbuilt⟩ := hbuild request hrequest
    simp only [urls, resolved, hbuilt]
    rfl
  refine ⟨unique.rows.map fun r => (r.key, urls r), ?_, ?_, ?_⟩
  · have hfold : requests.rows.foldl (fun (unique : UrlRequests) request =>
        unique.add (resolved request)) .empty = unique := List.foldl_map.symm
    unfold buildGetUrlsBatch
    dsimp only
    rw [hfold]
    exact hok
  · intro entry hentry
    obtain ⟨r, hr, rfl⟩ := List.mem_map.mp hentry
    obtain ⟨hmem, -⟩ := hunique.mp (Table.get_eq_some.mpr ⟨hr, rfl⟩)
    obtain ⟨request, hrequest, rfl⟩ := List.mem_map.mp hmem
    exact ⟨request, hrequest, hkey request⟩
  · intro key
    rw [lookup_map]
    show (unique.get key).map urls = _
    cases hget : requests.get key with
    | none =>
      have hnone : unique.get key = none := by
        cases hu : unique.get key with
        | none => rfl
        | some r =>
          obtain ⟨hmem, hr⟩ := hunique.mp hu
          obtain ⟨request, hrequest, rfl⟩ := List.mem_map.mp hmem
          exact absurd ((hkey request).symm.trans hr) (Table.get_eq_none.mp hget request hrequest)
      rw [hnone]
      rfl
    | some request =>
      obtain ⟨hmem, hr⟩ := Table.get_eq_some.mp hget
      have hsome : unique.get key = some (resolved request) :=
        hunique.mpr ⟨List.mem_map_of_mem hmem, (hkey request).trans hr⟩
      rw [hsome]
      rfl

theorem lookup_map_snd {κ ν ν' : Type} [BEq κ] [LawfulBEq κ] (entries : List (κ × ν))
    (f : κ → ν → ν') (k : κ) : (entries.map fun entry => (entry.1, f entry.1 entry.2)).lookup k =
      (entries.lookup k).map (f k) := by
  induction entries with
  | nil => rfl
  | cons entry entries ih =>
    rw [List.map_cons, List.lookup_cons, List.lookup_cons]
    by_cases h : k = entry.1
    · subst h
      simp
    · have hne : (k == entry.1) = false := by simpa using h
      simp [hne, ih]

theorem get_backendsByKey (h : KeyDetermines requests) (hmem : request ∈ requests) :
    (backendsByKey requests).get request.key = some (request.key, request.backend) := by
  rw [backendsByKey, Table.get_foldl_upsert]
  cases hfind : (requests.map fun r => (r.key, r.backend)).reverse.find?
      fun entry => entry.1 = request.key with
  | none =>
    have hnone := List.find?_eq_none.mp hfind (request.key, request.backend)
      (List.mem_reverse.mpr (List.mem_map_of_mem hmem))
    simp at hnone
  | some entry =>
    obtain ⟨r, hr, rfl⟩ := List.mem_map.mp (List.mem_reverse.mp (List.mem_of_find?_eq_some hfind))
    have hkey : r.key = request.key := by simpa using List.find?_some hfind
    rw [h r hr request hmem hkey]
    rfl

def shownUrls (storage : ObjectStorage) (requests : List ObjectGetUrlRequest)
    (key : ObjectGetUrlBatchKey) (urls : List StorageGetUrl) : List UrlPayload :=
  match (backendsByKey requests).get key with
  | none => []
  | some (_, backend) => urls.map (controlledGetUrlPayload storage backend)

def Buildable (storage : ObjectStorage) (objects : List MediaObjectRecord) : Prop :=
  ∀ p ∈ instancesOf objects, p.2.controlled = true → ∀ backend ∈ p.2.storageBackend,
    ∃ urls, buildGetUrlsForResolvedBackend storage p.1.id (resolveBackend storage backend)
      true true = .ok urls

theorem controlledGetUrlsByObject_ok (filter : UrlFilter) {loaded : LoadedObjects}
    (hbuild : Buildable storage loaded.objects) :
    ∃ controlled, controlledGetUrlsByObject storage filter loaded.objects = .ok controlled ∧
      ∀ p ∈ instancesOf loaded.objects, p.2.controlled = true →
        ∀ backend ∈ p.2.storageBackend,
          (controlled.lookup (backend.id, p.1.id)).getD [] =
            if acceptsBackend storage filter backend then
              (builtUrls storage (requestFor filter p.1.id backend)).map
                (controlledGetUrlPayload storage backend) else [] := by
  have hdetermines : KeyDetermines (requestsOf storage filter loaded.objects) :=
    loaded.keyDetermines
  have hmem : ∀ {p}, p ∈ instancesOf loaded.objects → p.2.controlled = true →
      ∀ {backend}, backend ∈ p.2.storageBackend → acceptsBackend storage filter backend = true →
        requestFor filter p.1.id backend ∈ requestsOf storage filter loaded.objects :=
    fun hp hcontrolled _ hbackend haccepts =>
      mem_requestsOf.mpr ⟨_, hp, hcontrolled, _, hbackend, haccepts, rfl⟩
  have hrefused : ∀ {p}, p ∈ instancesOf loaded.objects → ∀ {backend},
      backend ∈ p.2.storageBackend → acceptsBackend storage filter backend = false →
        ∀ r ∈ requestsOf storage filter loaded.objects, r.key ≠ (backend.id, p.1.id) := by
    intro p hp backend hbackend hrefuses r hr hkey
    obtain ⟨q, hq, -, backend', hbackend', haccepts, rfl⟩ := mem_requestsOf.mp hr
    have hsame := loaded.sameBackends q hq p hp backend' hbackend' backend hbackend
      (Prod.mk.inj hkey).1
    rw [hsame, hrefuses] at haccepts
    cases haccepts
  have hrows : ∀ r ∈ requestsOf storage filter loaded.objects,
      ∃ urls, buildGetUrlsForResolvedBackend storage r.objectId (resolveBackend storage r.backend)
        r.includeDirect r.includePresigned = .ok urls := by
    intro r hr
    obtain ⟨p, hp, hcontrolled, backend, hbackend, -, rfl⟩ := mem_requestsOf.mp hr
    obtain ⟨urls, hurls⟩ := hbuild p hp hcontrolled backend hbackend
    obtain ⟨direct, presigned, -, -, -, -, -, hall⟩ := build_of_both hurls
    exact ⟨_, hall _ _⟩
  rw [controlledGetUrlsByObject]
  generalize requestsOf storage filter loaded.objects = requests at *
  have hget : ∀ {r key}, (requests.foldl UrlRequests.add .empty).get key = some r ↔
      r ∈ requests ∧ r.key = key := get_foldl_add hdetermines
  generalize requests.foldl UrlRequests.add .empty = table at *
  have hnone : ∀ {p}, p ∈ instancesOf loaded.objects → ∀ {backend},
      backend ∈ p.2.storageBackend → acceptsBackend storage filter backend = false →
        table.get (backend.id, p.1.id) = none := by
    intro p hp backend hbackend hrefuses
    rw [Option.eq_none_iff_forall_ne_some]
    intro r hr
    exact hrefused hp hbackend hrefuses r (hget.mp hr).1 (hget.mp hr).2
  by_cases hempty : table.rows.isEmpty = true
  · -- no request: no backend of a controlled instance is accepted
    refine ⟨[], by rw [if_pos hempty]; rfl, ?_⟩
    intro p hp hcontrolled backend hbackend
    split
    · rename_i haccepts
      have hrow := hget.mpr ⟨hmem hp hcontrolled hbackend haccepts, rfl⟩
      have hin := (Table.get_eq_some.mp hrow).1
      rw [List.isEmpty_iff.mp hempty] at hin
      cases hin
    · rfl
  · have hbuilds : ∀ r ∈ table.rows, ∃ urls, buildGetUrlsForResolvedBackend storage r.objectId
        (resolveBackend storage r.backend) r.includeDirect r.includePresigned = .ok urls :=
      fun r hr => hrows r (hget.mp (Table.get_eq_some.mpr ⟨hr, rfl⟩)).1
    obtain ⟨raw, hraw, hkeys, hlookup⟩ := buildGetUrlsBatch_ok hbuilds
    have hok : raw.mapM (payloadsOfKey storage (backendsByKey requests)) =
        .ok (raw.map fun entry => (entry.1, shownUrls storage requests entry.1 entry.2)) := by
      apply mapM_of_ok
      intro entry hentry
      obtain ⟨r, hr, hkey⟩ := hkeys entry hentry
      have hbackend := get_backendsByKey hdetermines (hget.mp (Table.get_eq_some.mpr ⟨hr, rfl⟩)).1
      rw [payloadsOfKey, shownUrls, hkey, hbackend]
    refine ⟨_, by rw [if_neg hempty, hraw]; exact hok, ?_⟩
    intro p hp hcontrolled backend hbackend
    rw [lookup_map_snd, hlookup]
    split
    · rename_i haccepts
      have hin := hmem hp hcontrolled hbackend haccepts
      have hrow : table.get (backend.id, p.1.id) = some (requestFor filter p.1.id backend) :=
        hget.mpr ⟨hin, rfl⟩
      rw [hrow]
      show shownUrls storage requests (requestFor filter p.1.id backend).key _ = _
      rw [shownUrls, get_backendsByKey hdetermines hin]
      rfl
    · rename_i hrefuses
      rw [hnone hp hbackend (by simpa using hrefuses)]
      rfl

theorem payloadMatches_controlled (storage : ObjectStorage) (filter : UrlFilter) {getUrl : StorageGetUrl}
    (hlabel : getUrl.label = backend.label) :
    payloadMatches filter (controlledGetUrlPayload storage backend getUrl) =
      ((filter.presigned.all fun presigned => getUrl.presigned == presigned) &&
        filter.acceptGetUrls.all (backend.label ∈ ·) &&
        filter.acceptStorageIds.all (storage.uuidText backend.id ∈ ·)) := by
  have hor : orText (some getUrl.label) (some backend.label) = some backend.label := by
    rw [hlabel]
    unfold orText
    split <;> simp_all
  simp [payloadMatches, controlledGetUrlPayload, hor]

theorem filter_builtUrls (htags : (!filter.hasTags || filter.tagsMatch backend) = true)
    (hurls : buildGetUrlsForResolvedBackend storage objectId (resolveBackend storage backend)
      true true = .ok urls) : (if acceptsBackend storage filter backend then
        (builtUrls storage (requestFor filter objectId backend)).map
          (controlledGetUrlPayload storage backend) else []).filter (payloadMatches filter) =
    (urls.map (controlledGetUrlPayload storage backend)).filter (payloadMatches filter) := by
  obtain ⟨direct, presigned, rfl, hdirect, hdirectLabel, hpresigned, hpresignedLabel, hall⟩ :=
    build_of_both hurls
  rw [resolveBackend_label] at hdirectLabel hpresignedLabel
  have hbuilt : builtUrls storage (requestFor filter objectId backend) =
      (if filter.presigned != some true then [direct] else []) ++
        if filter.presigned != some false then [presigned] else [] := by
    simp only [builtUrls, requestFor, hall]
    rfl
  have hmatchDirect := payloadMatches_controlled storage filter hdirectLabel
  have hmatchPresigned := payloadMatches_controlled storage filter hpresignedLabel
  rw [hdirect] at hmatchDirect
  rw [hpresigned] at hmatchPresigned
  rw [hbuilt, acceptsBackend, htags, Bool.true_and]
  cases hids : filter.acceptStorageIds.all (storage.uuidText backend.id ∈ ·) with
  | false => simp [hmatchDirect, hmatchPresigned, hids]
  | true =>
    cases hlabels : filter.acceptGetUrls.all (backend.label ∈ ·) with
    | false => simp [hmatchDirect, hmatchPresigned, hlabels]
    | true =>
      -- a wanted kind of URL is requested, an unwanted one would be filtered
      rw [hids, hlabels] at hmatchDirect hmatchPresigned
      rcases hwanted : filter.presigned with - | - | -
      · rfl
      · simp [hmatchDirect, hmatchPresigned, hwanted]
      · simp [hmatchDirect, hmatchPresigned, hwanted]

end Batch

/-! ## The filtered construction is exact -/

section Exact

variable {storage}

variable {urls : List (ObjectInstance × UrlPayload)} {object : MediaObjectRecord}

theorem instanceUrls_of_allUrls (h : allUrls storage object = .ok urls) :
    ∃ groups, urls = groups.flatten ∧ List.Forall₂ (fun inst group => ∃ payloads,
      instanceUrls storage object.id inst = .ok payloads ∧
        group = payloads.map fun payload => (inst, payload)) object.instances groups := by
  unfold allUrls at h
  cases hgroups : object.instances.mapM (fun inst => do
      let payloads ← instanceUrls storage object.id inst
      return payloads.map fun payload => (inst, payload)) with
  | error e =>
    rw [hgroups] at h
    cases h
  | ok groups =>
    rw [hgroups] at h
    cases h
    refine ⟨groups, rfl, (mapM_ok_iff.mp hgroups).imp ?_⟩
    intro inst group hgroup
    cases hpayloads : instanceUrls storage object.id inst with
    | error e =>
      rw [hpayloads] at hgroup
      cases hgroup
    | ok payloads =>
      rw [hpayloads] at hgroup
      cases hgroup
      exact ⟨payloads, rfl, rfl⟩

theorem build_of_instanceUrls {objectId : ObjectId} {inst : ObjectInstance}
    {backend : StorageBackend} (hcontrolled : inst.controlled = true)
    (hbackend : inst.storageBackend = some backend) {payloads : List UrlPayload}
    (h : instanceUrls storage objectId inst = .ok payloads) :
    ∃ urls, buildGetUrlsForResolvedBackend storage objectId (resolveBackend storage backend)
      true true = .ok urls := by
  rw [instanceUrls, hcontrolled, hbackend] at h
  cases hbuild : buildGetUrlsForResolvedBackend storage objectId (resolveBackend storage backend)
      true true with
  | error e =>
    dsimp only at h
    rw [hbuild] at h
    cases h
  | ok urls => exact ⟨urls, rfl⟩

theorem objectGetUrls_exact {filter : UrlFilter} {verbose : Bool}
    {controlled : List (ObjectGetUrlBatchKey × List UrlPayload)}
    (hurls : allUrls storage object = .ok urls)
    (hcontrolled : ∀ inst ∈ object.instances, inst.controlled = true →
      ∀ backend ∈ inst.storageBackend,
        (controlled.lookup (backend.id, object.id)).getD [] =
          if acceptsBackend storage filter.effective backend then
            (builtUrls storage (requestFor filter.effective object.id backend)).map
              (controlledGetUrlPayload storage backend) else []) :
    objectGetUrlsFromPayloads filter.effective verbose object controlled =
      filterUrls filter verbose urls := by
  obtain ⟨groups, rfl, hgroups⟩ := instanceUrls_of_allUrls hurls
  rw [objectGetUrlsFromPayloads_eq, filterUrls]
  dsimp only
  rw [List.filter_flatten, List.map_flatten, List.map_map, List.flatMap_def]
  congr 3
  refine map_eq_map_of_forall₂ hgroups ?_
  rintro inst hinst group ⟨payloads, hpayloads, rfl⟩
  -- the group of one instance
  have hgroup : ((payloads.map fun payload => (inst, payload)).filter fun x =>
      !skipsInstance filter.effective x.1 && payloadMatches filter.effective x.2).map (·.2) =
        if skipsInstance filter.effective inst then []
        else payloads.filter (payloadMatches filter.effective) := by
    rw [List.filter_map, List.map_map]
    cases hskip : skipsInstance filter.effective inst <;> simp [Function.comp_def, hskip]
  refine Eq.trans ?_ hgroup.symm
  cases hskip : skipsInstance filter.effective inst with
  | true => rfl
  | false =>
    simp only [Bool.false_eq_true, if_false]
    unfold instanceUrls at hpayloads
    split at hpayloads
    · rename_i backend hc hb
      have htags : (!filter.effective.hasTags || filter.effective.tagsMatch backend) = true := by
        rw [skipsInstance, hb] at hskip
        cases htags : filter.effective.hasTags <;> simp_all
      cases hbuild : buildGetUrlsForResolvedBackend storage object.id
          (resolveBackend storage backend) true true with
      | error e =>
        rw [hbuild] at hpayloads
        cases hpayloads
      | ok built =>
        rw [hbuild] at hpayloads
        cases hpayloads
        rw [instanceGetUrls, hc, hb]
        dsimp only
        rw [hcontrolled inst hinst hc backend hb, filter_builtUrls htags hbuild]
    · rename_i hother
      cases hpayloads
      unfold instanceGetUrls
      split
      · rename_i backend hc hb
        exact absurd hb (hother backend hc)
      · rfl

end Exact

/-- Pushing the filters into the construction gives the lists that building every URL and
    filtering afterwards gives. -/
theorem objects_get_urls_exact (filter : UrlFilter) (verbose : Bool) (loaded : LoadedObjects)
    {all : List (ObjectId × List (ObjectInstance × UrlPayload))}
    (hall : allUrlsByObject storage loaded.objects = .ok all) :
    objectsGetUrls storage filter verbose loaded.objects =
      .ok (urlsByObject (all.map fun (id, urls) => (id, filterUrls filter verbose urls))) := by
  have hobjects : List.Forall₂ (fun object entry => ∃ urls,
      allUrls storage object = .ok urls ∧ entry = (object.id, urls)) loaded.objects all := by
    refine (mapM_ok_iff.mp hall).imp ?_
    intro object entry hentry
    cases hurls : allUrls storage object with
    | error e =>
      rw [hurls] at hentry
      cases hentry
    | ok urls =>
      rw [hurls] at hentry
      cases hentry
      exact ⟨urls, rfl, rfl⟩
  unfold objectsGetUrls
  by_cases hnone : filter.acceptGetUrls = some []
  · rw [if_pos hnone]
    have hnothing : ∀ urls, filterUrls filter verbose urls = [] := by
      intro urls
      have hrefused : ∀ payload, payloadMatches filter.effective payload = false := by
        intro payload
        simp [payloadMatches, UrlFilter.effective, hnone]
      simp [filterUrls, hrefused, distinctBy]
    refine congrArg (fun urls => Except.ok (urlsByObject urls)) ?_
    refine map_eq_map_of_forall₂ hobjects ?_
    rintro object - entry ⟨urls, -, rfl⟩
    simp [hnothing]
  · rw [if_neg hnone]
    have hbuild : Buildable storage loaded.objects := by
      rintro ⟨object, inst⟩ hp hcontrolled backend hbackend
      obtain ⟨object', hobject, hmem⟩ := List.mem_flatMap.mp hp
      obtain ⟨inst', hinst, heq⟩ := List.mem_map.mp hmem
      cases heq
      obtain ⟨-, urls, hurls, -⟩ := exists_of_forall₂ hobjects hobject
      obtain ⟨groups, -, hgroups⟩ := instanceUrls_of_allUrls hurls
      obtain ⟨-, payloads, hpayloads, -⟩ := exists_of_forall₂ hgroups hinst
      exact build_of_instanceUrls hcontrolled hbackend hpayloads
    obtain ⟨controlled, hok, hlookup⟩ := controlledGetUrlsByObject_ok filter.effective hbuild
    dsimp only
    rw [hok]
    refine congrArg (fun urls => Except.ok (urlsByObject urls)) ?_
    refine map_eq_map_of_forall₂ hobjects ?_
    rintro object hobject entry ⟨urls, hurls, rfl⟩
    refine congrArg (Prod.mk object.id) (objectGetUrls_exact hurls ?_)
    intro inst hinst hcontrolled backend hbackend
    exact hlookup (object, inst) (List.mem_flatMap.mpr ⟨object, hobject,
      List.mem_map_of_mem hinst⟩) hcontrolled backend hbackend

def sampleStorage : ObjectStorage where
  uuidText id := if id = 2 then "archive-id" else "main-id"
  quote text _ := text
  credentials _ := none
  generatePresignedUrl backend bucket objectId :=
    .ok ("signed:" ++ backend.label ++ "/" ++ bucket ++ "/" ++ objectId)

def sampleBackend (id : BackendId) (label : String) : StorageBackend :=
  { id, label, bucketName := some "media", endpointUrl := some "http://s3/" }

def sampleUrlObject : MediaObjectRecord :=
  { MediaObjectRecord.new "clip" 0 with
    instances := [⟨some (sampleBackend 1 "main"), none, none, true, false⟩,
      ⟨some (sampleBackend 2 "archive"), none, none, true, false⟩,
      ⟨none, some "http://cdn/clip", some "archive", false, false⟩] }

/-- The URLs labelled `archive` that are not signed: one of the backend, one of its own. -/
theorem objects_get_urls_exact_archive :
    ∃ loaded : LoadedObjects, loaded.objects = [sampleUrlObject] ∧
      (objectsGetUrls sampleStorage ⟨some ["archive"], none, some false, [], []⟩ false
        loaded.objects).toOption.map (fun urls => urls.get "clip") =
      some (some ("clip",
        [.obj [("url", .str "http://s3/media/clip"), ("label", .str "archive"),
            ("presigned", .bool false)],
          .obj [("url", .str "http://cdn/clip"), ("label", .str "archive"),
            ("presigned", .bool false)]])) := by
  refine ⟨⟨[sampleUrlObject], ?_⟩, rfl, ?_⟩
  · decide
  · rw [objects_get_urls_exact sampleStorage _ _ _ rfl]
    decide

end Tamoss
