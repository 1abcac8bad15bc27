/-
  **Segment registration: what a batch of posts turns into.**

  The part of `application/contexts/segments.py` that computes on values already read from the
  database: validation of a post, the preparation of one segment with the media and init objects
  it changes, and the loop over a batch with its working set.
-/
import Tamoss.Store.Records

namespace Tamoss

/-! ## Posts and their validation -/

structure GetUrl where
  url : String
  label : Option String
  presigned : Option Bool
deriving DecidableEq

/-- A post that the contract model `FlowSegmentPost` accepts. -/
structure SegmentPost where
  objectId : ObjectId
  timerange : String
  initObjectId : Option ObjectId
  tsOffset : Option String
  lastDuration : Option String
  objectTimerange : Option String
  sampleOffset : Option Int
  sampleCount : Option Int
  keyFrameCount : Option Int
  getUrls : Option (List GetUrl)
deriving DecidableEq

/-- What a client posts: a JSON object the contract model accepts, or one it
    rejects, of which only the object ids it names are ever looked at. -/
inductive SegmentPostInput where
  | accepted (post : SegmentPost)
  | rejected (objectId initObjectId : Option ObjectId)
deriving DecidableEq

def SegmentPostInput.objectIds : SegmentPostInput → List ObjectId
  | .accepted post => post.objectId :: post.initObjectId.toList
  | .rejected objectId initObjectId => objectId.toList ++ initObjectId.toList

inductive SegmentWriteResult where
  | segment (record : SegmentRecord)
  | error (text : String)
deriving DecidableEq

def segmentOverlapMessage : String :=
  "Segment timerange overlaps with an existing segment"

def invalidSegmentJson : String := "Bad request. Invalid Flow Segment JSON."

/-- Scheme and network location.  Of the `ValueError`s of Python's function this is the one for
    brackets that do not match; its checks of an address in brackets and of characters beyond
    ASCII are left out. -/
def urlparse (url : String) : Except PyError (String × String) :=
  let chars := (url.toList.dropWhile (fun c => c.toNat ≤ 32)).filter
    (fun c => c ≠ '\t' && c ≠ '\r' && c ≠ '\n')
  let head := chars.takeWhile (· ≠ ':')
  let schemeOk := head.length < chars.length && (head.head?.any Char.isAlpha) &&
    head.all (fun c => c.isAlphanum || c = '+' || c = '-' || c = '.')
  let scheme := if schemeOk then String.ofList (head.map Char.toLower) else ""
  let rest := if schemeOk then chars.drop (head.length + 1) else chars
  match rest with
  | '/' :: '/' :: location =>
      let netloc := location.takeWhile (fun c => c ≠ '/' && c ≠ '?' && c ≠ '#')
      if netloc.contains '[' = netloc.contains ']' then .ok (scheme, String.ofList netloc)
      else .error (.valueError "Invalid IPv6 URL")
  | _ => .ok (scheme, "")

/-- `_is_http_url` -/
def isHttpUrl (url : String) : Except PyError Bool := do
  let (scheme, netloc) ← urlparse url
  return (scheme = "http" || scheme = "https") && netloc ≠ ""

def validateGetUrls (reservedLabels : List String) : List String → List GetUrl →
    Except PyError Unit
  | _, [] => .ok ()
  | labels, entry :: entries =>
      match entry.label with
      | none => .error (.valueError "get_urls entries require a label")
      | some label =>
          if label = "" then
            .error (.valueError "get_urls entries require a label")
          else if label ∈ labels ∨ label ∈ reservedLabels then
            .error (.valueError "get_urls labels must be unique and uncontrolled")
          else
            match isHttpUrl entry.url with
            | .error e => .error e
            | .ok false => .error (.valueError "get_urls entries require an HTTP URL")
            | .ok true => validateGetUrls reservedLabels (label :: labels) entries

def validateOptionalNonnegativeInt (fieldName : String) : Option Int → Except PyError Unit
  | none => .ok ()
  | some value =>
      if value < 0 then .error (.valueError (fieldName ++ " must not be negative"))
      else .ok ()

variable (mt : MediaTimestamp)

def validateTsOffset : Option String → Except PyError Unit
  | none => .ok ()
  | some tsOffset => discard (parseTimestamp mt "ts_offset" tsOffset)

def validateLastDuration (parsed : mt.TimeRange) : Option String → Except PyError Unit
  | none => .ok ()
  | some lastDuration => do
      let duration ← parseTimestamp mt "last_duration" lastDuration
      if duration < 0 then
        throw (.valueError "last_duration must not be negative")
      if mt.includesEnd parsed then
        throw (.valueError "timerange end must be exclusive when last_duration is set")

def validateObjectTimerange : Option String → Except PyError Unit
  | none => .ok ()
  | some objectTimerange => do
      let parsed ← parseTimerange mt "object_timerange" true objectTimerange
      discard (finiteNormalizedTimerangeBounds mt parsed)

def validateGetUrlsField (reservedLabels : List String) :
    Option (List GetUrl) → Except PyError Unit
  | none => .ok ()
  | some entries =>
      if entries.isEmpty then .error (.valueError "get_urls must be a non-empty array")
      else validateGetUrls reservedLabels [] entries

/-- The checks of `validate_segment_payload` that follow those on `timerange`. -/
def validateSegmentFields (reservedLabels : List String) (post : SegmentPost)
    (parsed : mt.TimeRange) : Except PyError Unit := do
  validateTsOffset mt post.tsOffset
  validateLastDuration mt parsed post.lastDuration
  validateObjectTimerange mt post.objectTimerange
  validateOptionalNonnegativeInt "sample_offset" post.sampleOffset
  validateOptionalNonnegativeInt "sample_count" post.sampleCount
  validateOptionalNonnegativeInt "key_frame_count" post.keyFrameCount
  validateGetUrlsField reservedLabels post.getUrls

def validateSegmentPayload (reservedLabels : List String) :
    SegmentPostInput → Except PyError (SegmentPost × SegmentTimerangeBounds)
  | .rejected _ _ =>
      .error (.valueError "segment payload does not match the BBC TAMS contract")
  | .accepted post => do
      let parsed ← parseTimerange mt "timerange" true post.timerange
      let bounds ← finiteNormalizedTimerangeBounds mt parsed
      if !mt.includesStart parsed then
        throw (.valueError "timerange start must be inclusive")
      validateSegmentFields mt reservedLabels post parsed
      pure (post, bounds)

/-! ## Preparing one segment -/

structure Readings where
  now : Time
  objectMetadata : ObjectId → StorageBackend → Option Nat

abbrev UploadChecks := List ((ObjectId × Time) × Option Nat)

abbrev ObjectsById := Lib.Table ObjectId MediaObjectRecord MediaObjectRecord.id

/-- `_has_controlled_instance` of `segments.py` -/
def hasControlledInstance (o : MediaObjectRecord) : Bool :=
  o.instances.any (·.controlled)

def controlledBackend (o : MediaObjectRecord) : Option StorageBackend :=
  o.instances.findSome? (fun i => if i.controlled then i.storageBackend else none)

def ensureControlledObjectAllocationMatchesFlow (o : MediaObjectRecord) (f : FlowId) :
    Except PyError Unit :=
  match o.allocatedByFlow with
  | none => .ok ()
  | some g =>
      if g ≠ f then
        .error (.badRequest ("Bad request. Allocated Object must be registered against " ++
          "the Flow that requested its storage."))
      else .ok ()

def ensureControlledObjectUploaded (uploadChecks : UploadChecks) (rd : Readings)
    (o : MediaObjectRecord) : Except PyError MediaObjectRecord :=
  let missing := PyError.badRequest "Bad request. Controlled object content is missing."
  match uploadChecks.find? (fun entry => entry.1 = (o.id, o.created)) with
  | some (_, none) => .error missing
  | some (_, some length) => .ok { o with bytesWritten := length }
  | none =>
      match controlledBackend o with
      | none => .error (.badRequest invalidSegmentJson)
      | some backend =>
          match rd.objectMetadata o.id backend with
          | none => .error missing
          | some length => .ok { o with bytesWritten := length }

def ensureFirstUse (uploadChecks : UploadChecks) (rd : Readings) (f : FlowId)
    (o : MediaObjectRecord) : Except PyError MediaObjectRecord :=
  if hasControlledInstance o && o.referencedByFlows.isEmpty then do
    ensureControlledObjectAllocationMatchesFlow o f
    ensureControlledObjectUploaded uploadChecks rd o
  else
    .ok o

def ensureSegmentTimerangeIsAvailable (known : List mt.TimeRange) (timerange : String) :
    Except PyError mt.TimeRange := do
  let candidate ← parseTimerange mt "timerange" true timerange
  if known.any (fun existing => !mt.isEmpty (mt.intersectWith candidate existing)) then
    throw (.badRequest segmentOverlapMessage)
  pure candidate

def loadMediaObject (uploadChecks : UploadChecks) (rd : Readings) (f : FlowId)
    (objects : ObjectsById) (post : SegmentPost) :
    Except PyError (MediaObjectRecord × Bool) :=
  match objects.get post.objectId with
  | none =>
      if post.getUrls.all (·.isEmpty) then
        .error (.badRequest ("Object must be allocated by this service or registered " ++
          "with get_urls."))
      else
        .ok (MediaObjectRecord.new post.objectId rd.now, false)
  | some o => do
      if o.objectKind = .init then
        throw (.badRequest "Bad request. Init Objects cannot be used as media.")
      let existing := !o.referencedByFlows.isEmpty
      let o ← ensureFirstUse uploadChecks rd f o
      if existing then
        if post.objectTimerange.isSome then
          throw (.badRequest invalidSegmentJson)
        if post.keyFrameCount.isSome && post.keyFrameCount ≠ o.keyFrameCount then
          throw (.badRequest invalidSegmentJson)
      pure (o, existing)

def matchContentType (flow : FlowRecord) (o : MediaObjectRecord) :
    Except PyError MediaObjectRecord :=
  if o.contentType.isNone then
    .ok { o with contentType := flow.container }
  else if o.contentType ≠ flow.container then
    .error (.badRequest ("Bad request. Media Object content type must match the " ++
      "Flow container."))
  else
    .ok o

def pyOr (a b : Option String) : Option String :=
  if a = none ∨ a = some "" then b else a

def resolveInitObject (uploadChecks : UploadChecks) (rd : Readings) (flow : FlowRecord)
    (objects : ObjectsById) (locked : List ObjectId) (post : SegmentPost)
    (media : MediaObjectRecord) (existing : Bool) :
    Except PyError (MediaObjectRecord × Option MediaObjectRecord) :=
  if flow.initSegments then
    match pyOr post.initObjectId media.initObjectId with
    | none => .error (.badRequest "Bad request. init_object_id is required for this Flow.")
    | some resolved =>
        if (existing || media.initObjectId.isSome) && media.initObjectId ≠ some resolved then
          .error (.badRequest ("Bad request. Media Object already references a different " ++
            "init Object."))
        else if resolved ∉ locked then
          .error (.badRequest "Bad request. init_object_id is required for this Flow.")
        else
          match objects.get resolved with
          | none => .error (.badRequest ("Init Object must be allocated by this service " ++
              "before registration."))
          | some init =>
              if init.objectKind = .media ∨ init.timerange.isSome then
                .error (.badRequest ("Bad request. Media Objects cannot be used as init " ++
                  "Objects."))
              else do
                let init ← ensureFirstUse uploadChecks rd flow.id init
                pure ({ media with initObjectId := some resolved }, some init)
  else if post.initObjectId.isSome || media.initObjectId.isSome then
    .error (.badRequest "Bad request. init_object_id is not valid for this Flow.")
  else
    .ok (media, none)

def validateUncontrolledInstanceAppend (instances : List ObjectInstance)
    (url : String) (label : Option String) (presigned : Bool) : Except PyError Unit :=
  match instances.find? (fun i => !i.controlled && i.label = label) with
  | none => .ok ()
  | some i =>
      if i.url = some url ∧ i.presigned = presigned then .ok ()
      else .error (.valueError "conflicting object instance label")

def appendUncontrolledInstance (o : MediaObjectRecord) (url : String)
    (label : Option String) (presigned : Bool) : Except PyError MediaObjectRecord := do
  validateUncontrolledInstanceAppend o.instances url label presigned
  if o.instances.any (fun i => !i.controlled && i.label = label && i.url = some url &&
      i.presigned = presigned) then
    pure o
  else
    pure { o with instances := o.instances ++
      [{ storageBackend := none, url := some url, label, controlled := false, presigned }] }

/-- The check of every `get_urls` entry against the instances stored. -/
def validateAppends (o : MediaObjectRecord) : List GetUrl → Except PyError Unit
  | [] => .ok ()
  | entry :: entries =>
      match validateUncontrolledInstanceAppend o.instances entry.url entry.label
          (entry.presigned.getD false) with
      | .error _ => .error (.badRequest invalidSegmentJson)
      | .ok () => validateAppends o entries

def appendGetUrls (o : MediaObjectRecord) (entries : List GetUrl) :
    Except PyError MediaObjectRecord :=
  entries.foldlM (fun o entry =>
    appendUncontrolledInstance o entry.url entry.label (entry.presigned.getD false)) o

/-- `object_timerange_from_segment_fields` of `domain/segments.py` -/
def objectTimerangeFromSegmentFields (timerange : String) (tsOffset : Option String)
    (objectTimerange : Option String) : Except PyError String := do
  if let some value := objectTimerange then
    if value ≠ "" then
      return value
  if tsOffset = none ∨ tsOffset = some "" then
    return timerange
  let offset ← parseTimestamp mt "ts_offset" (tsOffset.getD "")
  let parsed ← parseTimerange mt "timerange" false timerange
  match mt.start parsed, mt.stop parsed with
  | some start, some stop =>
      pure (mt.str (mt.make (mt.timestampSub start offset) (mt.timestampSub stop offset)
        (mt.includesStart parsed) (mt.includesEnd parsed)))
  | _, _ => pure timerange

def effectiveObjectTimerange (post : SegmentPost) (media : MediaObjectRecord)
    (existing : Bool) : Except PyError String := do
  let effective ← objectTimerangeFromSegmentFields mt post.timerange post.tsOffset
    (if existing then media.timerange else post.objectTimerange)
  let segment ← objectTimerangeFromSegmentFields mt post.timerange post.tsOffset none
  let outer ← parseTimerange mt "timerange" false effective
  let inner ← parseTimerange mt "timerange" false segment
  if !mt.containsSubrange outer inner then
    throw (.badRequest ("Bad request. Segment timerange must be contained within the " ++
      "Object timerange after applying ts_offset."))
  pure effective

def referencedBy (f : FlowId) (kind : ObjectKind) (o : MediaObjectRecord) :
    MediaObjectRecord :=
  { (o.addReference f) with
    firstReferencedByFlow := o.firstReferencedByFlow.or (some f)
    allocatedByFlow := none
    objectKind := kind }

def registeredMedia (f : FlowId) (post : SegmentPost) (effective : String)
    (existing : Bool) (media : MediaObjectRecord) : Except PyError MediaObjectRecord := do
  let media := referencedBy f .media media
  let media ← if existing then pure media else do
    let timerange ← timerangeUnionStrings mt [media.timerange, some effective]
    pure { media with
      timerange
      keyFrameCount := post.keyFrameCount.or media.keyFrameCount }
  appendGetUrls media (post.getUrls.getD [])

def segmentOfPost (f : FlowId) (post : SegmentPost) (initObjectId : Option ObjectId)
    (effective : String) (now : Time) : SegmentRecord where
  flowId := f
  objectId := post.objectId
  timerange := post.timerange
  initObjectId := initObjectId
  tsOffset := post.tsOffset
  lastDuration := post.lastDuration
  objectTimerange := if effective ≠ post.timerange then some effective else none
  sampleOffset := post.sampleOffset
  sampleCount := post.sampleCount
  keyFrameCount := post.keyFrameCount
  created := now

/-- What preparing a post yields: the segment, the objects it changes and the parsed range. -/
structure Prepared where
  segment : SegmentRecord
  objects : List MediaObjectRecord
  range : mt.TimeRange

def prepareSegmentRegistrationOrRaise (flow : FlowRecord) (locked : List ObjectId)
    (uploadChecks : UploadChecks) (rd : Readings) (known : List mt.TimeRange)
    (objects : ObjectsById) (post : SegmentPost) : Except PyError (Prepared mt) := do
  let range ← ensureSegmentTimerangeIsAvailable mt known post.timerange
  if post.initObjectId = some post.objectId then
    throw (.badRequest invalidSegmentJson)
  let (media, existing) ← loadMediaObject uploadChecks rd flow.id objects post
  let media ← matchContentType flow media
  let (media, init) ←
    resolveInitObject uploadChecks rd flow objects locked post media existing
  validateAppends media (post.getUrls.getD [])
  let effective ← effectiveObjectTimerange mt post media existing
  let registered ← registeredMedia mt flow.id post effective existing media
  let inits := init.toList.map fun o =>
    { (referencedBy flow.id .init o) with timerange := none }
  pure ⟨segmentOfPost flow.id post (init.map (·.id)) effective rd.now,
    registered :: inits, range⟩

/-! ## The loop over a batch -/

structure WorkingSet where
  known : List mt.TimeRange
  objects : ObjectsById
  updated : ObjectsById
  accepted : List SegmentRecord

def WorkingSet.accept {mt : MediaTimestamp} (ws : WorkingSet mt) (p : Prepared mt) :
    WorkingSet mt where
  known := ws.known ++ [p.range]
  objects := p.objects.foldl Lib.Table.upsert ws.objects
  updated := p.objects.foldl Lib.Table.upsert ws.updated
  accepted := ws.accepted ++ [p.segment]

/-- One post of the batch: only `BadRequest` is turned into a result. -/
def registerPost (flow : FlowRecord) (locked : List ObjectId) (uploadChecks : UploadChecks)
    (rd : Readings) (ws : WorkingSet mt) (post : SegmentPost) :
    Except PyError (WorkingSet mt × SegmentWriteResult) :=
  match prepareSegmentRegistrationOrRaise mt flow locked uploadChecks rd
      ws.known ws.objects post with
  | .ok p => .ok (ws.accept p, .segment p.segment)
  | .error (.badRequest detail) => .ok (ws, .error detail)
  | .error e => .error e

/-- The validated posts of a batch, in order: `none` for an invalid one. -/
def registerPosts (flow : FlowRecord) (locked : List ObjectId) (uploadChecks : UploadChecks)
    (readings : Nat → Readings) : Nat → WorkingSet mt → List (Option SegmentPost) →
    Except PyError (WorkingSet mt × List SegmentWriteResult)
  | _, ws, [] => .ok (ws, [])
  | i, ws, none :: posts => do
      let (ws, results) ← registerPosts flow locked uploadChecks readings (i + 1) ws posts
      pure (ws, .error invalidSegmentJson :: results)
  | i, ws, some post :: posts => do
      let (ws, result) ← registerPost mt flow locked uploadChecks (readings i) ws post
      let (ws, results) ← registerPosts flow locked uploadChecks readings (i + 1) ws posts
      pure (ws, result :: results)

end Tamoss
