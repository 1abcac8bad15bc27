/-
  **The webhook resource, publication and delivery.**

  The webhook resource of `application/contexts/webhooks.py` and the publication of events of
  `application/webhooks.py`.
-/
import Tamoss.Lib.Json
import Tamoss.Lib.Table
import Tamoss.Lib.Workers

namespace Tamoss.WebhookWrites

open Lib

/-! ## Records -/

abbrev WebhookId := Nat

inductive WebhookStatus where
  | created
  | started
  | disabled
  | error
deriving DecidableEq

def WebhookStatus.ofJson : Option Json → Option WebhookStatus
  | some (.str "created") => some .created
  | some (.str "started") => some .started
  | some (.str "disabled") => some .disabled
  | some (.str "error") => some .error
  | _ => none

def WebhookStatus.text : WebhookStatus → String
  | .created => "created"
  | .started => "started"
  | .disabled => "disabled"
  | .error => "error"

structure WebhookRecord where
  id : WebhookId
  data : Members
  status : WebhookStatus
  tags : Members
deriving DecidableEq

def settings (data : Members) : Members := data.erase "error"

inductive DeliveryStatus where
  | pending
  | started
  | done
  | dead
deriving DecidableEq

structure WebhookDeliveryRecord where
  webhookId : WebhookId
  webhookSnapshot : Members
  eventType : String
  status : DeliveryStatus
  attemptCount : Nat
  nextAttemptAt : Option Nat
  responseStatus : Option Nat
  error : Option Json
deriving DecidableEq

/-- `data.get(key)`: a member that is `null` reads as a missing one -/
def present (data : Members) (key : String) : Option Json :=
  match data.get key with
  | some .null => none
  | value => value

/-- The texts of Python that the code builds on. -/
structure Texts where
  str : Json → String
  /-- `UUID(text)`, `none` for a `ValueError` -/
  uuid : String → Option WebhookId
  /-- `text.strip()` and `text.lower()` -/
  strip : String → String
  lower : String → String
  /-- `utc_now().isoformat()` -/
  isoformat : Nat → String

structure Settings where
  webhookMaxAttempts : Nat

inductive WebhookError where
  | badRequest (message : String)
  | notFound (message : String)
  | valueError
  | keyError
  | workerClaimLost
  | other
deriving DecidableEq

/-- What becomes of sending a delivery. -/
inductive SendResult where
  | response (status : Nat) (reason : String)
  | webhookEgressError (summary : String)
  | requestException (type summary : String)
  | raised
deriving DecidableEq

/-! ## Calls -/

inductive Writer where
  | put
  | publication
  | failure
deriving DecidableEq

inductive Call where
  | utcNow
  | listWebhooks
  | getWebhook (id : WebhookId)
  /-- `save_webhook` of a record with a new `uuid4()` -/
  | createWebhook (data : Members) (status : WebhookStatus) (tags : Members)
  | saveWebhook (writer : Writer) (copy : WebhookRecord) (webhook : WebhookRecord)
  | deleteWebhook (id : WebhookId)
  | validateWebhookUrl (url : String)
  | sendWebhookDelivery (webhook : Members)
  | saveWebhookDelivery (delivery : WebhookDeliveryRecord)
deriving DecidableEq

def Call.Resp : Call → Type
  | .utcNow => Nat
  | .listWebhooks => List WebhookRecord
  | .getWebhook _ => Option WebhookRecord
  | .createWebhook .. => WebhookId
  | .saveWebhook .. => Unit
  | .deleteWebhook _ => Unit
  | .validateWebhookUrl _ => Option String
  | .sendWebhookDelivery _ => SendResult
  | .saveWebhookDelivery _ => Bool

abbrev App := ExceptT WebhookError (Prog Call Call.Resp)

def call (c : Call) : App c.Resp := ExceptT.lift (Prog.perform c)

/-! ## The resource -/

section Code

variable (txt : Texts) (cfg : Settings)

def listOfStrings : Option Json → List String
  | some (.arr items) => items.map txt.str
  | _ => []

def optionalListOfStrings : Option Json → Option (List String)
  | some (.arr items) => some (items.map txt.str)
  | _ => none

def validWebhookEvents : List String :=
  ["flows/created", "flows/updated", "flows/deleted", "flows/segments_added",
    "flows/segments_deleted", "sources/created", "sources/updated", "sources/deleted"]

def reservedWebhookHeaders : List String :=
  ["connection", "content-length", "content-type", "host", "keep-alive", "proxy-authenticate",
    "proxy-authorization", "te", "trailer", "transfer-encoding", "upgrade"]

def httpFieldName (text : String) : Bool :=
  text ≠ "" && text.toList.all fun c => c.isAlphanum || c ∈ "!#$%&'*+-.^_`|~".toList

def validateApiKeyHeaderName : Option Json → Except WebhookError Unit
  | none => .ok ()
  | some value =>
      let headerName := txt.str value
      if headerName = "" ∨ txt.strip headerName ≠ headerName ∨ ¬ httpFieldName headerName ∨
          txt.lower headerName ∈ reservedWebhookHeaders then .error .valueError
      else .ok ()

def validateEvents : Option Json → Except WebhookError Unit
  | some (.arr items) =>
      if (items.map txt.str).any (· ∉ validWebhookEvents) then .error .valueError else .ok ()
  | _ => .error .valueError

/-- `validate_webhook_configuration`; the two callers answer its `ValueError` alike -/
def validateWebhookConfiguration (data : Members) : App Unit := do
  let url := ((present data "url").map txt.str).getD ""
  let refused : Option String ← call (.validateWebhookUrl url)
  if refused.isSome then
    throw (.badRequest "Bad request. Invalid webhook payload.")
  match validateApiKeyHeaderName txt (present data "api_key_name"),
      validateEvents txt (present data "events") with
  | .ok (), .ok () => pure ()
  | _, _ => throw (.badRequest "Bad request. Invalid webhook payload.")

def requestTags (webhook : Members) : Members := ((webhook.get "tags").map Json.members).getD []

def createWebhook (webhook : Members) : App Unit := do
  validateWebhookConfiguration txt webhook
  let status := (WebhookStatus.ofJson (webhook.get "status")).getD .created
  let data := ((webhook.erase "status").erase "tags").erase "error"
  let _ ← call (.createWebhook data status (requestTags webhook))

def getWebhook (webhookId : WebhookId) : App WebhookRecord := do
  match ← call (.getWebhook webhookId) with
  | none => throw (.notFound "The requested Webhook ID in the path is invalid.")
  | some webhook => pure webhook

def putWebhook (webhookId : WebhookId) (webhook : Members) : App Unit := do
  match txt.uuid (((webhook.get "id").map txt.str).getD "None") with
  | none => throw .valueError
  | some id =>
    if id ≠ webhookId then
      throw (.notFound "The requested Webhook ID in the path is invalid.")
    let existing ← getWebhook webhookId
    if existing.status = .error ∧ WebhookStatus.ofJson (webhook.get "status") = some .disabled then
      throw (.badRequest ("Bad request. The Webhook is currently in an error status and " ++
        "therefore cannot be updated to disabled."))
    validateWebhookConfiguration txt webhook
    match WebhookStatus.ofJson (webhook.get "status") with
    | none => throw .keyError
    | some status =>
        let data := (((webhook.erase "id").erase "status").erase "tags").erase "error"
        call (.saveWebhook .put existing ⟨webhookId, data, status, requestTags webhook⟩)

def deleteWebhook (webhookId : WebhookId) : App Unit := do
  let _ ← getWebhook webhookId
  call (.deleteWebhook webhookId)

/-! ## Publication -/

structure Event where
  eventType : String
  flowIds : List String
  sourceIds : List String
  flowCollectedByIds : List String
  sourceCollectedByIds : List String
deriving DecidableEq

def selectorMatches (candidates required : List String) : Bool :=
  required.isEmpty || (!candidates.isEmpty && required.any (· ∈ candidates))

def collectionSelectorMatches (candidates : List String) : Option (List String) → Bool
  | none => true
  | some [] => candidates.isEmpty
  | some required => !candidates.isEmpty && required.any (· ∈ candidates)

def webhookMatches (data : Members) (event : Event) : Bool :=
  event.eventType ∈ listOfStrings txt (data.get "events") &&
    (!("flows/".toList.isPrefixOf event.eventType.toList) ||
      selectorMatches event.flowIds (listOfStrings txt (data.get "flow_ids"))) &&
    selectorMatches event.sourceIds (listOfStrings txt (data.get "source_ids")) &&
    (!("flows/".toList.isPrefixOf event.eventType.toList) ||
      collectionSelectorMatches event.flowCollectedByIds
        (optionalListOfStrings txt (data.get "flow_collected_by_ids"))) &&
    collectionSelectorMatches event.sourceCollectedByIds
      (optionalListOfStrings txt (data.get "source_collected_by_ids"))

def activeWebhooksForEvent (eventType : String) : App (List WebhookRecord) := do
  let webhooks : List WebhookRecord ← call .listWebhooks
  return webhooks.filter fun webhook =>
    (webhook.status = .created || webhook.status = .started) &&
      eventType ∈ listOfStrings txt (webhook.data.get "events")

def truthy : Option Json → Bool
  | none => false
  | some .null => false
  | some (.str "") => false
  | some _ => true

def webhookDeliverySnapshot (data : Members) (status : WebhookStatus) : Members :=
  let ref := if truthy (data.get "api_key_name") && truthy (data.get "api_key_value") then
    .str "webhook.api_key_value" else .null
  let copied (key : String) : String × Json := (key, (data.get key).getD .null)
  [copied "url", copied "api_key_name", ("api_key_value_ref", ref), copied "accept_get_urls",
    copied "accept_storage_ids", copied "presigned", copied "verbose_storage",
    ("status", .str status.text)]

def publishTo (event : Event) (eventTimestamp : Nat) (webhook : WebhookRecord) : App Unit := do
  if webhookMatches txt webhook.data event then
    let published : WebhookRecord :=
      if webhook.status = .created then { webhook with status := .started } else webhook
    if webhook.status = .created then
      call (.saveWebhook .publication webhook published)
    let _ ← call (.saveWebhookDelivery {
      webhookId := webhook.id
      webhookSnapshot := webhookDeliverySnapshot webhook.data published.status
      eventType := event.eventType
      status := .pending
      attemptCount := 0
      nextAttemptAt := some eventTimestamp
      responseStatus := none
      error := none })

def publishWebhookEvent (event : Event) : App Unit := do
  let webhooks ← activeWebhooksForEvent txt event.eventType
  let eventTimestamp : Nat ← call .utcNow
  webhooks.forM (publishTo txt event eventTimestamp)

/-! ## Deliveries -/

def webhookForDelivery (snapshot live : Members) : Members :=
  let webhook := snapshot.erase "api_key_value_ref"
  if snapshot.get "api_key_value_ref" = some (.str "webhook.api_key_value") then
    webhook.set "api_key_value" ((live.get "api_key_value").getD .null)
  else webhook

def domainError (errorType summary : String) (now : Nat) : Json :=
  .obj [("type", .str errorType), ("summary", .str summary), ("time", .str (txt.isoformat now))]

def saveWebhookDelivery (delivery : WebhookDeliveryRecord) : App Unit := do
  let claimed : Bool ← call (.saveWebhookDelivery delivery)
  if claimed = false then
    throw .workerClaimLost

def markWebhookDeliveryDead (delivery : WebhookDeliveryRecord) (responseStatus : Option Nat)
    (errorType errorSummary : String) (markWebhookError : Bool := true) : App Unit := do
  let now : Nat ← call .utcNow
  let error := domainError txt errorType errorSummary now
  saveWebhookDelivery { delivery with
    status := .dead, responseStatus := responseStatus, error := some error, nextAttemptAt := none }
  if markWebhookError then
    match ← call (.getWebhook delivery.webhookId) with
    | none => pure ()
    | some webhook =>
        call (.saveWebhook .failure webhook { webhook with
          status := .error, data := webhook.data.set "error" error })

def retryDelay (attemptCount : Nat) : Nat :=
  [30, 60, 120, 300].getD (attemptCount - 1) 300

def markWebhookDeliveryRetry (delivery : WebhookDeliveryRecord) (responseStatus : Option Nat)
    (errorType errorSummary : String) : App Unit := do
  let now : Nat ← call .utcNow
  saveWebhookDelivery { delivery with
    status := .pending
    responseStatus := responseStatus
    error := some (domainError txt errorType errorSummary now)
    nextAttemptAt := some (now + retryDelay delivery.attemptCount) }

def retriableStatusCodes : List Nat := [401, 403, 408, 429, 500, 502, 503, 504]

def handleSendResult (delivery : WebhookDeliveryRecord) : SendResult → App Unit
  | .response status reason =>
      if 200 ≤ status ∧ status < 300 then
        saveWebhookDelivery { delivery with
          status := .done, responseStatus := some status, nextAttemptAt := none, error := none }
      else
        let summary := "HTTP " ++ toString status ++ ": " ++ reason
        if status ∈ retriableStatusCodes ∧ delivery.attemptCount < cfg.webhookMaxAttempts then
          markWebhookDeliveryRetry txt delivery (some status) "HTTPError" summary
        else
          markWebhookDeliveryDead txt delivery (some status) "HTTPError" summary
  | .webhookEgressError summary =>
      markWebhookDeliveryDead txt delivery none "WebhookTargetBlocked" summary
  | .requestException type summary =>
      if delivery.attemptCount < cfg.webhookMaxAttempts then
        markWebhookDeliveryRetry txt delivery none type summary
      else
        markWebhookDeliveryDead txt delivery none type summary
  | .raised => throw .other

def processClaimedDelivery (delivery : WebhookDeliveryRecord) : App Unit := do
  if delivery.status ≠ .pending ∧ delivery.status ≠ .started then
    return
  match ← call (.getWebhook delivery.webhookId) with
  | none =>
      markWebhookDeliveryDead txt delivery none "WebhookNotFound" "Webhook no longer exists" false
  | some liveWebhook =>
    if liveWebhook.status ≠ .created ∧ liveWebhook.status ≠ .started then
      markWebhookDeliveryDead txt delivery none "WebhookDisabled"
        "Webhook is no longer active for delivery" false
    else
      let delivery := { delivery with
        status := .started, attemptCount := delivery.attemptCount + 1 }
      saveWebhookDelivery delivery
      let deliveryWebhook := webhookForDelivery delivery.webhookSnapshot liveWebhook.data
      let url := ((present deliveryWebhook "url").map txt.str).getD ""
      match ← call (.validateWebhookUrl url) with
      | some summary =>
          markWebhookDeliveryDead txt delivery none "WebhookTargetBlocked" summary
      | none => do
          let result ← call (.sendWebhookDelivery deliveryWebhook)
          handleSendResult txt cfg delivery result

/-! ## The service -/

inductive ClientWrite where
  | created (id : WebhookId)
  | put (id : WebhookId) (settings : Members)
  | deleted (id : WebhookId)
deriving DecidableEq

structure World where
  webhooks : Table WebhookId WebhookRecord WebhookRecord.id
  issued : List WebhookId
  written : List ClientWrite

/-- The answers of the environment: the clock, `uuid4()`, the check of a URL, the receiver, and
    whether a claim stands. -/
structure Choice where
  now : Nat
  uuid : WebhookId
  refused : Option String
  sent : SendResult
  claimed : Bool

def Writer.noted (writer : Writer) (webhook : WebhookRecord) (written : List ClientWrite) :
    List ClientWrite :=
  match writer with
  | .put => .put webhook.id (settings webhook.data) :: written
  | .publication => written
  | .failure => written

def perform (ch : Choice) : (c : Call) → World → Option (c.Resp × World)
  | .utcNow, w => some (ch.now, w)
  | .listWebhooks, w => some (w.webhooks.rows, w)
  | .getWebhook id, w => some (w.webhooks.get id, w)
  | .createWebhook data status tags, w =>
      if ch.uuid ∈ w.issued then none
      else some (ch.uuid, {
        webhooks := w.webhooks.upsert ⟨ch.uuid, data, status, tags⟩
        issued := ch.uuid :: w.issued
        written := .created ch.uuid :: w.written })
  | .saveWebhook writer _ webhook, w =>
      some ((), { w with
        webhooks := w.webhooks.upsert webhook, written := writer.noted webhook w.written })
  | .deleteWebhook id, w =>
      some ((), { w with webhooks := w.webhooks.erase id, written := .deleted id :: w.written })
  | .validateWebhookUrl _, w => some (ch.refused, w)
  | .sendWebhookDelivery _, w => some (ch.sent, w)
  | .saveWebhookDelivery _, w => some (ch.claimed, w)

inductive Op where
  | createWebhook (webhook : Members)
  | putWebhook (webhookId : WebhookId) (webhook : Members)
  | deleteWebhook (webhookId : WebhookId)
  | publishWebhookEvent (event : Event)
  | processDelivery (delivery : WebhookDeliveryRecord)

def operation : Op → App Unit
  | .createWebhook webhook => createWebhook txt webhook
  | .putWebhook webhookId webhook => putWebhook txt webhookId webhook
  | .deleteWebhook webhookId => deleteWebhook webhookId
  | .publishWebhookEvent event => publishWebhookEvent txt event
  | .processDelivery delivery => processClaimedDelivery txt cfg delivery

def webhookService : Service Call Call.Resp where
  Op := Op
  World := World
  Request := Unit
  Choice := Choice
  program op := (ExceptT.run (operation txt cfg op)).bind fun _ => .pure ()
  claim _ := none
  perform := perform

instance : DecidableEq (webhookService txt cfg).Request := inferInstanceAs (DecidableEq Unit)

end Code

end Tamoss.WebhookWrites
