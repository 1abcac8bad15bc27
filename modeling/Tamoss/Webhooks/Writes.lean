/-
  **Whose write of a webhook stands.**
-/
import Tamoss.Webhooks.Subscriptions

namespace Tamoss.WebhookWrites

open Lib Lib.Account
open Machine (Always)

def webhookAccount : Account Call Call.Resp Unit where
  note _ _ _ := ()
  Req
    | .saveWebhook writer copy webhook, _ =>
        webhook.id = copy.id ∧ (writer ≠ .put → settings webhook.data = settings copy.data)
    | _, _ => True
  Given
    | .getWebhook id, answer, _ => ∀ webhook, answer = some webhook → webhook.id = id
    | _, _, _ => True

@[simp] theorem settings_set_error (data : Members) (error : Json) :
    settings (data.set "error" error) = settings data := by
  simp [settings]

section Walk

variable {txt : Texts} {cfg : Settings} {A : Unit → Prop}

theorem validateWebhookConfiguration_minds (data : Members) :
    webhookAccount.Minds A (validateWebhookConfiguration txt data) Always Always := by
  apply Minds.ask fun _ _ => trivial
  intro refused
  apply Minds.throwIf fun _ _ => trivial
  intro _
  split
  · exact Minds.pure fun _ _ => trivial
  · exact Minds.throw fun _ _ => trivial

theorem getWebhook_minds (webhookId : WebhookId) :
    webhookAccount.Minds A (getWebhook webhookId) (fun webhook _ => webhook.id = webhookId)
      Always := by
  apply Minds.bind (Q := fun answer _ => ∀ webhook, answer = some webhook →
    webhook.id = webhookId)
  · exact Minds.call (fun _ _ => trivial) fun _ _ _ hgiven => hgiven
  · intro answer
    cases answer with
    | none => exact Minds.throw fun _ _ => trivial
    | some webhook => exact Minds.pure fun _ h => h webhook rfl

theorem createWebhook_minds (webhook : Members) :
    webhookAccount.Minds A (createWebhook txt webhook) Always Always := by
  apply Minds.bind (validateWebhookConfiguration_minds webhook)
  intro _
  apply Minds.ask fun _ _ => trivial
  intro _
  exact Minds.pure fun _ _ => trivial

theorem putWebhook_minds (webhookId : WebhookId) (webhook : Members) :
    webhookAccount.Minds A (putWebhook txt webhookId webhook) Always Always := by
  unfold putWebhook
  split
  · exact Minds.throw fun _ _ => trivial
  apply Minds.throwIf fun _ _ => trivial
  intro _
  apply Minds.bind (getWebhook_minds webhookId)
  intro existing
  apply Minds.throwIf fun _ _ => trivial
  intro _
  apply Minds.assume (fun _ h => h)
  intro hid
  apply Minds.bind (validateWebhookConfiguration_minds webhook)
  intro _
  split
  · exact Minds.throw fun _ _ => trivial
  · apply Minds.call
    · intro _ _
      exact ⟨hid.symm, fun h => absurd rfl h⟩
    · intro _ _ _ _
      trivial

theorem deleteWebhook_minds (webhookId : WebhookId) :
    webhookAccount.Minds A (deleteWebhook webhookId) Always Always := by
  apply Minds.bind (getWebhook_minds webhookId)
  intro _
  exact Minds.call (fun _ _ => trivial) fun _ _ _ _ => trivial

theorem publishTo_minds (event : Event) (now : Nat) (webhook : WebhookRecord) :
    webhookAccount.Minds A (publishTo txt event now webhook) Always Always := by
  have hdelivery : ∀ (A' : Unit → Prop) (delivery : WebhookDeliveryRecord),
      webhookAccount.Minds A' (do let _ ← call (.saveWebhookDelivery delivery))
        Always Always := by
    intro A' delivery
    apply Minds.ask fun _ _ => trivial
    intro _
    exact Minds.pure fun _ _ => trivial
  unfold publishTo
  apply Minds.ite
  · intro _
    dsimp only
    apply Minds.ite
    · intro hcreated
      apply Minds.bind (Q := Always)
      · apply Minds.call
        · intro _ _
          rw [if_pos hcreated]
          exact ⟨rfl, fun _ => rfl⟩
        · intro _ _ _ _
          trivial
      · intro _
        exact hdelivery _ _
    · intro _
      exact hdelivery _ _
  · intro _
    exact Minds.pure fun _ _ => trivial

theorem publishWebhookEvent_minds (event : Event) :
    webhookAccount.Minds (fun _ => True) (publishWebhookEvent txt event) Always Always := by
  have hactive : webhookAccount.Minds (fun _ => True) (activeWebhooksForEvent txt event.eventType)
      Always Always := by
    apply Minds.ask fun _ _ => trivial
    intro _
    exact Minds.pure fun _ _ => trivial
  apply Minds.bind hactive
  intro webhooks
  apply Minds.ask fun _ _ => trivial
  intro now
  apply Minds.forM
  intro webhook _
  exact publishTo_minds event now webhook

theorem saveWebhookDelivery_minds (delivery : WebhookDeliveryRecord) :
    webhookAccount.Minds A (saveWebhookDelivery delivery) Always Always := by
  apply Minds.ask fun _ _ => trivial
  intro (claimed : Bool)
  apply Minds.ite
  · intro _
    exact Minds.throw fun _ _ => trivial
  · intro _
    exact Minds.pure fun _ _ => trivial

theorem markWebhookDeliveryDead_minds (delivery : WebhookDeliveryRecord)
    (responseStatus : Option Nat) (errorType errorSummary : String) (markWebhookError : Bool) :
    webhookAccount.Minds A
      (markWebhookDeliveryDead txt delivery responseStatus errorType errorSummary markWebhookError)
      Always Always := by
  apply Minds.ask fun _ _ => trivial
  intro now
  apply Minds.bind (saveWebhookDelivery_minds _)
  intro _
  apply Minds.ite
  · intro _
    apply Minds.ask fun _ _ => trivial
    intro answer
    cases answer with
    | none => exact Minds.pure fun _ _ => trivial
    | some webhook =>
      apply Minds.call
      · intro _ _
        exact ⟨rfl, fun _ => settings_set_error webhook.data _⟩
      · intro _ _ _ _
        trivial
  · intro _
    exact Minds.pure fun _ _ => trivial

theorem markWebhookDeliveryRetry_minds (delivery : WebhookDeliveryRecord)
    (responseStatus : Option Nat) (errorType errorSummary : String) : webhookAccount.Minds A
      (markWebhookDeliveryRetry txt delivery responseStatus errorType errorSummary)
      Always Always := by
  apply Minds.ask fun _ _ => trivial
  intro now
  exact saveWebhookDelivery_minds _

theorem handleSendResult_minds (delivery : WebhookDeliveryRecord) (result : SendResult) :
    webhookAccount.Minds A (handleSendResult txt cfg delivery result) Always Always := by
  cases result with
  | response status reason =>
    apply Minds.ite
    · intro _
      exact saveWebhookDelivery_minds _
    · intro _
      apply Minds.ite
      · intro _
        apply markWebhookDeliveryRetry_minds
      · intro _
        apply markWebhookDeliveryDead_minds
  | webhookEgressError summary => apply markWebhookDeliveryDead_minds
  | requestException type summary =>
    apply Minds.ite
    · intro _
      apply markWebhookDeliveryRetry_minds
    · intro _
      apply markWebhookDeliveryDead_minds
  | raised => exact Minds.throw fun _ _ => trivial

theorem processClaimedDelivery_minds (delivery : WebhookDeliveryRecord) :
    webhookAccount.Minds A (processClaimedDelivery txt cfg delivery) Always Always := by
  apply Minds.ite
  · intro _
    exact Minds.pure fun _ _ => trivial
  intro _
  apply Minds.ask fun _ _ => trivial
  intro answer
  cases answer with
  | none => apply markWebhookDeliveryDead_minds
  | some liveWebhook =>
    apply Minds.ite
    · intro _
      apply markWebhookDeliveryDead_minds
    intro _
    apply Minds.bind (saveWebhookDelivery_minds _)
    intro _
    apply Minds.ask fun _ _ => trivial
    intro refused
    cases refused with
    | some summary => apply markWebhookDeliveryDead_minds
    | none =>
      apply Minds.ask fun _ _ => trivial
      intro result
      exact handleSendResult_minds _ result

theorem program_minds (op : Op) :
    ((webhookService txt cfg).program op).Minds webhookAccount Always () := by
  have h : webhookAccount.Minds (fun _ => True) (operation txt cfg op) Always
      Always := by
    cases op with
    | createWebhook webhook => exact createWebhook_minds webhook
    | putWebhook webhookId webhook => exact putWebhook_minds webhookId webhook
    | deleteWebhook webhookId => exact deleteWebhook_minds webhookId
    | publishWebhookEvent event => exact publishWebhookEvent_minds event
    | processDelivery delivery => exact processClaimedDelivery_minds delivery
  apply Prog.Minds.bind
  exact (h () trivial).mono fun _ _ _ => trivial

end Walk

/-- `x` is in the log, which has the newest entry first, and no entry after it satisfies
    `undone`. -/
def Since {α : Type} (undone : α → Prop) (x : α) : List α → Prop
  | [] => False
  | e :: log => e = x ∨ (¬ undone e ∧ Since undone x log)

def ClientWrite.Replaces (id : WebhookId) : ClientWrite → Prop
  | .created _ => False
  | .put id' _ => id' = id
  | .deleted id' => id' = id

/-- A webhook that was deleted is gone unless it was created since.  A webhook that was put has
    the settings it was given, unless it was put again or deleted since. -/
structure WritesStand (w : World) : Prop where
  deleted : ∀ id, Since (· = .created id) (.deleted id) w.written → w.webhooks.get id = none
  put : ∀ id data, Since (ClientWrite.Replaces id) (.put id data) w.written →
    ∃ webhook, w.webhooks.get id = some webhook ∧ settings webhook.data = data

structure World.Issued (w : World) : Prop where
  stored : ∀ id webhook, w.webhooks.get id = some webhook → id ∈ w.issued
  put : ∀ id data, .put id data ∈ w.written → id ∈ w.issued

structure World.Sound (w : World) : Prop where
  stand : WritesStand w
  issued : w.Issued

theorem Since.mem {α : Type} {undone : α → Prop} {x : α} {log : List α}
    (h : Since undone x log) : x ∈ log := by
  induction log with
  | nil => exact h.elim
  | cons e log ih =>
    rcases h with rfl | ⟨-, h⟩
    · exact List.mem_cons_self
    · exact List.mem_cons_of_mem e (ih h)

namespace World.Sound

variable {w : World}

theorem create (h : w.Sound) {webhook : WebhookRecord} (hid : webhook.id ∉ w.issued) :
    World.Sound ⟨w.webhooks.upsert webhook, webhook.id :: w.issued,
      .created webhook.id :: w.written⟩ := by
  constructor
  · constructor
    · intro id hsince
      rcases hsince with hsame | ⟨hnot, hsince⟩
      · cases hsame
      · have hne : webhook.id ≠ id := fun heq => hnot (heq ▸ rfl)
        rw [Table.get_upsert, if_neg hne]
        exact h.stand.deleted id hsince
    · intro id data hsince
      rcases hsince with hsame | ⟨-, hsince⟩
      · cases hsame
      · have hne : webhook.id ≠ id := by
          intro heq
          exact hid (heq ▸ h.issued.put id data hsince.mem)
        rw [Table.get_upsert, if_neg hne]
        exact h.stand.put id data hsince
  · constructor
    · intro id stored hstored
      rw [Table.get_upsert] at hstored
      split at hstored
      · rename_i heq
        exact heq ▸ List.mem_cons_self
      · exact List.mem_cons_of_mem _ (h.issued.stored id stored hstored)
    · intro id data hput
      rcases List.mem_cons.mp hput with heq | hput
      · cases heq
      · exact List.mem_cons_of_mem _ (h.issued.put id data hput)

theorem delete (h : w.Sound) (id : WebhookId) :
    World.Sound ⟨w.webhooks.erase id, w.issued, .deleted id :: w.written⟩ := by
  constructor
  · constructor
    · intro id' hsince
      by_cases heq : id' = id
      · rw [heq]
        exact Table.get_erase_self _ _
      · rw [Table.get_erase_of_ne _ heq]
        rcases hsince with hsame | ⟨-, hsince⟩
        · cases hsame
          exact absurd rfl heq
        · exact h.stand.deleted id' hsince
    · intro id' data hsince
      rcases hsince with hsame | ⟨hnot, hsince⟩
      · cases hsame
      · have hne : id' ≠ id := fun heq => hnot heq.symm
        rw [Table.get_erase_of_ne _ hne]
        exact h.stand.put id' data hsince
  · constructor
    · intro id' stored hstored
      by_cases heq : id' = id
      · rw [heq, Table.get_erase_self] at hstored
        cases hstored
      · rw [Table.get_erase_of_ne _ heq] at hstored
        exact h.issued.stored id' stored hstored
    · intro id' data hput
      rcases List.mem_cons.mp hput with heq | hput
      · cases heq
      · exact h.issued.put id' data hput

variable {webhook stored : WebhookRecord} {id : WebhookId}

theorem issued_save (h : w.Sound)
    (hstored : w.webhooks.get webhook.id = some stored) {row : WebhookRecord}
    (hrow : (w.webhooks.upsert webhook).get id = some row) : id ∈ w.issued := by
  rw [Table.get_upsert] at hrow
  split at hrow
  · rename_i heq
    exact heq ▸ h.issued.stored webhook.id stored hstored
  · exact h.issued.stored id row hrow

theorem deleted_save (h : w.Sound) (hstored : w.webhooks.get webhook.id = some stored)
    (hsince : Since (· = .created id) (.deleted id) w.written) :
    (w.webhooks.upsert webhook).get id = none := by
  have hnone := h.stand.deleted id hsince
  have hne : webhook.id ≠ id := by
    intro heq
    rw [heq, hnone] at hstored
    cases hstored
  rw [Table.get_upsert, if_neg hne]
  exact hnone

theorem put (h : w.Sound) (hstored : w.webhooks.get webhook.id = some stored) :
    World.Sound ⟨w.webhooks.upsert webhook, w.issued,
      .put webhook.id (settings webhook.data) :: w.written⟩ := by
  constructor
  · constructor
    · intro id hsince
      rcases hsince with hsame | ⟨-, hsince⟩
      · cases hsame
      · exact h.deleted_save hstored hsince
    · intro id data hsince
      rcases hsince with hsame | ⟨hnot, hsince⟩
      · cases hsame
        exact ⟨webhook, Table.get_upsert_self _ _, rfl⟩
      · have hne : webhook.id ≠ id := hnot
        rw [Table.get_upsert, if_neg hne]
        exact h.stand.put id data hsince
  · constructor
    · intro id row hrow
      exact h.issued_save hstored hrow
    · intro id data hput
      rcases List.mem_cons.mp hput with heq | hput
      · cases heq
        exact h.issued.stored webhook.id stored hstored
      · exact h.issued.put id data hput

theorem save (h : w.Sound) (hstored : w.webhooks.get webhook.id = some stored)
    (hsettings : settings webhook.data = settings stored.data) :
    World.Sound ⟨w.webhooks.upsert webhook, w.issued, w.written⟩ := by
  constructor
  · constructor
    · intro id hsince
      exact h.deleted_save hstored hsince
    · intro id data hsince
      obtain ⟨row, hrow, hdata⟩ := h.stand.put id data hsince
      by_cases heq : webhook.id = id
      · subst heq
        rw [hstored] at hrow
        cases hrow
        exact ⟨webhook, Table.get_upsert_self _ _, hsettings.trans hdata⟩
      · rw [Table.get_upsert, if_neg heq]
        exact ⟨row, hrow, hdata⟩
  · constructor
    · intro id row hrow
      exact h.issued_save hstored hrow
    · exact h.issued.put

end World.Sound

def World.current (w : World) (writer : Writer) (copy : WebhookRecord) : Bool :=
  (w.webhooks.get copy.id).any fun stored =>
    writer = .put || settings stored.data = settings copy.data

theorem World.exists_of_current {w : World} {writer : Writer} {copy : WebhookRecord}
    (h : w.current writer copy = true) : ∃ stored, w.webhooks.get copy.id = some stored ∧
      (writer ≠ .put → settings stored.data = settings copy.data) := by
  unfold World.current at h
  cases hstored : w.webhooks.get copy.id with
  | none => simp [hstored] at h
  | some stored =>
    rw [hstored] at h
    simp only [Option.any_some, Bool.or_eq_true, decide_eq_true_eq] at h
    exact ⟨stored, rfl, fun hput => h.resolve_left hput⟩

def savesCurrent (txt : Texts) (cfg : Settings) : (webhookService txt cfg).Conduct where
  calls
    | .saveWebhook writer copy _, _, w => World.current w writer copy = true
    | _, _, _ => True

instance (txt : Texts) (cfg : Settings) : DecidablePred (savesCurrent txt cfg).starts :=
  fun _ => .isTrue trivial

instance (txt : Texts) (cfg : Settings) (q : Call) (r : q.Resp)
    (w : (webhookService txt cfg).World) : Decidable ((savesCurrent txt cfg).calls q r w) :=
  match q, r with
  | .saveWebhook writer copy _, _ => inferInstanceAs (Decidable (World.current w writer copy = true))
  | .utcNow, _ | .listWebhooks, _ | .getWebhook _, _ | .createWebhook .., _
  | .deleteWebhook _, _ | .validateWebhookUrl _, _ | .sendWebhookDelivery _, _
  | .saveWebhookDelivery _, _ => .isTrue trivial

variable {ch : Choice}

theorem perform_sound {txt : Texts} {cfg : Settings} {q : Call} {w w' : World}
    {r : q.Resp} (h : w.Sound) (hreq : webhookAccount.Req q ())
    (hperform : perform ch q w = some (r, w')) (hcurrent : (savesCurrent txt cfg).calls q r w) :
    w'.Sound := by
  cases q with
  | createWebhook data status tags =>
    simp only [perform] at hperform
    split at hperform
    · cases hperform
    · rename_i hfresh
      cases hperform
      exact h.create hfresh
  | saveWebhook writer copy webhook =>
    cases hperform
    obtain ⟨hid, hsettings⟩ := hreq
    obtain ⟨stored, hstored, hsame⟩ := World.exists_of_current hcurrent
    rw [← hid] at hstored
    cases writer with
    | put => exact h.put hstored
    | publication =>
      exact h.save hstored ((hsettings Writer.noConfusion).trans (hsame Writer.noConfusion).symm)
    | failure =>
      exact h.save hstored ((hsettings Writer.noConfusion).trans (hsame Writer.noConfusion).symm)
  | deleteWebhook id =>
    cases hperform
    exact h.delete id
  | _ =>
    cases hperform
    exact h

theorem perform_given_record {q : Call} {w w' : World} {r : q.Resp}
    (hperform : perform ch q w = some (r, w')) : webhookAccount.Given q r () := by
  cases q with
  | getWebhook id =>
    cases hperform
    intro webhook hwebhook
    exact (Table.get_eq_some.mp hwebhook).2
  | _ => trivial

def World.initial (webhooks : Table WebhookId WebhookRecord WebhookRecord.id) : World where
  webhooks := webhooks
  issued := webhooks.rows.map WebhookRecord.id
  written := []

theorem World.initial_sound (webhooks : Table WebhookId WebhookRecord WebhookRecord.id) :
    (World.initial webhooks).Sound := by
  constructor
  · constructor
    · intro id hsince
      exact hsince.elim
    · intro id data hsince
      exact hsince.elim
  · constructor
    · intro id webhook hwebhook
      obtain ⟨hmem, rfl⟩ := Table.get_eq_some.mp hwebhook
      exact List.mem_map_of_mem hmem
    · intro id data hput
      cases hput

/-- **Client writes stand.**  In every run of clients, publications and delivery workers in
    which every save finds the webhook as its writer has read it, a deleted webhook stays
    deleted and a put webhook keeps its settings. -/
theorem webhook_writes_stand (txt : Texts) (cfg : Settings)
    (webhooks : Table WebhookId WebhookRecord WebhookRecord.id)
    (c : (webhookService txt cfg).machine.Config)
    (hc : (webhookService txt cfg).Reachable (savesCurrent txt cfg) (World.initial webhooks) c) :
    WritesStand c.shared.world := by
  let K : (webhookService txt cfg).Knowledge Unit :=
    { world := World.Sound, request := fun _ => none, worker := fun _ _ _ => True }
  have hknown : Service.Known webhookAccount () K c := by
    apply Service.Reachable.known (World.initial_sound webhooks) _ _ _ _ hc
    · exact ⟨rfl, fun _ _ _ _ => rfl⟩
    · intro op _
      exact program_minds op
    · intro ch q w r w' m _ hperform _
      exact perform_given_record hperform
    · intro ch q w r w' m hworld _ hreq hperform hcurrent
      constructor
      · exact perform_sound hworld hreq hperform hcurrent
      · intro _ _
        trivial
      · intro _ _ _ _ _ _
        trivial
  exact hknown.world.stand

def plainTexts : Texts where
  str value := Json.text (some value)
  uuid text := if text = "1" then some 1 else none
  strip text := text
  lower text := text
  isoformat _ := ""

def subscription (url : String) : Members :=
  [("url", .str url), ("events", .arr [.str "flows/created"])]

def oneWebhook : World :=
  World.initial (Table.empty.upsert ⟨1, subscription "https://old.example", .created, []⟩)

def flowCreated : Event where
  eventType := "flows/created"
  flowIds := ["f"]
  sourceIds := ["s"]
  flowCollectedByIds := []
  sourceCollectedByIds := []

def putRequest : Members :=
  [("id", .str "1"), ("status", .str "created")] ++ subscription "https://new.example"

def accepting : Choice where
  now := 0
  uuid := 2
  refused := none
  sent := .response 200 "OK"
  claimed := true

abbrev sampleService : Service Call Call.Resp := webhookService plainTexts ⟨3⟩

def orderlyRun : List sampleService.machine.Action :=
  .start 0 (Op.putWebhook 1 putRequest) :: List.replicate 3 (.call 0 accepting) ++
    .start 1 (Op.publishWebhookEvent flowCreated) :: List.replicate 4 (.call 1 accepting)

theorem webhook_writes_stand_after_put :
    ∃ c, sampleService.Reachable (savesCurrent plainTexts ⟨3⟩) oneWebhook c ∧
      c.shared.world.written = [.put 1 (subscription "https://new.example")] ∧
      (c.shared.world.webhooks.get 1).map (·.status) = some .started ∧
      WritesStand c.shared.world := by
  obtain ⟨c, hc, hwritten, hstatus⟩ : ∃ c,
      sampleService.Reachable (savesCurrent plainTexts ⟨3⟩) oneWebhook c ∧
      c.shared.world.written = [.put 1 (subscription "https://new.example")] ∧
      (c.shared.world.webhooks.get 1).map (·.status) = some .started :=
    Service.Reachable.of_run orderlyRun (by decide +kernel)
  exact ⟨c, hc, hwritten, hstatus, webhook_writes_stand plainTexts ⟨3⟩ _ c hc⟩

def overtakenRun (write : Op) (calls : Nat) : List sampleService.machine.Action :=
  .start 0 (Op.publishWebhookEvent flowCreated) :: List.replicate 2 (.call 0 accepting) ++
    .start 1 write :: List.replicate calls (.call 1 accepting) ++ [.call 0 accepting]

/-- **The copy of a publication undoes client writes.**  A deleted webhook is there again, and
    a webhook that was put has its old settings back. -/
theorem publication_undoes_client_writes :
    (∃ c, sampleService.Reachable (.free _) oneWebhook c ∧
      c.shared.world.written = [.deleted 1] ∧
      (c.shared.world.webhooks.get 1).isSome = true ∧ ¬ WritesStand c.shared.world) ∧
    ∃ c, sampleService.Reachable (.free _) oneWebhook c ∧
      c.shared.world.written = [.put 1 (subscription "https://new.example")] ∧
      (c.shared.world.webhooks.get 1).map (·.data) = some (subscription "https://old.example") ∧
      ¬ WritesStand c.shared.world := by
  constructor
  · obtain ⟨c, hc, hwritten, hstored⟩ : ∃ c, sampleService.Reachable (.free _) oneWebhook c ∧
        c.shared.world.written = [.deleted 1] ∧
        (c.shared.world.webhooks.get 1).isSome = true :=
      Service.Reachable.of_run (overtakenRun (.deleteWebhook 1) 2) (by decide +kernel)
    refine ⟨c, hc, hwritten, hstored, fun hstand => ?_⟩
    have hnone := hstand.deleted 1 (hwritten ▸ .inl rfl)
    rw [hnone] at hstored
    cases hstored
  · obtain ⟨c, hc, hwritten, hstored⟩ : ∃ c, sampleService.Reachable (.free _) oneWebhook c ∧
        c.shared.world.written = [.put 1 (subscription "https://new.example")] ∧
        (c.shared.world.webhooks.get 1).map (·.data) =
          some (subscription "https://old.example") :=
      Service.Reachable.of_run (overtakenRun (.putWebhook 1 putRequest) 3) (by decide +kernel)
    refine ⟨c, hc, hwritten, hstored, fun hstand => ?_⟩
    obtain ⟨webhook, hwebhook, hdata⟩ :=
      hstand.put 1 (subscription "https://new.example") (hwritten ▸ .inl rfl)
    rw [hwebhook] at hstored
    have hold : webhook.data = subscription "https://old.example" := Option.some.inj hstored
    rw [hold] at hdata
    exact absurd hdata (by decide +kernel)

end Tamoss.WebhookWrites
