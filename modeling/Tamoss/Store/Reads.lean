/-
  **What a session has read of flows and sources, and what it may write on that ground.**
-/
import Tamoss.Lib.Recorded
import Tamoss.Store.Effects
import Tamoss.Store.FlowFields

namespace Tamoss

structure FlowRecord.CollectsIn (flow : FlowRecord) (db : Database) : Prop where
  distinct : (flow.flowCollection.map (·.id)).Nodup
  others : ∀ item ∈ flow.flowCollection, item.id ≠ flow.id
  stored : ∀ item ∈ flow.flowCollection, (db.flows.get item.id).isSome = true

def CollectionsOk (db : Database) : Prop := ∀ flow ∈ db.flows.rows, flow.CollectsIn db

def FlowRecord.SourcedIn (flow : FlowRecord) (db : Database) : Prop :=
  ∀ s, flow.sourceId = some s → (db.sources.get s).isSome = true

def FlowsSourced (db : Database) : Prop := ∀ flow ∈ db.flows.rows, flow.SourcedIn db

def SourceRecord.after (source : SourceRecord) : Option (SourceId × SourceEdit) → SourceRecord
  | some (s, edit) => if s = source.id then source.edited edit else source
  | none => source

def MadeFrom (edit : Option (SourceId × SourceEdit)) (db : Database) (source : SourceRecord) :
    Prop :=
  ∀ old, db.sources.get source.id = some old →
    ∃ now, source = { old.after edit with metadataUpdated := now }

def Allowed (edit : Option (SourceId × SourceEdit)) (ws : List Write) (db : Database) :
    Write → Prop
  | .saveFlow flow _ => (CollectionsOk db → flow.CollectsIn (db.applyAll ws)) ∧
      (FlowsSourced db → flow.SourcedIn (db.applyAll ws))
  | .deleteFlow f => ∀ flow ∈ (db.applyAll ws).flows.rows, flow.id ≠ f →
      ∀ item ∈ flow.flowCollection, item.id ≠ f
  | .saveSource source => MadeFrom edit db source
  | .deleteSource s => ∀ flow ∈ (db.applyAll ws).flows.rows, flow.sourceId ≠ some s
  | _ => True

theorem get_isSome_upsert {db : Database} {flow : FlowRecord} {f : FlowId}
    (h : (db.flows.get f).isSome = true) : ((db.flows.upsert flow).get f).isSome = true := by
  rw [Lib.Table.get_upsert]
  split
  · rfl
  · exact h

variable {w : Write}

theorem CollectionsOk.apply {edit : Option (SourceId × SourceEdit)} {ws : List Write}
    {db : Database} (hw : Allowed edit ws db w) (hdb : CollectionsOk db)
    (h : CollectionsOk (db.applyAll ws)) : CollectionsOk (w.apply (db.applyAll ws)) := by
  generalize hview : db.applyAll ws = view at h
  cases w with
  | saveFlow flow basis =>
    have hflow : flow.CollectsIn view := hview ▸ hw.1 hdb
    intro row hrow
    have hcollects : row.CollectsIn view := by
      rcases Lib.Table.mem_upsert.mp hrow with hold | rfl
      · exact h row hold.1
      · exact hflow
    exact ⟨hcollects.distinct, hcollects.others,
      fun item hitem => get_isSome_upsert (hcollects.stored item hitem)⟩
  | deleteFlow f =>
    intro row hrow
    obtain ⟨hold, hne⟩ := Lib.Table.mem_erase.mp hrow
    have hcollects := h row hold
    refine ⟨hcollects.distinct, hcollects.others, ?_⟩
    intro item hitem
    have hitemf : item.id ≠ f := hw row (hview ▸ hold) hne item hitem
    exact (Lib.Table.get_erase_of_ne view.flows hitemf).symm ▸ hcollects.stored item hitem
  | _ => exact fun row hrow => ⟨(h row hrow).distinct, (h row hrow).others, (h row hrow).stored⟩

theorem FlowsSourced.apply {edit : Option (SourceId × SourceEdit)} {ws : List Write}
    {db : Database} (hw : Allowed edit ws db w) (hdb : FlowsSourced db)
    (h : FlowsSourced (db.applyAll ws)) : FlowsSourced (w.apply (db.applyAll ws)) := by
  generalize hview : db.applyAll ws = view at h
  cases w with
  | saveFlow flow basis =>
    have hflow : flow.SourcedIn view := hview ▸ hw.2 hdb
    intro row hrow
    rcases Lib.Table.mem_upsert.mp hrow with hold | rfl
    · exact h row hold.1
    · exact hflow
  | deleteFlow f => exact fun row hrow => h row (Lib.Table.mem_erase.mp hrow).1
  | saveSource source =>
    intro row hrow s hs
    show ((view.sources.upsert source).get s).isSome = true
    rw [Lib.Table.get_upsert]
    split
    · rfl
    · exact h row hrow s hs
  | deleteSource s =>
    intro row hrow s' hs'
    have hne : s' ≠ s := by
      rintro rfl
      exact hw row (hview ▸ hrow) hs'
    exact (Lib.Table.get_erase_of_ne view.sources hne).symm ▸ h row hrow s' hs'
  | _ => exact fun row hrow => h row hrow

def Write.onCatalogue : Write → Bool
  | .saveFlow _ _ | .deleteFlow _ | .saveSource _ | .deleteSource _ => true
  | _ => false

structure SameCatalogue (db db' : Database) : Prop where
  flows : db.flows = db'.flows
  sources : db.sources = db'.sources

namespace SameCatalogue

variable {db db' db'' : Database}

theorem refl (db : Database) : SameCatalogue db db := ⟨rfl, rfl⟩

theorem symm (h : SameCatalogue db db') : SameCatalogue db' db := ⟨h.flows.symm, h.sources.symm⟩

theorem trans (h : SameCatalogue db db') (h' : SameCatalogue db' db'') :
    SameCatalogue db db'' := ⟨h.flows.trans h'.flows, h.sources.trans h'.sources⟩

theorem apply (h : SameCatalogue db db') (w : Write) :
    SameCatalogue (w.apply db) (w.apply db') := by
  obtain ⟨hflows, hsources⟩ := h
  cases w <;> constructor <;> simp only [Write.apply, hflows, hsources]

theorem applyAll (h : SameCatalogue db db') (ws : List Write) :
    SameCatalogue (db.applyAll ws) (db'.applyAll ws) := by
  induction ws generalizing db db' with
  | nil => exact h
  | cons w ws ih => exact ih (h.apply w)

theorem of_write {w : Write} (hw : w.onCatalogue = false) (db : Database) :
    SameCatalogue (w.apply db) db := by
  cases w <;> first | exact ⟨rfl, rfl⟩ | cases hw

theorem of_writes {ws : List Write} (hws : ∀ w ∈ ws, w.onCatalogue = false) (db : Database) :
    SameCatalogue (db.applyAll ws) db := by
  induction ws generalizing db with
  | nil => exact refl db
  | cons w ws ih =>
    exact (ih (fun x hx => hws x (List.mem_cons_of_mem w hx)) _).trans
      (of_write (hws w List.mem_cons_self) db)

theorem applyAll_filter (ws : List Write) (db : Database) :
    SameCatalogue (db.applyAll ws) (db.applyAll (ws.filter Write.onCatalogue)) := by
  induction ws generalizing db with
  | nil => exact refl db
  | cons w ws ih =>
    cases hw : w.onCatalogue with
    | true =>
      rw [List.filter_cons_of_pos hw]
      exact ih _
    | false =>
      rw [List.filter_cons_of_neg (by simp [hw])]
      exact (ih _).trans ((of_write hw db).applyAll _)

theorem collectionsOk (h : SameCatalogue db db') (hdb : CollectionsOk db) : CollectionsOk db' := by
  intro flow hflow
  have hcollects := hdb flow (h.flows ▸ hflow)
  exact ⟨hcollects.distinct, hcollects.others,
    fun item hitem => h.flows ▸ hcollects.stored item hitem⟩

theorem flowsSourced (h : SameCatalogue db db') (hdb : FlowsSourced db) : FlowsSourced db' :=
  fun flow hflow s hs => h.sources ▸ hdb flow (h.flows ▸ hflow) s hs

end SameCatalogue

inductive CatalogueRead where
  | flow (flowId : FlowId) (row : Option FlowRecord)
  | flowsCollecting (flowId : FlowId) (rows : List FlowRecord)
  | flowsBySource (sourceId : SourceId) (rows : List FlowRecord)
  | source (sourceId : SourceId) (row : Option SourceRecord)

def Database.flowsOfSource (db : Database) (s : SourceId) : List FlowRecord :=
  db.flows.rows.filter (·.sourceId = some s)

/-- The statement would still be answered the same: the same source, flows with the same
    metadata, or a list of the same flows. -/
def CatalogueRead.Stands (db : Database) : CatalogueRead → Prop
  | .flow f row => db.metadataOf f = row.map FlowRecord.metadata
  | .flowsCollecting f rows =>
      (db.listFlowsCollecting f).map FlowRecord.metadata = rows.map FlowRecord.metadata
  | .flowsBySource s rows =>
      (∀ flow ∈ db.flowsOfSource s, flow.id ∈ rows.map (·.id)) ∧
        ∀ row ∈ rows, row.id ∈ (db.flowsOfSource s).map (·.id)
  | .source s row => db.sources.get s = row

instance (db : Database) (read : CatalogueRead) : Decidable (read.Stands db) :=
  match read with
  | .flow _ _ => inferInstanceAs (Decidable (_ = _))
  | .flowsCollecting _ _ => inferInstanceAs (Decidable (_ = _))
  | .flowsBySource _ _ => inferInstanceAs (Decidable (_ ∧ _))
  | .source _ _ => inferInstanceAs (Decidable (_ = _))

theorem CatalogueRead.Stands.congr {read : CatalogueRead} {db db' : Database}
    (hstands : read.Stands db) (h : SameCatalogue db db') : read.Stands db' := by
  cases read with
  | flow f row =>
    show (db'.flows.get f).map _ = _
    rw [← h.flows]
    exact hstands
  | flowsCollecting f rows =>
    simp only [Stands, Database.listFlowsCollecting, ← h.flows]
    exact hstands
  | flowsBySource s rows =>
    simp only [Stands, Database.flowsOfSource, ← h.flows]
    exact hstands
  | source s row =>
    show db'.sources.get s = row
    rw [← h.sources]
    exact hstands

def Op.sourceEdit : Op → Option (SourceId × SourceEdit)
  | .editSource s edit => some (s, edit)
  | _ => none

/-- What a session keeps account of since its last transaction ended: its writes to flows
    and sources, and its reads, each with the writes that came before it. -/
structure Ledger where
  edit : Option (SourceId × SourceEdit)
  inTx : Bool
  writes : List Write
  reads : List (List Write × CatalogueRead)

namespace Ledger

def first (op : Op) : Ledger := ⟨op.sourceEdit, false, [], []⟩

def enter (m : Ledger) (read : CatalogueRead) : Ledger :=
  { m with reads := m.reads ++ [(m.writes, read)] }

def note : (c : Call) → c.Resp → Ledger → Ledger
  | .begin, _, m => { m with inTx := true }
  | .commit, _, m => { m with inTx := false, writes := [], reads := [] }
  | .rollback, _, m => { m with inTx := false, writes := [], reads := [] }
  | .write w, _, m => if w.onCatalogue then { m with writes := m.writes ++ [w] } else m
  | .getFlow f _, read, m => m.enter (.flow f read.flow)
  | .listFlowsCollecting f, parents, m => m.enter (.flowsCollecting f (parents.map (·.1)))
  | .listFlowsBySource s, flows, m => m.enter (.flowsBySource s flows)
  | .getSource s, source, m => m.enter (.source s source)
  | _, _, m => m

def StandsIn (m : Ledger) (db : Database) : Prop :=
  ∀ read ∈ m.reads, read.2.Stands (db.applyAll read.1)

instance (m : Ledger) (db : Database) : Decidable (m.StandsIn db) :=
  inferInstanceAs (Decidable (∀ read ∈ m.reads, read.2.Stands (db.applyAll read.1)))

def Knows (m : Ledger) (φ : Database → Prop) : Prop := ∀ db, m.StandsIn db → φ db

variable {m : Ledger}

theorem StandsIn.congr {db db' : Database} (hm : m.StandsIn db)
    (h : SameCatalogue db db') : m.StandsIn db' :=
  fun read hread => (hm read hread).congr (h.applyAll read.1)

theorem Knows.mono {φ ψ : Database → Prop} (h : m.Knows φ)
    (hφ : ∀ db, φ db → ψ db) : m.Knows ψ := fun db hdb => hφ db (h db hdb)

theorem knows_enter {φ : Database → Prop} (h : m.Knows φ) (read : CatalogueRead) :
    (m.enter read).Knows fun db => φ db ∧ read.Stands (db.applyAll m.writes) := by
  intro db hdb
  have hnew : read.Stands (db.applyAll m.writes) :=
    hdb (m.writes, read) (List.mem_append_right _ List.mem_cons_self)
  refine ⟨h db ?_, hnew⟩
  intro old hold
  exact hdb old (List.mem_append_left _ hold)

end Ledger

def catalogueAccount : Lib.Account Call Call.Resp Ledger where
  note := Ledger.note
  Req c m := match c with
    | .write w => w.onCatalogue = true →
        m.inTx = true ∧ m.Knows fun db => Allowed m.edit m.writes db w
    | _ => True

/-- The writes that the ledger has noted are allowed: they keep flows and sources in order,
    and every source is saved from its stored record. -/
structure Ledger.Sound (m : Ledger) : Prop where
  collections : m.Knows fun db => CollectionsOk db → CollectionsOk (db.applyAll m.writes)
  sourced : m.Knows fun db => FlowsSourced db → FlowsSourced (db.applyAll m.writes)
  made : ∀ source, .saveSource source ∈ m.writes → m.Knows fun db => MadeFrom m.edit db source

variable {m : Ledger}

theorem Ledger.sound_of_writes_nil (h : m.writes = []) : m.Sound where
  collections := fun db _ hdb => by rwa [h]
  sourced := fun db _ hdb => by rwa [h]
  made := fun source hsource => by rw [h] at hsource; cases hsource

theorem Ledger.Sound.enter (h : m.Sound) (read : CatalogueRead) :
    (m.enter read).Sound where
  collections := (knows_enter h.collections read).mono fun _ hφ => hφ.1
  sourced := (knows_enter h.sourced read).mono fun _ hφ => hφ.1
  made := fun source hsource => (knows_enter (h.made source hsource) read).mono fun _ hφ => hφ.1

theorem Ledger.Sound.note (h : m.Sound) {c : Call} (r : c.Resp)
    (hreq : catalogueAccount.Req c m) : (Ledger.note c r m).Sound := by
  cases c with
  | commit => exact sound_of_writes_nil rfl
  | rollback => exact sound_of_writes_nil rfl
  | begin => exact ⟨h.collections, h.sourced, h.made⟩
  | getFlow f toSave => exact h.enter _
  | listFlowsCollecting f => exact h.enter _
  | listFlowsBySource s => exact h.enter _
  | getSource s => exact h.enter _
  | write w =>
    unfold Ledger.note
    dsimp only
    split
    · rename_i hw
      obtain ⟨-, hknows⟩ := hreq hw
      refine ⟨?_, ?_, ?_⟩
      · intro db hdb hok
        simp only [Database.applyAll_append]
        exact CollectionsOk.apply (hknows db hdb) hok (h.collections db hdb hok)
      · intro db hdb hok
        simp only [Database.applyAll_append]
        exact FlowsSourced.apply (hknows db hdb) hok (h.sourced db hdb hok)
      · intro source hsource
        rcases List.mem_append.mp hsource with hold | hnew
        · exact h.made source hold
        · obtain rfl := List.mem_singleton.mp hnew
          exact hknows
    · exact h
  | _ => exact h

structure Ledger.At (edit : Option (SourceId × SourceEdit)) (tx : Bool) (ws : List Write)
    (φ : Database → Prop) (m : Ledger) : Prop where
  edit : m.edit = edit
  inTx : m.inTx = tx
  writes : m.writes = ws
  knows : m.Knows φ

structure Ledger.Unwritten (edit : Option (SourceId × SourceEdit)) (m : Ledger) : Prop where
  edit : m.edit = edit
  writes : m.writes = []

def Ledger.Of (edit : Option (SourceId × SourceEdit)) (m : Ledger) : Prop := m.edit = edit

namespace CatalogueSpec

open Lib.Account

variable {edit : Option (SourceId × SourceEdit)} {tx : Bool} {ws : List Write}
variable {φ ψ : Database → Prop} {E : PyError → Ledger → Prop} {α : Type}

def Raises (E : PyError → Ledger → Prop) (edit : Option (SourceId × SourceEdit)) (tx : Bool)
    (ws : List Write) : Prop :=
  ∀ e m φ, Ledger.At edit tx ws φ m → E e m

variable (edit tx φ) in
abbrev Leaves (p : App α) : Prop :=
  catalogueAccount.Minds (Ledger.At edit tx [] φ) p (fun _ => Ledger.Unwritten edit)
    (fun _ => Ledger.Unwritten edit)

theorem raises_of : Raises (fun _ => Ledger.Of edit) edit tx ws := fun _ _ _ h => h.edit

theorem raises_unwritten : Raises (fun _ => Ledger.Unwritten edit) edit tx [] :=
  fun _ _ _ h => ⟨h.edit, h.writes⟩

variable {m : Ledger}

theorem at_mono (h : m.At edit tx ws φ) (hφ : ∀ db, φ db → ψ db) :
    m.At edit tx ws ψ := ⟨h.edit, h.inTx, h.writes, h.knows.mono hφ⟩

theorem at_enter (h : m.At edit tx ws φ) (read : CatalogueRead) :
    (m.enter read).At edit tx ws fun db => φ db ∧ read.Stands (db.applyAll ws) := by
  refine ⟨h.edit, h.inTx, h.writes, ?_⟩
  have hknows := Ledger.knows_enter h.knows read
  rwa [h.writes] at hknows

theorem getFlow (f : FlowId) (toSave : Bool) :
    catalogueAccount.Minds (Ledger.At edit tx ws φ) (call (.getFlow f toSave))
      (fun read => Ledger.At edit tx ws fun db => φ db ∧
        (db.applyAll ws).metadataOf f = read.flow.map FlowRecord.metadata) E :=
  Minds.call (fun _ _ => trivial) fun _ read hm _ => at_enter hm (.flow f read.flow)

theorem listFlowsCollecting (f : FlowId) :
    catalogueAccount.Minds (Ledger.At edit tx ws φ) (call (.listFlowsCollecting f))
      (fun parents => Ledger.At edit tx ws fun db => φ db ∧
        ((db.applyAll ws).listFlowsCollecting f).map FlowRecord.metadata =
          (parents.map (·.1)).map FlowRecord.metadata) E := by
  apply Minds.call
  · exact fun _ _ => trivial
  · intro m parents hm _
    exact at_enter hm (.flowsCollecting f (List.map Prod.fst parents))

theorem listFlowsBySource (s : SourceId) :
    catalogueAccount.Minds (Ledger.At edit tx ws φ) (call (.listFlowsBySource s))
      (fun flows => Ledger.At edit tx ws fun db => φ db ∧
        CatalogueRead.Stands (db.applyAll ws) (.flowsBySource s flows)) E :=
  Minds.call (fun _ _ => trivial) fun _ _ hm _ => at_enter hm _

theorem getSource (s : SourceId) :
    catalogueAccount.Minds (Ledger.At edit tx ws φ) (call (.getSource s))
      (fun source => Ledger.At edit tx ws fun db => φ db ∧
        (db.applyAll ws).sources.get s = source) E :=
  Minds.call (fun _ _ => trivial) fun _ source hm _ => at_enter hm (.source s source)

theorem write {w : Write} (hw : w.onCatalogue = true)
    (hallowed : ∀ db, φ db → Allowed edit ws db w) :
    catalogueAccount.Minds (Ledger.At edit true ws φ) (call (.write w))
      (fun _ => Ledger.At edit true (ws ++ [w]) φ) E := by
  apply Minds.call
  · intro m hm _
    refine ⟨hm.inTx, ?_⟩
    rw [hm.edit, hm.writes]
    exact hm.knows.mono hallowed
  · intro m r hm _
    show (Ledger.note (.write w) r m).At edit true (ws ++ [w]) φ
    simp only [Ledger.note, hw, if_true]
    exact ⟨hm.edit, hm.inTx, by rw [hm.writes], hm.knows⟩

theorem note_apart {c : Call} (hc : c.Apart) (r : c.Resp)
    (hm : m.At edit tx ws φ) : (Ledger.note c r m).At edit tx ws φ := by
  cases c with
  | begin => exact hc.elim
  | commit => exact hc.elim
  | rollback => exact hc.elim
  | getFlow f toSave => exact at_mono (at_enter hm _) fun _ h => h.1
  | listFlowsCollecting f => exact at_mono (at_enter hm _) fun _ h => h.1
  | listFlowsBySource s => exact at_mono (at_enter hm _) fun _ h => h.1
  | getSource s => exact at_mono (at_enter hm _) fun _ h => h.1
  | write w => cases w <;> first | exact hc.elim | exact hm
  | _ => exact hm

theorem req_of_keepsLinks {c : Call} (hc : c.KeepsLinks) (m : Ledger) :
    catalogueAccount.Req c m := by
  cases c with
  | write w => cases w <;> first | exact hc.elim | exact fun h => by cases h
  | _ => trivial

variable {p : App α}

theorem apart (hE : Raises E edit tx ws) (hp : Lib.Only Call.Apart p) :
    catalogueAccount.Minds (Ledger.At edit tx ws φ) p (fun _ => Ledger.At edit tx ws φ) E := by
  refine Minds.conseq (Minds.of_only ?_ ?_ hp) (fun _ h => h) (fun _ _ h => h)
    fun e m h => hE e m φ h
  · exact fun c m hc _ => req_of_keepsLinks hc.keepsCatalogue.keepsLinks m
  · exact fun c r m hc hm _ => note_apart hc r hm

theorem past {β : Type} {c : Call} {k : c.Resp → App β} {S : β → Ledger → Prop}
    (hE : Raises E edit tx ws) (hc : c.Apart)
    (hk : ∀ r, catalogueAccount.Minds (Ledger.At edit tx ws φ) (k r) S E) :
    catalogueAccount.Minds (Ledger.At edit tx ws φ) (call c >>= k) S E :=
  Minds.bind (apart hE (only_call hc)) hk

theorem calm (hE : Raises E edit tx ws) (hp : Lib.Only Call.Calm p) :
    catalogueAccount.Minds (Ledger.At edit tx ws φ) p (fun _ => Ledger.At edit tx ws φ) E :=
  apart hE (only_apart_of_calm hp)

theorem rest (hp : Lib.Only Call.Apart p) :
    catalogueAccount.Minds (Ledger.Of edit) p (fun _ => Ledger.Of edit)
      (fun _ => Ledger.Of edit) := by
  refine Minds.of_only (fun c m hc _ => req_of_keepsLinks hc.keepsCatalogue.keepsLinks m) ?_ hp
  intro c r m hc hm _
  have hat : m.At edit m.inTx m.writes fun _ => True := ⟨hm, rfl, rfl, fun _ _ => trivial⟩
  exact (note_apart hc r hat).edit

theorem keeps (hp : Lib.Only Call.KeepsLinks p) :
    catalogueAccount.Minds (Ledger.Unwritten edit) p (fun _ => Ledger.Unwritten edit)
      (fun _ => Ledger.Unwritten edit) := by
  refine Minds.of_only (fun c m hc _ => req_of_keepsLinks hc m) ?_ hp
  intro c r m hc hm _
  cases c with
  | write w => cases w <;> first | exact hc.elim | exact ⟨hm.edit, hm.writes⟩
  | commit => exact ⟨hm.edit, rfl⟩
  | rollback => exact ⟨hm.edit, rfl⟩
  | _ => exact ⟨hm.edit, hm.writes⟩

theorem unitOfWork {body : App α}
    (hbody : catalogueAccount.Minds (Ledger.At edit true [] φ) body (fun _ => Ledger.Of edit)
      (fun _ => Ledger.Of edit)) : Leaves edit tx φ (Tamoss.unitOfWork body) := by
  intro m hm
  have hbegin : (Ledger.note .begin () m).At edit true [] φ :=
    ⟨hm.edit, rfl, hm.writes, hm.knows⟩
  refine ⟨trivial, fun _ _ => ?_⟩
  change Lib.Prog.Minds _ _ ((ExceptT.run body).bind _) _
  refine Lib.Prog.Minds.bind ((hbody _ hbegin).mono ?_)
  intro r m' hm'
  cases r with
  | ok a => exact ⟨trivial, fun _ _ => ⟨hm', rfl⟩⟩
  | error e => exact ⟨trivial, fun _ _ => ⟨hm', rfl⟩⟩

end CatalogueSpec

end Tamoss
