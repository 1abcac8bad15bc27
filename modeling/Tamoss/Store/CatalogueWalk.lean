/-
  **Every operation writes flows and sources on the ground of what it has read.**
-/
import Tamoss.Store.Reads

namespace Tamoss

open Lib.Account

def CopyOf (db : Database) (f : FlowId) (flow : FlowRecord) : Prop :=
  db.metadataOf f = some flow.metadata

variable {db : Database} {flow : FlowRecord} {f : FlowId}

theorem CopyOf.row (h : CopyOf db f flow) :
    ∃ row ∈ db.flows.rows, row.id = f ∧ row.metadata = flow.metadata := by
  obtain ⟨row, hrow, hmeta⟩ := Option.map_eq_some_iff.mp h
  obtain ⟨hmem, hid⟩ := Lib.Table.get_eq_some.mp hrow
  exact ⟨row, hmem, hid, hmeta⟩

theorem FlowRecord.links_of_metadata {flow flow' : FlowRecord}
    (h : flow.metadata = flow'.metadata) : flow.id = flow'.id ∧ flow.sourceId = flow'.sourceId ∧
      flow.flowCollection = flow'.flowCollection := by
  have hdata : flow.data = flow'.data := by injection h
  have hid : flow.id = flow'.id := by injection h
  have hsource : flow.sourceId = flow'.sourceId := by injection h
  refine ⟨hid, hsource, ?_⟩
  unfold FlowRecord.flowCollection
  rw [hdata]

theorem CopyOf.id_eq (h : CopyOf db f flow) : flow.id = f := by
  obtain ⟨row, -, hid, hmeta⟩ := h.row
  exact (FlowRecord.links_of_metadata hmeta).1.symm.trans hid

theorem FlowRecord.CollectsIn.congr {flow flow' : FlowRecord}
    (h : flow.CollectsIn db) (hid : flow'.id = flow.id)
    (hitems : flow'.flowCollection = flow.flowCollection) : flow'.CollectsIn db :=
  ⟨hitems ▸ h.distinct, hitems ▸ hid ▸ h.others, hitems ▸ h.stored⟩

theorem CopyOf.collectsIn (h : CopyOf db f flow) (hdb : CollectionsOk db) : flow.CollectsIn db := by
  obtain ⟨row, hrow, -, hmeta⟩ := h.row
  obtain ⟨hid, -, hitems⟩ := FlowRecord.links_of_metadata hmeta
  exact (hdb row hrow).congr hid.symm hitems.symm

theorem CopyOf.sourcedIn (h : CopyOf db f flow) (hdb : FlowsSourced db) : flow.SourcedIn db := by
  obtain ⟨row, hrow, -, hmeta⟩ := h.row
  intro s hs
  exact hdb row hrow s ((FlowRecord.links_of_metadata hmeta).2.1.trans hs)

/-- The new record of a flow: its source is the old one, and its collection is the old one or one
    whose members are stored. -/
structure Carries (db : Database) (flow flow' : FlowRecord) : Prop where
  id : flow'.id = flow.id
  sourceId : flow'.sourceId = flow.sourceId
  collection : flow'.flowCollection = flow.flowCollection ∨ flow'.CollectsIn db

theorem allowed_of_carries {edit : Option (SourceId × SourceEdit)}
    {flow flow' : FlowRecord} (hcopy : CopyOf db f flow) (h : Carries db flow flow')
    (basis : Nat) : Allowed edit [] db (.saveFlow flow' basis) := by
  refine ⟨fun hdb => ?_, fun hdb s hs => ?_⟩
  · rcases h.collection with hsame | hnew
    · exact (hcopy.collectsIn hdb).congr h.id hsame
    · exact hnew
  · exact hcopy.sourcedIn hdb s (h.sourceId ▸ hs)

theorem allowed_of_copy {edit : Option (SourceId × SourceEdit)}
    (hcopy : CopyOf db f flow) (now : Option Time) (basis : Nat) :
    Allowed edit [] db (.saveFlow { flow with segmentsUpdated := now } basis) := by
  have hcarries : Carries db flow { flow with segmentsUpdated := now } := ⟨rfl, rfl, .inl rfl⟩
  exact allowed_of_carries hcopy hcarries basis

namespace CatalogueSpec

variable {edit : Option (SourceId × SourceEdit)} {tx : Bool} {ws : List Write}
variable {φ ψ : Database → Prop} {E : PyError → Ledger → Prop} {α : Type}

theorem requireFlow (hE : Raises E edit tx []) (f : FlowId) (toSave : Bool) :
    catalogueAccount.Minds (Ledger.At edit tx [] φ) (requireFlow f toSave)
      (fun answer => Ledger.At edit tx [] fun db => φ db ∧ CopyOf db f answer.1) E := by
  refine Minds.bind (getFlow f toSave) fun read => ?_
  cases hflow : read.flow with
  | none => exact Minds.throw fun m hm => hE _ m _ hm
  | some flow => exact Minds.pure fun m hm => hm

structure Collectable (db : Database) (f : FlowId) (seen : List FlowId)
    (items : List CollectionItem) : Prop where
  distinct : (items.map (·.id)).Nodup
  unseen : ∀ item ∈ items, item.id ∉ seen
  others : ∀ item ∈ items, item.id ≠ f
  stored : ∀ item ∈ items, (db.flows.get item.id).isSome = true

theorem validateFlowCollection (hE : Raises E edit tx ws) (f : FlowId) (seen : List FlowId)
    (items : List CollectionItem) :
    catalogueAccount.Minds (Ledger.At edit tx ws φ) (validateFlowCollection f seen items)
      (fun _ => Ledger.At edit tx ws fun db => φ db ∧
        Collectable (db.applyAll ws) f seen items) E := by
  induction items generalizing seen φ with
  | nil =>
    apply Minds.pure
    intro m hm
    exact at_mono hm fun db hφ => ⟨hφ, by simp, by simp, by simp, by simp⟩
  | cons item items ih =>
    unfold Tamoss.validateFlowCollection
    apply Minds.throwIf
    · exact fun m hm => hE _ m _ hm
    intro hnew
    refine Minds.bind (getFlow item.id false) fun child => ?_
    apply Minds.throwIf
    · exact fun m hm => hE _ m _ hm
    intro hchild
    refine Minds.post (ih (item.id :: seen)) fun _ m hm => at_mono hm ?_
    rintro db ⟨⟨hφ, hmeta⟩, hrest⟩
    rw [not_or] at hnew
    have hstored : ((db.applyAll ws).flows.get item.id).isSome = true := by
      have hsome := congrArg Option.isSome hmeta
      simp only [Database.metadataOf, Option.isSome_map] at hsome
      rw [hsome]
      simpa [Option.isSome_iff_ne_none] using hchild
    refine ⟨hφ, ?_, ?_, ?_, ?_⟩
    · rw [List.map_cons, List.nodup_cons]
      refine ⟨?_, hrest.distinct⟩
      intro hmem
      obtain ⟨other, hother, hid⟩ := List.mem_map.mp hmem
      exact hrest.unseen other hother (hid ▸ List.mem_cons_self)
    · intro other hother
      rcases List.mem_cons.mp hother with rfl | hother
      · exact hnew.2
      · exact fun hmem => hrest.unseen other hother (List.mem_cons_of_mem _ hmem)
    · intro other hother
      rcases List.mem_cons.mp hother with rfl | hother
      · exact hnew.1
      · exact hrest.others other hother
    · intro other hother
      rcases List.mem_cons.mp hother with rfl | hother
      · exact hstored
      · exact hrest.stored other hother

theorem replaceFlowCollection (hE : Raises E edit tx ws) (flow : FlowRecord)
    (items : List CollectionItem) :
    catalogueAccount.Minds (Ledger.At edit tx ws φ) (replaceFlowCollection flow items)
      (fun flow' => Ledger.At edit tx ws fun db => φ db ∧ flow'.id = flow.id ∧
        flow'.sourceId = flow.sourceId ∧ flow'.CollectsIn (db.applyAll ws)) E := by
  rw [replaceFlowCollection_eq]
  refine Minds.bind (validateFlowCollection hE flow.id [] items) fun _ => Minds.pure ?_
  intro m hm
  refine at_mono hm ?_
  rintro db ⟨hφ, hitems⟩
  refine ⟨hφ, flow.withCollection_id items, flow.withCollection_sourceId items, ?_⟩
  refine ⟨?_, ?_, ?_⟩ <;> rw [FlowRecord.flowCollection_withCollection]
  · exact hitems.distinct
  · rw [FlowRecord.withCollection_id]
    exact hitems.others
  · exact hitems.stored

variable {db : Database}

theorem carries_of_data {flow flow' : FlowRecord} (hid : flow'.id = flow.id)
    (hsource : flow'.sourceId = flow.sourceId)
    (hdata : flow'.data.get "flow_collection" = flow.data.get "flow_collection") :
    Carries db flow flow' :=
  ⟨hid, hsource, .inl (FlowData.collection_congr hdata)⟩

theorem setFlowProperty (property : FlowProperty) (value : DataValue) (flow : FlowRecord) :
    catalogueAccount.Minds (Ledger.At edit true [] φ) (setFlowProperty property value flow)
      (fun flow' => Ledger.At edit true [] fun db => φ db ∧ Carries db flow flow')
      (fun _ => Ledger.Of edit) := by
  have hset : ∀ (flow' : FlowRecord) (name : String), "flow_collection" ≠ name →
      flow'.id = flow.id → flow'.sourceId = flow.sourceId →
      flow'.data = flow.data.set name value →
      catalogueAccount.Minds (Ledger.At edit true [] φ) (Pure.pure flow' : App FlowRecord)
        (fun flow' => Ledger.At edit true [] fun db => φ db ∧ Carries db flow flow')
        (fun _ => Ledger.Of edit) := by
    intro flow' name hname hid hsource hdata
    apply Minds.pure
    intro m hm
    refine at_mono hm fun db hφ => ⟨hφ, carries_of_data hid hsource ?_⟩
    rw [hdata, FlowData.get_set_of_ne hname]
  have hthrow : ∀ e : PyError, catalogueAccount.Minds (Ledger.At edit true [] φ)
      (MonadExcept.throw e : App FlowRecord)
      (fun flow' => Ledger.At edit true [] fun db => φ db ∧ Carries db flow flow')
      (fun _ => Ledger.Of edit) := fun e => Minds.throw fun m hm => hm.edit
  have hwritable : catalogueAccount.Minds (Ledger.At edit true [] φ) (ensureFlowWritable flow)
      (fun _ => Ledger.At edit true [] φ) (fun _ => Ledger.Of edit) :=
    calm raises_of (ensureFlowWritable_calm flow)
  unfold Tamoss.setFlowProperty
  cases property with
  | label =>
    refine Minds.bind hwritable fun _ => ?_
    split
    · exact hset _ _ (FlowProperty.fieldName_ne .label) rfl rfl rfl
    · exact hthrow _
  | description =>
    refine Minds.bind hwritable fun _ => ?_
    split
    · exact hset _ _ (FlowProperty.fieldName_ne .description) rfl rfl rfl
    · exact hthrow _
  | avgBitRate =>
    refine Minds.bind hwritable fun _ => Minds.bind
      (calm raises_of (ensureBitRateEditable_calm .avgBitRate flow)) fun _ => ?_
    split
    · exact Minds.ite (fun _ => hthrow _)
        fun _ => hset _ _ (FlowProperty.fieldName_ne .avgBitRate) rfl rfl rfl
    · exact hthrow _
  | maxBitRate =>
    refine Minds.bind hwritable fun _ => Minds.bind
      (calm raises_of (ensureBitRateEditable_calm .maxBitRate flow)) fun _ => ?_
    split
    · exact Minds.ite (fun _ => hthrow _)
        fun _ => hset _ _ (FlowProperty.fieldName_ne .maxBitRate) rfl rfl rfl
    · exact hthrow _
  | readOnly =>
    dsimp only
    split
    · exact hset _ _ (FlowProperty.fieldName_ne .readOnly) rfl rfl rfl
    · exact hthrow _

theorem applyEdit (flow : FlowRecord) (change : FlowEdit) :
    catalogueAccount.Minds (Ledger.At edit true [] φ) (applyEdit flow change)
      (fun flow' => Ledger.At edit true [] fun db => φ db ∧ Carries db flow flow')
      (fun _ => Ledger.Of edit) := by
  have hpure : ∀ flow' : FlowRecord, flow'.id = flow.id → flow'.sourceId = flow.sourceId →
      flow'.data.get "flow_collection" = flow.data.get "flow_collection" →
      catalogueAccount.Minds (Ledger.At edit true [] φ) (Pure.pure flow' : App FlowRecord)
        (fun flow' => Ledger.At edit true [] fun db => φ db ∧ Carries db flow flow')
        (fun _ => Ledger.Of edit) := by
    intro flow' hid hsource hdata
    apply Minds.pure
    intro m hm
    exact at_mono hm fun db hφ => ⟨hφ, carries_of_data hid hsource hdata⟩
  cases change with
  | setProperty property value => exact setFlowProperty property value flow
  | deleteProperty property =>
    refine Minds.bind (calm raises_of (ensureFlowWritable_calm flow)) fun _ =>
      Minds.bind (calm raises_of (ensureBitRateEditable_calm property flow)) fun _ => ?_
    exact hpure _ rfl rfl (FlowData.get_pop_of_ne (FlowProperty.fieldName_ne property))
  | setTag name value =>
    refine Minds.bind (calm raises_of (ensureFlowWritable_calm flow)) fun _ => ?_
    exact hpure _ rfl rfl (FlowData.get_set_of_ne (by decide))
  | deleteTag name =>
    refine Minds.bind (calm raises_of (ensureFlowWritable_calm flow)) fun _ => ?_
    exact hpure _ rfl rfl (FlowData.get_set_of_ne (by decide))
  | setCollection items =>
    refine Minds.bind (calm raises_of (ensureFlowWritable_calm flow)) fun _ => ?_
    refine Minds.post (replaceFlowCollection raises_of flow items) fun flow' m hm => ?_
    exact at_mono hm fun db h => ⟨h.1, h.2.1, h.2.2.1, .inr h.2.2.2⟩

theorem editFlow (f : FlowId) (change : FlowEdit) (identity : Option String) :
    Leaves edit tx φ (editFlow f change identity) := by
  apply unitOfWork
  refine past raises_of trivial fun _ => ?_
  refine Minds.bind (requireFlow raises_of f true) fun ⟨flow, version⟩ => ?_
  refine Minds.bind (applyEdit flow change) fun flow' => ?_
  refine past raises_of trivial fun now => ?_
  refine past raises_of trivial fun metadataVersion => ?_
  refine Minds.post (write rfl ?_) fun _ m hm => hm.edit
  rintro db ⟨⟨-, hcopy⟩, hcarries⟩
  obtain ⟨hid, hsource, hitems⟩ := touchFlowMetadata_links now metadataVersion identity flow'
  refine allowed_of_carries hcopy ⟨hid.trans hcarries.id, hsource.trans hcarries.sourceId, ?_⟩ _
  rcases hcarries.collection with hsame | hnew
  · exact .inl (hitems.trans hsame)
  · exact .inr (hnew.congr hid hitems)

theorem editSource (s : SourceId) (change : SourceEdit) :
    catalogueAccount.Minds (Ledger.At (some (s, change)) tx [] φ) (editSource s change)
      (fun _ => Ledger.Unwritten (some (s, change)))
      (fun _ => Ledger.Unwritten (some (s, change))) := by
  apply unitOfWork
  refine past raises_of trivial fun _ => ?_
  refine Minds.bind (getSource s) fun source => ?_
  cases source with
  | none => exact Minds.throw fun m hm => hm.edit
  | some source =>
    refine past raises_of trivial fun now => ?_
    refine Minds.post (write rfl ?_) fun _ m hm => hm.edit
    rintro db ⟨-, hsource⟩ old hold
    -- the record that was read is the stored one
    have hid : source.id = s := (Lib.Table.get_eq_some.mp hsource).2
    have hedited : ({ source.edited change with metadataUpdated := now } : SourceRecord).id = s := by
      rw [← hid]
      cases change with
      | setProperty property value => cases property <;> rfl
      | deleteProperty property => cases property <;> rfl
      | setTag name value => rfl
      | deleteTag name => rfl
    rw [hedited] at hold
    obtain rfl := Option.some.inj (hsource.symm.trans hold)
    refine ⟨now, ?_⟩
    simp only [SourceRecord.after, hid, if_true]

theorem upsertSource (fc : FlowContract) (s : SourceId) (format : String) (data : FlowData) :
    catalogueAccount.Minds (Ledger.At none true [] φ) (upsertSource fc s format data)
      (fun _ m => ∃ source, m.At none true [.saveSource source] fun db =>
        φ db ∧ source.id = s) (fun _ => Ledger.Of none) := by
  refine Minds.bind (getSource s) fun found => ?_
  refine past raises_of trivial fun now => ?_
  cases found with
  | none =>
    refine Minds.post (write rfl ?_) fun _ m hm => ⟨_, at_mono hm fun db h => ⟨h.1, rfl⟩⟩
    rintro db ⟨-, hnone⟩ old hold
    cases hnone.symm.trans hold
  | some source =>
    refine Minds.ite (fun _ => Minds.throw fun m hm => hm.edit) fun _ => ?_
    have hid : ∀ db : Database, (db.applyAll []).sources.get s = some source → source.id = s :=
      fun db h => (Lib.Table.get_eq_some.mp h).2
    refine Minds.post (write rfl ?_) fun _ m hm =>
      ⟨_, at_mono hm fun db h => ⟨h.1, hid db h.2⟩⟩
    rintro db ⟨-, hsource⟩ old hold
    have hold : db.sources.get source.id = some old := hold
    rw [hid db hsource] at hold
    obtain rfl := Option.some.inj (hsource.symm.trans hold)
    exact ⟨now, rfl⟩

/-- The record that `put_flow` saves: its source has been saved, and its members are stored or
    were collected before. -/
structure Puts (f : FlowId) (s : SourceId) (existing : Option FlowRecord) (db : Database)
    (record : FlowRecord) : Prop where
  id : record.id = f
  sourceId : record.sourceId = some s
  collection : record.flowCollection = [] ∨
    (∃ flow, existing = some flow ∧ record.flowCollection = flow.flowCollection) ∨
    record.CollectsIn db

variable {f : FlowId} {existing : Option FlowRecord} {source : SourceRecord} {record : FlowRecord}
variable {basis : Nat}

theorem allowed_of_puts (hread : db.metadataOf f = existing.map FlowRecord.metadata)
    (h : Puts f source.id existing (db.applyAll [.saveSource source]) record) :
    Allowed none [.saveSource source] db (.saveFlow record basis) := by
  refine ⟨fun hdb => ?_, fun _ s hs => ?_⟩
  · rcases h.collection with hnil | ⟨flow, rfl, hsame⟩ | hnew
    · exact ⟨by simp [hnil], by simp [hnil], by simp [hnil]⟩
    · have hcopy : CopyOf db f flow := hread
      have hcollects := hcopy.collectsIn hdb
      have hid : record.id = flow.id := h.id.trans hcopy.id_eq.symm
      exact ⟨(hcollects.congr hid hsame).distinct, (hcollects.congr hid hsame).others,
        (hcollects.congr hid hsame).stored⟩
    · exact hnew
  · obtain rfl := Option.some.inj (h.sourceId.symm.trans hs)
    show ((db.sources.upsert source).get source.id).isSome = true
    rw [Lib.Table.get_upsert_self]
    rfl

theorem putCollection {s : SourceId} (hid : record.id = f) (hsource : record.sourceId = some s)
    (hitems : record.flowCollection = [] ∨
      ∃ flow, existing = some flow ∧ record.flowCollection = flow.flowCollection)
    (supplied : List String) (items : List CollectionItem) : catalogueAccount.Minds
      (Ledger.At none true [.saveSource source] fun db => φ db ∧ source.id = s)
      (if "flow_collection" ∈ supplied then Tamoss.replaceFlowCollection record items
        else Pure.pure record)
      (fun record m => ∃ source, m.At none true [.saveSource source] fun db =>
        φ db ∧ Puts f source.id existing (db.applyAll [.saveSource source]) record)
      (fun _ => Ledger.Of none) := by
  refine Minds.ite (fun _ => ?_) fun _ => ?_
  · refine Minds.post (replaceFlowCollection raises_of record items) fun record' m hm =>
      ⟨source, at_mono hm ?_⟩
    rintro db ⟨⟨hφ, rfl⟩, hid', hsource', hcollects⟩
    exact ⟨hφ, hid'.trans hid, hsource'.trans hsource, .inr (.inr hcollects)⟩
  · refine Minds.pure fun m hm => ⟨source, at_mono hm ?_⟩
    rintro db ⟨hφ, rfl⟩
    refine ⟨hφ, hid, hsource, ?_⟩
    rcases hitems with hnil | hsame
    · exact .inl hnil
    · exact .inr (.inl hsame)

theorem putRecord (fc : FlowContract) (f : FlowId) (flow : FlowData) (supplied : List String)
    (subject : String) (existing : Option FlowRecord) :
    catalogueAccount.Minds (Ledger.At none true [] φ)
      (putRecord fc f flow supplied subject existing)
      (fun record m => ∃ source, m.At none true [.saveSource source] fun db =>
        φ db ∧ Puts f source.id existing (db.applyAll [.saveSource source]) record)
      (fun _ => Ledger.Of none) := by
  have hwritable : Lib.Only Call.Calm (existing.forM ensureFlowWritable : App PUnit) := by
    cases existing with
    | none => trivial
    | some existing => exact ensureFlowWritable_calm existing
  refine Minds.bind (calm raises_of hwritable) fun _ => ?_
  refine Minds.bind (calm raises_of (applyProfile_calm fc existing supplied _))
    fun ⟨data, unlinkedFields⟩ => ?_
  dsimp only
  split
  · exact Minds.throw fun m hm => hm.edit
  rename_i data s format _
  have hpop : (data.pop "flow_collection").get "flow_collection" = none :=
    FlowData.get_pop_self data _
  refine Minds.bind (calm raises_of (ensureInitSegmentsUnchanged_calm fc f _ existing))
    fun _ => ?_
  refine Minds.bind (upsertSource fc s format _) fun _ => ?_
  rintro m ⟨source, hm⟩
  refine past raises_of (by trivial) (fun now => ?_) m hm
  refine past raises_of trivial fun version => ?_
  cases existing with
  | none =>
    obtain ⟨hid, hsource, hitems⟩ := newFlowRecord_links fc f s format subject now version hpop
    exact putCollection hid hsource (.inl hitems) supplied _
  | some existing =>
    obtain ⟨hid, hsource, hitems⟩ := replacedFlowRecord_links fc f existing s format subject
      now version (flow.get "tags").isSome unlinkedFields hpop rfl
    refine putCollection hid hsource ?_ supplied _
    rcases hitems with hsame | hnil
    · exact .inr ⟨existing, rfl, hsame⟩
    · exact .inl hnil

theorem putFlow (fc : FlowContract) (f : FlowId) (flow : FlowData)
    (suppliedFields : Option (List String)) (subject : String) :
    catalogueAccount.Minds (Ledger.At none tx [] φ) (putFlow fc f flow suppliedFields subject)
      (fun _ => Ledger.Unwritten none) (fun _ => Ledger.Unwritten none) := by
  apply unitOfWork
  refine past raises_of trivial fun _ => ?_
  unfold putFlowLocked
  split
  · exact Minds.throw fun m hm => hm.edit
  · apply Minds.throwIf
    · exact fun m hm => hm.edit
    intro _
    refine Minds.bind (getFlow f true) fun read => ?_
    refine Minds.bind (putRecord fc f flow _ subject read.flow) fun record => ?_
    rintro m ⟨source, hm⟩
    refine Minds.post (write rfl ?_) (fun _ m hm => hm.edit) m hm
    rintro db ⟨⟨-, hread⟩, hputs⟩
    exact allowed_of_puts hread hputs

variable {flow : FlowRecord}

theorem saveCopy (now : Time) (version : Nat) :
    catalogueAccount.Minds (Ledger.At edit true [] fun db => φ db ∧ CopyOf db f flow)
      (call (.write (.saveFlow { flow with segmentsUpdated := some now } version)))
      (fun _ => Ledger.At edit true [.saveFlow { flow with segmentsUpdated := some now } version]
        fun db => φ db ∧ CopyOf db f flow) E :=
  write rfl fun _ h => allowed_of_copy h.2 _ _

theorem saveRegisteredSegments {mt : MediaTimestamp}
    (now : Time) (version : Nat) (objects : List MediaObjectRecord)
    (segments : List SegmentRecord) :
    catalogueAccount.Minds (Ledger.At edit true [] fun db => φ db ∧ CopyOf db f flow)
      (saveRegisteredSegments mt { flow with segmentsUpdated := some now } version objects segments)
      (fun _ => Ledger.Of edit) (fun _ => Ledger.Of edit) := by
  refine past raises_of trivial fun _ => ?_
  refine Minds.bind (saveCopy now version) fun _ => ?_
  refine Minds.post (apart raises_of ?_) fun _ m hm => hm.edit
  refine Lib.Only.bind (Lib.Only.forM fun _ _ => only_call (by trivial)) fun _ => ?_
  refine Lib.Only.bind (Lib.only_except _) fun rows => only_step (by trivial) fun overlap => ?_
  refine Lib.only_throwIf (Lib.Only.forM fun _ _ => only_call (by trivial))

theorem registerSegments (mt : MediaTimestamp) (f : FlowId) (posts : List SegmentPostInput)
    (rd : Readings) (readings : Nat → Readings) :
    Leaves edit tx φ (registerSegments mt f posts rd readings) := by
  refine Minds.bind (calm raises_unwritten (verifyControlledUploads_calm posts rd))
    fun uploadChecks => Minds.tryCatch (unitOfWork ?_) fun e => ?_
  · refine past raises_of trivial fun _ => ?_
    refine Minds.bind (requireFlow raises_of f true) fun ⟨flow, version⟩ => ?_
    refine Minds.bind (calm raises_of (ensureFlowWritable_calm flow)) fun _ => ?_
    refine Minds.ite (fun _ => Minds.pure fun m hm => hm.edit) fun _ => ?_
    refine past raises_of trivial fun backends => ?_
    refine Minds.ite (fun _ => Minds.pure fun m hm => hm.edit) fun _ => ?_
    refine past raises_of trivial fun stored => ?_
    refine Minds.bind (apart raises_of (Lib.only_except _)) fun known => ?_
    refine Minds.bind (apart raises_of (requestedObjectIds_apart flow _)) fun requested => ?_
    refine Minds.bind (apart raises_of (lockObjects_apart requested)) fun _ => ?_
    refine past raises_of trivial fun objects => ?_
    refine Minds.bind (apart raises_of (Lib.only_except _)) fun ⟨accepted, results⟩ => ?_
    refine Minds.ite (fun _ => ?_) fun _ => Minds.pure fun m hm => hm.edit
    refine past raises_of trivial fun now => ?_
    exact Minds.bind (saveRegisteredSegments now version _ _) fun _ => Minds.pure fun m hm => hm
  · cases e <;> first | exact Minds.throw fun m hm => hm | exact Minds.pure fun m hm => hm

theorem deleteSegments (mt : MediaTimestamp) (f : FlowId) (timerange : Option String)
    (objectId : Option ObjectId) (rounds : Nat) :
    Leaves edit tx φ (deleteSegments mt f timerange objectId rounds) := by
  refine Minds.bind (requireFlow raises_unwritten f objectId.isSome) fun ⟨flow, version⟩ => ?_
  refine Minds.bind (calm raises_unwritten (ensureFlowWritable_calm flow)) fun _ => ?_
  dsimp only
  split
  · exact Minds.throw fun m hm => ⟨hm.edit, hm.writes⟩
  rename_i filter _
  refine past raises_unwritten trivial fun matching => ?_
  refine Minds.ite (fun _ => Minds.pure fun m hm => ⟨hm.edit, hm.writes⟩) fun _ => ?_
  refine Minds.ite (fun _ => unitOfWork ?_) fun _ => ?_
  · refine Minds.bind (apart raises_of (deleteMatchingSegments_apart mt filter none true rounds))
      fun _ => ?_
    refine past raises_of trivial fun now => ?_
    exact Minds.post (saveCopy now version) fun _ m hm => hm.edit
  · exact Minds.post (apart raises_unwritten (recordDeletionRequest_apart f _ false))
      fun _ m hm => ⟨hm.edit, hm.writes⟩

def unlinkWrites (f : FlowId) (parents : List (FlowRecord × Nat)) : List Write :=
  parents.filterMap fun parent => (unlinked f parent.1).map (Write.saveFlow · parent.2)

variable {parents : List (FlowRecord × Nat)}

theorem mem_unlinkWrites {w : Write} : w ∈ unlinkWrites f parents ↔ ∃ parent ∈ parents, ∃ flow,
      unlinked f parent.1 = some flow ∧ w = .saveFlow flow parent.2 := by
  simp only [unlinkWrites, List.mem_filterMap, Option.map_eq_some_iff]
  constructor
  · rintro ⟨parent, hparent, flow, hflow, rfl⟩
    exact ⟨parent, hparent, flow, hflow, rfl⟩
  · rintro ⟨parent, hparent, flow, hflow, rfl⟩
    exact ⟨parent, hparent, flow, hflow, rfl⟩

structure FlowsSaved (db db' : Database) (ws : List Write) : Prop where
  sources : db'.sources = db.sources
  stored : ∀ f, (db.flows.get f).isSome = true → (db'.flows.get f).isSome = true
  rows : ∀ flow ∈ db'.flows.rows, (∃ basis, .saveFlow flow basis ∈ ws) ∨
    (flow ∈ db.flows.rows ∧ ∀ flow' basis, .saveFlow flow' basis ∈ ws → flow'.id ≠ flow.id)

theorem flowsSaved {ws : List Write} (hws : ∀ w ∈ ws, ∃ flow basis, w = .saveFlow flow basis)
    (db : Database) : FlowsSaved db (db.applyAll ws) ws := by
  induction ws generalizing db with
  | nil => exact ⟨rfl, fun _ h => h, fun flow h => .inr ⟨h, by simp⟩⟩
  | cons w ws ih =>
    obtain ⟨saved, basis, rfl⟩ := hws w List.mem_cons_self
    have hrest := ih (fun x hx => hws x (List.mem_cons_of_mem _ hx))
      ((Write.saveFlow saved basis).apply db)
    refine ⟨hrest.sources, fun f hf => hrest.stored f (get_isSome_upsert hf), ?_⟩
    intro flow hflow
    rcases hrest.rows flow hflow with ⟨b, hb⟩ | ⟨hold, hne⟩
    · exact .inl ⟨b, List.mem_cons_of_mem _ hb⟩
    · rcases Lib.Table.mem_upsert.mp hold with ⟨hdb, hid⟩ | rfl
      · refine .inr ⟨hdb, ?_⟩
        intro flow' b hb
        rcases List.mem_cons.mp hb with heq | hb
        · cases heq
          exact Ne.symm hid
        · exact hne flow' b hb
      · exact .inl ⟨basis, List.mem_cons_self⟩

theorem unlinkWrites_saves (f : FlowId) (parents : List (FlowRecord × Nat)) :
    ∀ w ∈ unlinkWrites f parents, ∃ flow basis, w = .saveFlow flow basis := by
  intro w hw
  obtain ⟨parent, -, flow, -, rfl⟩ := mem_unlinkWrites.mp hw
  exact ⟨flow, parent.2, rfl⟩

theorem allowed_of_unlinked {f g : FlowId} {parent flow : FlowRecord}
    {done : List (FlowRecord × Nat)} (hcopy : CopyOf db g parent)
    (h : unlinked f parent = some flow) :
    Allowed edit (unlinkWrites f done) db (.saveFlow flow basis) := by
  have hsaved := flowsSaved (unlinkWrites_saves f done) db
  obtain rfl := unlinked_eq_some h
  refine ⟨fun hdb => ?_, fun hdb s hs => ?_⟩
  · have hcollects := hcopy.collectsIn hdb
    refine ⟨?_, ?_, ?_⟩ <;> rw [FlowRecord.flowCollection_withCollection]
    · exact hcollects.distinct.sublist (List.filter_sublist.map _)
    · intro item hitem
      rw [FlowRecord.withCollection_id]
      exact hcollects.others item (List.mem_filter.mp hitem).1
    · intro item hitem
      exact hsaved.stored _ (hcollects.stored item (List.mem_filter.mp hitem).1)
  · rw [FlowRecord.withCollection_sourceId] at hs
    rw [hsaved.sources]
    exact hcopy.sourcedIn hdb s hs

def Listed (db : Database) (f : FlowId) (parents : List (FlowRecord × Nat)) : Prop :=
  (db.listFlowsCollecting f).map FlowRecord.metadata =
    (parents.map (·.1)).map FlowRecord.metadata

theorem mem_listFlowsCollecting : flow ∈ db.listFlowsCollecting f ↔
      flow ∈ db.flows.rows ∧ ∃ item ∈ flow.flowCollection, item.id = f := by
  unfold Database.listFlowsCollecting
  rw [(List.perm_insertionSort _ _).mem_iff, List.mem_filter, List.any_eq_true]
  simp

theorem Listed.copyOf
    (h : Listed db f parents) {parent : FlowRecord × Nat} (hparent : parent ∈ parents) :
    CopyOf db parent.1.id parent.1 := by
  have hmem : parent.1.metadata ∈ (parents.map (·.1)).map FlowRecord.metadata :=
    List.mem_map_of_mem (List.mem_map_of_mem hparent)
  rw [← h] at hmem
  obtain ⟨row, hrow, hmeta⟩ := List.mem_map.mp hmem
  have hget : db.flows.get parent.1.id = some row := by
    rw [Lib.Table.get_eq_some]
    exact ⟨(mem_listFlowsCollecting.mp hrow).1, (FlowRecord.links_of_metadata hmeta).1⟩
  show (db.flows.get parent.1.id).map FlowRecord.metadata = some parent.1.metadata
  rw [hget, Option.map_some, hmeta]

theorem Listed.unlinked (h : Listed db f parents) :
    ∀ flow ∈ (db.applyAll (unlinkWrites f parents)).flows.rows, flow.id ≠ f →
      ∀ item ∈ flow.flowCollection, item.id ≠ f := by
  intro flow hflow hne item hitem hid
  rcases (flowsSaved (unlinkWrites_saves f parents) db).rows flow hflow with
    ⟨basis, hsaved⟩ | ⟨hold, hunsaved⟩
  · obtain ⟨parent, -, flow', hunlinked, heq⟩ := mem_unlinkWrites.mp hsaved
    cases heq
    rw [unlinked_eq_some hunlinked, FlowRecord.flowCollection_withCollection] at hitem
    exact of_decide_eq_true (List.mem_filter.mp hitem).2 hid
  · -- the row collects `f`, so it was listed; it was saved, or does not collect `f`
    have hlisted : flow.metadata ∈ (db.listFlowsCollecting f).map FlowRecord.metadata :=
      List.mem_map_of_mem (mem_listFlowsCollecting.mpr ⟨hold, item, hitem, hid⟩)
    rw [h, List.map_map] at hlisted
    obtain ⟨parent, hparent, hmeta⟩ := List.mem_map.mp hlisted
    obtain ⟨hpid, -, hitems⟩ := FlowRecord.links_of_metadata hmeta
    cases hunlinked : Tamoss.unlinked f parent.1 with
    | none =>
      exact unlinked_eq_none hunlinked (hpid ▸ hne) item (hitems ▸ hitem) hid
    | some flow' =>
      have hsaved : Write.saveFlow flow' parent.2 ∈ unlinkWrites f parents :=
        mem_unlinkWrites.mpr ⟨parent, hparent, flow', hunlinked, rfl⟩
      refine hunsaved flow' parent.2 hsaved ?_
      rw [unlinked_eq_some hunlinked, FlowRecord.withCollection_id]
      exact hpid

theorem unlinkRounds (f : FlowId) (parents done todo : List (FlowRecord × Nat))
    (hparents : parents = done ++ todo) : catalogueAccount.Minds
      (Ledger.At edit true (unlinkWrites f done) fun db => Listed db f parents)
      (todo.forM fun (parent, version) => match unlinked f parent with
        | none => Pure.pure ()
        | some parent => call (.write (.saveFlow parent version)))
      (fun _ => Ledger.At edit true (unlinkWrites f parents) fun db => Listed db f parents)
      (fun _ => Ledger.Of edit) := by
  induction todo generalizing done with
  | nil =>
    rw [List.append_nil] at hparents
    exact hparents ▸ Minds.pure fun m hm => hm
  | cons parent todo ih =>
    have hmem : parent ∈ parents := by simp [hparents]
    have hnext := ih (done ++ [parent]) (by simp [hparents])
    have hwrites : unlinkWrites f (done ++ [parent]) = unlinkWrites f done ++
        ((Tamoss.unlinked f parent.1).map (Write.saveFlow · parent.2)).toList := by
      unfold unlinkWrites
      rw [List.filterMap_append]
      cases hunlinked : Tamoss.unlinked f parent.1 <;> simp [hunlinked]
    refine Minds.bind ?_ fun _ => hnext
    rw [hwrites]
    obtain ⟨parent, version⟩ := parent
    dsimp only
    cases hunlinked : Tamoss.unlinked f parent with
    | none =>
      refine Minds.pure fun m hm => ?_
      simpa using hm
    | some flow => exact write rfl fun db h => allowed_of_unlinked (h.copyOf hmem) hunlinked

theorem unlinkFlowCollectionReferences (f : FlowId) :
    catalogueAccount.Minds (Ledger.At edit true [] φ) (unlinkFlowCollectionReferences f)
      (fun _ m => ∃ parents, m.At edit true (unlinkWrites f parents) fun db =>
        Listed db f parents) (fun _ => Ledger.Of edit) := by
  refine Minds.bind (listFlowsCollecting f) fun parents => ?_
  refine Minds.conseq (unlinkRounds f parents [] parents rfl) ?_ (fun _ m hm => ⟨parents, hm⟩)
    fun _ _ h => h
  exact fun m hm => at_mono hm fun db h => h.2

theorem deleteOrphanSource (sourceId : Option SourceId) :
    catalogueAccount.Minds (Ledger.At edit true ws φ) (deleteOrphanSource sourceId)
      (fun _ => Ledger.Of edit) (fun _ => Ledger.Of edit) := by
  unfold Tamoss.deleteOrphanSource
  split
  · exact Minds.pure fun m hm => hm.edit
  · rename_i s
    refine Minds.bind (listFlowsBySource s) fun flows => ?_
    refine Minds.ite (fun hempty => ?_) fun _ => Minds.pure fun m hm => hm.edit
    refine past raises_of trivial fun _ => ?_
    refine Minds.post (write rfl ?_) fun _ m hm => hm.edit
    rintro db ⟨-, hlisted, -⟩ flow hflow hs
    have hmem := hlisted flow (List.mem_filter.mpr ⟨hflow, by simpa using hs⟩)
    rw [List.isEmpty_iff.mp hempty] at hmem
    cases hmem

theorem removeFlow (flow : FlowRecord) (f : FlowId) :
    catalogueAccount.Minds (Ledger.At edit true [] φ) (removeFlow flow f)
      (fun _ => Ledger.Of edit) (fun _ => Ledger.Of edit) := by
  refine Minds.bind (unlinkFlowCollectionReferences f) fun _ => ?_
  rintro m ⟨parents, hm⟩
  refine Minds.bind (write rfl ?_) (fun _ => deleteOrphanSource flow.sourceId) m hm
  exact fun db h => h.unlinked

theorem deleteFlow (f : FlowId) : Leaves edit tx φ (deleteFlow f) := by
  refine Minds.bind (requireFlow raises_unwritten f false) fun ⟨flow, version⟩ => ?_
  refine Minds.bind (calm raises_unwritten (ensureFlowWritable_calm flow)) fun _ => ?_
  refine past raises_unwritten trivial fun timerange => ?_
  refine Minds.ite (fun _ => unitOfWork (removeFlow flow f)) fun _ => ?_
  exact Minds.post (apart raises_unwritten (recordDeletionRequest_apart f timerange true))
    fun _ m hm => ⟨hm.edit, hm.writes⟩

theorem processFlowDeleteRequest (mt : MediaTimestamp) (request : DeletionRequestRecord)
    (filter : SegmentDeleteFilter) (rounds : Nat) :
    catalogueAccount.Minds (Ledger.At edit true [] φ)
      (processFlowDeleteRequest mt request filter rounds) (fun _ => Ledger.Of edit)
      (fun _ => Ledger.Of edit) := by
  refine Minds.bind (apart raises_of
    (deleteMatchingSegments_apart mt filter (some request.id) false rounds)) fun remaining => ?_
  refine Minds.ite (fun _ => Minds.pure fun m hm => hm.edit) fun _ => ?_
  refine Minds.bind (getFlow request.flowId false) fun read => ?_
  cases read.flow with
  | none => exact Minds.pure fun m hm => hm.edit
  | some flow =>
    exact Minds.bind (removeFlow flow request.flowId) fun _ => Minds.pure fun m hm => hm

theorem processSegmentDeleteRequest (mt : MediaTimestamp) (request : DeletionRequestRecord)
    (filter : SegmentDeleteFilter) (rounds : Nat) :
    catalogueAccount.Minds (Ledger.At edit true [] φ)
      (processSegmentDeleteRequest mt request filter rounds) (fun _ => Ledger.Of edit)
      (fun _ => Ledger.Of edit) := by
  refine Minds.bind (getFlow request.flowId true) fun read => ?_
  cases read.flow with
  | none => exact Minds.pure fun m hm => hm.edit
  | some flow =>
    refine Minds.bind (apart raises_of
      (deleteMatchingSegments_apart mt filter (some request.id) false rounds)) fun remaining => ?_
    refine past raises_of trivial fun now => ?_
    refine Minds.bind (saveCopy (f := request.flowId) now read.version) fun _ => ?_
    exact Minds.pure fun m hm => hm.edit

theorem applyDeleteMetadata (mt : MediaTimestamp) (requestId : QueueId) (rounds : Nat) :
    Leaves edit tx φ (applyDeleteMetadata mt requestId rounds) := by
  apply unitOfWork
  refine past raises_of trivial fun found => ?_
  cases found with
  | none => exact Minds.pure fun m hm => hm.edit
  | some request =>
    refine Minds.ite (fun _ => Minds.pure fun m hm => hm.edit) fun _ => ?_
    refine past raises_of trivial fun now => ?_
    refine past raises_of trivial fun _ => ?_
    dsimp only
    split
    · exact Minds.pure fun m hm => hm.edit
    · refine Minds.bind (apart raises_of (Lib.only_except _)) fun filter => ?_
      have hdone : ∀ k : Option String → App (Option DeletionRequestRecord),
          (∀ remaining, Lib.Only Call.Apart (k remaining)) → ∀ remaining,
          catalogueAccount.Minds (Ledger.Of edit) (k remaining) (fun _ => Ledger.Of edit)
            (fun _ => Ledger.Of edit) := fun k hk remaining => rest (hk remaining)
      refine Minds.ite (fun _ => ?_) fun _ => ?_
      · refine Minds.bind (processFlowDeleteRequest mt _ filter rounds) (hdone _ ?_)
        exact fun remaining => only_step (by trivial) fun now =>
          only_step (by trivial) fun _ => trivial
      · refine Minds.bind (processSegmentDeleteRequest mt _ filter rounds) (hdone _ ?_)
        exact fun remaining => only_step (by trivial) fun now =>
          only_step (by trivial) fun _ => trivial

theorem processDeleteRequest (mt : MediaTimestamp) (requestId : QueueId) (rounds : Nat) :
    Leaves edit tx φ (processDeleteRequest mt requestId rounds) := by
  have hactive : Leaves edit tx φ (processActiveDeleteRequest mt requestId rounds) := by
    refine Minds.bind (applyDeleteMetadata mt requestId rounds) fun request =>
      keeps (Lib.Only.mono (fun _ hc => hc.keepsCatalogue.keepsLinks) (?_ : Lib.Only Call.Aside _))
    cases request with
    | none => trivial
    | some request =>
      refine only_step trivial fun cleanups => Lib.Only.bind (processObjectCleanups_aside _)
        fun _ => ?_
      split
      · exact releaseDeleteRequestClaim_aside _
      · exact markDeleteRequestDone_aside _
  refine past raises_unwritten trivial fun request => ?_
  cases request with
  | none => exact Minds.pure fun m hm => ⟨hm.edit, hm.writes⟩
  | some request =>
    refine Minds.ite (fun _ => Minds.pure fun m hm => ⟨hm.edit, hm.writes⟩) fun _ => ?_
    refine Minds.tryCatch hactive fun e =>
      keeps (Lib.Only.mono (fun _ hc => hc.keepsCatalogue.keepsLinks) (?_ : Lib.Only Call.Aside _))
    cases e <;> exact markDeleteRequestError_aside _ _

variable {p : App Unit}

theorem keepsLinks (hp : Lib.Only Call.KeepsLinks p) : Leaves edit tx φ p :=
  Minds.pre (keeps hp) fun _ hm => ⟨hm.edit, hm.writes⟩

theorem keepsCatalogue (hp : Lib.Only Call.KeepsCatalogue p) : Leaves edit tx φ p :=
  keepsLinks (hp.mono fun _ hc => hc.keepsLinks)

end CatalogueSpec

theorem operation_catalogue (mt : MediaTimestamp) (fc : FlowContract) (op : Op) :
    catalogueAccount.Minds (Ledger.At op.sourceEdit false [] fun _ => True) (operation mt fc op)
      (fun _ => Ledger.Unwritten op.sourceEdit) (fun _ => Ledger.Unwritten op.sourceEdit) := by
  cases op with
  | registerSegments f posts rd readings =>
    exact Minds.bind (CatalogueSpec.registerSegments mt f posts rd readings) fun _ => Minds.pure fun m hm => hm
  | deleteSegments f timerange objectId rounds =>
    exact CatalogueSpec.deleteSegments mt f timerange objectId rounds
  | deleteFlow f => exact CatalogueSpec.deleteFlow f
  | processDeleteRequest requestId rounds => exact CatalogueSpec.processDeleteRequest mt requestId rounds
  | putFlow f flow suppliedFields subject => exact CatalogueSpec.putFlow fc f flow suppliedFields subject
  | editFlow f change identity => exact CatalogueSpec.editFlow f change identity
  | allocateFlowStorage settings f request rounds =>
    exact CatalogueSpec.keepsCatalogue (allocateFlowStorage_keepsCatalogue settings f request rounds)
  | registerObjectInstance o url label =>
    exact CatalogueSpec.keepsCatalogue (registerObjectInstance_keepsCatalogue o url label)
  | queueControlledObjectCopy o destination =>
    exact CatalogueSpec.keepsCatalogue (queueControlledObjectCopy_keepsCatalogue o destination)
  | deleteObjectInstance o storageId label =>
    exact CatalogueSpec.keepsCatalogue (deleteObjectInstance_keepsCatalogue o storageId label)
  | runObjectCopy copy => exact CatalogueSpec.keepsCatalogue (runObjectCopy_keepsCatalogue copy)
  | processObjectCleanups cleanups =>
    exact CatalogueSpec.keepsCatalogue (only_keepsCatalogue_of_aside (processObjectCleanups_aside cleanups))
  | queueStaleAllocatedObjectCleanups before maxObjects =>
    exact CatalogueSpec.keepsCatalogue (queueStaleAllocatedObjectCleanups_keepsCatalogue before maxObjects)
  | editSource s change => exact CatalogueSpec.editSource s change
  | createProfile p payload =>
    exact CatalogueSpec.keepsLinks
      (only_keepsLinks_of_onProfiles (createProfile_onProfiles fc p payload))
  | ensureProfile p payload =>
    exact CatalogueSpec.keepsLinks
      (only_keepsLinks_of_onProfiles (ensureProfile_onProfiles fc p payload))
  | deleteProfileIfUnused p =>
    exact CatalogueSpec.keepsLinks
      (only_keepsLinks_of_onProfiles (deleteProfileIfUnused_onProfiles p))

end Tamoss
