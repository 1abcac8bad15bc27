/-
  **Which fields of a flow an operation changes.**
-/
import Tamoss.Store.Flows

namespace Tamoss

namespace FlowData

variable {data : FlowData} {name other : String} {value : DataValue}

@[simp] theorem get_nil : FlowData.get [] name = none := rfl

theorem get_cons (entry : String × DataValue) (data : FlowData) :
    FlowData.get (entry :: data) name =
      if entry.1 = name then some entry.2 else data.get name := by
  unfold FlowData.get
  by_cases h : entry.1 = name <;> simp [h]

theorem get_append (data data' : FlowData) :
    FlowData.get (data ++ data') name = (data.get name).or (FlowData.get data' name) := by
  unfold FlowData.get
  rw [List.find?_append, Option.map_or]

@[simp] theorem get_pop_self (data : FlowData) (name : String) :
    (data.pop name).get name = none := by
  unfold FlowData.get FlowData.pop
  rw [List.find?_eq_none.mpr]
  · rfl
  · intro entry hentry
    simpa using (List.mem_filter.mp hentry).2

theorem get_pop_of_ne (h : name ≠ other) : (data.pop other).get name = data.get name := by
  induction data with
  | nil => rfl
  | cons entry data ih =>
    have hpop : FlowData.pop (entry :: data) other =
        if entry.1 = other then FlowData.pop data other else entry :: FlowData.pop data other := by
      unfold FlowData.pop
      by_cases hentry : entry.1 = other <;> simp [hentry]
    rw [hpop]
    split
    · rename_i hentry
      rw [ih, get_cons, if_neg fun heq => h (heq.symm.trans hentry)]
    · rw [get_cons, get_cons, ih]

@[simp] theorem get_set_self (data : FlowData) (name : String) (value : DataValue) :
    (data.set name value).get name = some value := by
  unfold FlowData.set
  rw [get_append, get_pop_self, get_cons, if_pos rfl]
  rfl

theorem get_set_of_ne (h : name ≠ other) : (data.set other value).get name = data.get name := by
  unfold FlowData.set
  rw [get_append, get_pop_of_ne h, get_cons, if_neg fun heq => h heq.symm, get_nil,
    Option.or_none]

theorem get_setdefault_of_ne (h : name ≠ other) :
    (data.setdefault other value).get name = data.get name := by
  unfold FlowData.setdefault
  split
  · rfl
  · exact get_set_of_ne h

theorem get_merge (data other : FlowData) :
    (data.merge other).get name = (FlowData.get other.reverse name).or (data.get name) := by
  unfold FlowData.merge
  induction other generalizing data with
  | nil => rfl
  | cons entry other ih =>
    rw [List.foldl_cons, ih, List.reverse_cons, get_append, Option.or_assoc, get_cons, get_nil]
    by_cases h : entry.1 = name
    · subst h
      simp
    · rw [get_set_of_ne (Ne.symm h), if_neg h, Option.none_or]

theorem get_reverse_eq_none : FlowData.get data.reverse name = none ↔ data.get name = none := by
  simp [FlowData.get]

theorem get_merge_of_none {other : FlowData} (h : other.get name = none) :
    (data.merge other).get name = data.get name := by
  rw [get_merge, get_reverse_eq_none.mpr h, Option.none_or]

theorem get_foldl_pop (fields : List String) (data : FlowData) :
    (fields.foldl FlowData.pop data).get name =
      if name ∈ fields then none else data.get name := by
  induction fields generalizing data with
  | nil => rfl
  | cons field fields ih =>
    rw [List.foldl_cons, ih]
    by_cases h : name = field
    · subst h
      simp
    · simp only [List.mem_cons, h, false_or, get_pop_of_ne h]

end FlowData

def FlowData.collection (data : FlowData) : List CollectionItem :=
  match data.get "flow_collection" with
  | some (.collection items) => items
  | _ => []

theorem FlowRecord.flowCollection_eq (flow : FlowRecord) :
    flow.flowCollection = flow.data.collection := rfl

theorem FlowData.collection_congr {data data' : FlowData}
    (h : data'.get "flow_collection" = data.get "flow_collection") :
    data'.collection = data.collection := by
  unfold FlowData.collection
  rw [h]

theorem FlowData.collection_eq_nil {data : FlowData} (h : data.get "flow_collection" = none) :
    data.collection = [] := by
  unfold FlowData.collection
  rw [h]

theorem FlowProperty.fieldName_ne (property : FlowProperty) :
    "flow_collection" ≠ property.fieldName := by
  cases property <;> decide

theorem touchFlowMetadata_links (now : Time) (version : Nat) (identity : Option String)
    (flow : FlowRecord) : (touchFlowMetadata now version identity flow).id = flow.id ∧
      (touchFlowMetadata now version identity flow).sourceId = flow.sourceId ∧
      (touchFlowMetadata now version identity flow).flowCollection = flow.flowCollection := by
  refine ⟨rfl, rfl, ?_⟩
  apply FlowData.collection_congr
  cases identity with
  | none =>
    show ((flow.data.set _ _).set _ _).get _ = _
    rw [FlowData.get_set_of_ne (by decide), FlowData.get_set_of_ne (by decide)]
  | some subject =>
    show (((flow.data.set _ _).set _ _).set _ _).get _ = _
    rw [FlowData.get_set_of_ne (by decide), FlowData.get_set_of_ne (by decide),
      FlowData.get_set_of_ne (by decide)]

def FlowRecord.withCollection (flow : FlowRecord) (items : List CollectionItem) : FlowRecord :=
  if items.isEmpty then { flow with data := flow.data.pop "flow_collection" }
  else { flow with data := flow.data.set "flow_collection" (.collection items) }

@[simp] theorem FlowRecord.withCollection_id (flow : FlowRecord) (items : List CollectionItem) :
    (flow.withCollection items).id = flow.id := by
  unfold FlowRecord.withCollection
  split <;> rfl

@[simp] theorem FlowRecord.withCollection_sourceId (flow : FlowRecord)
    (items : List CollectionItem) : (flow.withCollection items).sourceId = flow.sourceId := by
  unfold FlowRecord.withCollection
  split <;> rfl

@[simp] theorem FlowRecord.flowCollection_withCollection (flow : FlowRecord)
    (items : List CollectionItem) : (flow.withCollection items).flowCollection = items := by
  unfold FlowRecord.withCollection
  split
  · rename_i hitems
    rw [FlowRecord.flowCollection_eq, FlowData.collection_eq_nil (FlowData.get_pop_self _ _)]
    exact (List.isEmpty_iff.mp hitems).symm
  · simp [FlowRecord.flowCollection_eq, FlowData.collection]

theorem replaceFlowCollection_eq (flow : FlowRecord) (items : List CollectionItem) :
    replaceFlowCollection flow items =
      (validateFlowCollection flow.id [] items >>= fun _ => pure (flow.withCollection items)) := by
  unfold replaceFlowCollection FlowRecord.withCollection
  split <;> rfl

variable {f : FlowId}

theorem unlinked_eq_some {parent parent' : FlowRecord} (h : unlinked f parent = some parent') :
    parent' = parent.withCollection (parent.flowCollection.filter (·.id ≠ f)) := by
  unfold unlinked at h
  split at h
  · cases h
  · dsimp only at h
    split at h
    · cases h
    · unfold FlowRecord.withCollection
      split at h
      · rename_i hempty
        rw [if_pos hempty]
        exact (Option.some.inj h).symm
      · rename_i hempty
        rw [if_neg hempty]
        exact (Option.some.inj h).symm

theorem unlinked_eq_none {parent : FlowRecord} (h : unlinked f parent = none)
    (hne : parent.id ≠ f) : ∀ item ∈ parent.flowCollection, item.id ≠ f := by
  unfold unlinked at h
  rw [if_neg hne] at h
  dsimp only at h
  split at h
  · rename_i hlength
    intro item hitem
    have hall := List.length_filter_eq_length_iff.mp hlength item hitem
    simpa using hall
  · split at h <;> cases h

variable (fc : FlowContract)

theorem newFlowRecord_links (f : FlowId) (s : SourceId) (format subject : String) (now : Time)
    (version : Nat) {data : FlowData} (hdata : data.get "flow_collection" = none) :
    (newFlowRecord fc f s format subject now version data).id = f ∧
      (newFlowRecord fc f s format subject now version data).sourceId = some s ∧
      (newFlowRecord fc f s format subject now version data).flowCollection = [] := by
  refine ⟨rfl, rfl, ?_⟩
  apply FlowData.collection_eq_nil
  show ((((data.setdefault _ _).setdefault _ _).setdefault _ _).set _ _).get _ = none
  rw [FlowData.get_set_of_ne (by decide), FlowData.get_setdefault_of_ne (by decide),
    FlowData.get_setdefault_of_ne (by decide), FlowData.get_setdefault_of_ne (by decide), hdata]

theorem replacedFlowRecord_links (f : FlowId) (existing : FlowRecord) (s : SourceId)
    (format subject : String) (now : Time) (version : Nat) (tagsSupplied : Bool)
    (unlinkedFields : Option (List String)) {data : FlowData}
    (hdata : data.get "flow_collection" = none) {record : FlowRecord}
    (hrecord : record = replacedFlowRecord fc f existing s format subject now version
      tagsSupplied unlinkedFields data) : record.id = f ∧ record.sourceId = some s ∧
      (record.flowCollection = existing.flowCollection ∨ record.flowCollection = []) := by
  refine ⟨by rw [hrecord]; rfl, by rw [hrecord]; rfl, ?_⟩
  -- the fields that are written over do not include the collection
  let written := (((data.setdefault "created" ((existing.data.get "created").getD
    (.instant existing.created))).set "metadata_updated" (.instant now)).set
    "metadata_version" (.uuid version)).set "updated_by" (.text subject)
  have hwritten : written.get "flow_collection" = none := by
    rw [FlowData.get_set_of_ne (by decide), FlowData.get_set_of_ne (by decide),
      FlowData.get_set_of_ne (by decide), FlowData.get_setdefault_of_ne (by decide), hdata]
  obtain ⟨kept, hkept, hdata⟩ : ∃ kept, (kept = existing.data ∨ ∃ fields, kept =
      (fields ++ technicalFlowFields ++ ["profile_id"]).foldl FlowData.pop existing.data) ∧
      record.data = if tagsSupplied
        then ((kept.merge written).pop "collected_by").set "tags" (.tags (fc.tagsField data))
        else ((kept.merge written).pop "collected_by").pop "tags" := by
    rw [hrecord]
    cases unlinkedFields with
    | none => exact ⟨_, .inl rfl, rfl⟩
    | some fields => exact ⟨_, .inr ⟨fields, rfl⟩, rfl⟩
  have hstored : record.data.get "flow_collection" = kept.get "flow_collection" := by
    rw [hdata]
    split
    · rw [FlowData.get_set_of_ne (by decide), FlowData.get_pop_of_ne (by decide),
        FlowData.get_merge_of_none hwritten]
    · rw [FlowData.get_pop_of_ne (by decide), FlowData.get_pop_of_ne (by decide),
        FlowData.get_merge_of_none hwritten]
  rcases hkept with rfl | ⟨fields, rfl⟩
  · exact .inl (FlowData.collection_congr hstored)
  · rw [FlowData.get_foldl_pop] at hstored
    split at hstored
    · exact .inr (FlowData.collection_eq_nil hstored)
    · exact .inl (FlowData.collection_congr hstored)

end Tamoss
