/-
  **The migration to TAMS 8.2 makes the flow columns agree with the flow documents.**

  `upgrade` is the chain of guarded rewrites that revision `20260810_0007` runs over every flow
  row.
-/
import Tamoss.Lib.Json

namespace Tamoss.Migrations

open Lib

/-- What the database and Python make of texts and numbers. -/
structure Values (Instant : Type) where
  /-- `text::timestamptz`, `none` when the cast fails -/
  timestamptz : String → Option Instant
  toJsonb : Instant → Json
  /-- the text of an array or an object -/
  spell : Json → String
  isZero : String → Bool

variable {Instant : Type} (v : Values Instant)

/-! ## Operators on `jsonb` -/

/-- `value -> key`; `none` is the null of SQL. -/
def field (key : String) : Option Json → Option Json
  | some (.obj ms) => Members.get key ms
  | _ => none

/-- `value ->> key` -/
def fieldText (key : String) (value : Option Json) : Option String :=
  match field key value with
  | none | some .null => none
  | some (.bool b) => some (if b then "true" else "false")
  | some (.num spelling) => some spelling
  | some (.str text) => some text
  | some other => some (v.spell other)

/-- `value - key`: a member of an object or the equal strings of an array; a scalar is
    refused. -/
def without (key : String) : Json → Option Json
  | .obj ms => some (.obj (Members.erase key ms))
  | .arr items => some (.arr (items.filter (· ≠ .str key)))
  | _ => none

def merge (ms new : Members) : Members := new.foldl (fun ms m => Members.set m.1 m.2 ms) ms

/-- `value || jsonb_build_object(…)` -/
def concat (value : Json) (new : Members) : Json :=
  match value with
  | .obj ms => .obj (merge ms new)
  | .arr items => .arr (items ++ [.obj new])
  | other => .arr [other, .obj new]

/-- `jsonb_set` without creating what is missing; all the callers go through objects. -/
def jsonbSet (value : Json) : List String → Json → Json
  | [], _ => value
  | key :: path, .obj ms =>
    match Members.get key ms with
    | some old => .obj (Members.set key (jsonbSet value path old) ms)
    | none => .obj ms
  | _ :: _, other => other

/-! ## The upgrade -/

/-- A row of `tamoss_flows` before the revision. -/
structure LegacyFlow (Instant : Type) where
  id : Nat
  format : String
  record : Members
  createdAt : Instant

/-- The row with the columns that the revision adds. -/
structure FlowRow (Instant : Type) extends LegacyFlow Instant where
  profileId : Option String := none
  status : Option String := none
  initSegments : Bool := false
  created : Option Instant := none

def image : String := "urn:x-tam:format:image"

/-- The formats of the clause `format NOT IN (…)` -/
def segmented : List String :=
  ["urn:x-nmos:format:video", "urn:x-nmos:format:audio", "urn:x-nmos:format:data",
    "urn:x-nmos:format:multi"]

def statuses : List String :=
  ["awaiting_content", "ingesting", "replication_in_progress", "closed_complete"]

/-- `normalized`: the status, if it is one of the contract -/
def normalizedStatus (data : Option Json) : Option String :=
  (fieldText v "status" data).filter (· ∈ statuses)

/-- `normalized`: `init_segments` by format, stored segments and the flow's document -/
def normalizedInitSegments (format : String) (stored : Bool) (data : Option Json) : Bool :=
  if format ∉ segmented then false
  else if stored then false
  else match field "init_segments" (field "essence_parameters" data) with
    | some (.bool b) => b
    | some (.str text) => if text ∈ ["true", "false"] then text = "true" else false
    | _ => false

/-- `COALESCE(NULLIF(created, '')::timestamptz, created_at)` -/
def normalizedCreated (row : LegacyFlow Instant) : Option Instant :=
  match fieldText v "created" (Members.get "data" row.record) with
  | none | some "" => some row.createdAt
  | some text => v.timestamptz text

/-- `status_data`: the status is written into the document, or removed from it -/
def dataWithStatus (status : Option String) (data : Json) : Option Json :=
  match status with
  | none => without "status" data
  | some s => some (concat data [("status", .str s)])

/-- The `CASE` of `canonical`. -/
def withInitSegments (format : String) (initSegments : Bool) (data : Json) : Json :=
  match field "essence_parameters" (some data) with
  | some (.obj essence) =>
    if format = image then
      jsonbSet (.obj (Members.erase "init_segments" essence)) ["essence_parameters"] data
    else if format ∈ segmented ∧ (Members.get "init_segments" essence).isSome then
      jsonbSet (.bool initSegments) ["essence_parameters", "init_segments"] data
    else data
  | _ => data

/-- `canonical`: the document that the flow keeps -/
def canonicalData (format : String) (status : Option String) (initSegments : Bool)
    (created : Json) (data : Json) : Option Json := do
  let dataWithProfile ← without "profile_id" data
  let data ← dataWithStatus status dataWithProfile
  return concat (withInitSegments format initSegments data) [("created", created)]

def textOrNull : Option String → Json
  | some text => .str text
  | none => .null

def FlowRow.set (row : FlowRow Instant) (status : Option String) (initSegments : Bool)
    (created : Instant) (data : Option Json) : FlowRow Instant :=
  { row with
    profileId := none
    status
    initSegments
    record := merge row.record
      [("data", data.getD .null), ("profile_id", .null), ("status", textOrNull status),
        ("init_segments", .bool initSegments), ("created", v.toJsonb created)]
    created := some created }

/-- The update of one flow; `none` when an operator or a cast refuses it. -/
def migrate (stored : Bool) (row : FlowRow Instant) : Option (FlowRow Instant) :=
  let source := Members.get "data" row.record
  let status := normalizedStatus v source
  let initSegments := normalizedInitSegments row.format stored source
  (normalizedCreated v row.toLegacyFlow).bind fun created =>
    match source with
    | none => some (row.set v status initSegments created none)
    | some data =>
      (canonicalData row.format status initSegments (v.toJsonb created) data).map fun data =>
        row.set v status initSegments created (some data)

/-- `upgrade` for the flows; `segments` are the ids with a row in `tamoss_segments` -/
def upgrade (segments : List Nat) (rows : List (LegacyFlow Instant)) :
    Option (List (FlowRow Instant)) :=
  (rows.map fun row => ({ toLegacyFlow := row } : FlowRow Instant)).mapM fun row =>
    if row.created.isNone then migrate v (row.id ∈ segments) row else some row

/-! ## What the application reads -/

def truthy : Json → Bool
  | .null => false
  | .bool b => b
  | .num spelling => !v.isZero spelling
  | .str text => text ≠ ""
  | .arr items => !items.isEmpty
  | .obj ms => !ms.isEmpty

/-- `_flow_init_segments` of `mappers.py` -/
def flowInitSegments (data : Members) : Bool :=
  match Members.get "essence_parameters" data with
  | some (.obj essence) => truthy v ((Members.get "init_segments" essence).getD (.bool false))
  | _ => false

/-- `len(value)` -/
def length : Json → Option Nat
  | .str text => some text.length
  | .arr items => some items.length
  | .obj ms => some ms.length
  | _ => none

/-- `dict(record.get("data") or {})`: of an array only if it is one of pairs. -/
def dictOf (pairs : List Json → Option Members) (value : Option Json) : Option Members :=
  match value.filter (truthy v) with
  | none => some []
  | some (.obj ms) => some ms
  | some (.arr items) => if items.all (length · = some 2) then pairs items else none
  | some _ => none

/-- The fields of `FlowRecord` that the migration is about. -/
structure Hydrated where
  data : Members
  profileId : Option Json
  status : Option Json
  initSegments : Bool

/-- `_flow_from_record` of `mappers.py` -/
def flowFromRecord (pairs : List Json → Option Members) (record : Members) : Option Hydrated :=
  (dictOf v pairs (Members.get "data" record)).map fun data =>
    { data
      profileId := Members.get "profile_id" record
      status := Members.get "status" record
      initSegments := truthy v ((Members.get "init_segments" record).getD (.bool false)) }

/-- Columns, document and what hydration reads of it say the same. -/
structure Agrees (row : FlowRow Instant) : Prop where
  profileId : row.profileId = none ∧ Members.get "profile_id" row.record = some .null
  status : Members.get "status" row.record = some (textOrNull row.status)
  initSegments : Members.get "init_segments" row.record = some (.bool row.initSegments)
  dataProfileId : field "profile_id" (Members.get "data" row.record) = none
  dataStatus : field "status" (Members.get "data" row.record) = row.status.map .str
  hydrated : ∀ pairs flow, flowFromRecord v pairs row.record = some flow →
    flow.profileId = some .null ∧ flow.status = some (textOrNull row.status) ∧
      flow.initSegments = row.initSegments ∧ flowInitSegments v flow.data = row.initSegments

/-! ## One flow -/

section Row

variable {format : String} {status : Option String} {stored initSegments : Bool} {created : Json}
variable {ms : Members}

theorem normalizedInitSegments_of_stored (data : Option Json) :
    normalizedInitSegments format true data = false := by
  simp [normalizedInitSegments]

theorem normalizedInitSegments_of_absent {data : Option Json}
    (h : field "init_segments" (field "essence_parameters" data) = none) :
    normalizedInitSegments format stored data = false := by
  simp [normalizedInitSegments, h]

theorem withInitSegments_obj (hformat : format = image ∨ format ∈ segmented)
    (hinit : initSegments = normalizedInitSegments format stored (some (.obj ms))) :
    ∃ ms', withInitSegments format initSegments (.obj ms) = .obj ms' ∧
      (∀ key, "essence_parameters" ≠ key → Members.get key ms' = Members.get key ms) ∧
      flowInitSegments v ms' = initSegments := by
  have hunread : field "init_segments" (Members.get "essence_parameters" ms) = none →
      flowInitSegments v ms = initSegments := by
    intro hnone
    have hfalse : normalizedInitSegments format stored (some (.obj ms)) = false :=
      normalizedInitSegments_of_absent hnone
    rw [hinit, hfalse, flowInitSegments]
    split
    · rename_i essence hessence
      rw [hessence] at hnone
      rw [show Members.get "init_segments" essence = none from hnone]
      rfl
    · rfl
  cases hessence : Members.get "essence_parameters" ms with
  | none =>
    exact ⟨ms, by simp [withInitSegments, field, hessence], fun _ _ => rfl,
      hunread (by simp [hessence, field])⟩
  | some value =>
    cases value with
    | obj essence =>
      rcases hformat with rfl | hsegmented
      · refine ⟨Members.set "essence_parameters" (.obj (Members.erase "init_segments" essence)) ms,
          by simp [withInitSegments, field, hessence, jsonbSet],
          fun key hkey => Members.get_set_ne hkey _ _, ?_⟩
        have himage : image ∉ segmented := by decide
        simp [hinit, normalizedInitSegments, himage, flowInitSegments, truthy]
      · have hother : format ≠ image := by
          rintro rfl
          exact absurd hsegmented (by decide)
        cases hread : Members.get "init_segments" essence with
        | none =>
          exact ⟨ms, by simp [withInitSegments, field, hessence, hother, hread], fun _ _ => rfl,
            hunread (by simp [hessence, field, hread])⟩
        | some old =>
          refine ⟨Members.set "essence_parameters"
              (.obj (Members.set "init_segments" (.bool initSegments) essence)) ms,
            by simp [withInitSegments, field, hessence, hother, hread, hsegmented, jsonbSet],
            fun key hkey => Members.get_set_ne hkey _ _, ?_⟩
          simp [flowInitSegments, truthy]
    | _ =>
      exact ⟨ms, by simp [withInitSegments, field, hessence], fun _ _ => rfl,
        hunread (by simp [hessence, field])⟩

theorem dataWithStatus_obj (status : Option String) (ms : Members) :
    ∃ ms', dataWithStatus status (.obj ms) = some (.obj ms') ∧
      Members.get "status" ms' = status.map .str ∧
      ∀ key, "status" ≠ key → Members.get key ms' = Members.get key ms := by
  cases status with
  | none =>
    exact ⟨_, rfl, Members.get_erase_self _ _, fun key hkey => Members.get_erase_ne hkey _⟩
  | some s =>
    exact ⟨_, rfl, Members.get_set_self _ _ _, fun key hkey => Members.get_set_ne hkey _ _⟩

theorem canonicalData_obj (hformat : format = image ∨ format ∈ segmented)
    (hinit : initSegments = normalizedInitSegments format stored (some (.obj ms))) :
    ∃ ms', canonicalData format status initSegments created (.obj ms) = some (.obj ms') ∧
      Members.get "profile_id" ms' = none ∧ Members.get "status" ms' = status.map .str ∧
      flowInitSegments v ms' = initSegments ∧ ms' ≠ [] := by
  obtain ⟨ms₁, h₁, hstatus, hothers₁⟩ :=
    dataWithStatus_obj status (Members.erase "profile_id" ms)
  have hsame : Members.get "essence_parameters" ms₁ = Members.get "essence_parameters" ms :=
    (hothers₁ _ (by decide)).trans (Members.get_erase_ne (by decide) _)
  obtain ⟨ms₂, h₂, hothers₂, hflow⟩ := withInitSegments_obj v hformat
    (show initSegments = normalizedInitSegments format stored (some (.obj ms₁)) by
      simpa [normalizedInitSegments, field, hsame] using hinit)
  refine ⟨Members.set "created" created ms₂, ?_, ?_, ?_, ?_, nofun⟩
  · simp [canonicalData, without, h₁, h₂, concat, merge]
  · rw [Members.get_set_ne (by decide), hothers₂ _ (by decide), hothers₁ _ (by decide)]
    exact Members.get_erase_self _ _
  · rw [Members.get_set_ne (by decide), hothers₂ _ (by decide), hstatus]
  · rw [← hflow, flowInitSegments, flowInitSegments, Members.get_set_ne (by decide)]

theorem canonicalData_arr (items : List Json) :
    ∃ items', canonicalData format status initSegments created (.arr items) =
      some (.arr (items' ++ [.obj [("created", created)]])) := by
  cases status with
  | none => exact ⟨_, rfl⟩
  | some s => exact ⟨_, rfl⟩

theorem canonicalData_some {data data' : Json}
    (h : canonicalData format status initSegments created data = some data') :
    (∃ ms, data = .obj ms) ∨ ∃ items, data = .arr items := by
  cases data with
  | obj ms => exact .inl ⟨ms, rfl⟩
  | arr items => exact .inr ⟨items, rfl⟩
  | _ => cases h

theorem dictOf_arr (pairs : List Json → Option Members) (items : List Json) :
    dictOf v pairs (some (.arr (items ++ [.obj [("created", created)]]))) = none := by
  simp [dictOf, Option.filter, truthy, length]

end Row

variable {v}

theorem FlowRow.set_agrees {row : FlowRow Instant} {status : Option String} {initSegments : Bool}
    {created : Instant} {data : Option Json} (hprofile : field "profile_id" data = none)
    (hstatus : field "status" data = status.map .str)
    (hdict : ∀ pairs ms, dictOf v pairs (some (data.getD .null)) = some ms →
      flowInitSegments v ms = initSegments) :
    Agrees v (row.set v status initSegments created data) := by
  have hfield : ∀ key, field key (some (data.getD .null)) = field key data := by
    intro key
    cases data <;> rfl
  let record := (row.set v status initSegments created data).record
  obtain ⟨hdata, hprofileId, hread, hinit⟩ : Members.get "data" record = some (data.getD .null) ∧
      Members.get "profile_id" record = some .null ∧
      Members.get "status" record = some (textOrNull status) ∧
      Members.get "init_segments" record = some (.bool initSegments) := by
    simp [record, FlowRow.set, merge, Members.get_set_ne]
  refine ⟨⟨rfl, hprofileId⟩, hread, hinit, ?_, ?_, fun pairs flow hflow => ?_⟩
  · exact ((congrArg _ hdata).trans (hfield _)).trans hprofile
  · exact ((congrArg _ hdata).trans (hfield _)).trans hstatus
  · obtain ⟨ms, hms, rfl⟩ := Option.map_eq_some_iff.mp hflow
    rw [hdata] at hms
    exact ⟨hprofileId, hread, congrArg (fun value => truthy v (value.getD (.bool false))) hinit,
      hdict pairs ms hms⟩

theorem migrate_agrees {stored : Bool} {row row' : FlowRow Instant}
    (hformat : row.format = image ∨ row.format ∈ segmented) (h : migrate v stored row = some row') :
    row'.id = row.id ∧ Agrees v row' ∧ (stored = true → row'.initSegments = false) ∧
      ((∀ items, Members.get "data" row.record ≠ some (.arr items)) →
        ∀ pairs, (flowFromRecord v pairs row'.record).isSome = true) := by
  obtain ⟨created, -, h⟩ := Option.bind_eq_some_iff.mp h
  have hstored : stored = true →
      normalizedInitSegments row.format stored (Members.get "data" row.record) = false := by
    rintro rfl
    exact normalizedInitSegments_of_stored _
  split at h
  · rename_i hsource
    cases h
    refine ⟨rfl, FlowRow.set_agrees rfl ?_ fun pairs ms hms => ?_, hstored, fun _ pairs => ?_⟩
    · rw [hsource]
      rfl
    · cases hms
      rw [hsource]
      exact (normalizedInitSegments_of_absent rfl).symm
    · simp [flowFromRecord, FlowRow.set, merge, Members.get_set_ne, dictOf, truthy, Option.filter]
  · rename_i data hsource
    obtain ⟨data', hdata, rfl⟩ := Option.map_eq_some_iff.mp h
    rcases canonicalData_some hdata with ⟨ms, rfl⟩ | ⟨items, rfl⟩
    · obtain ⟨ms', hms', hprofile, hstatus, hflow, hne⟩ :=
        canonicalData_obj v hformat (congrArg (normalizedInitSegments row.format stored) hsource)
      cases hdata.symm.trans hms'
      have hdict : ∀ pairs, dictOf v pairs (some (.obj ms')) = some ms' := by
        simp [dictOf, truthy, Option.filter, hne]
      refine ⟨rfl, FlowRow.set_agrees hprofile hstatus fun pairs ms hms => ?_, hstored,
        fun _ pairs => ?_⟩
      · cases (hdict pairs).symm.trans hms
        exact hflow
      · simp [flowFromRecord, FlowRow.set, merge, Members.get_set_ne, hdict]
    · obtain ⟨items', hitems⟩ := canonicalData_arr items
      cases hdata.symm.trans hitems
      refine ⟨rfl, FlowRow.set_agrees rfl ?_ fun pairs ms hms => ?_, hstored,
        fun hno => absurd hsource (hno items)⟩
      · rw [hsource]
        rfl
      · cases (dictOf_arr v pairs items').symm.trans hms

/-! ## All flows -/

/-- **The migration establishes what hydration relies on.** If the upgrade completes, the
    columns, the envelope and the data of each flow agree, a flow with stored segments has no
    init segments, and a flow whose data was not an array is hydrated. -/
theorem upgrade_agrees {segments : List Nat} {rows : List (LegacyFlow Instant)}
    {rows' : List (FlowRow Instant)}
    (hformat : ∀ row ∈ rows, row.format = image ∨ row.format ∈ segmented)
    (h : upgrade v segments rows = some rows') :
    List.Forall₂ (fun row row' => row'.id = row.id ∧ Agrees v row' ∧
      (row.id ∈ segments → row'.initSegments = false) ∧
      ((∀ items, Members.get "data" row.record ≠ some (.arr items)) →
        ∀ pairs, (flowFromRecord v pairs row'.record).isSome = true)) rows rows' := by
  induction rows generalizing rows' with
  | nil =>
    cases h
    exact .nil
  | cons row rows ih =>
    simp only [upgrade, List.map_cons, List.mapM_cons, Option.bind_eq_bind, Option.pure_def,
      Option.bind_eq_some_iff, Option.some.injEq] at h
    obtain ⟨row', hrow, rest, hrest, rfl⟩ := h
    obtain ⟨hid, hagrees, hstored, hhydrated⟩ :=
      migrate_agrees (hformat row List.mem_cons_self) hrow
    refine .cons ⟨hid, hagrees, fun hmem => hstored (decide_eq_true hmem), hhydrated⟩ ?_
    exact ih (fun row hmem => hformat row (List.mem_cons_of_mem _ hmem)) hrest

theorem upgrade_agrees_video :
    let v : Values String := ⟨some, .str, fun _ => "", (· = "0")⟩
    let row (id : Nat) : LegacyFlow String := ⟨id, "urn:x-nmos:format:video",
      [("data", .obj [("profile_id", .str "p"), ("status", .str "open"),
        ("essence_parameters", .obj [("init_segments", .str "true")])])],
      "2024-01-01T00:00:00+00:00"⟩
    ∃ first second, upgrade v [2] [row 1, row 2] = some [first, second] ∧
      first.initSegments = true ∧ Agrees v first ∧ second.initSegments = false ∧
      Agrees v second := by
  intro v row
  refine ⟨_, _, rfl, rfl, ?_⟩
  have hall := @upgrade_agrees String v [2] [row 1, row 2] _ (fun r hr => ?_) rfl
  · cases hall with
    | cons first hrest =>
      cases hrest with
      | cons second _ => exact ⟨first.2.1, second.2.2.1 List.mem_cons_self, second.2.1⟩
  · rcases List.mem_cons.mp hr with rfl | hr
    · exact .inr (by decide)
    · obtain rfl := List.mem_singleton.mp hr
      exact .inr (by decide)

end Tamoss.Migrations
