/-
  **The consistency of segments and media objects.**
-/
import Tamoss.Store.Service

namespace Tamoss

def refsOf (o : Option MediaObjectRecord) : List FlowId :=
  (o.map (·.referencedByFlows)).getD []

@[simp] theorem refsOf_none : refsOf none = [] := rfl

@[simp] theorem refsOf_some (o : MediaObjectRecord) : refsOf (some o) = o.referencedByFlows := rfl

theorem mem_refsOf {o : Option MediaObjectRecord} {f : FlowId} :
    f ∈ refsOf o ↔ ∃ obj, o = some obj ∧ f ∈ obj.referencedByFlows := by
  cases o <;> simp

def NamesObject (rows : List SegmentRow) (o : ObjectId) : Prop :=
  ∃ row ∈ rows, row.record.Names o

@[simp] theorem not_namesObject_nil (o : ObjectId) : ¬ NamesObject [] o := by
  simp [NamesObject]

/-- A stored row: its range is one a segment may have, the integer columns are the
    bounds of the range, and the init object id is not the empty string. -/
structure RowOk (mt : MediaTimestamp) (row : SegmentRow) : Prop where
  range : ∃ r b, SegmentRange mt row.record.timerange r b ∧
    row.timerangeStart = b.start ∧ row.timerangeEnd = b.stop
  init : row.record.initObjectId ≠ some ""

def SegmentRow.Apart (a b : SegmentRow) : Prop :=
  a.timerangeEnd ≤ b.timerangeStart ∨ b.timerangeEnd ≤ a.timerangeStart

variable {mt : MediaTimestamp} {a b : SegmentRow}

theorem RowOk.key_ne (ha : RowOk mt a) (hb : RowOk mt b) (h : a.Apart b) : a.key ≠ b.key := by
  intro hkey
  obtain ⟨r, s, hr, hstart, hstop⟩ := ha.range
  obtain ⟨r', s', hr', hstart', hstop'⟩ := hb.range
  obtain ⟨-, -, -, -, -, -, hlt⟩ := finiteNormalizedTimerangeBounds_ok hr.bounds
  have htime : a.record.timerange = b.record.timerange := congrArg (fun k => k.2.2) hkey
  rw [← htime] at hr'
  obtain rfl : r = r' := Except.ok.inj (hr.parsed.symm.trans hr'.parsed)
  obtain rfl : s = s' := Except.ok.inj (hr.bounds.symm.trans hr'.bounds)
  simp only [SegmentRow.Apart, hstart, hstop, hstart', hstop'] at h
  omega

structure RowsOk (mt : MediaTimestamp) (rows : List SegmentRow) : Prop where
  row : ∀ row ∈ rows, RowOk mt row
  apart : ∀ a ∈ rows, ∀ b ∈ rows, a ≠ b → a.Apart b

/-- A stored object: its time range is one that the package wrote, and its init object id
    is not the empty string. -/
structure ObjectOk (mt : MediaTimestamp) (o : MediaObjectRecord) : Prop where
  timerange : ∀ t, o.timerange = some t → ∃ r, mt.str r = t
  init : o.initObjectId ≠ some ""

theorem ObjectOk.parses {o : MediaObjectRecord} (h : ObjectOk mt o)
    (L : mt.Lawful) {t : String} (ht : o.timerange = some t) :
    ∃ r, parseTimerange mt "timerange" false t = .ok r := by
  obtain ⟨r, rfl⟩ := h.timerange t ht
  exact L.parse_str r

structure Consistent (mt : MediaTimestamp) (db : Database) : Prop where
  rows : ∀ f, RowsOk mt (db.segmentsOf f)
  object : ∀ o obj, db.objects.get o = some obj → ObjectOk mt obj
  refs : ∀ f o, f ∈ refsOf (db.objects.get o) ↔ NamesObject (db.segmentsOf f) o

theorem RowsOk.nil (mt : MediaTimestamp) : RowsOk mt [] :=
  ⟨by simp, by simp⟩

theorem RowsOk.subset {rows rows' : List SegmentRow}
    (h : RowsOk mt rows) (hs : ∀ row ∈ rows', row ∈ rows) : RowsOk mt rows' :=
  ⟨fun row hr => h.row row (hs row hr),
    fun a ha b hb => h.apart a (hs a ha) b (hs b hb)⟩

theorem SegmentRow.Apart.symm (h : a.Apart b) : b.Apart a :=
  Or.symm h

structure Database.Fresh (db : Database) : Prop where
  segments : db.segments.rows = []
  objects : db.objects.rows = []

theorem Database.Fresh.consistent {db : Database} (h : db.Fresh) : Consistent mt db := by
  have hrows : ∀ f, db.segmentsOf f = [] := fun f => by simp [Database.segmentsOf, h.segments]
  have hobj : ∀ o, db.objects.get o = none := fun o =>
    Lib.Table.get_eq_none.mpr fun x hx => by simp [h.objects] at hx
  exact ⟨fun f => hrows f ▸ .nil mt, fun o obj ho => by simp [hobj] at ho,
    fun f o => by simp [hrows, hobj]⟩

namespace Write

def TouchesFlow (f : FlowId) : Write → Prop
  | .saveSegment row => row.record.flowId = f
  | .deleteSegment row => row.record.flowId = f
  | .deleteFlow g => g = f
  | _ => False

def TouchesObject (o : ObjectId) : Write → Prop
  | .saveObject object => object.id = o
  | .deleteObject objectId => objectId = o
  | _ => False

def onRows (f : FlowId) (rows : List SegmentRow) : Write → List SegmentRow
  | .saveSegment row =>
      if row.record.flowId = f then rows.filter (fun x => x.key ≠ row.key) ++ [row] else rows
  | .deleteSegment row => rows.filter (fun x => x.key ≠ row.key)
  | .deleteFlow g => if g = f then [] else rows
  | _ => rows

def onObject (o : ObjectId) (object : Option MediaObjectRecord) :
    Write → Option MediaObjectRecord
  | .saveObject object' => if object'.id = o then some object' else object
  | .deleteObject o' => if o' = o then none else object
  | _ => object

theorem segmentsOf_apply (db : Database) (w : Write) (f : FlowId) :
    (w.apply db).segmentsOf f = w.onRows f (db.segmentsOf f) := by
  cases w with
  | saveSegment row =>
    simp only [apply, onRows, Database.segmentsOf, Lib.Table.upsert, List.filter_append,
      List.filter_filter]
    by_cases h : row.record.flowId = f
    · simp [h, Bool.and_comm]
    · simp only [h, decide_false, Bool.false_eq_true, not_false_eq_true,
        List.filter_cons_of_neg, List.filter_nil, List.append_nil, if_false]
      refine List.filter_congr fun x _ => ?_
      by_cases hx : x.record.flowId = f
      · have : x.key ≠ row.key := fun he => h (by
          rw [← hx]; exact (congrArg Prod.fst he).symm)
        simp [hx, this]
      · simp [hx]
  | deleteSegment row =>
    simp only [apply, onRows, Database.segmentsOf, Lib.Table.erase, Lib.Table.filter,
      List.filter_filter, Bool.and_comm]
  | deleteFlow g =>
    simp only [apply, onRows, Database.segmentsOf, Lib.Table.filter, List.filter_filter]
    by_cases h : g = f
    · subst h
      simp
    · rw [if_neg h]
      refine List.filter_congr fun x _ => ?_
      by_cases hx : x.record.flowId = f
      · have : f ≠ g := fun he => h he.symm
        simp [hx, this]
      · simp [hx]
  | _ => rfl

theorem objects_get_apply (db : Database) (w : Write) (o : ObjectId) :
    (w.apply db).objects.get o = w.onObject o (db.objects.get o) := by
  cases w with
  | saveObject object =>
    simp only [apply, onObject]
    by_cases h : object.id = o
    · subst h
      simp
    · rw [if_neg h]
      exact Lib.Table.get_upsert_of_ne _ (fun he => h he.symm)
  | deleteObject o' =>
    simp only [apply, onObject]
    by_cases h : o' = o
    · subst h
      simp
    · rw [if_neg h]
      exact Lib.Table.get_erase_of_ne _ (fun he => h he.symm)
  | _ => rfl

end Write

def rowsAfter (f : FlowId) (writes : List Write) (rows : List SegmentRow) :
    List SegmentRow :=
  writes.foldl (fun rows w => w.onRows f rows) rows

def objectAfter (o : ObjectId) (writes : List Write) (object : Option MediaObjectRecord) :
    Option MediaObjectRecord :=
  writes.foldl (fun object w => w.onObject o object) object

theorem segmentsOf_applyAll (db : Database) (writes : List Write) (f : FlowId) :
    (db.applyAll writes).segmentsOf f = rowsAfter f writes (db.segmentsOf f) := by
  induction writes generalizing db with
  | nil => rfl
  | cons w ws ih => rw [Database.applyAll_cons, ih, Write.segmentsOf_apply]; rfl

theorem objects_get_applyAll (db : Database) (writes : List Write) (o : ObjectId) :
    (db.applyAll writes).objects.get o = objectAfter o writes (db.objects.get o) := by
  induction writes generalizing db with
  | nil => rfl
  | cons w ws ih => rw [Database.applyAll_cons, ih, Write.objects_get_apply]; rfl

variable {writes : List Write}

theorem objectAfter_of_not_touches {o : ObjectId}
    (h : ∀ w ∈ writes, ¬ w.TouchesObject o) (object : Option MediaObjectRecord) :
    objectAfter o writes object = object := by
  induction writes with
  | nil => rfl
  | cons w ws ih =>
    have hw : w.onObject o object = object := by
      have := h w (by simp)
      cases w <;> simp_all [Write.onObject, Write.TouchesObject]
    show objectAfter o ws (w.onObject o object) = object
    rw [hw]
    exact ih fun w' hw' => h w' (by simp [hw'])

variable {rows : List SegmentRow} {f : FlowId}

theorem Write.onRows_of_not_touches {w : Write} (h : ¬ w.TouchesFlow f)
    (hrows : ∀ row ∈ rows, row.record.flowId = f) : w.onRows f rows = rows := by
  cases w with
  | deleteSegment row =>
    refine List.filter_eq_self.mpr fun x hx => ?_
    have : x.key ≠ row.key := fun he => h (by
      rw [← hrows x hx]; exact (congrArg Prod.fst he).symm)
    simp [this]
  | saveSegment => simp_all [Write.onRows, Write.TouchesFlow]
  | deleteFlow => simp_all [Write.onRows, Write.TouchesFlow]
  | _ => rfl

theorem rowsAfter_eq_self (hrows : ∀ row ∈ rows, row.record.flowId = f)
    (h : ∀ w ∈ writes, w.TouchesFlow f → w = .deleteFlow f ∧ rows = []) :
    rowsAfter f writes rows = rows := by
  induction writes with
  | nil => rfl
  | cons w ws ih =>
    have hw : w.onRows f rows = rows := by
      by_cases ht : w.TouchesFlow f
      · obtain ⟨rfl, rfl⟩ := h w (by simp) ht
        simp [Write.onRows]
      · exact Write.onRows_of_not_touches ht hrows
    show rowsAfter f ws (w.onRows f rows) = rows
    rw [hw]
    exact ih fun w' hw' => h w' (by simp [hw'])

end Tamoss
