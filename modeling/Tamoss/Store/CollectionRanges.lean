/-
  **Time ranges of flows that collect others.**

  `_flow_timeranges` of `application/contexts/flows.py` with `domain/flow_collections.py`: the
  flows that can be reached from the requested ones are loaded breadth first, their own ranges
  are read in one statement, and the range of a requested flow is the union over what a second
  walk visits.
-/
import Tamoss.Lib.Except
import Tamoss.Lib.Traversal
import Tamoss.Store.BoundsText
import Tamoss.Store.Consistency

namespace Tamoss

open Lib

structure QueryTimerange where
  start : Option Int
  stop : Option Int
  isEmpty : Bool
  isPoint : Bool
deriving DecidableEq

def parseQueryTimerange (mt : MediaTimestamp) (contract : String → Bool) :
    Option String → Except PyError (Option mt.TimeRange)
  | none => .ok none
  | some timerange =>
      if timerange ∈ ["", "_"] then .ok none
      else if !contract timerange then .error (.badRequest "Bad request. Invalid query options.")
      else
        match parseTimerange mt "timerange" false timerange with
        | .ok parsed => .ok (some parsed)
        | .error _ => .error (.badRequest "Bad request. Invalid query options.")

def queryTimerange (mt : MediaTimestamp) (contract : String → Bool) (timerange : Option String) :
    Except PyError QueryTimerange := do
  match ← parseQueryTimerange mt contract timerange with
  | none => return ⟨none, none, false, false⟩
  | some requested =>
      let bounds := normalizedTimerangeBounds mt requested
      if bounds.isEmpty then return ⟨none, none, true, false⟩
      else return ⟨bounds.start, bounds.stop, false, bounds.isPoint⟩

def timerangeQueryEnd (start stop : Option Int) (isPoint : Bool) : Option Int :=
  match start with
  | some first => if isPoint && stop = start then some (first + 1) else stop
  | none => stop

/-- The clauses of `flow_timeranges` on a segment. -/
def QueryTimerange.selects (query : QueryTimerange) (row : SegmentRow) : Bool :=
  !query.isEmpty &&
    (timerangeQueryEnd query.start query.stop query.isPoint).all (row.timerangeStart < ·) &&
    query.start.all (row.timerangeEnd > ·)

def Database.directBounds (db : Database) (query : QueryTimerange) (f : FlowId) :
    Option Int × Option Int :=
  let rows := (db.segmentsOf f).filter query.selects
  ((rows.map (·.timerangeStart)).min?, (rows.map (·.timerangeEnd)).max?)

/-- `flow_timeranges` of the repository.  A flow without segments keeps the "()" that it starts
    with, which is also what no bounds are written as. -/
def Database.flowTimeranges (mt : MediaTimestamp) (db : Database) (ids : List FlowId)
    (query : QueryTimerange) : List (FlowId × String) :=
  (fresh [] ids).map fun f =>
    (f, timerangeFromBounds mt (db.directBounds query f).1 (db.directBounds query f).2)

def FlowRecord.childIds (flow : FlowRecord) : List FlowId :=
  flow.flowCollection.map (·.id)

def flowsById (flows : List FlowRecord) (f : FlowId) : Option FlowRecord :=
  flows.reverse.find? (·.id = f)

variable {flows : List FlowRecord} {f : FlowId}

theorem flowsById_eq_some {flow : FlowRecord}
    (h : flowsById flows f = some flow) : flow ∈ flows ∧ flow.id = f :=
  ⟨List.mem_reverse.mp (List.mem_of_find?_eq_some h), by simpa using List.find?_some h⟩

theorem flowsById_isSome : (flowsById flows f).isSome = true ↔ ∃ flow ∈ flows, flow.id = f := by
  simp [flowsById, List.find?_isSome]

def childrenOf (found : Option FlowRecord) : List FlowId :=
  match found with
  | none => []
  | some flow => flow.childIds

theorem childrenOf_ne_nil {found : Option FlowRecord} (h : childrenOf found ≠ []) :
    found.isSome = true := by
  cases found with
  | none => exact absurd rfl h
  | some flow => rfl

def collectionGraph (flows : List FlowRecord) : FiniteGraph FlowId where
  next f := childrenOf (flowsById flows f)
  keys := flows.map (·.id)
  next_keys f h := by
    obtain ⟨flow, hflow, hid⟩ := flowsById_isSome.mp (childrenOf_ne_nil h)
    exact List.mem_map.mpr ⟨flow, hflow, hid⟩

def Database.resolveFlow (db : Database) (seeds : List FlowRecord) (f : FlowId) :
    Option FlowRecord :=
  match flowsById seeds f with
  | some flow => some flow
  | none => db.flows.get f

def Database.resolutionGraph (db : Database) (seeds : List FlowRecord) : FiniteGraph FlowId where
  next f := childrenOf (db.resolveFlow seeds f)
  keys := seeds.map (·.id) ++ db.flows.rows.map (·.id)
  next_keys f h := by
    have hfound := childrenOf_ne_nil h
    rw [Database.resolveFlow] at hfound
    split at hfound
    · rename_i flow hseed
      obtain ⟨hmem, hid⟩ := flowsById_eq_some hseed
      exact List.mem_append_left _ (List.mem_map.mpr ⟨flow, hmem, hid⟩)
    · obtain ⟨flow, hflow⟩ := Option.isSome_iff_exists.mp hfound
      obtain ⟨hmem, hid⟩ := Table.get_eq_some.mp hflow
      exact List.mem_append_right _ (List.mem_map.mpr ⟨flow, hmem, hid⟩)

/-- `_flows_for_timerange_resolution`: the seeds, and what the queue loads besides.  An id is
    queued once, so what the loop adds to the dictionary is not looked up again. -/
def Database.flowsForTimerangeResolution (db : Database) (ids : List FlowId)
    (seeds : List FlowRecord) : List FlowRecord :=
  (fresh [] (seeds.map (·.id))).filterMap (flowsById seeds) ++
    ((db.resolutionGraph seeds).load (fresh [] ids) (fresh [] ids)).filterMap fun f =>
      if (flowsById seeds f).isSome then none else db.flows.get f

def directTimerange : Option String → Option String
  | none => none
  | some timerange => if timerange = "()" then none else some timerange

def orEmptyRange : Option String → String
  | none => "()"
  | some timerange => if timerange = "" then "()" else timerange

def collectionAwareFlowTimeranges (mt : MediaTimestamp) (setOrder : List FlowId → List FlowId)
    (flows : List FlowRecord) (directTimeranges : List (FlowId × String)) (ids : List FlowId) :
    Except PyError (List (FlowId × String)) :=
  (fresh [] ids).mapM fun root => do
    let visited := (collectionGraph flows).visit [root] []
    let timerange ← timerangeUnionStrings mt ((setOrder visited).map fun f =>
      directTimerange (directTimeranges.lookup f))
    return (root, orEmptyRange timerange)

def flowTimeranges (mt : MediaTimestamp) (contract : String → Bool)
    (setOrder : List FlowId → List FlowId) (db : Database) (ids : List FlowId)
    (seeds : List FlowRecord) (timerange : Option String) :
    Except PyError (List (FlowId × String)) :=
  let requested := fresh [] ids
  if requested.isEmpty then .ok []
  else do
    let flows := db.flowsForTimerangeResolution requested seeds
    let query ← queryTimerange mt contract timerange
    let directTimeranges := db.flowTimeranges mt (flows.map (·.id)) query
    match collectionAwareFlowTimeranges mt setOrder flows directTimeranges requested with
    | .ok timeranges => return timeranges
    | .error (.valueError _) =>
        throw (.badRequest "Bad request. Invalid stored Segment timerange.")
    | .error error => throw error

def Database.Collects (db : Database) : FlowId → FlowId → Prop :=
  Relation.ReflTransGen fun f g => g ∈ childrenOf (db.flows.get f)

open Classical in
noncomputable def Database.collectedSegments (db : Database) (query : QueryTimerange)
    (f : FlowId) : List SegmentRow :=
  db.segments.rows.filter fun row => decide (query.selects row = true ∧
    db.Collects f row.record.flowId ∧ (db.flows.get row.record.flowId).isSome = true)

def hullText (mt : MediaTimestamp) : Option Int → Option Int → String
  | some start, some stop => mt.str (mt.make start stop true false)
  | _, _ => "()"

noncomputable def collectionHull (mt : MediaTimestamp) (db : Database) (query : QueryTimerange)
    (f : FlowId) : String :=
  let rows := db.collectedSegments query f
  hullText mt (rows.map (·.timerangeStart)).min? (rows.map (·.timerangeEnd)).max?

def Seeds (db : Database) (seeds : List FlowRecord) : Prop :=
  ∀ seed ∈ seeds, ∃ flow, db.flows.get seed.id = some flow ∧ flow.childIds = seed.childIds

section Union

variable {mt : MediaTimestamp}

variable {l m : List Int}

theorem min?_eq_of_cover (hsub : ∀ x ∈ l, x ∈ m)
    (hcover : ∀ y ∈ m, ∃ x ∈ l, x ≤ y) : l.min? = m.min? := by
  cases hl : l.min? with
  | none =>
    rw [List.min?_eq_none_iff] at hl
    symm
    rw [List.min?_eq_none_iff, List.eq_nil_iff_forall_not_mem]
    intro y hy
    obtain ⟨x, hx, -⟩ := hcover y hy
    rw [hl] at hx
    cases hx
  | some a =>
    symm
    rw [List.min?_eq_some_iff] at hl ⊢
    refine ⟨hsub a hl.1, ?_⟩
    intro y hy
    obtain ⟨x, hx, hle⟩ := hcover y hy
    exact (hl.2 x hx).trans hle

theorem max?_eq_of_cover (hsub : ∀ x ∈ l, x ∈ m)
    (hcover : ∀ y ∈ m, ∃ x ∈ l, y ≤ x) : l.max? = m.max? := by
  cases hl : l.max? with
  | none =>
    rw [List.max?_eq_none_iff] at hl
    symm
    rw [List.max?_eq_none_iff, List.eq_nil_iff_forall_not_mem]
    intro y hy
    obtain ⟨x, hx, -⟩ := hcover y hy
    rw [hl] at hx
    cases hx
  | some a =>
    symm
    rw [List.max?_eq_some_iff] at hl ⊢
    refine ⟨hsub a hl.1, ?_⟩
    intro y hy
    obtain ⟨x, hx, hle⟩ := hcover y hy
    exact hle.trans (hl.2 x hx)

theorem contains_foldl_extend (T : mt.Arithmetic) (first : mt.TimeRange)
    (rest : List mt.TimeRange) (x : ℚ) :
    mt.Contains (rest.foldl mt.extendToEncompassTimerange first) x ↔
      ∃ y z, (∃ r ∈ first :: rest, mt.Contains r y) ∧ (∃ r ∈ first :: rest, mt.Contains r z) ∧
        y ≤ x ∧ x ≤ z := by
  induction rest generalizing first with
  | nil =>
    simp only [List.foldl_nil, List.mem_singleton, exists_eq_left]
    constructor
    · intro hx
      exact ⟨x, x, hx, hx, le_refl x, le_refl x⟩
    · rintro ⟨y, z, hy, hz, hyx, hxz⟩
      exact contains_of_between hy hz hyx hxz
  | cons r rest ih =>
    rw [List.foldl_cons, ih]
    -- an instant of the extended range lies between two of the ranges it spans
    have hdown : ∀ y, (∃ s ∈ mt.extendToEncompassTimerange first r :: rest, mt.Contains s y) →
        ∃ y' z', (∃ s ∈ first :: r :: rest, mt.Contains s y') ∧
          (∃ s ∈ first :: r :: rest, mt.Contains s z') ∧ y' ≤ y ∧ y ≤ z' := by
      rintro y ⟨s, hs, hy⟩
      rcases List.mem_cons.mp hs with rfl | hs
      · obtain ⟨y', z', hy', hz', hle, hge⟩ := (T.contains_extend first r y).mp hy
        have hpart : ∀ w, mt.Contains first w ∨ mt.Contains r w →
            ∃ s ∈ first :: r :: rest, mt.Contains s w := by
          rintro w (hw | hw)
          · exact ⟨first, by simp, hw⟩
          · exact ⟨r, by simp, hw⟩
        exact ⟨y', z', hpart y' hy', hpart z' hz', hle, hge⟩
      · exact ⟨y, y, ⟨s, by simp [hs], hy⟩, ⟨s, by simp [hs], hy⟩, le_refl y, le_refl y⟩
    have hup : ∀ y, (∃ s ∈ first :: r :: rest, mt.Contains s y) →
        ∃ s ∈ mt.extendToEncompassTimerange first r :: rest, mt.Contains s y := by
      rintro y ⟨s, hs, hy⟩
      rcases List.mem_cons.mp hs with rfl | hs
      · exact ⟨_, List.mem_cons_self, (T.contains_extend s r y).mpr
          ⟨y, y, .inl hy, .inl hy, le_refl y, le_refl y⟩⟩
      · rcases List.mem_cons.mp hs with rfl | hs
        · exact ⟨_, List.mem_cons_self, (T.contains_extend first s y).mpr
            ⟨y, y, .inr hy, .inr hy, le_refl y, le_refl y⟩⟩
        · exact ⟨s, List.mem_cons_of_mem _ hs, hy⟩
    constructor
    · rintro ⟨y, z, hy, hz, hyx, hxz⟩
      obtain ⟨y', -, hy', -, hle, -⟩ := hdown y hy
      obtain ⟨-, z', -, hz', -, hge⟩ := hdown z hz
      exact ⟨y', z', hy', hz', hle.trans hyx, hxz.trans hge⟩
    · rintro ⟨y, z, hy, hz, hyx, hxz⟩
      exact ⟨y, z, hup y hy, hup z hz, hyx, hxz⟩

def ReadFrom (mt : MediaTimestamp) (r : mt.TimeRange) (span : Int × Int) : Prop :=
  SameInstants r (mt.make span.1 span.2 true false)

variable {spans : List (Int × Int)}

theorem foldl_extend_same_hull (T : mt.Arithmetic) {first : mt.TimeRange} {rest : List mt.TimeRange}
    (hread : List.Forall₂ (ReadFrom mt) (first :: rest) spans)
    (hlt : ∀ span ∈ spans, span.1 < span.2) {a b : Int} (ha : (spans.map Prod.fst).min? = some a)
    (hb : (spans.map Prod.snd).max? = some b) :
    SameInstants (rest.foldl mt.extendToEncompassTimerange first) (mt.make a b true false) := by
  rw [List.min?_eq_some_iff] at ha
  rw [List.max?_eq_some_iff] at hb
  have hinstants : ∀ y, (∃ r ∈ first :: rest, mt.Contains r y) ↔
      ∃ span ∈ spans, (span.1 : ℚ) ≤ y ∧ y < span.2 := by
    intro y
    constructor
    · rintro ⟨r, hr, hy⟩
      obtain ⟨span, hspan, hsame⟩ := exists_mem_of_forall₂ hread hr
      exact ⟨span, hspan, (contains_halfOpen T _ _ y).mp ((hsame y).mp hy)⟩
    · rintro ⟨span, hspan, hy⟩
      obtain ⟨r, hr, hsame⟩ := exists_mem_of_forall₂ hread.flip hspan
      exact ⟨r, hr, (hsame y).mpr ((contains_halfOpen T _ _ y).mpr hy)⟩
  intro x
  rw [contains_foldl_extend T, contains_halfOpen T]
  simp only [hinstants]
  constructor
  · rintro ⟨y, z, ⟨s, hs, hy, -⟩, ⟨t, ht, -, hz⟩, hyx, hxz⟩
    have hfirst : (a : ℚ) ≤ s.1 := by
      exact_mod_cast ha.2 s.1 (List.mem_map_of_mem hs)
    have hlast : (t.2 : ℚ) ≤ b := by
      exact_mod_cast hb.2 t.2 (List.mem_map_of_mem ht)
    constructor
    · linarith
    · linarith
  · rintro ⟨hax, hxb⟩
    obtain ⟨s, hs, rfl⟩ := List.mem_map.mp ha.1
    obtain ⟨t, ht, rfl⟩ := List.mem_map.mp hb.1
    have hsq : (s.1 : ℚ) < s.2 := by exact_mod_cast hlt s hs
    have htq : (t.1 : ℚ) < t.2 := by exact_mod_cast hlt t ht
    -- the last range, from its start or from the instant itself on
    by_cases htx : (t.1 : ℚ) ≤ x
    · exact ⟨s.1, x, ⟨s, hs, le_refl _, hsq⟩, ⟨t, ht, htx, hxb⟩, hax, le_refl x⟩
    · exact ⟨s.1, t.1, ⟨s, hs, le_refl _, hsq⟩, ⟨t, ht, le_refl _, htq⟩, hax, (not_le.mp htx).le⟩

theorem union_of_bounds (L : mt.Lawful) (T : mt.Arithmetic) (X : mt.Texts)
    (hlt : ∀ span ∈ spans, span.1 < span.2)
    {ranges : List (Option String)} (hranges : ranges.filterMap id =
      spans.map fun span => timerangeFromBounds mt (some span.1) (some span.2)) :
    ∃ t, timerangeUnionStrings mt ranges = .ok t ∧
      orEmptyRange t = hullText mt (spans.map Prod.fst).min? (spans.map Prod.snd).max? := by
  have hparse : ∀ span ∈ spans, ∃ r, parseTimerange mt "timerange" false
      (timerangeFromBounds mt (some span.1) (some span.2)) = .ok r ∧ ReadFrom mt r span :=
    fun span hspan => parse_timerangeFromBounds L T X (hlt span hspan) "timerange" false
  obtain ⟨parsed, hparsed, hread⟩ : ∃ parsed, (ranges.filterMap id).mapM
      (parseTimerange mt "timerange" false) = .ok parsed ∧
        List.Forall₂ (ReadFrom mt) parsed spans := by
    rw [hranges]
    clear hranges
    induction spans with
    | nil => exact ⟨[], rfl, .nil⟩
    | cons span spans ih =>
      obtain ⟨r, hr, hsame⟩ := hparse span List.mem_cons_self
      obtain ⟨parsed, hparsed, hread⟩ := ih (fun s hs => hlt s (List.mem_cons_of_mem _ hs))
        fun s hs => hparse s (List.mem_cons_of_mem _ hs)
      refine ⟨r :: parsed, ?_, .cons hsame hread⟩
      rw [List.map_cons, List.mapM_cons, hr, hparsed]
      rfl
  have hfilter : parsed.filter (fun r => !mt.isEmpty r) = parsed := by
    apply List.filter_eq_self.mpr
    intro r hr
    obtain ⟨span, hspan, hsame⟩ := exists_mem_of_forall₂ hread hr
    have hq : (span.1 : ℚ) < span.2 := by exact_mod_cast hlt span hspan
    rw [Bool.not_eq_true', ← Bool.not_eq_true, L.isEmpty_iff]
    intro hempty
    exact hempty span.1 ((hsame _).mpr ((contains_halfOpen T _ _ _).mpr ⟨le_refl _, hq⟩))
  unfold timerangeUnionStrings
  rw [hparsed]
  cases parsed with
  | nil =>
    cases hread
    exact ⟨none, rfl, rfl⟩
  | cons first rest =>
    refine ⟨some (mt.str (rest.foldl mt.extendToEncompassTimerange first)), ?_, ?_⟩
    · simp only [bind, Except.bind, hfilter]
      rfl
    · cases hread with
      | cons hsame hrest =>
        rename_i span spans
        obtain ⟨a, ha⟩ : ∃ a, ((span :: spans).map Prod.fst).min? = some a := by
          rw [List.map_cons, List.min?_cons']
          exact ⟨_, rfl⟩
        obtain ⟨b, hb⟩ : ∃ b, ((span :: spans).map Prod.snd).max? = some b := by
          rw [List.map_cons, List.max?_cons']
          exact ⟨_, rfl⟩
        have hhull := foldl_extend_same_hull T (.cons hsame hrest) hlt ha hb
        have hexists : ∃ x, mt.Contains (rest.foldl mt.extendToEncompassTimerange first) x := by
          have hq : (span.1 : ℚ) < span.2 := by exact_mod_cast hlt span List.mem_cons_self
          refine ⟨span.1, (contains_foldl_extend T first rest _).mpr ⟨span.1, span.1, ?_, ?_,
            le_refl _, le_refl _⟩⟩
          · exact ⟨first, List.mem_cons_self, (hsame _).mpr
              ((contains_halfOpen T _ _ _).mpr ⟨le_refl _, hq⟩)⟩
          · exact ⟨first, List.mem_cons_self, (hsame _).mpr
              ((contains_halfOpen T _ _ _).mpr ⟨le_refl _, hq⟩)⟩
        rw [ha, hb, hullText, orEmptyRange, if_neg (L.fromStr_str _).2.1]
        exact T.str_congr _ _ hhull hexists

end Union

section Walks

variable {db : Database} {seeds : List FlowRecord}

theorem Seeds.resolveFlow (hseeds : Seeds db seeds) (f : FlowId) :
    childrenOf (db.resolveFlow seeds f) = childrenOf (db.flows.get f) := by
  rw [Database.resolveFlow]
  split
  · rename_i seed hseed
    obtain ⟨hmem, rfl⟩ := flowsById_eq_some hseed
    obtain ⟨flow, hflow, hchildren⟩ := hseeds seed hmem
    rw [hflow]
    exact hchildren.symm
  · rfl

theorem Seeds.reaches_iff (hseeds : Seeds db seeds) (f g : FlowId) :
    (db.resolutionGraph seeds).Reaches f g ↔ db.Collects f g := by
  have hedge : (db.resolutionGraph seeds).Edge = fun f g => g ∈ childrenOf (db.flows.get f) := by
    funext f g
    exact congrArg (g ∈ ·) (hseeds.resolveFlow f)
  rw [FiniteGraph.Reaches, hedge]
  rfl

variable {ids : List FlowId}

theorem Seeds.loaded_stored (hseeds : Seeds db seeds) {f : FlowId} {flow : FlowRecord}
    (h : flowsById (db.flowsForTimerangeResolution ids seeds) f = some flow) :
    ∃ stored, db.flows.get f = some stored ∧ stored.childIds = flow.childIds := by
  obtain ⟨hmem, rfl⟩ := flowsById_eq_some h
  rcases List.mem_append.mp hmem with hseed | hloaded
  · obtain ⟨g, -, hg⟩ := List.mem_filterMap.mp hseed
    exact hseeds flow (flowsById_eq_some hg).1
  · obtain ⟨g, -, hg⟩ := List.mem_filterMap.mp hloaded
    split at hg
    · cases hg
    · obtain ⟨-, rfl⟩ := Table.get_eq_some.mp hg
      exact ⟨flow, hg, rfl⟩

variable {root f : FlowId}

theorem Seeds.loaded_of_collects (hseeds : Seeds db seeds)
    (hroot : root ∈ ids) (hcollects : db.Collects root f)
    (hstored : (db.flows.get f).isSome = true) :
    (flowsById (db.flowsForTimerangeResolution ids seeds) f).isSome = true := by
  rw [flowsById_isSome]
  have hload : f ∈ (db.resolutionGraph seeds).load (fresh [] ids) (fresh [] ids) := by
    rw [FiniteGraph.mem_load]
    exact ⟨root, mem_fresh.mpr ⟨hroot, by simp⟩, (hseeds.reaches_iff root f).mpr hcollects⟩
  cases hseed : flowsById seeds f with
  | some seed =>
    obtain ⟨hmem, hid⟩ := flowsById_eq_some hseed
    refine ⟨seed, List.mem_append_left _ (List.mem_filterMap.mpr ⟨f, ?_, hseed⟩), hid⟩
    exact mem_fresh.mpr ⟨List.mem_map.mpr ⟨seed, hmem, hid⟩, by simp⟩
  | none =>
    obtain ⟨flow, hflow⟩ := Option.isSome_iff_exists.mp hstored
    refine ⟨flow, List.mem_append_right _ (List.mem_filterMap.mpr ⟨f, hload, ?_⟩),
      (Table.get_eq_some.mp hflow).2⟩
    simp [hseed, hflow]

theorem Seeds.childrenOf_loaded (hseeds : Seeds db seeds)
    (hroot : root ∈ ids) (hcollects : db.Collects root f) :
    childrenOf (flowsById (db.flowsForTimerangeResolution ids seeds) f) =
      childrenOf (db.flows.get f) := by
  cases hfound : flowsById (db.flowsForTimerangeResolution ids seeds) f with
  | some flow =>
    obtain ⟨stored, hstored, hchildren⟩ := hseeds.loaded_stored hfound
    rw [hstored]
    exact hchildren.symm
  | none =>
    cases hget : db.flows.get f with
    | none => rfl
    | some stored =>
      have hloaded := hseeds.loaded_of_collects hroot hcollects (by simp [hget])
      rw [hfound] at hloaded
      cases hloaded

theorem Seeds.mem_visited (hseeds : Seeds db seeds) {root : FlowId}
    (hroot : root ∈ ids) (f : FlowId) :
    f ∈ (collectionGraph (db.flowsForTimerangeResolution ids seeds)).visit [root] [] ↔
      db.Collects root f := by
  rw [FiniteGraph.mem_visit]
  constructor
  · intro hreach
    induction hreach with
    | refl => exact .refl
    | tail _ hedge ih =>
      apply ih.tail
      rw [← hseeds.childrenOf_loaded hroot ih]
      exact hedge
  · intro hcollects
    induction hcollects with
    | refl => exact .refl
    | tail hbefore hedge ih =>
      apply ih.tail
      rw [← hseeds.childrenOf_loaded hroot hbefore] at hedge
      exact hedge

end Walks

section Result

variable {mt : MediaTimestamp} {db : Database} {seeds : List FlowRecord} {query : QueryTimerange}

theorem lookup_flowTimeranges (ids : List FlowId) (f : FlowId) :
    (db.flowTimeranges mt ids query).lookup f =
      if f ∈ ids then some (timerangeFromBounds mt (db.directBounds query f).1
        (db.directBounds query f).2) else none := by
  rw [Database.flowTimeranges, lookup_map _ (fun f => f)]
  by_cases hf : f ∈ ids
  · have hfound : (fresh [] ids).find? (fun g => decide (g = f)) = some f := by
      cases hfind : (fresh [] ids).find? (fun g => decide (g = f)) with
      | none =>
        have hnone := List.find?_eq_none.mp hfind f (mem_fresh.mpr ⟨hf, by simp⟩)
        simp at hnone
      | some g =>
        have hg := List.find?_some hfind
        simp only [decide_eq_true_eq] at hg
        rw [hg]
    rw [hfound, if_pos hf]
    rfl
  · have hfound : (fresh [] ids).find? (fun g => decide (g = f)) = none := by
      apply List.find?_eq_none.mpr
      intro g hg
      simp only [decide_eq_true_eq]
      rintro rfl
      exact hf (mem_fresh.mp hg).1
    rw [hfound, if_neg hf]
    rfl

def Database.spanAt (db : Database) (query : QueryTimerange) (f : FlowId) : Option (Int × Int) :=
  if (db.flows.get f).isSome then
    match db.directBounds query f with
    | (some start, some stop) => some (start, stop)
    | _ => none
  else none

variable {f : FlowId}

theorem Database.spanAt_eq_some {span : Int × Int} (h : db.spanAt query f = some span) :
    (db.flows.get f).isSome = true ∧
      (∃ row ∈ db.segmentsOf f, query.selects row = true ∧ row.timerangeStart = span.1) ∧
      (∃ row ∈ db.segmentsOf f, query.selects row = true ∧ row.timerangeEnd = span.2) ∧
      ∀ row ∈ db.segmentsOf f, query.selects row = true →
        span.1 ≤ row.timerangeStart ∧ row.timerangeEnd ≤ span.2 := by
  unfold Database.spanAt at h
  split at h
  · rename_i hstored
    split at h
    · rename_i start stop hbounds
      cases h
      obtain ⟨hstart, hstop⟩ := Prod.mk.inj hbounds
      rw [List.min?_eq_some_iff] at hstart
      rw [List.max?_eq_some_iff] at hstop
      obtain ⟨first, hfirst, hfirstStart⟩ := List.mem_map.mp hstart.1
      obtain ⟨last, hlast, hlastStop⟩ := List.mem_map.mp hstop.1
      rw [List.mem_filter] at hfirst hlast
      refine ⟨hstored, ⟨first, hfirst.1, hfirst.2, hfirstStart⟩,
        ⟨last, hlast.1, hlast.2, hlastStop⟩, ?_⟩
      intro row hrow hselected
      have hmem := List.mem_filter.mpr ⟨hrow, hselected⟩
      exact ⟨hstart.2 _ (List.mem_map_of_mem hmem), hstop.2 _ (List.mem_map_of_mem hmem)⟩
    · cases h
  · cases h

variable {row : SegmentRow}

theorem Database.exists_spanAt (hstored : (db.flows.get f).isSome = true)
    (hrow : row ∈ db.segmentsOf f) (hselected : query.selects row = true) :
    ∃ span, db.spanAt query f = some span := by
  have hmem := List.mem_filter.mpr ⟨hrow, hselected⟩
  cases hmin : (((db.segmentsOf f).filter query.selects).map (·.timerangeStart)).min? with
  | none =>
    rw [List.min?_eq_none_iff, List.map_eq_nil_iff] at hmin
    rw [hmin] at hmem
    cases hmem
  | some start =>
    cases hmax : (((db.segmentsOf f).filter query.selects).map (·.timerangeEnd)).max? with
    | none =>
      rw [List.max?_eq_none_iff, List.map_eq_nil_iff] at hmax
      rw [hmax] at hmem
      cases hmem
    | some stop =>
      refine ⟨(start, stop), ?_⟩
      simp [Database.spanAt, hstored, Database.directBounds, hmin, hmax]

theorem directTimerange_lookup (hseeds : Seeds db seeds) {ids : List FlowId} {root f : FlowId}
    (hroot : root ∈ ids) (hcollects : db.Collects root f) : directTimerange ((db.flowTimeranges mt
        ((db.flowsForTimerangeResolution ids seeds).map (·.id)) query).lookup f) =
      (db.spanAt query f).map fun span =>
        timerangeFromBounds mt (some span.1) (some span.2) := by
  have hmem : f ∈ (db.flowsForTimerangeResolution ids seeds).map (·.id) ↔
      (db.flows.get f).isSome = true := by
    constructor
    · intro hf
      obtain ⟨flow, hflow, hid⟩ := List.mem_map.mp hf
      obtain ⟨found, hfound⟩ := Option.isSome_iff_exists.mp
        (flowsById_isSome.mpr ⟨flow, hflow, hid⟩)
      obtain ⟨stored, hstored, -⟩ := hseeds.loaded_stored hfound
      simp [hstored]
    · intro hstored
      obtain ⟨flow, hflow, hid⟩ := flowsById_isSome.mp
        (hseeds.loaded_of_collects hroot hcollects hstored)
      exact List.mem_map.mpr ⟨flow, hflow, hid⟩
  rw [lookup_flowTimeranges, Database.spanAt]
  by_cases hstored : (db.flows.get f).isSome = true
  · rw [if_pos (hmem.mpr hstored), if_pos hstored]
    obtain ⟨start, stop⟩ := db.directBounds query f
    cases start with
    | none => simp [timerangeFromBounds, directTimerange]
    | some start =>
      cases stop with
      | none => simp [timerangeFromBounds, directTimerange]
      | some stop => simp [directTimerange, timerangeFromBounds_ne]
  · rw [if_neg fun hf => hstored (hmem.mp hf), if_neg hstored]
    rfl

open Classical in
theorem Database.mem_collectedSegments :
    row ∈ db.collectedSegments query f ↔ row ∈ db.segmentsOf row.record.flowId ∧
      query.selects row = true ∧ db.Collects f row.record.flowId ∧
      (db.flows.get row.record.flowId).isSome = true := by
  rw [Database.collectedSegments, List.mem_filter, Database.mem_segmentsOf]
  simp

variable {visited : List FlowId} {root : FlowId}

theorem hullText_visited (hvisited : ∀ f, f ∈ visited ↔ db.Collects root f) :
    hullText mt ((visited.filterMap (db.spanAt query)).map Prod.fst).min?
        ((visited.filterMap (db.spanAt query)).map Prod.snd).max? =
      collectionHull mt db query root := by
  have hspan : ∀ {span}, span ∈ visited.filterMap (db.spanAt query) →
      ∃ f, db.Collects root f ∧ db.spanAt query f = some span := by
    intro span hmem
    obtain ⟨f, hf, hspan⟩ := List.mem_filterMap.mp hmem
    exact ⟨f, (hvisited f).mp hf, hspan⟩
  have hcollected : ∀ {f row}, db.Collects root f → (db.flows.get f).isSome = true →
      row ∈ db.segmentsOf f → query.selects row = true → row ∈ db.collectedSegments query root := by
    intro f row hcollects hstored hrow hselected
    obtain rfl := (Database.mem_segmentsOf.mp hrow).2
    exact Database.mem_collectedSegments.mpr ⟨hrow, hselected, hcollects, hstored⟩
  have hcover : ∀ {row}, row ∈ db.collectedSegments query root →
      ∃ span ∈ visited.filterMap (db.spanAt query),
        span.1 ≤ row.timerangeStart ∧ row.timerangeEnd ≤ span.2 := by
    intro row hrow
    obtain ⟨hmem, hselected, hcollects, hstored⟩ := Database.mem_collectedSegments.mp hrow
    obtain ⟨span, hspan⟩ := Database.exists_spanAt hstored hmem hselected
    exact ⟨span, List.mem_filterMap.mpr ⟨_, (hvisited _).mpr hcollects, hspan⟩,
      (Database.spanAt_eq_some hspan).2.2.2 row hmem hselected⟩
  rw [collectionHull]
  congr 1
  · apply min?_eq_of_cover
    · intro x hx
      obtain ⟨span, hmem, rfl⟩ := List.mem_map.mp hx
      obtain ⟨f, hcollects, hf⟩ := hspan hmem
      obtain ⟨hstored, ⟨row, hrow, hselected, hstart⟩, -, -⟩ := Database.spanAt_eq_some hf
      exact List.mem_map.mpr ⟨row, hcollected hcollects hstored hrow hselected, hstart⟩
    · intro y hy
      obtain ⟨row, hrow, rfl⟩ := List.mem_map.mp hy
      obtain ⟨span, hmem, hle, -⟩ := hcover hrow
      exact ⟨span.1, List.mem_map_of_mem hmem, hle⟩
  · apply max?_eq_of_cover
    · intro x hx
      obtain ⟨span, hmem, rfl⟩ := List.mem_map.mp hx
      obtain ⟨f, hcollects, hf⟩ := hspan hmem
      obtain ⟨hstored, -, ⟨row, hrow, hselected, hstop⟩, -⟩ := Database.spanAt_eq_some hf
      exact List.mem_map.mpr ⟨row, hcollected hcollects hstored hrow hselected, hstop⟩
    · intro y hy
      obtain ⟨row, hrow, rfl⟩ := List.mem_map.mp hy
      obtain ⟨span, hmem, -, hle⟩ := hcover hrow
      exact ⟨span.2, List.mem_map_of_mem hmem, hle⟩

theorem union_visited (L : mt.Lawful) (T : mt.Arithmetic) (X : mt.Texts)
    (hrows : ∀ row ∈ db.segments.rows, RowOk mt row)
    (hvisited : ∀ f, f ∈ visited ↔ db.Collects root f) {entry : FlowId → Option String}
    (hentry : ∀ f ∈ visited, entry f = (db.spanAt query f).map fun span =>
      timerangeFromBounds mt (some span.1) (some span.2)) :
    ∃ t, timerangeUnionStrings mt (visited.map entry) = .ok t ∧
      orEmptyRange t = collectionHull mt db query root := by
  have hlt : ∀ span ∈ visited.filterMap (db.spanAt query), span.1 < span.2 := by
    intro span hmem
    obtain ⟨f, -, hspan⟩ := List.mem_filterMap.mp hmem
    obtain ⟨-, ⟨row, hrow, hselected, -⟩, -, hbounds⟩ := Database.spanAt_eq_some hspan
    obtain ⟨r, b, hrange, hstart, hstop⟩ := (hrows row (Database.mem_segmentsOf.mp hrow).1).range
    obtain ⟨-, -, -, -, -, -, hnonempty⟩ := finiteNormalizedTimerangeBounds_ok hrange.bounds
    have := hbounds row hrow hselected
    omega
  have htexts : (visited.map entry).filterMap id = (visited.filterMap (db.spanAt query)).map
      fun span => timerangeFromBounds mt (some span.1) (some span.2) := by
    rw [List.filterMap_map, List.map_filterMap]
    exact List.filterMap_congr hentry
  obtain ⟨t, ht, htext⟩ := union_of_bounds L T X hlt htexts
  exact ⟨t, ht, htext.trans (hullText_visited hvisited)⟩

end Result

/-- **Collection-aware time ranges.**  For every graph of collections, and however sets are
    iterated, the walks end and the range of each requested flow is that of all segments of the
    stored flows it collects, itself included.  The right-hand side depends neither on the other
    requested flows and their order nor on the seeds. -/
theorem flow_timeranges_hull (mt : MediaTimestamp) (L : mt.Lawful) (T : mt.Arithmetic)
    (X : mt.Texts) (contract : String → Bool) (setOrder : List FlowId → List FlowId)
    (hset : ∀ elements, (setOrder elements).Perm elements) (db : Database)
    (hrows : ∀ row ∈ db.segments.rows, RowOk mt row) (timerange : Option String)
    (query : QueryTimerange) (hquery : queryTimerange mt contract timerange = .ok query)
    (ids : List FlowId) (seeds : List FlowRecord) (hseeds : Seeds db seeds) :
    flowTimeranges mt contract setOrder db ids seeds timerange =
      .ok ((fresh [] ids).map fun f => (f, collectionHull mt db query f)) := by
  let flows := db.flowsForTimerangeResolution (fresh [] ids) seeds
  have hrequested : fresh [] (fresh [] ids) = fresh [] ids :=
    fresh_eq_self (nodup_fresh [] ids) (by simp)
  have haware : collectionAwareFlowTimeranges mt setOrder flows
      (db.flowTimeranges mt (flows.map (·.id)) query) (fresh [] ids) =
      .ok ((fresh [] ids).map fun f => (f, collectionHull mt db query f)) := by
    rw [collectionAwareFlowTimeranges, hrequested]
    apply mapM_of_ok
    intro root hroot
    have hvisited : ∀ f, f ∈ setOrder ((collectionGraph flows).visit [root] []) ↔
        db.Collects root f := by
      intro f
      rw [(hset _).mem_iff, hseeds.mem_visited hroot]
    obtain ⟨t, ht, htext⟩ := union_visited L T X hrows hvisited fun f hf =>
      directTimerange_lookup hseeds hroot ((hvisited f).mp hf)
    dsimp only
    rw [ht, ← htext]
    rfl
  unfold flowTimeranges
  dsimp only
  split
  · rename_i hempty
    rw [List.isEmpty_iff.mp hempty]
    rfl
  · rw [hquery]
    simp only [bind, Except.bind]
    rw [haware]
    rfl

def ringFlow (id : FlowId) (children : List FlowId) : FlowRecord :=
  { id
    data := [("flow_collection", .collection (children.map fun child => ⟨child, ""⟩))]
    sourceId := none, format := none, container := none, profileId := none, status := none,
    initSegments := false, readOnly := false, tags := [], created := 0, metadataUpdated := 0,
    segmentsUpdated := none }

def ringSegment : SegmentRow where
  record :=
    { flowId := 2, objectId := "a", timerange := "[0:0_10:0)", initObjectId := none
      tsOffset := none, lastDuration := none, objectTimerange := none, sampleOffset := none, sampleCount := none,
      keyFrameCount := none, created := 0 }
  timerangeStart := 0
  timerangeEnd := 10000000000

def ringDatabase : Database :=
  { Database.empty with
    flows := ⟨[ringFlow 1 [2, 1, 9, 2], ringFlow 2 [1]], by decide⟩
    segments := ⟨[ringSegment], by decide⟩ }

theorem ringSegment_ok : RowOk sampleTimestamp ringSegment where
  range := ⟨⟨some (0, true), some (10000000000, false)⟩, ⟨0, 10000000000, false⟩,
    ⟨rfl, rfl, rfl⟩, rfl, rfl⟩
  init := by decide

theorem flow_timeranges_hull_ring :
    flowTimeranges sampleTimestamp (fun _ => true) id ringDatabase [2, 1] [ringFlow 2 [1]] none =
      .ok ((fresh [] [2, 1]).map fun f =>
        (f, collectionHull sampleTimestamp ringDatabase ⟨none, none, false, false⟩ f)) := by
  apply flow_timeranges_hull sampleTimestamp sampleTimestamp_lawful sampleTimestamp_arithmetic
    sampleTimestamp_texts
  · exact fun elements => List.Perm.refl elements
  · intro row hrow
    rw [List.mem_singleton.mp hrow]
    exact ringSegment_ok
  · rfl
  · intro seed hseed
    rw [List.mem_singleton.mp hseed]
    exact ⟨ringFlow 2 [1], by decide, rfl⟩

end Tamoss
