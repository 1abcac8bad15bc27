/-
  **What the store guarantees in every run.**
-/
import Tamoss.Store.Effects
import Tamoss.Store.Safety
import Tamoss.Store.Spans
import Mathlib.Order.CompletePartialOrder

namespace Tamoss

open Lib.Machine

variable {mt : MediaTimestamp} {fc : FlowContract}

def database (c : (service mt fc).Config) : Database := World.db c.shared

def deletions (c : (service mt fc).Config) : List FlowDeletion :=
  (World.history c.shared).deletions

variable (mt fc) in
def noFlowDeletion : (service mt fc).Discipline where
  starts op := ∀ f, op ≠ Op.deleteFlow f
  calls _ c _ _ _ := ∀ f, c ≠ .write (.deleteFlow f)

variable {c : (service mt fc).Config} {db : Database}

theorem storeInv_of_noFlowDeletion (L : mt.Lawful) (hdb : db.Fresh)
    (hc : (service mt fc).Reachable (noFlowDeletion mt fc) (World.initial db) c) :
    StoreInv mt True c.shared := by
  refine storeInv_of_reachable L hdb.consistent (hc.mono ?_ ?_)
  · exact fun op hop _ f => hop f
  · intro i q r s l hq
    cases q with
    | write w =>
      cases w with
      | deleteFlow f => exact absurd rfl (hq f)
      | _ => trivial
    | deleteSegmentBatch => exact .inl trivial
    | commit => exact .inl trivial
    | _ => trivial

theorem consistent_of_noFlowDeletion (L : mt.Lawful) (hdb : db.Fresh)
    (hc : (service mt fc).Reachable (noFlowDeletion mt fc) (World.initial db) c) :
    Consistent mt (database c) :=
  (storeInv_of_noFlowDeletion L hdb hc).core.consistent

def sampleContract : FlowContract :=
  ⟨fun _ => none, fun _ => none, fun _ => none, fun _ => false, fun _ _ => none, fun _ => [],
    fun _ => false⟩

abbrev sampleStore := service sampleTimestamp sampleContract

def sampleDatabase : Database :=
  { Database.empty with
    flows := Lib.Table.empty.upsert
      ⟨1, [], none, none, some "mp4", none, none, false, false, [], 0, 0, none⟩ }

def samplePost (objectId : ObjectId) (timerange : String) : SegmentPostInput :=
  .accepted ⟨objectId, timerange, none, none, none, none, none, none, none,
    some [⟨"http://localhost:9000", some "primary", none⟩]⟩

def sampleRegister (posts : List SegmentPostInput) : Op :=
  .registerSegments 1 posts ⟨5, fun _ _ => none⟩ (fun _ => ⟨5, fun _ _ => none⟩)

def session (op : Op) (calls : Nat) :
    List (service sampleTimestamp sampleContract).Action :=
  .start 0 op :: List.replicate calls (.call 0 ⟨7, 3, true, fun _ => false⟩) ++ [.leave 0]

theorem sampleDatabase_fresh : sampleDatabase.Fresh := ⟨rfl, rfl⟩

def runKeepingFlows (actions : List (service sampleTimestamp sampleContract).Action) :
    Option (service sampleTimestamp sampleContract).Config :=
  run _ (tests _ (fun op => match op with | Op.deleteFlow _ => false | _ => true)
      (fun _ q _ _ => match q with | .write (.deleteFlow _) => false | _ => true))
    (.initial (World.initial sampleDatabase)) actions

theorem reachable_of_runKeepingFlows {actions : List sampleStore.Action} {c : sampleStore.Config}
    (h : runKeepingFlows actions = some c) : sampleStore.Reachable
      (noFlowDeletion sampleTimestamp sampleContract) (World.initial sampleDatabase) c := by
  refine Reachable.of_run ?_ ?_ .init h
  · intro op hop f hf
    subst hf
    cases hop
  · intro i q r w l hq f hf
    subst hf
    cases hq

def nanoseconds (mt : MediaTimestamp) (timerange : String) : Set Int :=
  { n | ∃ r, mt.fromStr timerange = some r ∧ mt.Contains r n }

theorem SegmentRange.fromStr {value : String} {r : mt.TimeRange} {b : SegmentTimerangeBounds}
    (h : SegmentRange mt value r b) : mt.fromStr value = some r :=
  fromStr_of_parseTimerange h.parsed

theorem RowOk.mem_nanoseconds {row : SegmentRow} (h : RowOk mt row) {n : Int} :
    n ∈ nanoseconds mt row.record.timerange ↔ row.timerangeStart ≤ n ∧ n < row.timerangeEnd := by
  obtain ⟨r, b, hr, hstart, hstop⟩ := h.range
  rw [hstart, hstop, ← contains_intCast_iff hr.bounds]
  constructor
  · rintro ⟨r', hr', hn⟩
    obtain rfl := Option.some.inj (hr.fromStr.symm.trans hr')
    exact hn
  · exact fun hn => ⟨r, hr.fromStr, hn⟩

/-- **Segment non-overlap.** Whatever clients and workers do in any interleaving, flow
    deletions apart, any two stored segments of a flow denote disjoint sets of nanoseconds. -/
theorem stored_segments_disjoint (L : mt.Lawful) (hdb : db.Fresh)
    (hc : (service mt fc).Reachable (noFlowDeletion mt fc) (World.initial db) c)
    {f : FlowId} {a b : SegmentRow} (ha : a ∈ (database c).segmentsOf f)
    (hb : b ∈ (database c).segmentsOf f) (hne : a ≠ b) :
    Disjoint (nanoseconds mt a.record.timerange) (nanoseconds mt b.record.timerange) := by
  have hrows := (consistent_of_noFlowDeletion L hdb hc).rows f
  rw [Set.disjoint_left]
  intro n hna hnb
  rw [(hrows.row a ha).mem_nanoseconds] at hna
  rw [(hrows.row b hb).mem_nanoseconds] at hnb
  rcases hrows.apart a ha b hb hne with h | h <;> omega

theorem stored_segments_disjoint_sample :
    ∃ (c : (service sampleTimestamp sampleContract).Config) (a b : SegmentRow),
      a ∈ (database c).segmentsOf 1 ∧ b ∈ (database c).segmentsOf 1 ∧ a ≠ b ∧
      Disjoint (nanoseconds sampleTimestamp a.record.timerange)
        (nanoseconds sampleTimestamp b.record.timerange) := by
  let actions := session (sampleRegister [samplePost "a" "[0:0_10:0)", samplePost "b" "[10:0_20:0)"]) 18
  obtain ⟨c, hc, hnodup, hlength⟩ : ∃ c, runKeepingFlows actions = some c ∧
      ((database c).segmentsOf 1).Nodup ∧ ((database c).segmentsOf 1).length = 2 :=
    exists_of_any (by decide +kernel)
  obtain ⟨a, b, hab⟩ := List.length_eq_two.mp hlength
  rw [hab] at hnodup
  have ha : a ∈ (database c).segmentsOf 1 := by simp [hab]
  have hb : b ∈ (database c).segmentsOf 1 := by simp [hab]
  have hne : a ≠ b := by
    rintro rfl
    simp at hnodup
  exact ⟨c, a, b, ha, hb, hne, stored_segments_disjoint sampleTimestamp_lawful
    sampleDatabase_fresh (reachable_of_runKeepingFlows hc) ha hb hne⟩

variable (mt fc) in
/-- The runs in which flow deletions are spared a late registration: while the worker
    deletes the segments of a flow that is to be deleted, its request covers every stored
    segment of the flow; and no commit adds a segment to a flow that `delete_flow` has
    found empty and not yet deleted. -/
def coveredDeletions : (service mt fc).Discipline where
  starts _ := True
  calls i c _ w l :=
    match c with
    | .deleteSegmentBatch filter _ => BatchCovers i filter w l
    | .commit => CommitSpares i w l
    | _ => True

theorem storeInv_of_coveredDeletions (L : mt.Lawful) (hdb : db.Fresh)
    (hc : (service mt fc).Reachable (coveredDeletions mt fc) (World.initial db) c) :
    StoreInv mt False c.shared := by
  refine storeInv_of_reachable L hdb.consistent (hc.mono ?_ ?_)
  · exact fun op _ h => h.elim
  · intro i q r s l hq
    cases q with
    | write w =>
      cases w with
      | deleteFlow f => exact id
      | _ => trivial
    | deleteSegmentBatch => exact .inr hq
    | commit => exact .inr hq
    | _ => trivial

/-- **Flow deletion leaves nothing behind** in those runs: when a flow row is deleted it
    has no segment, and right afterwards no object lists the flow. -/
theorem flow_deletion_leaves_nothing (L : mt.Lawful) (hdb : db.Fresh)
    (hc : (service mt fc).Reachable (coveredDeletions mt fc) (World.initial db) c)
    {d : FlowDeletion} (hd : d ∈ deletions c) : d.segments = [] ∧ d.listedBy = [] :=
  (storeInv_of_coveredDeletions L hdb hc).deletions d hd

/-- A run of the sessions below `n` leaves no note of any other session. -/
theorem others_idle {D : (service mt fc).Discipline} {n : SessionId}
    (hD : ∀ i q r w l, D.calls i q r w l → i < n)
    (hc : (service mt fc).Reachable D (World.initial db) c) {j : SessionId} (hj : n ≤ j) :
    (World.history c.shared).copies j = [] ∧ (World.history c.shared).condemned j = [] := by
  induction hc with
  | init => exact ⟨rfl, rfl⟩
  | step a hc hstep hperm ih =>
    cases stepped hstep with
    | start => exact ih
    | call i ch l q k r w l' hth hex =>
      have hi : i < n := hD i q r _ l (hperm l q k r w l' hth hex)
      obtain ⟨hcopies, hcondemned⟩ := (exec_moves hex).others (Nat.ne_of_gt (hi.trans_le hj))
      exact ⟨hcopies.trans ih.1, hcondemned.trans ih.2⟩
    | leave i =>
      by_cases hji : j = i
      · subst hji
        exact ⟨Function.update_self .., Function.update_self ..⟩
      · exact ⟨(Function.update_of_ne hji _ _).trans ih.1, (Function.update_of_ne hji _ _).trans ih.2⟩

/-- The run of `actions` by the sessions below `n`, in which every call passes the test. -/
def runSessions (n : SessionId) (calls : SessionId → Call → World → Session → Bool)
    (actions : List sampleStore.Action) : Option sampleStore.Config :=
  run _ (tests _ (fun _ => true) fun i q w l => decide (i < n) && calls i q w l)
    (.initial (World.initial sampleDatabase)) actions

theorem reachable_of_runSessions {D : sampleStore.Discipline} {n : SessionId}
    {calls : SessionId → Call → World → Session → Bool} (hstarts : ∀ op, D.starts op)
    (hcalls : ∀ i q r w l, calls i q w l = true →
      (∀ j, n ≤ j → w.history.copies j = [] ∧ w.history.condemned j = []) → D.calls i q r w l)
    {actions : List sampleStore.Action} {c : sampleStore.Config}
    (h : runSessions n calls actions = some c) :
    sampleStore.Reachable D (World.initial sampleDatabase) c := by
  let few : sampleStore.Discipline := ⟨fun _ => True, fun i q _ w l => i < n ∧ calls i q w l = true⟩
  have hfew : sampleStore.Reachable few (World.initial sampleDatabase) c := by
    refine Reachable.of_run (fun _ _ => trivial) (fun i q r w l hq => ?_) .init h
    rw [Bool.and_eq_true, decide_eq_true_eq] at hq
    exact hq
  have hidle : ∀ c, sampleStore.Reachable few (World.initial sampleDatabase) c → ∀ j, n ≤ j →
      (World.history c.shared).copies j = [] ∧ (World.history c.shared).condemned j = [] :=
    fun c hc j hj => others_idle (fun _ _ _ _ _ h => And.left h) hc hj
  let idle (_ : SessionId) (_ : Call) (w : World) (_ : Session) : Prop :=
    ∀ j, n ≤ j → w.history.copies j = [] ∧ w.history.condemned j = []
  have hassuming : sampleStore.Reachable (few.assuming idle) (World.initial sampleDatabase) c :=
    hfew.assuming fun c hc _ _ _ _ _ => hidle c hc
  refine hassuming.mono (fun op _ => hstarts op) ?_
  rintro i q r w l ⟨⟨-, hq⟩, hw⟩
  exact hcalls i q r w l hq hw

/-- Every batch covers the flow, and a commit finds no flow condemned by the other session. -/
def coversFlow (i : SessionId) (q : Call) (w : World) (l : Session) : Bool :=
  match q with
  | .deleteSegmentBatch filter _ => ((w.view l).segmentsOf filter.flowId).all filter.selects
  | .commit => (List.range 2).all fun j => j = i || w.history.condemned j = []
  | _ => true

/-- The worker deletes the registered segment and then the flow row. -/
theorem flow_deletion_leaves_nothing_sample :
    ∃ (before after : List sampleStore.Action) (c₀ c : sampleStore.Config) (d : FlowDeletion),
      runSessions 2 coversFlow before = some c₀ ∧
      ((database c₀).segmentsOf 1).map (·.record.objectId) = ["a"] ∧ (database c₀).listing 1 = ["a"] ∧
      runSessions 2 coversFlow (before ++ after) = some c ∧
      d ∈ deletions c ∧ d.flowId = 1 ∧ d.segments = [] ∧ d.listedBy = [] := by
  let before := session (sampleRegister [samplePost "a" "[0:0_10:0)"]) 15
  let after := session (.deleteFlow 1) 5 ++ session (.processDeleteRequest 3 5) 19
  obtain ⟨c₀, hc₀, hsegments, hlisting⟩ : ∃ c, runSessions 2 coversFlow before = some c ∧
      ((database c).segmentsOf 1).map (·.record.objectId) = ["a"] ∧ (database c).listing 1 = ["a"] :=
    exists_of_any (by decide +kernel)
  obtain ⟨c, hc, hids⟩ : ∃ c, runSessions 2 coversFlow (before ++ after) = some c ∧
      (deletions c).map (·.flowId) = [1] := exists_of_any (by decide +kernel)
  obtain ⟨d, hd, hid⟩ := List.map_eq_singleton_iff.mp hids
  have hmem : d ∈ deletions c := by simp [hd]
  refine ⟨before, after, c₀, c, d, hc₀, hsegments, hlisting, hc, hmem, hid,
    flow_deletion_leaves_nothing sampleTimestamp_lawful sampleDatabase_fresh
      (reachable_of_runSessions (fun _ => trivial) ?_ hc) hmem⟩
  intro i q r w l hq hidle
  cases q with
  | deleteSegmentBatch filter limit => exact fun _ => List.all_eq_true.mp hq
  | commit =>
    intro j hj f hf
    have hnone : w.history.condemned j = [] := by
      by_cases hjn : j < 2
      · have hall := List.all_eq_true.mp hq j (List.mem_range.mpr hjn)
        simpa [hj] using hall
      · exact (hidle j (Nat.le_of_not_lt hjn)).2
    rw [hnone] at hf
    cases hf
  | _ => trivial

/-- A segment is registered between the request to delete the flow and its processing by
    the worker. It lies outside the request's time range, the worker deletes the flow row
    all the same, and the object stays listed for a flow that is gone. -/
theorem flow_deletion_leaves_segment :
    sampleDatabase.Fresh ∧ ∃ c : (service sampleTimestamp sampleContract).Config,
      Reachable _ (Discipline.free _) (World.initial sampleDatabase) c ∧
      ∃ d ∈ deletions c, d.flowId = 1 ∧ d.segments ≠ [] ∧ d.listedBy = ["b"] := by
  refine ⟨sampleDatabase_fresh, ?_⟩
  let actions := session (sampleRegister [samplePost "a" "[0:0_10:0)"]) 15 ++
    session (.deleteFlow 1) 5 ++ session (sampleRegister [samplePost "b" "[10:0_20:0)"]) 15 ++
    session (.processDeleteRequest 3 5) 19
  obtain ⟨c, hc, hd⟩ : ∃ c, run sampleStore (tests _ (fun _ => true) (fun _ _ _ _ => true))
      (.initial (World.initial sampleDatabase)) actions = some c ∧
        ∃ d ∈ deletions c, d.flowId = 1 ∧ d.segments ≠ [] ∧ d.listedBy = ["b"] :=
    exists_of_any (by decide +kernel)
  exact ⟨c, Reachable.of_run (fun _ _ => trivial) (fun _ _ _ _ _ _ => trivial) .init hc, hd⟩

/-- **Reference exactness.** In every committed state, an object lists a flow if and only
    if a stored segment of the flow names it as its object or init object, and every object
    that a stored segment names has a record. -/
theorem references_exact (L : mt.Lawful) (hdb : db.Fresh)
    (hc : (service mt fc).Reachable (noFlowDeletion mt fc) (World.initial db) c) :
    (∀ f o, (∃ obj, (database c).objects.get o = some obj ∧ f ∈ obj.referencedByFlows) ↔
      ∃ row ∈ (database c).segmentsOf f,
        row.record.objectId = o ∨ row.record.initObjectId = some o) ∧
    ∀ row ∈ (database c).segments.rows, ∀ o,
      row.record.objectId = o ∨ row.record.initObjectId = some o →
        ∃ obj, (database c).objects.get o = some obj := by
  have hcon := consistent_of_noFlowDeletion L hdb hc
  have hrefs : ∀ f o, (∃ obj, (database c).objects.get o = some obj ∧
      f ∈ obj.referencedByFlows) ↔ ∃ row ∈ (database c).segmentsOf f,
        row.record.objectId = o ∨ row.record.initObjectId = some o := by
    intro f o
    rw [← mem_refsOf]
    exact hcon.refs f o
  refine ⟨hrefs, fun row hrow o ho => ?_⟩
  have hmem : row ∈ (database c).segmentsOf row.record.flowId := by
    simpa [Database.segmentsOf] using hrow
  obtain ⟨obj, hobj, -⟩ := (hrefs row.record.flowId o).mpr ⟨row, hmem, ho⟩
  exact ⟨obj, hobj⟩

theorem references_exact_sample :
    ∃ c : (service sampleTimestamp sampleContract).Config,
      (∃ row ∈ (database c).segmentsOf 1, row.record.objectId = "a") ∧
      ∃ obj, (database c).objects.get "a" = some obj ∧ 1 ∈ obj.referencedByFlows := by
  obtain ⟨c, hc, hrow⟩ : ∃ c,
      runKeepingFlows (session (sampleRegister [samplePost "a" "[0:0_10:0)"]) 15) = some c ∧
        ∃ row ∈ (database c).segmentsOf 1, row.record.objectId = "a" :=
    exists_of_any (by decide +kernel)
  obtain ⟨row, hmem, ho⟩ := hrow
  have hexact := references_exact sampleTimestamp_lawful sampleDatabase_fresh
    (reachable_of_runKeepingFlows hc)
  exact ⟨c, ⟨row, hmem, ho⟩, (hexact.1 1 "a").mpr ⟨row, hmem, .inl ho⟩⟩

end Tamoss
