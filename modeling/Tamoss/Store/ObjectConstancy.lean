/-
  **An object that segments use keeps its time range.**
-/
import Tamoss.Store.Linkage

namespace Tamoss

open Lib.Machine

variable {mt : MediaTimestamp} {fc : FlowContract}

variable {c : (service mt fc).Config} {db : Database}

theorem consistent_of_coveredDeletions (L : mt.Lawful) (hdb : db.Fresh)
    (hc : (service mt fc).Reachable (coveredDeletions mt fc) (World.initial db) c) :
    Consistent mt (database c) :=
  (storeInv_of_coveredDeletions L hdb hc).core.consistent

theorem timed_ok (L : mt.Lawful) (T : mt.Arithmetic) (hdb : db.Fresh)
    (hc : (service mt fc).Reachable (coveredDeletions mt fc) (World.initial db) c) :
    c.Ok (linkProtocol mt fc True (coveredDeletions mt fc)) :=
  linkage_ok L (fun _ => T) hdb.wellFormed (hdb.linked True)
    (fun _ _ hc => consistent_of_coveredDeletions L hdb hc) hc

theorem exec_objects {exact : Prop} {i : SessionId} {ch : Choice} {q : Call} {w w' : World}
    {l l' : Session} {r : q.Resp} (h : exec mt i ch q w l = some (r, w', l'))
    (hreq : LinkReq exact i q w.core l) (hq : q ≠ .commit) (o : ObjectId) :
    w'.db.objects.get o = w.db.objects.get o := by
  have hneutral : ∀ ws : List Write, (∀ x ∈ ws, x.Neutral) →
      (w.db.applyAll ws).objects.get o = w.db.objects.get o := fun ws hws =>
    objects_get_applyAll_neutral hws w.db o
  have heffect := exec_effect h
  generalize w'.db = db' at heffect
  cases heffect with
  | begin => rfl
  | commit => exact absurd rfl hq
  | rollback => rfl
  | pending => rfl
  | @done _ _ _ ws hws htx =>
    -- outside a transaction only the queues and the profiles are written to
    apply hneutral ws
    intro x hx
    cases q with
    | write wr =>
      obtain rfl : ws = [wr] := hws
      obtain rfl := List.mem_singleton.mp hx
      exact hreq htx
    | createProfile profile =>
      rcases hws with rfl | rfl
      · cases hx
      · obtain rfl := List.mem_singleton.mp hx
        trivial
    | deleteProfile p =>
      rcases hws with rfl | rfl
      · cases hx
      · obtain rfl := List.mem_singleton.mp hx
        trivial
    | deleteSegmentBatch filter limit =>
      rw [show l.inTransaction = true from hreq] at htx
      cases htx
    | createObjects objects =>
      rw [show l.inTransaction = true from hreq] at htx
      cases htx
    | begin => exact hws.elim
    | commit => exact hws.elim
    | rollback => exact hws.elim
    | _ =>
      obtain rfl : ws = [] := hws
      cases hx

variable {a : (service mt fc).Action}

/-- **A step changes no time range of an object in use**: neither of a media object nor of
    an init object that segments name before and after it. -/
theorem timerange_of_step {c c' : (service mt fc).Config}
    {D : (service mt fc).Discipline} (hok : c.Ok (linkProtocol mt fc True D))
    (hok' : c'.Ok (linkProtocol mt fc True D))
    (hstep : (service mt fc).step c a = some c') {o : ObjectId}
    (hbefore : ∃ row ∈ (database c).segments.rows, row.record.Names o)
    (hafter : ∃ row ∈ (database c').segments.rows, row.record.Names o) :
    ((database c').objects.get o).map (·.timerange) =
      ((database c).objects.get o).map (·.timerange) := by
  have hlinked : Linked mt True (database c) := hok.inv
  have hlinked' : Linked mt True (database c') := hok'.inv
  cases stepped hstep with
  | start i op _ =>
    rfl
  | leave i =>
    rfl
  | call i ch l q k r w' l' hth hex =>
    have hreq := hok.req hth
    by_cases hq : q = .commit
    · subst hq
      obtain ⟨row, hrow, hnames⟩ := hbefore
      obtain ⟨m, hm, hties⟩ := hlinked.tied row hrow o hnames
      obtain ⟨row', hrow', hnames'⟩ := hafter
      obtain ⟨m', hm', -⟩ := hlinked'.tied row' hrow' o hnames'
      obtain ⟨hw, -⟩ := Prod.mk.inj (Prod.mk.inj (Option.some.inj hex)).2
      have hview : (World.core c.shared).view l = w'.db := congrArg World.db hw
      have hkeeps := hreq o m m' hm (List.ne_nil_of_mem hties.listed)
        (by rw [hview]; exact hm')
      rw [hm, hm']
      exact congrArg some (hkeeps.timerange trivial)
    · exact congrArg (Option.map (·.timerange)) (exec_objects hex hreq hq o)

def instants (mt : MediaTimestamp) (timerange : String) : Set ℚ :=
  { x | ∃ r, mt.fromStr timerange = some r ∧ mt.Contains r x }

theorem mem_instants {field text : String} {finite : Bool} {r : mt.TimeRange}
    (h : parseTimerange mt field finite text = .ok r) {x : ℚ} :
    x ∈ instants mt text ↔ mt.Contains r x := by
  have hread := fromStr_of_parseTimerange h
  constructor
  · rintro ⟨r', hr', hx⟩
    obtain rfl := Option.some.inj (hread.symm.trans hr')
    exact hx
  · exact fun hx => ⟨r, hread, hx⟩

theorem mem_nanoseconds_iff {text : String} {n : Int} :
    n ∈ nanoseconds mt text ↔ (n : ℚ) ∈ instants mt text := Iff.rfl

/-- **Object time ranges contain their segments and are constant.** While flow deletions are
    spared a late registration: every stored segment, moved back by its offset, lies in its
    media object's range; what `segment_object_timerange` recomputes from the segment denotes
    the nanoseconds of that range; and no step changes the range of an object that a stored
    segment names before and after the step. -/
theorem object_timerange_constant (L : mt.Lawful) (T : mt.Arithmetic)
    (hdb : db.Fresh)
    (hc : (service mt fc).Reachable (coveredDeletions mt fc) (World.initial db) c) :
    (∀ row ∈ (database c).segments.rows, ∃ m text,
      (database c).objects.get row.record.objectId = some m ∧ m.timerange = some text ∧
      (∃ offset : Int, segmentOffset mt row.record.tsOffset = .ok offset ∧
        ∀ x ∈ instants mt row.record.timerange, x - offset ∈ instants mt text) ∧
      ∃ own, segmentObjectTimerange mt row.record = .ok own ∧
        nanoseconds mt own = nanoseconds mt text) ∧
    ∀ (a : (service mt fc).Action) (c' : (service mt fc).Config),
      (service mt fc).step c a = some c' → (coveredDeletions mt fc).Permits c a →
      ∀ o, (∃ row ∈ (database c).segments.rows, row.record.Names o) →
        (∃ row ∈ (database c').segments.rows, row.record.Names o) →
        ((database c').objects.get o).map (·.timerange) =
          ((database c).objects.get o).map (·.timerange) := by
  have hok := timed_ok L T hdb hc
  have hlinked : Linked mt True (database c) := hok.inv
  refine ⟨fun row hrow => ?_, fun a c' hstep hperm o hbefore hafter => ?_⟩
  · obtain ⟨m, hm, hties⟩ := hlinked.tied row hrow _ (.inl rfl)
    obtain ⟨text, object, htext, hobject, hcovers⟩ := (hties.media rfl).2.2 trivial
    obtain ⟨offset, range, hoffset, hrange, hinside⟩ := hcovers.contained
    obtain ⟨own, ownRange, hown, hownRange, hsame⟩ := hcovers.own
    refine ⟨m, text, hm, htext, ⟨offset, hoffset, fun x hx => ?_⟩, own, hown, ?_⟩
    · rw [mem_instants hrange] at hx
      rw [mem_instants hobject]
      exact hinside x hx
    · ext n
      rw [mem_nanoseconds_iff, mem_nanoseconds_iff, mem_instants hownRange,
        mem_instants hobject]
      exact hsame n
  · exact timerange_of_step hok (timed_ok L T hdb (.step a hc hstep hperm)) hstep hbefore hafter

def twoFlows : Database :=
  { sampleDatabase with
    flows := sampleDatabase.flows.upsert
      ⟨2, [], none, none, some "mp4", none, none, false, false, [], 0, 0, none⟩ }

theorem twoFlows_fresh : twoFlows.Fresh := ⟨rfl, rfl⟩

def sampleRegisterSecond (posts : List SegmentPostInput) : Op :=
  .registerSegments 2 posts ⟨5, fun _ _ => none⟩ (fun _ => ⟨5, fun _ _ => none⟩)

variable (mt fc) in
def noDeletion : (service mt fc).Discipline where
  starts op := ∀ f, op ≠ Op.deleteFlow f
  calls _ q _ _ _ := (∀ f, q ≠ .write (.deleteFlow f)) ∧
    ∀ filter n, q ≠ .deleteSegmentBatch filter n

theorem permits_of_noDeletion (L : mt.Lawful) (hdb : db.Fresh)
    (hc : (service mt fc).Reachable (noDeletion mt fc) (World.initial db) c)
    (ha : (noDeletion mt fc).Permits c a) : (coveredDeletions mt fc).Permits c a := by
  have hkeeps : (service mt fc).Reachable (noFlowDeletion mt fc) (World.initial db) c :=
    Reachable.mono (D := noDeletion mt fc) (fun _ hop => hop) (fun _ _ _ _ _ hq => hq.1) hc
  have hquiet := (storeInv_of_noFlowDeletion L hdb hkeeps).quiet trivial
  cases a with
  | start i op => trivial
  | leave i => trivial
  | call i ch =>
    intro l q k r w' l' hth hex
    have hq := ha l q k r w' l' hth hex
    cases q with
    | deleteSegmentBatch filter n => exact absurd rfl (hq.2 filter n)
    | commit =>
      intro j _ f hf
      rw [(hquiet j).1] at hf
      cases hf
    | _ => trivial

theorem covered_of_noDeletion (L : mt.Lawful) (hdb : db.Fresh)
    (hc : (service mt fc).Reachable (noDeletion mt fc) (World.initial db) c) :
    (service mt fc).Reachable (coveredDeletions mt fc) (World.initial db) c := by
  induction hc with
  | init => exact .init
  | step a hc hstep ha ih => exact .step a ih hstep (permits_of_noDeletion L hdb hc ha)

def keeping : (service sampleTimestamp sampleContract).Config →
    (service sampleTimestamp sampleContract).Action → Bool :=
  tests _ (fun op => match op with | Op.deleteFlow _ => false | _ => true)
    (fun _ q _ _ => match q with
      | .write (.deleteFlow _) | .deleteSegmentBatch _ _ => false
      | _ => true)

theorem noDeletion_of_keeping {c : sampleStore.Config}
    {a : sampleStore.Action} (h : keeping c a = true) :
    (noDeletion sampleTimestamp sampleContract).Permits c a := by
  refine Discipline.permits_of_tests ?_ ?_ h
  · intro op hop f hf
    subst hf
    cases hop
  · intro i q r w l hq
    constructor
    · intro f hf
      subst hf
      cases hq
    · intro filter n hf
      subst hf
      cases hq

/-- The object of a segment of the first flow is registered for the second flow as well;
    the step is the commit of that registration. -/
theorem object_timerange_constant_sample :
    ∃ (c c' : (service sampleTimestamp sampleContract).Config) (row : SegmentRow)
      (m : MediaObjectRecord) (text own : String),
      (∃ a, (service sampleTimestamp sampleContract).step c a = some c') ∧
      row ∈ (database c).segments.rows ∧
      (database c).objects.get row.record.objectId = some m ∧ m.timerange = some text ∧
      segmentObjectTimerange sampleTimestamp row.record = .ok own ∧
      nanoseconds sampleTimestamp own = nanoseconds sampleTimestamp text ∧
      ((database c').objects.get row.record.objectId).map (·.timerange) = some (some text) := by
  let commit : sampleStore.Action :=
    .call 0 ⟨7, 3, true, fun _ => false⟩
  have hran : (run _ keeping (.initial (World.initial twoFlows))
      (session (sampleRegister [samplePost "a" "[0:0_10:0)"]) 15 ++
        .start 0 (sampleRegisterSecond [samplePost "a" "[0:0_10:0)"]) :: callsOf 0 14)).any (fun c =>
        keeping c commit && decide (∃ row ∈ (database c).segments.rows,
          row.record.objectId = "a") &&
        (step _ c commit).any fun c' =>
          decide ((database c').segments.rows.map (·.record.objectId) = ["a", "a"])) = true := by
    decide +kernel
  obtain ⟨c, hc, hat⟩ := Option.any_eq_true .. |>.mp hran
  obtain ⟨hrow, hat⟩ := (Bool.and_eq_true ..).mp hat
  obtain ⟨hkeeping, hrow⟩ := (Bool.and_eq_true ..).mp hrow
  obtain ⟨row, hrow, hid⟩ := of_decide_eq_true hrow
  obtain ⟨c', hstep, hrows'⟩ := Option.any_eq_true .. |>.mp hat
  have hrows' := of_decide_eq_true hrows'
  obtain ⟨row', hrow', hid'⟩ : ∃ row' ∈ (database c').segments.rows,
      row'.record.objectId = "a" :=
    List.mem_map.mp (hrows' ▸ List.mem_cons_self)
  have hreach : Reachable _ (noDeletion sampleTimestamp sampleContract)
      (World.initial twoFlows) c := Reachable.of_run_permits noDeletion_of_keeping .init hc
  obtain ⟨hcontained, hconstant⟩ := object_timerange_constant sampleTimestamp_lawful
    sampleTimestamp_arithmetic twoFlows_fresh
    (covered_of_noDeletion sampleTimestamp_lawful twoFlows_fresh hreach)
  obtain ⟨m, text, hm, htext, -, own, hown, hsame⟩ := hcontained row hrow
  refine ⟨c, c', row, m, text, own, ⟨commit, hstep⟩, hrow, hm, htext, hown, hsame, ?_⟩
  have hperm := permits_of_noDeletion sampleTimestamp_lawful twoFlows_fresh hreach
    (noDeletion_of_keeping hkeeping)
  have hkept := hconstant commit c' hstep hperm row.record.objectId ⟨row, hrow, .inl rfl⟩
    ⟨row', hrow', .inl (hid'.trans hid.symm)⟩
  rw [hkept, hm, ← htext]
  rfl

/-- A flow is deleted while a segment of it is registered, the object of the segment stays
    listed, and a segment of another flow is stored for the object, deleted and stored at
    another place. The deletion recomputes the object's range from no segment at all, and
    the object is left without one while a segment of it is stored. -/
theorem object_timerange_lost :
    sampleTimestamp.Lawful ∧ sampleTimestamp.Arithmetic ∧ twoFlows.Fresh ∧
    ∃ c : (service sampleTimestamp sampleContract).Config,
      Reachable _ (Discipline.free _) (World.initial twoFlows) c ∧
      ∃ row ∈ (database c).segments.rows,
        ((database c).objects.get row.record.objectId).map (·.timerange) = some none := by
  refine ⟨sampleTimestamp_lawful, sampleTimestamp_arithmetic, twoFlows_fresh, ?_⟩
  let actions := session (sampleRegister [samplePost "a" "[0:0_10:0)"]) 15 ++
    session (.deleteFlow 1) 5 ++ session (sampleRegister [samplePost "b" "[10:0_20:0)"]) 15 ++
    session (.processDeleteRequest 3 5) 26 ++
    session (sampleRegisterSecond [samplePost "b" "[10:0_20:0)"]) 15 ++
    session (.deleteSegments 2 none (some "b") 5) 15 ++
    session (sampleRegisterSecond [samplePost "b" "[0:0_10:0)"]) 15
  obtain ⟨c, hc, hrow⟩ : ∃ c, run sampleStore (tests _ (fun _ => true) (fun _ _ _ _ => true))
      (.initial (World.initial twoFlows)) actions = some c ∧
        ∃ row ∈ (database c).segments.rows,
          ((database c).objects.get row.record.objectId).map (·.timerange) = some none :=
    exists_of_any (by decide +kernel)
  exact ⟨c, Reachable.of_run (fun _ _ => trivial) (fun _ _ _ _ _ _ => trivial) .init hc, hrow⟩

end Tamoss
