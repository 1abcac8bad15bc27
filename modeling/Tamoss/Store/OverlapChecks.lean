/-
  **The two overlap checks of a registration agree.**
-/
import Tamoss.Lib.Account
import Tamoss.Lib.Except
import Tamoss.Store.Linkage
import Tamoss.Store.OneByOne

namespace Tamoss

open Lib (Only bind_eq_ok)
open Lib.Machine

variable {mt : MediaTimestamp} {fc : FlowContract} {i : SessionId}

/-- What the loop has accepted so far has the ranges of posts, and none of these meets a range
    that was known before the batch. -/
structure AcceptedApart (posts : List (Option SegmentPost)) (known : List mt.TimeRange)
    (ws : WorkingSet mt) : Prop where
  keeps : ∀ r ∈ known, r ∈ ws.known
  accepted : ∀ s ∈ ws.accepted, ∃ post r, some post ∈ posts ∧ s.timerange = post.timerange ∧
    parseTimerange mt "timerange" true post.timerange = .ok r ∧
    ∀ r' ∈ known, mt.isEmpty (mt.intersectWith r r') = true

theorem registerPosts_apart {flow : FlowRecord} {locked : List ObjectId}
    {checks : UploadChecks} {readings : Nat → Readings} {all posts : List (Option SegmentPost)}
    {n : Nat} {known : List mt.TimeRange} {ws ws' : WorkingSet mt}
    {results : List SegmentWriteResult} (hall : ∀ post ∈ posts, post ∈ all)
    (h : AcceptedApart all known ws)
    (hrun : registerPosts mt flow locked checks readings n ws posts = .ok (ws', results)) :
    AcceptedApart all known ws' := by
  induction posts generalizing n ws results with
  | nil =>
    cases hrun
    exact h
  | cons post posts ih =>
    have htail : ∀ post ∈ posts, post ∈ all := fun post hp => hall post (by simp [hp])
    cases post with
    | none =>
      obtain ⟨⟨ws₁, results₁⟩, hrest, hrun⟩ := bind_eq_ok hrun
      cases hrun
      exact ih htail h hrest
    | some post =>
      obtain ⟨⟨ws₁, result⟩, hpost, hrun⟩ := bind_eq_ok hrun
      obtain ⟨⟨ws₂, results₂⟩, hrest, hrun⟩ := bind_eq_ok hrun
      cases hrun
      apply ih htail _ hrest
      unfold registerPost at hpost
      split at hpost
      · rename_i p hp
        cases hpost
        obtain ⟨htimerange, hparsed, hapart⟩ := prepareSegmentRegistrationOrRaise_range hp
        constructor
        · intro r hr
          exact List.mem_append_left _ (h.keeps r hr)
        · intro s hs
          rcases List.mem_append.mp hs with hs | hs
          · exact h.accepted s hs
          · obtain rfl := List.mem_singleton.mp hs
            exact ⟨post, p.range, hall _ (by simp), htimerange, hparsed,
              fun r hr => hapart r (h.keeps r hr)⟩
      · cases hpost
        exact h
      · cases hpost

def SegmentRow.Listed (mt : MediaTimestamp) (candidates : List SegmentTimerangeBounds)
    (stored : List SegmentRecord) (row : SegmentRow) : Prop :=
  RowOk mt row ∧
    ((candidates.any fun c => row.overlaps c.start (queryEnd c)) = true → row.record ∈ stored)

/-- **The package's comparison with the listed segments is the comparison of the columns**
    with all of them. -/
theorem SegmentRow.Listed.not_overlaps (L : mt.Lawful)
    {candidates : List SegmentTimerangeBounds} {stored : List SegmentRecord}
    {known : List mt.TimeRange} {row : SegmentRow} (h : row.Listed mt candidates stored)
    (hknown : stored.mapM (fun segment =>
      parseTimerange mt "timerange" true segment.timerange) = .ok known)
    {value : String} {r : mt.TimeRange} {b : SegmentTimerangeBounds}
    (hr : SegmentRange mt value r b) (hb : b ∈ candidates)
    (hapart : ∀ r' ∈ known, mt.isEmpty (mt.intersectWith r r') = true) :
    row.overlaps b.start b.stop = false := by
  obtain ⟨⟨⟨r', b', hr', hstart, hstop⟩, -⟩, hlisted⟩ := h
  by_contra hcon
  have hover : row.overlaps b.start b.stop = true := by simpa using hcon
  have hend : queryEnd b = b.stop := by
    have hlt := hr.lt
    simp only [queryEnd, Bool.and_eq_true, decide_eq_true_eq, ite_eq_right_iff]
    omega
  have hmem : row.record ∈ stored :=
    hlisted (List.any_eq_true.mpr ⟨b, hb, by rw [hend]; exact hover⟩)
  -- so the row's range is among the known ones
  obtain ⟨r'', hr'', hparsed⟩ := Lib.exists_mem_of_forall₂ (Lib.mapM_ok_iff.mp hknown) hmem
  obtain rfl : r' = r'' := Except.ok.inj (hr'.parsed.symm.trans hparsed)
  have hempty := hapart r' hr''
  rw [isEmpty_intersectWith_iff L hr.bounds hr.includesStart hr'.bounds hr'.includesStart]
    at hempty
  rw [SegmentRow.overlaps_iff, hstart, hstop] at hover
  omega

def RunsRegistration : Option Op → Prop
  | some (.registerSegments _ _ _ _) => True
  | _ => False

def OverlapReq (i : SessionId) (q : Call) (w : World) (l : Session) : Prop :=
  match q with
  | .segmentsOverlap f bounds => RunsRegistration (w.running i) →
      w.locks (.flow f) = some i ∧
        ∀ row ∈ (w.view l).segmentsOf f, ∀ b ∈ bounds, row.overlaps b.1 b.2 = false
  | _ => True

/-- What `linkage_ok` says of a call. -/
def LinkGuarantee (mt : MediaTimestamp) (i : SessionId) (q : Call) (w : World) (l : Session) :
    Prop :=
  Granted mt False i w l ∧ ∀ ch r w' l', exec mt i ch q w l = some (r, w', l') →
    ∀ j, j ≠ i → LinkRely j w.core w'.core

theorem linkRely_refl (i : SessionId) (w : World) : LinkRely i w.core w.core :=
  LinkRely.refl i w.core

theorem linkRely_trans (i : SessionId) (w w' w'' : World) (h : LinkRely i w.core w'.core)
    (h' : LinkRely i w'.core w''.core) : LinkRely i w.core w''.core := h.trans h'

variable (mt fc) in
def overlapProtocol : (service mt fc).Protocol where
  discipline := (Discipline.free _).assuming (LinkGuarantee mt)
  Inv _ := True
  Rely i w w' := LinkRely i (World.core w) (World.core w')
  Req := OverlapReq
  rely_refl := linkRely_refl
  rely_trans := linkRely_trans

abbrev OverlapSpec (mt : MediaTimestamp) (fc : FlowContract) {α : Type} (i : SessionId)
    (A : World → Session → Prop) (p : App α) (Q : α → World → Session → Prop)
    (E : PyError → Session → Prop) : Prop :=
  Triple (overlapProtocol mt fc) i A p Q E

def OverlapStable (i : SessionId) (A : World → Session → Prop) : Prop :=
  ∀ w w' l, A w l → LinkRely i (World.core w) (World.core w') → A w' l

def Call.NoCheck : Call → Prop
  | .segmentsOverlap _ _ => False
  | _ => True

variable {q : Call}

theorem Call.NoCheck.req (hq : q.NoCheck) (w : World) (l : Session) : OverlapReq i q w l := by
  cases q with
  | segmentsOverlap => exact hq.elim
  | _ => trivial

def Call.SparesRows : Call → Prop
  | .begin | .commit | .rollback | .segmentsOverlap _ _ | .deleteSegmentBatch _ _
  | .write (.saveSegment _) | .write (.deleteSegment _) | .write (.deleteFlow _) => False
  | _ => True

theorem Call.SparesRows.noCheck (hq : q.SparesRows) : q.NoCheck := by
  cases q with
  | segmentsOverlap => exact hq.elim
  | _ => trivial

variable {l l' : Session} {w w' : World} {ch : Choice} {r : q.Resp}

theorem exec_keeps_locks (h : exec mt i ch q w l = some (r, w', l')) (hcommit : q ≠ .commit)
    (hrollback : q ≠ .rollback) {k : Lock} {j : SessionId} (hk : w.locks k = some j) :
    w'.locks k = some j := by
  cases exec_moves h with
  | begin => exact hk
  | commit => exact absurd rfl hcommit
  | rollback => exact absurd rfl hrollback
  | locks _ hlocks => exact hlocks k j hk
  | notes => exact hk
  | submits _ hsub =>
    unfold World.submit at hsub
    split at hsub <;> cases hsub <;> exact hk

theorem exec_sparesRows (hq : q.SparesRows) (h : exec mt i ch q w l = some (r, w', l'))
    (htx : l.inTransaction = true) :
    l'.inTransaction = true ∧ (∀ k, w.locks k = some i → w'.locks k = some i) ∧
      ∀ row, row ∈ (w'.view l').segments.rows ↔ row ∈ (w.view l).segments.rows := by
  have hlocks : ∀ k, w.locks k = some i → w'.locks k = some i := by
    intro k hk
    apply exec_keeps_locks h _ _ hk <;> rintro rfl <;> exact hq
  -- nothing it submits touches a row
  have huntouched : ∀ ws, q.Submits ws → ∀ x ∈ ws, ∀ f, ¬ x.TouchesFlow f := by
    intro ws hws x hx f hf
    cases q with
    | write x' =>
      obtain rfl : ws = [x'] := hws
      obtain rfl := List.mem_singleton.mp hx
      cases x <;> first | exact hq | exact hf
    | createProfile profile =>
      rcases hws with rfl | rfl
      · cases hx
      · obtain rfl := List.mem_singleton.mp hx
        exact hf
    | deleteProfile p =>
      rcases hws with rfl | rfl
      · cases hx
      · obtain rfl := List.mem_singleton.mp hx
        exact hf
    | deleteSegmentBatch filter limit => exact hq
    | createObjects objects =>
      obtain ⟨o, -, rfl⟩ := hws x hx
      exact hf
    | begin => exact hq
    | commit => exact hq
    | rollback => exact hq
    | _ =>
      obtain rfl : ws = [] := hws
      cases hx
  have heffect : Effect q w.db l w'.db l' := exec_effect h
  refine ⟨?_, hlocks, ?_⟩
  all_goals
    generalize hdb : w.db = db at heffect
    generalize hdb' : w'.db = db' at heffect
    cases heffect with
    | begin => exact hq.elim
    | commit => exact hq.elim
    | rollback => exact hq.elim
    | pending hws _ =>
      first
      | exact htx
      | intro row
        simp only [World.view, hdb, hdb', Session.push, Database.applyAll_append]
        exact mem_segments_untouched (huntouched _ hws)
    | done hws hfalse =>
      rw [htx] at hfalse
      cases hfalse

namespace OverlapSpec

variable {A : World → Session → Prop} {E : PyError → Session → Prop}

theorem stable (h : OverlapStable i A) : Stable (overlapProtocol mt fc) i A :=
  fun w w' l hA hr _ => h w w' l hA hr

theorem statement {q : Call} {Q : q.Resp → World → Session → Prop} (hA : OverlapStable i A)
    (hQ : ∀ r, OverlapStable i (Q r)) (hreq : ∀ w l, A w l → OverlapReq i q w l)
    (h : ∀ w l ch r w' l', A w l → Granted mt False i w l →
      exec mt i ch q w l = some (r, w', l') → Q r w' l') : OverlapSpec mt fc i A (call q) Q E := by
  refine Triple.call (stable hA) (fun r => stable (hQ r)) (fun w l _ hw => hreq w l hw) ?_
  intro w l _ hw ch r w' l' hex hcalls
  exact ⟨trivial, hcalls.2.2 ch r w' l' hex, h w l ch r w' l' hw hcalls.2.1 hex⟩

theorem anything {α : Type} {p : App α} (hp : Only Call.NoCheck p) :
    OverlapSpec mt fc i Always p (fun _ => Always) Always := by
  have hst : OverlapStable i Always := fun _ _ _ _ _ => trivial
  apply Triple.of_only (stable hst) (fun _ _ _ _ => trivial) _ hp
  intro q hq
  exact statement hst (fun _ => hst) (fun w l _ => hq.req w l) fun _ _ _ _ _ _ _ _ _ => trivial

end OverlapSpec

def LockedRows (i : SessionId) (f : FlowId) (P : SegmentRow → Prop) (w : World)
    (l : Session) : Prop :=
  l.inTransaction = true ∧ w.locks (.flow f) = some i ∧
    ∀ row ∈ (w.view l).segments.rows, row.record.flowId = f → P row

theorem LockedRows.stable (f : FlowId) (P : SegmentRow → Prop) :
    OverlapStable i (LockedRows i f P) := by
  intro w w' l h hr
  refine ⟨h.1, (hr.locks _).mpr h.2.1, ?_⟩
  intro row hrow hf
  have hheld : (World.core w).Holds i (.flow row.record.flowId) := by
    rw [hf]
    exact h.2.1
  exact h.2.2 row (hr.view_rows hrow (.inl hheld)) hf

theorem requestedObjectIds_sparesRows (flow : FlowRecord) (posts : List SegmentPost) :
    Only Call.SparesRows (requestedObjectIds flow posts) := by
  unfold requestedObjectIds
  dsimp only
  split
  · exact only_step trivial fun _ => by simp
  · simp

theorem lockObjects_sparesRows (ids : List ObjectId) : Only Call.SparesRows (lockObjects ids) :=
  Only.forM fun _ _ => only_call trivial

theorem ensureFlowWritable_sparesRows (flow : FlowRecord) :
    Only Call.SparesRows (ensureFlowWritable flow) := by
  unfold ensureFlowWritable
  split <;> simp

theorem verifyControlledUploads_sparesRows (posts : List SegmentPostInput) (rd : Readings) :
    Only Call.SparesRows (verifyControlledUploads posts rd) := by
  unfold verifyControlledUploads
  dsimp only
  split
  · simp
  · exact only_step trivial fun _ => by simp

theorem validatePosts_bounds {labels : List String} {inputs : List SegmentPostInput}
    {post : SegmentPost} (h : some post ∈ (validatePosts mt labels inputs).map (Option.map (·.1))) :
    ∃ r, ∃ b ∈ ((validatePosts mt labels inputs).filterMap id).map (·.2),
      SegmentRange mt post.timerange r b := by
  obtain ⟨x, hx, hpost⟩ := List.mem_map.mp h
  obtain ⟨⟨post', b⟩, rfl, rfl⟩ := Option.map_eq_some_iff.mp hpost
  obtain ⟨r, hr⟩ := (validatePosts_valid hx).range
  refine ⟨r, b, ?_, hr⟩
  exact List.mem_map.mpr ⟨(post', b), List.mem_filterMap.mpr ⟨_, hx, rfl⟩, rfl⟩

namespace OverlapSpec

variable {f : FlowId} {P : SegmentRow → Prop} {E : PyError → Session → Prop}

theorem begin : OverlapSpec mt fc i Always (call .begin)
    (fun _ _ l => l.inTransaction = true) E := by
  refine statement (fun _ _ _ _ _ => trivial) (fun _ _ _ _ h _ => h) (fun _ _ _ => trivial) ?_
  intro w l ch r w' l' _ _ hex
  cases hex
  rfl

theorem lockFlow (f : FlowId) : OverlapSpec mt fc i (fun _ l => l.inTransaction = true)
    (call (.lockFlowSegments f)) (fun _ => LockedRows i f fun _ => True) E := by
  refine statement (fun _ _ _ h _ => h) (fun _ => LockedRows.stable f _)
    (fun _ _ _ => trivial) ?_
  intro w l ch r w' l' htx _ hex
  obtain ⟨hacq, rfl⟩ : w.acquire i (.flow f) l = some w' ∧ l = l' := by simpa [exec] using hex
  obtain ⟨locks, rfl, hlock, -⟩ := acquire_eq_some hacq htx
  exact ⟨htx, hlock, fun _ _ _ => trivial⟩

theorem sparesRows {α : Type} {p : App α} (hp : Only Call.SparesRows p) :
    OverlapSpec mt fc i (LockedRows i f P) p (fun _ => LockedRows i f P) Always := by
  have hst := LockedRows.stable (i := i) f P
  apply Triple.of_only (stable hst) (fun _ _ _ _ => trivial) _ hp
  intro q hq
  refine statement hst (fun _ => hst) (fun w l _ => hq.noCheck.req w l) ?_
  intro w l ch r w' l' h _ hex
  obtain ⟨htx, hlocks, hrows⟩ := exec_sparesRows hq hex h.1
  exact ⟨htx, hlocks _ h.2.1, fun row hrow => h.2.2 row ((hrows row).mp hrow)⟩

theorem requireFlow (f : FlowId) (toSave : Bool) :
    OverlapSpec mt fc i (LockedRows i f P) (requireFlow f toSave)
      (fun r w l => r.1.id = f ∧ LockedRows i f P w l) Always := by
  have hst := LockedRows.stable (i := i) f P
  have hget : OverlapSpec mt fc i (LockedRows i f P) (call (.getFlow f toSave))
      (fun found w l => (∀ flow, found.flow = some flow → flow.id = f) ∧ LockedRows i f P w l)
      Always := by
    refine statement hst (fun _ w w' l h hr => ⟨h.1, hst w w' l h.2 hr⟩)
      (fun _ _ _ => trivial) ?_
    intro w l ch r w' l' h _ hex
    obtain ⟨htx, hlocks, hrows⟩ := exec_sparesRows (q := .getFlow f toSave) trivial hex h.1
    refine ⟨?_, htx, hlocks _ h.2.1, fun row hrow => h.2.2 row ((hrows row).mp hrow)⟩
    cases hex
    exact fun flow hflow => (Lib.Table.get_eq_some.mp hflow).2
  refine Triple.bind hget fun found => Triple.assume fun hid => ?_
  split
  · exact Triple.throw fun _ _ _ => trivial
  · rename_i flow hflow
    exact Triple.pure (stable hst) fun _ _ _ h => ⟨hid flow hflow, h⟩

theorem listing (candidates : List SegmentTimerangeBounds) :
    OverlapSpec mt fc i (LockedRows i f fun _ => True)
      (call (.listSegmentsOverlapping f candidates))
      (fun stored => LockedRows i f (SegmentRow.Listed mt candidates stored)) E := by
  refine statement (LockedRows.stable f _) (fun _ => LockedRows.stable f _)
    (fun _ _ _ => trivial) ?_
  intro w l ch r w' l' h hgranted hex
  cases hex
  refine ⟨h.1, h.2.1, ?_⟩
  intro row hrow hf
  refine ⟨hgranted.wellFormed.row row hrow, ?_⟩
  intro hover
  apply List.mem_map_of_mem
  simp only [Database.listSegmentsOverlapping, mem_orderRows, List.mem_filter,
    Database.mem_segmentsOf]
  exact ⟨⟨hrow, hf⟩, hover⟩

variable {candidates : List SegmentTimerangeBounds} {stored : List SegmentRecord}
variable {validated : List (Option SegmentPost)} {known : List mt.TimeRange}

variable {flow : FlowRecord}

theorem saveRegisteredSegments (L : mt.Lawful) (hvalid : ∀ post, some post ∈ validated →
      ∃ r, ∃ b ∈ candidates, SegmentRange mt post.timerange r b)
    (hknown : stored.mapM (fun segment =>
      parseTimerange mt "timerange" true segment.timerange) = .ok known)
    {ws : WorkingSet mt} (hapart : AcceptedApart validated known ws)
    (hid : flow.id = f) (version : Nat) :
    OverlapSpec mt fc i (LockedRows i f (SegmentRow.Listed mt candidates stored))
      (saveRegisteredSegments mt flow version ws.updated.rows ws.accepted)
      (fun _ => Always) Always := by
  have hst := LockedRows.stable (i := i) f (SegmentRow.Listed mt candidates stored)
  unfold Tamoss.saveRegisteredSegments
  rw [hid]
  refine Triple.bind (sparesRows (only_call trivial)) fun _ => ?_
  refine Triple.bind (sparesRows (only_call trivial)) fun _ => ?_
  refine Triple.bind (sparesRows (Only.forM fun _ _ => only_call trivial)) fun _ => ?_
  have hsegments : OverlapSpec mt fc i
      (LockedRows i f (SegmentRow.Listed mt candidates stored))
      (liftM (ws.accepted.mapM (segmentRow mt)) : App (List SegmentRow))
      (fun rows w l => ws.accepted.mapM (segmentRow mt) = .ok rows ∧
        LockedRows i f (SegmentRow.Listed mt candidates stored) w l) Always :=
    Triple.except (stable hst) _ (fun _ hx _ _ _ h => ⟨hx, h⟩) fun _ _ _ _ _ => trivial
  refine Triple.bind hsegments fun rows => Triple.assume fun hrows => ?_
  have hfree : ∀ row : SegmentRow, row.Listed mt candidates stored → ∀ new ∈ rows,
      row.overlaps new.timerangeStart new.timerangeEnd = false := by
    intro row hrow new hnew
    obtain ⟨hmap, hall⟩ := mapM_segmentRow_ok hrows
    have hmem : new.record ∈ ws.accepted := hmap ▸ List.mem_map_of_mem hnew
    obtain ⟨post, r, hpost, htimerange, hparsed, hempty⟩ := hapart.accepted _ hmem
    obtain ⟨r', b, hb, hr⟩ := hvalid post hpost
    obtain rfl : r' = r := Except.ok.inj (hr.parsed.symm.trans hparsed)
    have hnewRow : new = ⟨new.record, b.start, b.stop⟩ :=
      segmentRow_ok (hall new hnew) (htimerange ▸ hr)
    rw [hnewRow]
    exact hrow.not_overlaps L hknown hr hb hempty
  refine Triple.bind (Q := fun _ _ _ => True) (statement hst (fun _ _ _ _ _ _ => trivial) ?_
    fun _ _ _ _ _ _ _ _ _ => trivial) fun overlap => ?_
  · intro w l h _
    refine ⟨h.2.1, ?_⟩
    intro row hrow b hb
    obtain ⟨hmem, hf⟩ := Database.mem_segmentsOf.mp hrow
    obtain ⟨new, hnew, rfl⟩ := List.mem_map.mp hb
    exact hfree row (h.2.2 row hmem hf) new hnew
  · refine Triple.throwIf (fun _ _ _ => trivial) fun _ => ?_
    exact anything (Only.forM fun _ _ => only_call trivial)

theorem registerCandidates (L : mt.Lawful) (hvalid : ∀ post, some post ∈ validated →
      ∃ r, ∃ b ∈ candidates, SegmentRange mt post.timerange r b)
    (hknown : stored.mapM (fun segment =>
      parseTimerange mt "timerange" true segment.timerange) = .ok known)
    (hid : flow.id = f) (version : Nat) (checks : UploadChecks) (readings : Nat → Readings) :
    OverlapSpec mt fc i (LockedRows i f (SegmentRow.Listed mt candidates stored))
      (registerCandidates mt flow version checks readings validated known)
      (fun _ => Always) Always := by
  have hst := LockedRows.stable (i := i) f (SegmentRow.Listed mt candidates stored)
  unfold Tamoss.registerCandidates
  refine Triple.bind (sparesRows (requestedObjectIds_sparesRows flow _)) fun requested => ?_
  refine Triple.bind (sparesRows (lockObjects_sparesRows requested)) fun _ => ?_
  refine Triple.bind (sparesRows (only_call trivial)) fun objects => ?_
  have hloop : OverlapSpec mt fc i (LockedRows i f (SegmentRow.Listed mt candidates stored))
      (liftM (registerPosts mt flow requested checks readings 0
        ⟨known, objects, .empty, []⟩ validated) : App (WorkingSet mt × List SegmentWriteResult))
      (fun r w l => AcceptedApart validated known r.1 ∧
        LockedRows i f (SegmentRow.Listed mt candidates stored) w l) Always := by
    refine Triple.except (stable hst) _ (fun r hr _ _ _ h => ⟨?_, h⟩) fun _ _ _ _ _ => trivial
    apply registerPosts_apart (fun _ h => h) _ hr
    exact ⟨fun _ h => h, fun s hs => by cases hs⟩
  refine Triple.bind hloop fun ⟨ws, results⟩ => Triple.assume fun hapart => ?_
  dsimp only
  split
  · refine Triple.bind (sparesRows (only_call trivial)) fun now => ?_
    refine Triple.bind (saveRegisteredSegments L hvalid hknown hapart (by exact hid) version)
      fun _ => ?_
    exact anything (by simp)
  · exact Triple.pre (anything (by simp)) fun _ _ _ _ => trivial

theorem registerSegmentsLocked (L : mt.Lawful) (f : FlowId) (posts : List SegmentPostInput)
    (checks : UploadChecks) (readings : Nat → Readings) :
    OverlapSpec mt fc i (LockedRows i f fun _ => True)
      (registerSegmentsLocked mt f posts checks readings) (fun _ => Always) Always := by
  have hdone : ∀ results : List SegmentWriteResult, OverlapSpec mt fc i
      (LockedRows i f fun _ => True) (Pure.pure results) (fun _ => Always)
      Always := by
    intro results
    exact Triple.pre (anything (by simp)) fun _ _ _ _ => trivial
  unfold Tamoss.registerSegmentsLocked
  refine Triple.bind (requireFlow f true) fun ⟨flow, version⟩ => Triple.assume fun hid => ?_
  refine Triple.bind (sparesRows (ensureFlowWritable_sparesRows flow)) fun _ => ?_
  split
  · exact hdone _
  · refine Triple.bind (sparesRows (only_call trivial)) fun backends => ?_
    dsimp only
    split
    · exact hdone _
    · refine Triple.bind (listing _) fun stored => ?_
      refine Triple.bind (Triple.except (stable (LockedRows.stable f _)) _ (fun _ hx _ _ _ h => ⟨hx, h⟩)
        fun _ _ _ _ _ => trivial) fun known => Triple.assume fun hknown => ?_
      exact registerCandidates L (fun post hpost => validatePosts_bounds hpost) hknown hid
        version checks readings

theorem registerSegments (L : mt.Lawful) (f : FlowId) (posts : List SegmentPostInput)
    (rd : Readings) (readings : Nat → Readings) :
    OverlapSpec mt fc i Always (registerSegments mt f posts rd readings)
      (fun _ => Always) Always := by
  have hst : OverlapStable i Always := fun _ _ _ _ _ => trivial
  have huploads := (verifyControlledUploads_sparesRows posts rd).mono fun _ hq => hq.noCheck
  refine Triple.bind (anything huploads) fun checks => ?_
  refine Triple.tryCatch (E := Always) (fun _ => stable hst) ?_ fun e => ?_
  · rw [unitOfWork_eq]
    refine Triple.bind begin fun _ => Triple.attempt (E := Always)
      (Triple.bind (lockFlow f) fun _ => registerSegmentsLocked L f posts checks readings)
      (fun results => ?_) fun e => ?_
    · exact anything (only_step trivial fun _ => by simp)
    · exact anything (only_step trivial fun _ => by simp)
  · split
    · exact anything (by simp)
    · exact anything (by simp)

theorem otherwise {op : Op} (hop : ¬ RunsRegistration (some op)) {α : Type} (p : App α) :
    OverlapSpec mt fc i (fun w _ => World.running w i = some op) p (fun _ => Always) Always := by
  have hst : OverlapStable i fun w _ => World.running w i = some op :=
    fun _ _ _ h hr => hr.running.trans h
  have hp : Only (fun _ => True) p := Lib.Prog.only_true _
  refine Triple.post (Triple.of_only (stable hst) (fun _ _ _ _ => trivial) ?_ hp)
    fun _ _ _ _ _ => trivial
  intro q _
  refine statement hst (fun _ => hst) ?_ ?_
  · intro w l h
    cases q with
    | segmentsOverlap g bounds =>
      intro hreg
      rw [h] at hreg
      exact absurd hreg hop
    | _ => trivial
  · intro w l ch r w' l' h _ hex
    rw [exec_running hex]
    exact h

end OverlapSpec

variable {c : (service mt fc).Config} {db : Database}

theorem overlap_ok (L : mt.Lawful) (hdb : db.WellFormed mt) (hlinked : Linked mt False db)
    (hc : (service mt fc).Reachable (Discipline.free _) (World.initial db) c) :
    c.Ok (overlapProtocol mt fc) := by
  have hguarantee : ∀ c, (service mt fc).Reachable (Discipline.free _) (World.initial db) c →
      ∀ i l q k, c.threads i = some ⟨l, .call q k⟩ → LinkGuarantee mt i q c.shared l := by
    intro c hc i l q k hth
    have hgranted : Granted mt False i c.shared l :=
      granted_of_reachable L hdb (fun h => h.elim) hc hth
    refine ⟨hgranted, ?_⟩
    intro ch r w' l' hex
    exact (linkage_ok L False.elim hdb hlinked (fun h => h.elim) hc).rely hth hex
      ⟨trivial, hgranted⟩
  refine Reachable.ok ?_ ?_ trivial (hc.assuming hguarantee)
  · intro i op w _ _
    refine ⟨trivial, fun j hj => ?_, ?_⟩
    · exact .of_same (fun _ => Iff.rfl) (fun _ => rfl) (fun _ h => h)
        (Function.update_of_ne hj _ _)
    · have hsafe : OverlapSpec mt fc i (fun w _ => World.running w i = some op)
          (operation mt fc op) (fun _ => Always) Always := by
        cases op with
        | registerSegments f posts rd readings =>
          refine Triple.pre (Triple.bind (OverlapSpec.registerSegments L f posts rd readings)
            fun _ => ?_) fun _ _ _ _ => trivial
          exact OverlapSpec.anything trivial
        | _ => exact OverlapSpec.otherwise id _
      refine Safe.bind (Safe.mono (hsafe _ .idle trivial ?_) fun _ _ _ _ _ _ _ _ => trivial)
      exact Function.update_self i _ _
  · intro i w _
    refine ⟨trivial, fun j hj => ?_⟩
    refine LinkRely.trans (.of_same (Core.Rely.release w hj).locks (fun _ => rfl) (fun _ h => h)
      rfl) (.of_same (fun _ => Iff.rfl) (fun _ => rfl) (fun _ h => h) ?_)
    exact Function.update_of_ne hj _ _

def foundFree : Lib.Account Call Call.Resp Unit where
  note _ _ m := m
  Req _ _ := True
  Given q r _ := match q, r with
    | .segmentsOverlap _ _, overlap => overlap = false
    | _, _ => True

theorem segmentRow_error {s : SegmentRecord} {e : PyError} (h : segmentRow mt s = .error e) :
    ∃ detail, e = .valueError detail := by
  unfold segmentRow at h
  rcases Lib.bind_eq_error h with hparse | ⟨r, -, h⟩
  · exact parseTimerange_error hparse
  · rcases Lib.bind_eq_error h with hbounds | ⟨b, -, h⟩
    · unfold finiteNormalizedTimerangeBounds at hbounds
      dsimp only at hbounds
      split at hbounds
      · split at hbounds <;> cases hbounds
        exact ⟨_, rfl⟩
      · cases hbounds
        exact ⟨_, rfl⟩
    · cases h

theorem saveRegisteredSegments_raises (flow : FlowRecord) (version : Nat)
    (objects : List MediaObjectRecord) (segments : List SegmentRecord) :
    foundFree.Minds (fun _ => True) (saveRegisteredSegments mt flow version objects segments)
      Always (fun e _ => e ≠ .segmentOverlap) := by
  have hcall : ∀ q : Call, foundFree.Minds (fun _ => True) (call q) Always
      (fun (e : PyError) _ => e ≠ .segmentOverlap) :=
    fun q => .call (fun _ _ => trivial) fun _ _ _ _ => trivial
  unfold saveRegisteredSegments
  refine .bind (hcall _) fun _ => .bind (hcall _) fun _ =>
    .bind (.forM fun o _ => hcall _) fun _ => .bind (Q := Always) ?_ fun rows => ?_
  · refine .except (fun _ _ _ _ => trivial) fun e he _ _ => ?_
    obtain ⟨s, -, hs⟩ := Lib.exists_of_mapM_error he
    obtain ⟨detail, rfl⟩ := segmentRow_error hs
    simp
  · refine .bind (Q := fun overlap _ => overlap = false)
      (.call (fun _ _ => trivial) fun _ _ _ hfree => hfree) fun overlap => ?_
    refine .assume (φ := overlap = false) (fun _ h => h) fun hfree => ?_
    subst hfree
    exact .pre (.forM fun row _ => hcall _) fun _ _ => trivial

/-- **The two overlap checks agree.** For a post that validation accepts and a stored
    segment, the package finds no intersection of the two ranges exactly if the database
    finds no overlap of the columns.  So whenever a registration makes its second check, with
    the flow's lock in its hands, the answer is that nothing overlaps; and
    `save_registered_segments` raises `SegmentOverlapError` on no other ground. -/
theorem overlap_checks_agree (L : mt.Lawful) (hdb : db.WellFormed mt)
    (hlinked : Linked mt False db)
    (hc : (service mt fc).Reachable (Discipline.free _) (World.initial db) c) :
    (∀ labels input post b, validateSegmentPayload mt labels input = .ok (post, b) →
      ∀ row ∈ (database c).segments.rows, ∃ r r',
        parseTimerange mt "timerange" true post.timerange = .ok r ∧
        parseTimerange mt "timerange" true row.record.timerange = .ok r' ∧
        (mt.isEmpty (mt.intersectWith r r') = true ↔ row.overlaps b.start b.stop = false)) ∧
    (∀ i l f bounds k, c.threads i = some ⟨l, .call (.segmentsOverlap f bounds) k⟩ →
      RunsRegistration (World.running c.shared i) →
      World.locks c.shared (.flow f) = some i ∧
        ∀ ch r w' l', exec mt i ch (.segmentsOverlap f bounds) c.shared l = some (r, w', l') →
          r = false) ∧
    ∀ flow version objects segments,
      foundFree.Minds (fun _ => True) (saveRegisteredSegments mt flow version objects segments)
        (fun _ _ => True) (fun e _ => e ≠ .segmentOverlap) := by
  refine ⟨?_, ?_, saveRegisteredSegments_raises⟩
  · intro labels input post b hvalid row hrow
    obtain ⟨r, hr⟩ := (validateSegmentPayload_ok hvalid).range
    obtain ⟨r', b', hr', hstart, hstop⟩ :=
      ((wellFormed_of_reachable L hdb hc).row row hrow).range
    refine ⟨r, r', hr.parsed, hr'.parsed, ?_⟩
    rw [isEmpty_intersectWith_iff L hr.bounds hr.includesStart hr'.bounds hr'.includesStart,
      ← Bool.not_eq_true, SegmentRow.overlaps_iff, hstart, hstop]
    omega
  · intro i l f bounds k hth hreg
    obtain ⟨hlock, hnone⟩ := (overlap_ok L hdb hlinked hc).req hth hreg
    refine ⟨hlock, ?_⟩
    intro ch r w' l' hex
    cases hex
    rw [List.any_eq_false]
    intro row hrow
    rw [Bool.not_eq_true, List.any_eq_false]
    intro b hb
    rw [Bool.not_eq_true]
    exact hnone row hrow b hb

def checking {mt : MediaTimestamp} {fc : FlowContract} (c : (service mt fc).Config)
    (i : SessionId) : Option (FlowId × List (Int × Int)) :=
  match c.threads i with
  | some ⟨_, .call (.segmentsOverlap f bounds) _⟩ => some (f, bounds)
  | _ => none

/-- A second registration makes its check right behind the segment of the first. -/
theorem overlap_checks_agree_adjacent :
    ∃ (c : (service sampleTimestamp sampleContract).Config) (l : Session)
      (k : Bool → Lib.Prog Call Call.Resp Unit),
      (database c).segments.rows.map (fun row => (row.timerangeStart, row.timerangeEnd)) =
        [(0, 10000000000)] ∧
      c.threads 0 = some ⟨l, .call (.segmentsOverlap 1 [(10000000000, 20000000000)]) k⟩ ∧
      ∀ ch r w' l', exec sampleTimestamp 0 ch
        (.segmentsOverlap 1 [(10000000000, 20000000000)]) c.shared l = some (r, w', l') →
          r = false := by
  let register (o range : String) : Op := .registerSegments 1
    [.accepted ⟨o, range, none, none, none, none, none, none, none,
      some [⟨"http://localhost:9000", some "mirror", none⟩]⟩]
    ⟨5, fun _ _ => some 4⟩ (fun _ => ⟨5, fun _ _ => some 4⟩)
  have hran : (runFrom false (session (register "a" "[0:0_10:0)") 15 ++
      (session (register "b" "[10:0_20:0)") 12).dropLast)).any (fun c =>
      (database c).segments.rows.map (fun row => (row.timerangeStart, row.timerangeEnd)) =
        [(0, 10000000000)] ∧ checking c 0 = some (1, [(10000000000, 20000000000)]) ∧
      (match World.running c.shared 0 with
        | some (.registerSegments _ _ _ _) => true
        | _ => false) = true) = true := by
    decide +kernel
  obtain ⟨c, hc, hstate⟩ := Option.any_eq_true .. |>.mp hran
  obtain ⟨hrows, hcheck, hrunning⟩ := of_decide_eq_true hstate
  unfold checking at hcheck
  split at hcheck
  · rename_i l f bounds k hth
    cases hcheck
    refine ⟨c, l, k, hrows, hth, ?_⟩
    obtain ⟨-, hfree, -⟩ := overlap_checks_agree sampleTimestamp_lawful
      (storageDatabase_fresh false).wellFormed ((storageDatabase_fresh false).linked False)
      (reachable_of_runFrom hc)
    apply (hfree 0 l 1 [(10000000000, 20000000000)] k hth _).2
    split at hrunning
    · rename_i hop
      rw [hop]
      trivial
    · cases hrunning
  · cases hcheck

end Tamoss
