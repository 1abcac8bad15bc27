/-
  **Registering a batch, and registering its posts in order.**
-/
import Tamoss.Store.Guarantees
import Tamoss.Store.OneByOne
import Mathlib.Data.List.InsertIdx

namespace Tamoss

open Lib (Runs Returns)

/-- The times at which a registration runs: what the clock answers to its statements, when it
    looked at the object store, and when it prepared each post. -/
structure Clock where
  choice : Choice
  checked : Time
  prepared : Nat → Time

section Runs

variable (mt : MediaTimestamp) (i : SessionId)
  (stored : ObjectId → StorageBackend → Option Nat) (f : FlowId)

def registerAlone (clock : Clock) (posts : List SegmentPostInput) (w : World) :
    Option (Except PyError (List SegmentWriteResult) × World) :=
  ((ExceptT.run (registerSegments mt f posts ⟨clock.checked, stored⟩
      fun n => ⟨clock.prepared n, stored⟩)).eval (alone mt i clock.choice) (w, .idle)).map
    fun x => (x.1, x.2.1)

/-- What becomes of each of `n` posts. -/
def outcomes (n : Nat) : Except PyError (List SegmentWriteResult) →
    List (Except PyError SegmentWriteResult)
  | .ok results => results.map .ok
  | .error e => List.replicate n (.error e)

def registerOneByOne : List (Clock × SegmentPostInput) → World →
    Option (List (Except PyError SegmentWriteResult) × World)
  | [], w => some ([], w)
  | (clock, post) :: posts, w => do
      let (r, w) ← registerAlone mt i stored f clock [post] w
      let (rs, w) ← registerOneByOne posts w
      pure (outcomes 1 r ++ rs, w)

end Runs

def untimedOutcome (r : Except PyError SegmentWriteResult) : Except PyError SegmentWriteResult :=
  r.map SegmentWriteResult.untimed

def Rejected : Except PyError SegmentWriteResult → Prop
  | .ok (.segment _) => False
  | _ => True

structure SameStored (db db' : Database) : Prop where
  segments : db.segments.rows.map SegmentRow.untimed = db'.segments.rows.map SegmentRow.untimed
  objects : ∀ o, SameLookup (db.objects.get o) (db'.objects.get o)

theorem SameStored.refl (db : Database) : SameStored db db := ⟨rfl, fun _ => rfl⟩

theorem SameStored.symm {db db' : Database} (h : SameStored db db') : SameStored db' db :=
  ⟨h.segments.symm, fun o => Eq.symm (h.objects o)⟩

theorem SameStored.trans {db db' db'' : Database} (h : SameStored db db')
    (h' : SameStored db' db'') : SameStored db db'' :=
  ⟨h.segments.trans h'.segments, fun o => Eq.trans (h.objects o) (h'.objects o)⟩

variable {mt : MediaTimestamp} {i : SessionId}
variable {stored : ObjectId → StorageBackend → Option Nat} {f : FlowId}

variable (mt i stored f) in
def AloneTo (clock : Clock) (posts : List SegmentPostInput) (db : Database)
    (r : Except PyError (List SegmentWriteResult)) (db' : Database) : Prop :=
  ∀ w, Ready db (w, .idle) →
    ∃ w', registerAlone mt i stored f clock posts w = some (r, w') ∧ Ready db' (w', .idle)

theorem AloneTo.of_runs {clock : Clock} {posts : List SegmentPostInput} {db db₁ : Database}
    {r : Except PyError (List SegmentWriteResult)}
    (h : Runs (alone mt i clock.choice) (Ready db) (registerSegments mt f posts
      ⟨clock.checked, stored⟩ fun n => ⟨clock.prepared n, stored⟩)
      fun r' s => ∃ db', Ready db' s ∧ r' = r ∧ db' = db₁) :
    AloneTo mt i stored f clock posts db r db₁ := by
  intro w hw
  obtain ⟨r', ⟨w', l'⟩, heval, db', hready, rfl, rfl⟩ := h (w, .idle) hw
  obtain rfl : l' = .idle := hready.idle
  exact ⟨w', by rw [registerAlone, heval]; rfl, hready⟩

variable (mt i stored f) in
inductive Sequence : List (Clock × SegmentPostInput) → Database →
    List (Except PyError SegmentWriteResult) → Database → Prop
  | nil (db : Database) : Sequence [] db [] db
  | cons {clock : Clock} {post : SegmentPostInput} {posts : List (Clock × SegmentPostInput)}
      {db db' db'' : Database} {r : Except PyError (List SegmentWriteResult)}
      {out : Except PyError SegmentWriteResult} {rs : List (Except PyError SegmentWriteResult)}
      (alone : AloneTo mt i stored f clock [post] db r db') (hout : outcomes 1 r = [out])
      (rejected : Rejected out → db' = db) (rest : Sequence posts db' rs db'') :
      Sequence ((clock, post) :: posts) db (out :: rs) db''

namespace Sequence

variable {posts : List (Clock × SegmentPostInput)} {db db' : Database}
variable {rs : List (Except PyError SegmentWriteResult)}

variable {w : World}

theorem run (h : Sequence mt i stored f posts db rs db') (hw : Ready db (w, .idle)) :
    ∃ w', registerOneByOne mt i stored f posts w = some (rs, w') ∧ Ready db' (w', .idle) := by
  induction h generalizing w with
  | nil db => exact ⟨w, rfl, hw⟩
  | cons alone hout _ _ ih =>
    obtain ⟨w₁, hrun, hw₁⟩ := alone w hw
    obtain ⟨w₂, hrest, hw₂⟩ := ih hw₁
    refine ⟨w₂, ?_, hw₂⟩
    simp [registerOneByOne, hrun, hrest, hout]

theorem unique {rs' : List (Except PyError SegmentWriteResult)} {db'' : Database}
    (h : Sequence mt i stored f posts db rs db') (h' : Sequence mt i stored f posts db rs' db'')
    (hw : Ready db (w, .idle)) : rs = rs' ∧ db' = db'' := by
  obtain ⟨w₁, hrun, hw₁⟩ := h.run hw
  obtain ⟨w₂, hrun', hw₂⟩ := h'.run hw
  obtain ⟨rfl, rfl⟩ := Prod.mk.inj (Option.some.inj (hrun.symm.trans hrun'))
  exact ⟨rfl, hw₁.db.symm.trans hw₂.db⟩

theorem erase {before after : List (Clock × SegmentPostInput)} {p : Clock × SegmentPostInput}
    (h : Sequence mt i stored f (before ++ p :: after) db rs db')
    (hrejected : ∀ out, rs[before.length]? = some out → Rejected out) :
    Sequence mt i stored f (before ++ after) db (rs.eraseIdx before.length) db' := by
  induction before generalizing db rs with
  | nil =>
    cases h with
    | cons alone hout rejected rest =>
      rw [rejected (hrejected _ rfl)] at rest
      exact rest
  | cons q before ih =>
    cases h with
    | cons alone hout rejected rest =>
      exact .cons alone hout rejected (ih rest fun out hget => hrejected out hget)

theorem refused {out : Except PyError SegmentWriteResult}
    (h : ∀ clock post, ∃ r, AloneTo mt i stored f clock [post] db r db ∧ outcomes 1 r = [out])
    (posts : List (Clock × SegmentPostInput)) :
    Sequence mt i stored f posts db (List.replicate posts.length out) db := by
  induction posts with
  | nil => exact .nil db
  | cons p posts ih =>
    obtain ⟨r, halone, hout⟩ := h p.1 p.2
    exact .cons halone hout (fun _ => rfl) ih

end Sequence

section Batch

variable {db : Database} {flow : FlowRecord}

variable (mt) in
def validPost (labels : List String) (post : SegmentPostInput) :
    Option (SegmentPost × SegmentTimerangeBounds) :=
  (validateSegmentPayload mt labels post).toOption

theorem Sim.run (L : mt.Lawful) (hdb : db.WellFormed mt) {locked : List ObjectId}
    {candidates : List SegmentTimerangeBounds} {checks : UploadChecks}
    (hlive : LiveChecks stored db checks) (hwritable : flow.readOnly = false)
    (hcontainer : ¬ (flow.container = none ∨ flow.container = some "")) (prepared : Nat → Time)
    {posts : List (Clock × SegmentPostInput)}
    (hposts : ∀ p ∈ posts, ∀ post b, validPost mt db.reservedLabels p.2 = some (post, b) →
      b ∈ candidates ∧ Requested db flow locked post)
    {ws : WorkingSet mt} {rows : List SegmentRow} {db' : Database}
    (h : Sim db flow locked candidates ws rows db') (n : Nat) : ∃ ws' results rows' rs db'',
      registerPosts mt flow locked checks (fun n => ⟨prepared n, stored⟩) n ws
        (posts.map fun p => (validPost mt db.reservedLabels p.2).map (·.1)) = .ok (ws', results) ∧
      Sequence mt i stored flow.id posts db' rs db'' ∧
      results.map (fun result => untimedOutcome (.ok result)) = rs.map untimedOutcome ∧
      Sim db flow locked candidates ws' rows' db'' := by
  induction posts generalizing ws rows db' n with
  | nil => exact ⟨ws, [], rows, [], db', rfl, .nil db', rfl, h⟩
  | cons p posts ih =>
    obtain ⟨clock, post⟩ := p
    obtain ⟨t, hflow⟩ := h.current
    have hlabels : db'.reservedLabels = db.reservedLabels := by
      rw [Database.reservedLabels, h.backends]
      rfl
    have hvalid : ∀ q b, validPost mt db.reservedLabels post = some (q, b) → ValidPost mt q b := by
      intro q b hq
      have hmem : some (q, b) ∈ validatePosts mt db.reservedLabels [post] :=
        List.mem_singleton.mpr hq.symm
      exact validatePosts_valid hmem
    obtain ⟨ws', result, ws₁, result₁, rows₁, rows', hrun, hreg, hresult, hsim, hrejected⟩ :=
      h.step L hdb hlive (liveChecks_uploadChecks stored db' [post] clock.checked)
        (validPost mt db.reservedLabels post)
        (fun q b hq => ⟨hvalid q b hq, hposts _ List.mem_cons_self q b hq⟩)
        hflow prepared clock.prepared n clock.choice.now
    have hreg : Registers mt db' { flow with segmentsUpdated := t }
        (validatePosts mt db'.reservedLabels [post])
        (db'.uploadChecks [post] ⟨clock.checked, stored⟩)
        (fun n => ⟨clock.prepared n, stored⟩) ws₁ [result₁] rows₁ := by
      rw [hlabels]
      exact hreg
    obtain ⟨ws'', results, rows'', rs, db'', hrest, hseq, hresults, hsim'⟩ :=
      ih (fun q hq => hposts q (List.mem_cons_of_mem _ hq)) hsim (n + 1)
    refine ⟨ws'', result :: results, rows'', .ok result₁ :: rs, db'', ?_, ?_, ?_, hsim'⟩
    · rw [List.map_cons, hrun, hrest]
      rfl
    · refine .cons (r := .ok [result₁])
        (AloneTo.of_runs (hreg.returns hflow hwritable hcontainer)) rfl (fun hr => ?_) hseq
      cases result₁ with
      | segment record => exact hr.elim
      | error text =>
        rw [hrejected ⟨text, rfl⟩]
        rfl
    · rw [List.map_cons, List.map_cons, hresults]
      exact congrArg (fun r => Except.ok r :: _) hresult

theorem batch_sequence_taken (L : mt.Lawful) (hdb : db.WellFormed mt)
    (hflow : db.flows.get f = some flow) (hwritable : flow.readOnly = false)
    (hcontainer : ¬ (flow.container = none ∨ flow.container = some "")) (clock : Clock)
    (posts : List (Clock × SegmentPostInput)) :
    ∃ r db₁ rs db₂, AloneTo mt i stored f clock (posts.map (·.2)) db r db₁ ∧
      Sequence mt i stored f posts db rs db₂ ∧
      (outcomes posts.length r).map untimedOutcome = rs.map untimedOutcome ∧
      SameStored db₁ db₂ := by
  obtain rfl : flow.id = f := (Lib.Table.get_eq_some.mp hflow).2
  have hentries : validatePosts mt db.reservedLabels (posts.map (·.2)) =
      posts.map fun p => validPost mt db.reservedLabels p.2 := by
    simp [validatePosts, validPost]
  generalize hvalidated : validatePosts mt db.reservedLabels (posts.map (·.2)) = validated
    at hentries
  obtain ⟨known, hknown, hmeets⟩ := hdb.knownRanges L flow.id ((validated.filterMap id).map (·.2))
  generalize hlocked : db.requestedObjectIds flow
    ((validated.map (Option.map (·.1))).filterMap id) = locked
  have hposts : ∀ p ∈ posts, ∀ post b, validPost mt db.reservedLabels p.2 = some (post, b) →
      b ∈ (validated.filterMap id).map (·.2) ∧ Requested db flow locked post := by
    intro p hp post b hvalid
    have hmem : some (post, b) ∈ validated := by
      rw [hentries, ← hvalid]
      exact List.mem_map_of_mem hp
    refine ⟨List.mem_map.mpr ⟨_, List.mem_filterMap.mpr ⟨_, hmem, rfl⟩, rfl⟩, ?_⟩
    rw [← hlocked]
    exact requested_of_mem (List.mem_filterMap.mpr ⟨some post, List.mem_map_of_mem hmem, rfl⟩)
  obtain ⟨ws, results, rows, rs, db₂, hrun, hseq, hresults, hsim⟩ :=
    Sim.run L hdb (liveChecks_uploadChecks stored db (posts.map (·.2)) clock.checked) hwritable
      hcontainer clock.prepared hposts (Sim.start hdb hflow hmeets) 0
  have hreg : Registers mt db flow (validatePosts mt db.reservedLabels (posts.map (·.2)))
      (db.uploadChecks (posts.map (·.2)) ⟨clock.checked, stored⟩)
      (fun n => ⟨clock.prepared n, stored⟩) ws results rows := by
    refine ⟨⟨known, locked, ?_, ?_, ?_⟩, hsim.saved, hsim.free⟩
    · rw [hvalidated]
      exact hknown
    · rw [hvalidated]
      exact hlocked
    · rw [hvalidated, hentries, List.map_map]
      exact hrun
  have hadded := hsim.batch.added hdb hflow hsim.saved hsim.free clock.choice.now
  refine ⟨_, _, rs, db₂, AloneTo.of_runs (hreg.returns hflow hwritable hcontainer), hseq, ?_, ?_⟩
  · rw [← hresults, outcomes, List.map_map]
    rfl
  · refine ⟨?_, fun o => ?_⟩
    · rw [hadded.segments, hsim.segments]
    · rw [hadded.objects]
      exact hsim.objects o

theorem batch_sequence (L : mt.Lawful) (hdb : db.WellFormed mt) (clock : Clock)
    (posts : List (Clock × SegmentPostInput)) :
    ∃ r db₁ rs db₂, AloneTo mt i stored f clock (posts.map (·.2)) db r db₁ ∧
      Sequence mt i stored f posts db rs db₂ ∧
      (outcomes posts.length r).map untimedOutcome = rs.map untimedOutcome ∧
      SameStored db₁ db₂ := by
  cases hflow : db.flows.get f with
  | none =>
    refine ⟨_, db, _, db, AloneTo.of_runs (registerSegments_missing hflow),
      Sequence.refused (fun _ _ => ⟨_, AloneTo.of_runs (registerSegments_missing hflow), rfl⟩)
        posts, ?_, .refl db⟩
    simp [outcomes]
  | some flow =>
    cases hreadOnly : flow.readOnly with
    | true =>
      refine ⟨_, db, _, db, AloneTo.of_runs (registerSegments_readOnly hflow hreadOnly),
        Sequence.refused (fun _ _ =>
          ⟨_, AloneTo.of_runs (registerSegments_readOnly hflow hreadOnly), rfl⟩) posts, ?_, .refl db⟩
      simp [outcomes]
    | false =>
      by_cases hcontainer : flow.container = none ∨ flow.container = some ""
      · refine ⟨_, db, _, db,
          AloneTo.of_runs (registerSegments_noContainer hflow hreadOnly hcontainer),
          Sequence.refused (fun _ _ => ⟨_, AloneTo.of_runs
            (registerSegments_noContainer hflow hreadOnly hcontainer), rfl⟩) posts, ?_, .refl db⟩
        simp [outcomes, Function.comp_def]
      · exact batch_sequence_taken L hdb hflow hreadOnly hcontainer clock posts

end Batch

open Lib.Machine

variable {fc : FlowContract}

theorem Sequence.length_eq {posts : List (Clock × SegmentPostInput)} {db db' : Database}
    {rs : List (Except PyError SegmentWriteResult)}
    (h : Sequence mt i stored f posts db rs db') : rs.length = posts.length := by
  induction h with
  | nil => rfl
  | cons _ _ _ _ ih => simp [ih]

theorem rejected_untimed {out out' : Except PyError SegmentWriteResult}
    (h : untimedOutcome out = untimedOutcome out') : Rejected out → Rejected out' := by
  cases out with
  | error e =>
    cases out' with
    | error e' => exact id
    | ok result => cases h
  | ok result =>
    cases out' with
    | error e' => cases h
    | ok result' =>
      cases result <;> cases result' <;> first | exact id | exact (by cases h)

/-- **Batch registration equals sequential registration.** From any state of any run in
    which nobody holds a lock, `register_segments` on a batch gives every post the outcome
    that registering the posts one at a time gives, and leaves the same segments and media
    objects; a rejected post could as well be left out of the batch. -/
theorem batch_equals_one_by_one (L : mt.Lawful) {db : Database} (hdb : db.Fresh)
    {c : (service mt fc).Config}
    (hc : (service mt fc).Reachable (anyRun mt fc) (World.initial db) c)
    (hfree : ∀ lock, World.locks c.shared lock = none) (i : SessionId)
    (stored : ObjectId → StorageBackend → Option Nat) (f : FlowId) (clock : Clock)
    (posts : List (Clock × SegmentPostInput)) :
    ∃ r w rs w', registerAlone mt i stored f clock (posts.map (·.2)) c.shared = some (r, w) ∧
      registerOneByOne mt i stored f posts c.shared = some (rs, w') ∧
      rs.length = posts.length ∧
      (outcomes posts.length r).map untimedOutcome = rs.map untimedOutcome ∧
      SameStored w.db w'.db ∧
      ∀ before p after, posts = before ++ p :: after →
        (∀ out, (outcomes posts.length r)[before.length]? = some out → Rejected out) →
        ∃ r₁ w₁, registerAlone mt i stored f clock ((before ++ after).map (·.2)) c.shared =
            some (r₁, w₁) ∧
          (outcomes (before ++ after).length r₁).map untimedOutcome =
            ((outcomes posts.length r).map untimedOutcome).eraseIdx before.length ∧
          SameStored w.db w₁.db := by
  have hwf : (World.db c.shared).WellFormed mt := wellFormed_of_reachable L hdb.wellFormed hc
  have hready : Ready (World.db c.shared) (c.shared, .idle) := ⟨rfl, hfree, rfl⟩
  obtain ⟨r, db₁, rs, db₂, halone, hseq, hout, hstored⟩ :=
    batch_sequence (i := i) (f := f) L hwf clock posts
  obtain ⟨w, hrun, hw⟩ := halone _ hready
  obtain ⟨w', hrun', hw'⟩ := hseq.run hready
  have hdb₁ : w.db = db₁ := hw.db
  have hdb₂ : w'.db = db₂ := hw'.db
  refine ⟨r, w, rs, w', hrun, hrun', hseq.length_eq, hout, by rw [hdb₁, hdb₂]; exact hstored, ?_⟩
  intro before p after hsplit hrejected
  subst hsplit
  -- the sequence without the rejected post is what the smaller batch comes to
  have herase := hseq.erase fun out hget => by
    have hget' := congrArg (·[before.length]?) hout
    simp only [List.getElem?_map, hget, Option.map_some] at hget'
    obtain ⟨out', hout', heq⟩ := Option.map_eq_some_iff.mp hget'
    exact rejected_untimed heq (hrejected out' hout')
  obtain ⟨r₁, db₃, rs₁, db₄, halone₁, hseq₁, hout₁, hstored₁⟩ :=
    batch_sequence (i := i) (f := f) L hwf clock (before ++ after)
  obtain ⟨w₁, hrun₁, hw₁⟩ := halone₁ _ hready
  obtain ⟨rfl, rfl⟩ := hseq₁.unique herase hready
  have hdb₃ : w₁.db = db₃ := hw₁.db
  refine ⟨r₁, w₁, hrun₁, ?_, ?_⟩
  · rw [hout₁, hout, List.eraseIdx_map]
  · rw [hdb₁, hdb₃]
    exact hstored.trans hstored₁.symm

/-- Three posts, the second of which overlaps the first. -/
theorem batch_equals_one_by_one_sample :
    ∃ (posts : List (Clock × SegmentPostInput)) (clock : Clock)
      (r : Except PyError (List SegmentWriteResult))
      (w w' : World) (rs : List (Except PyError SegmentWriteResult)),
      registerAlone sampleTimestamp 0 (fun _ _ => none) 1 clock (posts.map (·.2))
        (World.initial sampleDatabase) = some (r, w) ∧
      registerOneByOne sampleTimestamp 0 (fun _ _ => none) 1 posts
        (World.initial sampleDatabase) = some (rs, w') ∧
      (outcomes 3 r).map untimedOutcome = rs.map untimedOutcome ∧ SameStored w.db w'.db ∧
      w.db.segments.rows.map (·.record.objectId) = ["a", "c"] := by
  let clock (n : Nat) : Clock := ⟨⟨n, 3, true, fun _ => false⟩, n, fun k => n + k⟩
  let posts := [(clock 1, samplePost "a" "[0:0_10:0)"), (clock 2, samplePost "b" "[5:0_15:0)"),
    (clock 3, samplePost "c" "[10:0_20:0)")]
  have hran : (registerAlone sampleTimestamp 0 (fun _ _ => none) 1 (clock 7) (posts.map (·.2))
      (World.initial sampleDatabase)).any (fun x =>
        x.2.db.segments.rows.map (·.record.objectId) = ["a", "c"]) = true := by
    decide +kernel
  have hinit : Reachable sampleStore
      (anyRun sampleTimestamp sampleContract) (World.initial sampleDatabase)
      (.initial (World.initial sampleDatabase)) := .init
  obtain ⟨r, w, rs, w', hrun, hrun', -, hout, hstored, -⟩ :=
    batch_equals_one_by_one sampleTimestamp_lawful sampleDatabase_fresh hinit (fun _ => rfl) 0
      (fun _ _ => none) 1 (clock 7) posts
  obtain ⟨x, hx, hids⟩ := Option.any_eq_true .. |>.mp hran
  obtain rfl : x = (r, w) := Option.some.inj (hx.symm.trans hrun)
  exact ⟨posts, clock 7, r, w, w', rs, hrun, hrun', hout, hstored, of_decide_eq_true hids⟩

end Tamoss
