/-
  **What keeping segments linked gives: whole links, no advertised bytes deleted, no
  deadlock.**
-/
import Tamoss.Lib.WaitsFor
import Tamoss.Store.FlowUpdates
import Tamoss.Store.LinkOperations

namespace Tamoss

open Lib.Machine

variable {mt : MediaTimestamp} {fc : FlowContract}

variable {db : Database}

theorem Database.Fresh.linked (h : db.Fresh) (exact : Prop) :
    Linked mt exact db where
  tied row hrow := by simp [h.segments] at hrow
  object o m hm := by
    obtain ⟨hmem, -⟩ := Lib.Table.get_eq_some.mp hm
    simp [h.objects] at hmem

theorem linked_ok (L : mt.Lawful) {D : (service mt fc).Discipline}
    (hdb : db.Fresh) {c : (service mt fc).Config}
    (hc : (service mt fc).Reachable D (World.initial db) c) : c.Ok (linkProtocol mt fc False D) :=
  linkage_ok L False.elim hdb.wellFormed (hdb.linked False) (fun h => h.elim) hc

def storageDatabase (initSegments : Bool) : Database :=
  { Database.empty with
    flows := Lib.Table.empty.upsert
      ⟨1, [], none, none, some "mp4", none, none, initSegments, false, [], 0, 0, none⟩
    storageBackends := Lib.Table.empty.upsert { id := 2, label := "main", defaultStorage := true } }

theorem storageDatabase_fresh (initSegments : Bool) : (storageDatabase initSegments).Fresh :=
  ⟨rfl, rfl⟩

def runFrom (initSegments : Bool)
    (actions : List (service sampleTimestamp sampleContract).Action) :
    Option (service sampleTimestamp sampleContract).Config :=
  run _ (tests _ (fun _ => true) (fun _ _ _ _ => true))
    (.initial (World.initial (storageDatabase initSegments))) actions

theorem reachable_of_runFrom {initSegments : Bool} {actions : List sampleStore.Action}
    {c : sampleStore.Config} (h : runFrom initSegments actions = some c) :
    sampleStore.Reachable (Discipline.free _) (World.initial (storageDatabase initSegments)) c :=
  Reachable.of_run (fun _ _ => trivial) (fun _ _ _ _ _ _ => trivial) .init h

/-- **Media/init linkage.** In every committed state, a stored segment has the init object
    of its media object; a set init object has a record, which is of kind `init`, has no
    time range and lists the segment's flow; and no object is the media object of one stored
    segment and the init object of another. -/
theorem media_init_linkage (L : mt.Lawful) (hdb : db.Fresh)
    {c : (service mt fc).Config}
    (hc : (service mt fc).Reachable (Discipline.free _) (World.initial db) c) :
    (∀ row ∈ (database c).segments.rows,
      ∃ m, (database c).objects.get row.record.objectId = some m ∧
        m.initObjectId = row.record.initObjectId) ∧
    (∀ row ∈ (database c).segments.rows, ∀ o, row.record.initObjectId = some o →
      ∃ m, (database c).objects.get o = some m ∧ m.objectKind = .init ∧ m.timerange = none ∧
        row.record.flowId ∈ m.referencedByFlows) ∧
    ∀ row ∈ (database c).segments.rows, ∀ row' ∈ (database c).segments.rows,
      row'.record.initObjectId ≠ some row.record.objectId := by
  have hlinked : Linked mt False (database c) := (linked_ok L hdb hc).inv
  refine ⟨fun row hrow => ?_, fun row hrow o ho => ?_, fun row hrow row' hrow' heq => ?_⟩
  · obtain ⟨m, hm, hties⟩ := hlinked.tied row hrow _ (.inl rfl)
    exact ⟨m, hm, (hties.media rfl).2.1⟩
  · obtain ⟨m, hm, hties⟩ := hlinked.tied row hrow o (.inr ho)
    obtain ⟨hkind, htime⟩ := hties.init ho
    exact ⟨m, hm, hkind, htime, hties.listed⟩
  · -- one record cannot be of both kinds
    obtain ⟨m, hm, hties⟩ := hlinked.tied row hrow _ (.inl rfl)
    obtain ⟨m', hm', hties'⟩ := hlinked.tied row' hrow' _ (.inr heq)
    obtain rfl : m = m' := Option.some.inj (hm.symm.trans hm')
    have hmedia := (hties.media rfl).1
    rw [(hties'.init heq).1] at hmedia
    cases hmedia

theorem media_init_linkage_sample :
    ∃ (c : (service sampleTimestamp sampleContract).Config) (row : SegmentRow)
      (m : MediaObjectRecord),
      row ∈ (database c).segments.rows ∧ row.record.initObjectId = some "i" ∧
      (database c).objects.get "i" = some m ∧ m.objectKind = .init ∧ m.timerange = none ∧
      row.record.flowId ∈ m.referencedByFlows := by
  let allocate : Op := .allocateFlowStorage ⟨10, 10⟩ 1 ⟨none, some ["i"], none, none, false⟩ 1
  let register : Op := .registerSegments 1
    [.accepted ⟨"a", "[0:0_10:0)", some "i", none, none, none, none, none, none,
      some [⟨"http://localhost:9000", some "mirror", none⟩]⟩]
    ⟨5, fun _ _ => some 4⟩ (fun _ => ⟨5, fun _ _ => some 4⟩)
  obtain ⟨c, hc, row, hrow, hinit⟩ : ∃ c,
      runFrom true (session allocate 7 ++ session register 18) = some c ∧
        ∃ row ∈ (database c).segments.rows, row.record.initObjectId = some "i" :=
    exists_of_any (by decide +kernel)
  obtain ⟨-, hlinks, -⟩ := media_init_linkage sampleTimestamp_lawful
    (storageDatabase_fresh true) (reachable_of_runFrom hc)
  obtain ⟨m, hm, hkind, htime, hlisted⟩ := hlinks row hrow "i" hinit
  exact ⟨c, row, m, hrow, hinit, hm, hkind, htime, hlisted⟩

variable {i : SessionId}

/-- **Bytes that are advertised are not deleted.** Whenever a session is about to delete an
    object's bytes on a storage backend, no committed record has a controlled instance of the
    object there. -/
theorem no_advertised_bytes_deleted (L : mt.Lawful) (hdb : db.Fresh)
    {c : (service mt fc).Config}
    (hc : (service mt fc).Reachable (Discipline.free _) (World.initial db) c)
    {l : Session} {ids : List ObjectId} {b : BackendId}
    {k : Bool → Lib.Prog Call Call.Resp Unit}
    (hth : c.threads i = some ⟨l, .call (.storageDelete ids b) k⟩) {o : ObjectId}
    (ho : o ∈ ids) {m : MediaObjectRecord} (hm : (database c).objects.get o = some m) :
    hasControlledInstanceOn m.instances b = false :=
  (linked_ok L hdb hc).req hth o ho m hm

def deletesBytes (c : sampleStore.Config) : Bool :=
  match c.threads 0 with
  | some ⟨_, .call (.storageDelete ids b) _⟩ => ids = ["a"] && b = 2
  | _ => false

theorem no_advertised_bytes_deleted_sample :
    ∃ (c : (service sampleTimestamp sampleContract).Config) (l : Session)
      (k : Bool → Lib.Prog Call Call.Resp Unit) (m : MediaObjectRecord),
      c.threads 0 = some ⟨l, .call (.storageDelete ["a"] 2) k⟩ ∧
      (database c).objects.get "a" = some m ∧
      hasControlledInstanceOn m.instances 2 = false := by
  let cleanup : Op := .processObjectCleanups [⟨9, "a", 2, .pending, none, 0, none, none, 0⟩]
  have hran : (runFrom false (session (sampleRegister [samplePost "a" "[0:0_10:0)"]) 15 ++
      .start 0 cleanup :: callsOf 0 6)).any (fun c =>
        ((database c).objects.get "a").isSome && deletesBytes c) = true := by
    decide +kernel
  obtain ⟨c, hc, hat⟩ := Option.any_eq_true .. |>.mp hran
  obtain ⟨hobject, hat⟩ := (Bool.and_eq_true ..).mp hat
  obtain ⟨m, hm⟩ := Option.isSome_iff_exists.mp hobject
  unfold deletesBytes at hat
  split at hat
  · rename_i l ids b k hth
    obtain ⟨rfl, rfl⟩ : ids = ["a"] ∧ b = 2 := by simpa using hat
    exact ⟨c, l, k, m, hth, hm, no_advertised_bytes_deleted sampleTimestamp_lawful
      (storageDatabase_fresh false) (reachable_of_runFrom hc) hth List.mem_cons_self hm⟩
  · cases hat

/-- The locks on flows and objects. `_lock_media_objects` takes two for an object, the
    advisory one and then that of the row. -/
inductive StoreLock where
  | flow (flowId : FlowId)
  | advisory (objectId : ObjectId)
  | row (objectId : ObjectId)

def StoreLock.before : StoreLock → StoreLock → Prop
  | .flow _, .flow _ => False
  | .flow _, _ => True
  | _, .flow _ => False
  | .advisory o, .row p => o < p ∨ o = p
  | .advisory o, .advisory p | .row o, .advisory p | .row o, .row p => o < p

theorem StoreLock.before_trans (a b c : StoreLock) (hab : a.before b) (hbc : b.before c) :
    a.before c := by
  have htrans : ∀ {o p q : ObjectId}, o < p → p < q → o < q := String.lt_trans
  cases a <;> cases b <;> cases c <;> simp only [before] at hab hbc ⊢ <;> grind

theorem StoreLock.before_irrefl (a : StoreLock) : ¬ a.before a := by
  cases a with
  | flow f => exact id
  | advisory o => exact String.lt_irrefl o
  | row o => exact String.lt_irrefl o

def AtLock (c : (service mt fc).Config) (i : SessionId) (k : Lock) : Prop :=
  ∃ l q p, c.threads i = some ⟨l, .call q p⟩ ∧ q.waitsAt = some k

/-- Who may have the advisory locks of objects when the sessions are as in `c`: a session
    that has an object's locks, or one that is taking them and still waits for the row's.
    Only the cleanup of stale allocations locks a row without the advisory lock. -/
structure AdvisoryLocks (c : (service mt fc).Config) (advisory : ObjectId → Option SessionId) :
    Prop where
  taken : ∀ o j, advisory o = some j →
    World.locks c.shared (.object o) = some j ∨ AtLock c j (.object o)
  held : ∀ o j, World.locks c.shared (.object o) = some j →
    advisory o = some j ∨ Reaps (World.running c.shared j)

def lockHolder (c : (service mt fc).Config) (advisory : ObjectId → Option SessionId) :
    StoreLock → Option SessionId
  | .flow f => World.locks c.shared (.flow f)
  | .advisory o => advisory o
  | .row o => World.locks c.shared (.object o)

def wantsLock (c : (service mt fc).Config) (advisory : ObjectId → Option SessionId)
    (i : SessionId) : StoreLock → Prop
  | .flow f => AtLock c i (.flow f)
  | .advisory o => AtLock c i (.object o) ∧ advisory o ≠ some i
  | .row o => AtLock c i (.object o) ∧ advisory o = some i

variable (mt fc) in
def givenIds : (service mt fc).Discipline where
  starts op := ¬ GeneratesIds (some op)
  calls _ _ _ _ _ := True

theorem AtLock.unique {c : (service mt fc).Config} {k k' : Lock}
    (h : AtLock c i k) (h' : AtLock c i k') : k = k' := by
  obtain ⟨l, q, p, hth, hq⟩ := h
  obtain ⟨l', q', p', hth', hq'⟩ := h'
  rw [hth] at hth'
  cases hth'
  exact Option.some.inj (hq.symm.trans hq')

section Order

variable {c : (service mt fc).Config} {advisory : ObjectId → Option SessionId} {j : SessionId}

variable {D : (service mt fc).Discipline}

theorem free_at_flow
    (hok : c.Ok (linkProtocol mt fc False D)) {f : FlowId} (hat : AtLock c j (.flow f))
    (hf : World.locks c.shared (.flow f) ≠ some j) {k : Lock}
    (hk : World.locks c.shared k = some j) : k.OfCatalogue := by
  obtain ⟨l, q, p, hth, hq⟩ := hat
  cases q with
  | lockFlowSegments g =>
    cases hq
    rcases hok.req hth with hheld | hfree
    · exact absurd hheld hf
    · exact hfree k hk
  | _ => cases hq

variable {db : Database}

theorem smaller_at_object (hc : (service mt fc).Reachable (givenIds mt fc) (World.initial db) c)
    (hok : c.Ok (linkProtocol mt fc False (givenIds mt fc))) {o : ObjectId}
    (hat : AtLock c j (.object o)) (ho : World.locks c.shared (.object o) ≠ some j)
    {o' : ObjectId} (ho' : World.locks c.shared (.object o') = some j) : o' < o := by
  obtain ⟨l, q, p, hth, hq⟩ := hat
  have hsessions := sessionsOk_of_reachable hc
  have hgiven : ¬ GeneratesIds (World.running c.shared j) := by
    intro hgen
    cases hrun : World.running c.shared j with
    | none => rw [hrun] at hgen; exact hgen
    | some op => exact hsessions.starts j op hrun (hrun ▸ hgen)
  cases q with
  | lockObject p =>
    cases hq
    rcases hok.req hth hgiven with hheld | hsmaller
    · exact absurd hheld ho
    · exact hsmaller o' ho'
  | _ => cases hq

theorem not_atLock_of_reaps
    (hc : (service mt fc).Reachable D (World.initial db) c) {k : Lock} (hat : AtLock c j k) :
    ¬ Reaps (World.running c.shared j) := by
  intro hreaps
  obtain ⟨l, q, p, hth, hq⟩ := hat
  have hnone : q.waitsAt = none := ((sessionsOk_of_reachable hc).reaps j l _ hth hreaps).1
  rw [hnone] at hq
  cases hq

theorem locks_ordered (L : mt.Lawful) (hdb : db.Fresh)
    (hc : (service mt fc).Reachable (givenIds mt fc) (World.initial db) c)
    (hadv : AdvisoryLocks c advisory) :
    Lib.OrderedBy (lockHolder c advisory) (wantsLock c advisory) StoreLock.before := by
  have hok : c.Ok (linkProtocol mt fc False (givenIds mt fc)) := linked_ok L hdb hc
  intro j k k' hk hwants hfree
  -- the row of an object that the session waits for is not its own
  have hrow : ∀ o, AtLock c j (.object o) → advisory o ≠ some j →
      World.locks c.shared (.object o) ≠ some j := by
    intro o hat hne hrow
    rcases hadv.held o j hrow with h | h
    · exact hne h
    · exact not_atLock_of_reaps hc hat h
  cases k' with
  | flow f =>
    have hnone : ∀ k, World.locks c.shared k = some j → k.OfCatalogue :=
      fun k hk => free_at_flow hok hwants hfree hk
    cases k with
    | flow g => exact (hnone _ hk).elim
    | row o => exact (hnone _ hk).elim
    | advisory o =>
      rcases hadv.taken o j hk with h | h
      · exact (hnone _ h).elim
      · cases h.unique hwants
  | advisory o =>
    obtain ⟨hat, hne⟩ := hwants
    have hsmaller : ∀ o', World.locks c.shared (.object o') = some j → o' < o :=
      fun o' h => smaller_at_object hc hok hat (hrow o hat hne) h
    cases k with
    | flow g => trivial
    | row o' => exact hsmaller o' hk
    | advisory o' =>
      rcases hadv.taken o' j hk with h | h
      · exact hsmaller o' h
      · cases h.unique hat
        exact absurd hk hne
  | row o =>
    obtain ⟨hat, -⟩ := hwants
    have hsmaller : ∀ o', World.locks c.shared (.object o') = some j → o' < o :=
      fun o' h => smaller_at_object hc hok hat hfree h
    cases k with
    | flow g => trivial
    | row o' => exact hsmaller o' hk
    | advisory o' =>
      rcases hadv.taken o' j hk with h | h
      · exact .inl (hsmaller o' h)
      · cases h.unique hat
        exact .inr rfl

end Order

/-- **Deadlock-free locking.** However the advisory locks are spread over the sessions that
    are taking an object's locks, no session waits, directly or through others, for itself. -/
theorem locking_deadlock_free (L : mt.Lawful) {db : Database} (hdb : db.Fresh)
    {c : (service mt fc).Config}
    (hc : (service mt fc).Reachable (givenIds mt fc) (World.initial db) c)
    {advisory : ObjectId → Option SessionId} (hadv : AdvisoryLocks c advisory)
    (i : SessionId) :
    ¬ Relation.TransGen (Lib.WaitsFor (lockHolder c advisory) (wantsLock c advisory)) i i :=
  (locks_ordered L hdb hc hadv).acyclic StoreLock.before_trans StoreLock.before_irrefl i

def wantsObject (c : sampleStore.Config) : Bool :=
  match c.threads 1 with
  | some ⟨_, .call (.lockObject o) _⟩ => o = "a"
  | _ => false

theorem locking_deadlock_free_sample :
    ∃ c : (service sampleTimestamp sampleContract).Config,
      let advisory := fun o => World.locks c.shared (.object o)
      let waitsFor := Lib.WaitsFor (lockHolder c advisory) (wantsLock c advisory)
      waitsFor 1 0 ∧ ∀ i, ¬ Relation.TransGen waitsFor i i := by
  let edit : Op := .registerObjectInstance "a" none none
  let starts : Op → Bool := fun op => match op with
    | .registerObjectInstance _ _ _ => true
    | _ => false
  have hran : (run sampleStore
      (tests _ starts (fun _ _ _ _ => true)) (.initial (World.initial sampleDatabase))
      (.start 0 edit :: callsOf 0 2 ++ .start 1 edit :: callsOf 1 1)).any (fun c =>
        World.locks c.shared (.object "a") = some 0 && wantsObject c) = true := by
    decide +kernel
  obtain ⟨c, hc, hat⟩ := Option.any_eq_true .. |>.mp hran
  obtain ⟨hheld, hat⟩ := (Bool.and_eq_true ..).mp hat
  have hheld : World.locks c.shared (.object "a") = some 0 := of_decide_eq_true hheld
  have hreach := Reachable.of_run (D := givenIds sampleTimestamp sampleContract)
    (fun op hop => ?_) (fun _ _ _ _ _ _ => trivial) .init hc
  · refine ⟨c, ⟨by decide, .advisory "a", ⟨?_, ?_⟩, hheld⟩, fun i => locking_deadlock_free
      sampleTimestamp_lawful sampleDatabase_fresh hreach ⟨fun _ _ => .inl, fun _ _ => .inl⟩ i⟩
    · unfold wantsObject at hat
      split at hat
      · rename_i l o p hth
        obtain rfl : o = "a" := of_decide_eq_true hat
        exact ⟨l, _, p, hth, rfl⟩
      · cases hat
    · exact fun h => absurd (hheld.symm.trans h) (by decide)
  · cases op with
    | registerObjectInstance => exact id
    | _ => cases hop

end Tamoss
