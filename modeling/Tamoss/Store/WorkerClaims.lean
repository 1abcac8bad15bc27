/-
  **Worker claims: leases on the rows of the queue tables.**

  The statements of `postgres_repository/queues.py` that claim, renew, save and purge rows.
  Workers issue them in any order, with whatever records they still hold; a claim is told from
  an earlier one by its token, the time at which it was granted.
-/
import Tamoss.Store.Records
import Mathlib.Data.List.Sort

namespace Tamoss.WorkerClaims

open Lib

/-! ## Rows, records and statements -/

/-- The queue tables, by the type of their records. -/
inductive Queue where
  | webhookDeliveries | deleteRequests | objectCleanups | objectCopies
deriving DecidableEq

inductive Status where
  | created | pending | started | error | done | dead
deriving DecidableEq

structure Row where
  queue : Queue
  id : QueueId
  status : Status
  claimedAt : Option Time := none
  claimedBy : Option String := none
  claimExpiresAt : Option Time := none
  deleteRequestId : Option QueueId := none
  nextAttemptAt : Option Time := none
  updated : Time := 0
  createdAt : Time := 0
  updatedAt : Time := 0
  record : String := ""
deriving DecidableEq

def Row.key (row : Row) : Queue × QueueId := (row.queue, row.id)

/-- A record in the hands of a worker: the columns it would save, and the claim under which
    the row was read. -/
structure WorkerRecord extends Row where
  claimToken : Option Time := none

structure Queues where
  rows : Table (Queue × QueueId) Row Row.key
  clock : Time

variable (s : Queues)

/-- `WHERE id = .. AND claimed_at = .. AND claim_expires_at > clock_timestamp()` -/
def Queues.holds (key : Queue × QueueId) (token : Option Time) (time : Time) : Bool :=
  (s.rows.get key).any fun row =>
    token.any (row.claimedAt = some ·) && row.claimExpiresAt.any (time < ·)

def Queue.claimable : Queue → List Status
  | .webhookDeliveries => [.pending, .started]
  | .deleteRequests => [.created, .started, .error]
  | .objectCleanups | .objectCopies => [.pending, .started, .error]

def Queue.finished : Queue → List Status
  | .webhookDeliveries => [.done, .dead]
  | _ => [.done]

/-- What a claiming transaction finds: its start, the rows that others have locked, and the
    clock at each row. -/
structure Claiming where
  now : Time
  locked : QueueId → Bool := fun _ => false
  clock : QueueId → Time

def candidateFilter (now : Time) (row : Row) : Bool :=
  match row.queue with
  | .webhookDeliveries => row.nextAttemptAt.all (· ≤ now)
  | .objectCleanups => row.deleteRequestId = none
  | _ => true

def isCandidate (c : Claiming) (row : Row) : Bool :=
  row.status ∈ row.queue.claimable && candidateFilter c.now row &&
    row.claimExpiresAt.all (· ≤ c.now) && !c.locked row.id

def grant (c : Claiming) (workerId : String) (lease : Nat) (row : Row) : Row :=
  { row with
    status := .started
    claimedAt := some (c.clock row.id)
    claimedBy := some workerId
    claimExpiresAt := some (c.clock row.id + lease)
    updated := if row.queue = .webhookDeliveries then row.updated else c.now
    updatedAt := c.now }

def candidates (q : Queue) (c : Claiming) (limit : Nat) : List Row :=
  ((s.rows.rows.filter fun row => row.queue = q && isCandidate c row).insertionSort
    fun (a b : Row) => a.createdAt < b.createdAt ∨ a.createdAt = b.createdAt ∧ a.id ≤ b.id).take limit

/-- `_claim_worker_records` -/
def claimWorkerRecords (q : Queue) (c : Claiming) (workerId : String) (limit lease : Nat) :
    Queues × List WorkerRecord :=
  let granted := (candidates s q c limit).map (grant c workerId lease)
  ({ s with rows := granted.foldl Table.upsert s.rows },
    granted.map fun row => { row with claimToken := row.claimedAt })

/-- `renew_worker_claim`; `none` when no row was updated. -/
def renewWorkerClaim (record : WorkerRecord) (lease : Nat) (time : Time) : Option Queues :=
  if s.holds record.key record.claimToken time then
    (s.rows.get record.key).map fun row =>
      { s with rows := s.rows.upsert { row with claimExpiresAt := some (time + lease) } }
  else none

def activeClaim (active : List WorkerRecord) (id : QueueId) : Option WorkerRecord :=
  active.find? (·.id = id)

/-- The claim a save is made under. -/
def claimOf (record : WorkerRecord) (active : List WorkerRecord) : Option Time :=
  ((activeClaim active record.id).getD record).claimToken

/-- A cleanup belongs to the claim on its delete request, if that is active. -/
def parentHeld (record : WorkerRecord) (active : List WorkerRecord) (time : Time) : Bool :=
  record.queue ≠ .objectCleanups ||
    (record.deleteRequestId.bind (activeClaim active)).all fun parent =>
      s.holds (.deleteRequests, parent.id) parent.claimToken time

/-- The clocks a save reads: `utc_now()`, the start of its transaction, and the time at which
    it checks the parent of a cleanup. The parent's row is locked from then on. -/
structure Saving where
  utcNow : Time
  now : Time
  checked : Time

/-- The row that a save leaves: an expiry is not moved back while the row stays claimed. -/
def assigned (old : Option Row) (record : WorkerRecord) (c : Saving) : Row :=
  { record.toRow with
    claimExpiresAt := if record.claimedAt = none then record.claimExpiresAt
      else (old.bind Row.claimExpiresAt).merge max record.claimExpiresAt
    createdAt := if record.queue = .objectCleanups ∨ record.queue = .objectCopies then
        (old.map Row.createdAt).getD c.now
      else record.createdAt
    updatedAt := c.utcNow }

/-- A row that nobody has claimed may be saved without a claim. -/
def claimStands (record : WorkerRecord) (active : List WorkerRecord) (time : Time) : Bool :=
  match claimOf record active with
  | none => (s.rows.get record.key).all (·.claimedAt = none)
  | some token => s.holds record.key (some token) time

/-- `_save_worker_record`; `none` for `WorkerClaimLost`. -/
def saveWorkerRecord (record : WorkerRecord) (active : List WorkerRecord)
    (c : Saving) (time : Time) : Option Queues :=
  if parentHeld s record active c.checked && claimStands s record active time then
    some { s with rows := s.rows.upsert (assigned (s.rows.get record.key) record c) }
  else none

/-- `preserve_dependencies` -/
def unneeded (row : Row) : Bool :=
  match row.queue with
  | .objectCleanups =>
    row.deleteRequestId.all fun request => s.rows.get (.deleteRequests, request) = none
  | .deleteRequests => s.rows.rows.all fun cleanup => cleanup.queue ≠ .objectCleanups ||
      cleanup.deleteRequestId ≠ some row.id || cleanup.status = .done
  | _ => true

def purgeable (olderThan : Time) (locked : Row → Bool) (q : Queue) (row : Row) : Bool :=
  row.queue = q && row.status ∈ row.queue.finished && row.updatedAt < olderThan &&
    unneeded s row && !locked row

def purgeTable (olderThan : Time) (locked : Row → Bool) (limit : Nat) (state : Queues × Nat)
    (q : Queue) : Queues × Nat :=
  let target := (state.1.rows.rows.filter (purgeable state.1 olderThan locked q)).take
    (limit - state.2)
  ({ state.1 with rows := state.1.rows.filter fun row => !target.contains row },
    state.2 + target.length)

/-- `purge_finished_worker_records`; `locked` are the rows that it passes over. -/
def purgeFinishedWorkerRecords (olderThan : Time) (locked : Row → Bool) (limit : Nat) : Queues :=
  ([.webhookDeliveries, .deleteRequests, .objectCleanups, .objectCopies].foldl
    (purgeTable olderThan locked limit) (s, 0)).1

/-! ## What a statement may do to a row -/

inductive Event where
  | claim (q : Queue) (c : Claiming) (workerId : String) (limit lease : Nat)
  | renew (record : WorkerRecord) (lease : Nat)
  | save (record : WorkerRecord) (active : List WorkerRecord) (c : Saving)
  | purge (olderThan : Time) (locked : Row → Bool) (limit : Nat)

def Event.perform (time : Time) : Event → Queues
  | .claim q c workerId limit lease => (claimWorkerRecords s q c workerId limit lease).1
  | .renew record lease => (renewWorkerClaim s record lease time).getD s
  | .save record active c => (saveWorkerRecord s record active c time).getD s
  | .purge olderThan locked limit => purgeFinishedWorkerRecords s olderThan locked limit

/-- The clock of the database moves on, and a record that is saved under a standing claim
    has the claim's time or, once it is released, none. -/
def Event.Fits (time : Time) : Event → Prop
  | .claim _ c _ _ _ => c.now ≤ time ∧ ∀ id, s.clock < c.clock id
  | .save record active _ => claimStands s record active time = true →
      record.claimedAt = none ∨ record.claimedAt = claimOf record active
  | _ => True

/-- Statements one after the other, each at its time. -/
inductive Runs : Queues → List (Time × Event) → Queues → Prop
  | done {s : Queues} : Runs s [] s
  | step {s s' : Queues} {time : Time} {e : Event} {es : List (Time × Event)} :
      s.clock < time → e.Fits s time → Runs { e.perform s time with clock := time } es s' →
      Runs s ((time, e) :: es) s'

/-- What becomes of the row under a key. -/
inductive Change (time : Time) (key : Queue × QueueId) : Event → Option Row → Prop
  | same {e : Event} : Change time key e (s.rows.get key)
  | granted {q : Queue} {c : Claiming} {workerId : String} {limit lease : Nat} {row : Row} :
      s.rows.get key = some row → isCandidate c row = true →
      Change time key (.claim q c workerId limit lease) (some (grant c workerId lease row))
  | renewed {record : WorkerRecord} {lease : Nat} {row : Row} :
      record.key = key → s.rows.get key = some row →
      s.holds key record.claimToken time = true →
      Change time key (.renew record lease)
        (some { row with claimExpiresAt := some (time + lease) })
  | saved {record : WorkerRecord} {active : List WorkerRecord} {c : Saving} :
      record.key = key → claimStands s record active time = true →
      Change time key (.save record active c) (some (assigned (s.rows.get key) record c))
  | purged {olderThan : Time} {locked : Row → Bool} {limit : Nat} {row : Row} :
      s.rows.get key = some row → row.status ∈ row.queue.finished →
      (row.queue = .deleteRequests → ∀ cleanup ∈ s.rows.rows, cleanup.queue = .objectCleanups →
        cleanup.deleteRequestId = some row.id → cleanup.status = .done) →
      Change time key (.purge olderThan locked limit) none

variable {s : Queues} {key : Queue × QueueId} {time : Time}

section Claims

variable {q : Queue} {c : Claiming} {workerId : String} {limit lease : Nat} {row : Row}

theorem mem_candidates (h : row ∈ candidates s q c limit) :
    row ∈ s.rows.rows ∧ isCandidate c row = true := by
  have hmem := (List.mem_insertionSort _).mp (List.mem_of_mem_take h)
  obtain ⟨hstored, hcandidate⟩ := List.mem_filter.mp hmem
  exact ⟨hstored, (Bool.and_eq_true_iff.mp hcandidate).2⟩

theorem get_claimed (hrow : row ∈ candidates s q c limit) :
    (claimWorkerRecords s q c workerId limit lease).1.rows.get row.key =
      some (grant c workerId lease row) := by
  rw [claimWorkerRecords, Table.get_foldl_upsert]
  cases hfind : ((candidates s q c limit).map (grant c workerId lease)).reverse.find?
      fun granted => granted.key = row.key with
  | none =>
    have hmem := List.mem_reverse.mpr (List.mem_map_of_mem (f := grant c workerId lease) hrow)
    have hne := List.find?_eq_none.mp hfind _ hmem
    exact absurd (decide_eq_true rfl) hne
  | some granted =>
    obtain ⟨row', hrow', rfl⟩ := List.mem_map.mp
      (List.mem_reverse.mp (List.mem_of_find?_eq_some hfind))
    have hfound := List.find?_some hfind
    have hkey : row'.key = row.key := of_decide_eq_true hfound
    rw [s.rows.eq_of_key_eq (mem_candidates hrow').1 (mem_candidates hrow).1 hkey]
    rfl

theorem change_claim : Change s time key (.claim q c workerId limit lease)
    ((claimWorkerRecords s q c workerId limit lease).1.rows.get key) := by
  by_cases hrow : ∃ row ∈ candidates s q c limit, row.key = key
  · obtain ⟨row, hrow, rfl⟩ := hrow
    obtain ⟨hstored, hcandidate⟩ := mem_candidates hrow
    rw [get_claimed hrow]
    exact .granted (Table.get_eq_some.mpr ⟨hstored, rfl⟩) hcandidate
  · have hnone : ((candidates s q c limit).map (grant c workerId lease)).reverse.find?
        (fun row => row.key = key) = none := by
      refine List.find?_eq_none.mpr fun granted hgranted hkey => ?_
      obtain ⟨row, hmem, rfl⟩ := List.mem_map.mp (List.mem_reverse.mp hgranted)
      exact hrow ⟨row, hmem, of_decide_eq_true hkey⟩
    rw [claimWorkerRecords, Table.get_foldl_upsert, hnone]
    exact .same

end Claims

theorem change_renew (record : WorkerRecord) (lease : Nat) : Change s time key (.renew record lease)
      (((renewWorkerClaim s record lease time).getD s).rows.get key) := by
  unfold renewWorkerClaim
  split
  · rename_i hholds
    cases hget : s.rows.get record.key with
    | none => exact .same
    | some row =>
      have hrow : row.key = record.key := (Table.get_eq_some.mp hget).2
      rw [Option.map_some, Option.getD_some, Table.get_upsert]
      split
      · rename_i hkey
        have hkey : record.key = key := hrow.symm.trans hkey
        subst hkey
        exact .renewed rfl hget hholds
      · exact .same
  · exact .same

theorem change_save (record : WorkerRecord) (active : List WorkerRecord) (c : Saving) :
    Change s time key (.save record active c)
      (((saveWorkerRecord s record active c time).getD s).rows.get key) := by
  unfold saveWorkerRecord
  split
  · rename_i hguard
    rw [Option.getD_some, Table.get_upsert]
    split
    · rename_i hkey
      have hkey : record.key = key := hkey
      subst hkey
      exact .saved rfl (Bool.and_eq_true_iff.mp hguard).2
    · exact .same
  · exact .same

theorem purgeable_iff {olderThan : Time} {locked : Row → Bool} {q : Queue} {row : Row} :
    purgeable s olderThan locked q row = true ↔ row.queue = q ∧ row.status ∈ row.queue.finished ∧
      row.updatedAt < olderThan ∧ unneeded s row = true ∧ locked row = false := by
  simp [purgeable, and_assoc]

theorem change_purgeTable {olderThan : Time} {locked : Row → Bool} {limit : Nat}
    (state : Queues × Nat) (q : Queue)
    (hbefore : Change s time key (.purge olderThan locked limit) (state.1.rows.get key))
    (hkept : ∀ row ∈ state.1.rows.rows, row ∈ s.rows.rows)
    (hcleanups : q = .deleteRequests → ∀ row ∈ s.rows.rows, row.queue = .objectCleanups →
      row ∈ state.1.rows.rows) : Change s time key (.purge olderThan locked limit)
      ((purgeTable olderThan locked limit state q).1.rows.get key) := by
  unfold purgeTable
  dsimp only
  generalize htarget : List.take _ _ = target
  by_cases hrow : ∃ row ∈ target, row.key = key
  · obtain ⟨row, hrow, hkey⟩ := hrow
    subst htarget
    obtain ⟨hstored, heligible⟩ := List.mem_filter.mp (List.mem_of_mem_take hrow)
    obtain ⟨hq, hfinished, -, hunneeded, -⟩ := purgeable_iff.mp heligible
    rw [Table.get_eq_none.mpr fun x hx hxkey => ?_]
    · refine .purged (Table.get_eq_some.mpr ⟨hkept row hstored, hkey⟩) hfinished
        fun hrequest cleanup hmem hcleanup hparent => ?_
      rw [unneeded, hrequest] at hunneeded
      have hdone := List.all_eq_true.mp hunneeded cleanup
        (hcleanups (hq.symm.trans hrequest) cleanup hmem hcleanup)
      simpa [hcleanup, hparent] using hdone
    · obtain ⟨hx, hnot⟩ := Table.mem_filter.mp hx
      obtain rfl := state.1.rows.eq_of_key_eq hx hstored (hxkey.trans hkey.symm)
      simp [hrow] at hnot
  · rw [Table.get_filter fun row hkey => ?_]
    · exact hbefore
    · have hnot : row ∉ target := fun h => hrow ⟨row, h, hkey⟩
      simpa using hnot

/-- **What one statement does to a row**, whatever the statement. -/
theorem perform_change (s : Queues) (time : Time) (key : Queue × QueueId) (e : Event) :
    Change s time key e ((e.perform s time).rows.get key) := by
  cases e with
  | claim q c workerId limit lease => exact change_claim
  | renew record lease => exact change_renew record lease
  | save record active c => exact change_save record active c
  | purge olderThan locked limit =>
    have hsub : ∀ (state : Queues × Nat) q,
        ∀ row ∈ (purgeTable olderThan locked limit state q).1.rows.rows, row ∈ state.1.rows.rows :=
      fun _ _ _ hrow => (Table.mem_filter.mp hrow).1
    -- cleanups are purged after the delete requests
    have hcleanups : ∀ row ∈ s.rows.rows, row.queue = .objectCleanups →
        row ∈ (purgeTable olderThan locked limit (s, 0) .webhookDeliveries).1.rows.rows := by
      intro row hrow hqueue
      refine Table.mem_filter.mpr ⟨hrow, ?_⟩
      rw [Bool.not_eq_true', Bool.eq_false_iff, ne_eq, List.contains_iff_mem]
      intro htarget
      have heligible := (List.mem_filter.mp (List.mem_of_mem_take htarget)).2
      cases hqueue.symm.trans (purgeable_iff.mp heligible).1
    have h₀ : Change s time key (.purge olderThan locked limit) (s.rows.get key) := .same
    have h₁ := change_purgeTable (s, 0) .webhookDeliveries h₀ (fun _ h => h) nofun
    have h₂ := change_purgeTable _ .deleteRequests h₁ (hsub _ _) fun _ => hcleanups
    have h₃ := change_purgeTable _ .objectCleanups h₂
      (fun row hrow => hsub _ _ row (hsub _ _ row hrow)) nofun
    exact change_purgeTable _ .objectCopies h₃
      (fun row hrow => hsub _ _ row (hsub _ _ row (hsub _ _ row hrow))) nofun

/-- What a purge has done once some of the tables are through. -/
structure Purged (s : Queues) (olderThan : Time) (locked : Row → Bool) (limit : Nat)
    (state : Queues × Nat) : Prop where
  kept : ∀ row ∈ state.1.rows.rows, row ∈ s.rows.rows
  dropped : ∀ row ∈ s.rows.rows, row ∉ state.1.rows.rows →
    row.status ∈ row.queue.finished ∧ row.updatedAt < olderThan ∧ locked row = false
  count : s.rows.rows.length ≤ state.1.rows.rows.length + state.2
  bounded : state.2 ≤ limit

theorem Purged.step {olderThan : Time} {locked : Row → Bool} {limit : Nat} {state : Queues × Nat}
    (h : Purged s olderThan locked limit state) (q : Queue) :
    Purged s olderThan locked limit (purgeTable olderThan locked limit state q) := by
  unfold purgeTable
  dsimp only
  generalize htarget : List.take _ _ = target
  have hnodup : state.1.rows.rows.Nodup := state.1.rows.nodup.of_map
  have hsubset : state.1.rows.rows.filter (target.contains ·) ⊆ target := by
    intro row hrow
    simpa using (List.mem_filter.mp hrow).2
  have hgone := (List.subperm_of_subset (hnodup.filter _) hsubset).length_le
  have hlength : target.length ≤ limit - state.2 := htarget ▸ List.length_take_le _ _
  have hsplit := List.length_eq_length_filter_add (l := state.1.rows.rows) (target.contains ·)
  have hcount := h.count
  have hbounded := h.bounded
  refine ⟨fun row hrow => h.kept row (Table.mem_filter.mp hrow).1, fun row hrow hnot => ?_, ?_, ?_⟩
  · by_cases hstored : row ∈ state.1.rows.rows
    · have hrow : row ∈ target := by
        simpa [Table.mem_filter, hstored] using hnot
      rw [← htarget] at hrow
      have heligible := (List.mem_filter.mp (List.mem_of_mem_take hrow)).2
      obtain ⟨-, hfinished, hold, -, hfree⟩ := purgeable_iff.mp heligible
      exact ⟨hfinished, hold, hfree⟩
    · exact h.dropped row hrow hstored
  · dsimp only [Table.filter]
    omega
  · dsimp only
    omega

/-- **A purge is bounded.** Over all the tables it deletes no more than `limit` rows, each of
    them finished, not saved since the cutoff and not locked by anybody. -/
theorem purge_bounded (s : Queues) (olderThan : Time) (locked : Row → Bool) (limit : Nat) :
    let purged := purgeFinishedWorkerRecords s olderThan locked limit
    s.rows.rows.length ≤ purged.rows.rows.length + limit ∧
    ∀ row ∈ s.rows.rows, row ∉ purged.rows.rows →
      row.status ∈ row.queue.finished ∧ row.updatedAt < olderThan ∧ locked row = false := by
  have hstart : Purged s olderThan locked limit (s, 0) :=
    ⟨fun _ hrow => hrow, fun _ hrow hnot => absurd hrow hnot, le_rfl, Nat.zero_le _⟩
  have hend := (((hstart.step .webhookDeliveries).step .deleteRequests).step
    .objectCleanups).step .objectCopies
  exact ⟨hend.count.trans (Nat.add_le_add_left hend.bounded _), hend.dropped⟩

theorem holds_eq_true {token : Option Time} : s.holds key token time = true ↔
    ∃ row e, s.rows.get key = some row ∧ token.isSome = true ∧ row.claimedAt = token ∧
      row.claimExpiresAt = some e ∧ time < e := by
  cases token <;> simp [Queues.holds, Option.any_eq_true]

theorem renewWorkerClaim_eq {record : WorkerRecord} {lease : Nat} {row : Row}
    (hholds : s.holds record.key record.claimToken time = true)
    (hget : s.rows.get record.key = some row) : renewWorkerClaim s record lease time =
      some { s with rows := s.rows.upsert { row with claimExpiresAt := some (time + lease) } } := by
  rw [renewWorkerClaim, if_pos hholds, hget, Option.map_some]

theorem claimStands_cases {record : WorkerRecord} {active : List WorkerRecord}
    (h : claimStands s record active time = true) :
    claimOf record active = none ∧ (s.rows.get record.key).all (·.claimedAt = none) = true ∨
      s.holds record.key (claimOf record active) time = true := by
  unfold claimStands at h
  split at h
  · rename_i hnone
    exact .inl ⟨hnone, h⟩
  · rename_i hsome
    exact .inr (hsome ▸ h)

/-! ## Runs -/

variable {s' : Queues} {token : Time} {es : List (Time × Event)}

/-- No statement from now on can use the claim. -/
def Lost (s : Queues) (key : Queue × QueueId) (token : Time) : Prop :=
  ∀ time, s.clock < time → s.holds key (some token) time = false

/-- The step: a token that is granted is later than the lost one, and only the holder of a
    standing claim writes its token back. -/
theorem Lost.step {e : Event} (h : Lost s key token) (htoken : token ≤ s.clock)
    (hclock : s.clock < time) (hfits : e.Fits s time) :
    Lost { e.perform s time with clock := time } key token := by
  intro later hlater
  have hlost := h later (hclock.trans hlater)
  rw [Bool.eq_false_iff, ne_eq, holds_eq_true] at hlost ⊢
  rintro ⟨row, e, hget, -, hclaimed, hexpires, hlate⟩
  have hstands : s.holds key (some token) time ≠ true := by simp [h time hclock]
  have hchange := perform_change s time key ‹Event›
  rw [hget] at hchange
  generalize hnew : some row = new at hchange
  cases hchange with
  | same => exact hlost ⟨row, e, hnew.symm, rfl, hclaimed, hexpires, hlate⟩
  | @granted _ c _ _ _ old =>
    cases hnew
    have hgranted : c.clock old.id = token := Option.some.inj hclaimed
    exact absurd (hgranted ▸ hfits.2 old.id) (Nat.not_lt.mpr htoken)
  | renewed _ hold hholds =>
    cases hnew
    obtain ⟨row', -, hrow', -, hclaimed', -⟩ := holds_eq_true.mp hholds
    cases hold.symm.trans hrow'
    exact hstands ((hclaimed'.symm.trans hclaimed) ▸ hholds)
  | saved hkey hguard =>
    cases hnew
    subst hkey
    rcases hfits hguard with hnone | hown
    · cases hclaimed.symm.trans hnone
    · rcases claimStands_cases hguard with ⟨hfree, -⟩ | hholds
      · cases (hclaimed.symm.trans hown).trans hfree
      · exact hstands ((hclaimed.symm.trans hown).symm ▸ hholds)
  | purged => cases hnew

theorem Lost.run (h : Lost s key token) (htoken : token ≤ s.clock) (hrun : Runs s es s') :
    Lost s' key token := by
  induction hrun with
  | done => exact h
  | step hclock hfits _ ih => exact ih (h.step htoken hclock hfits) (htoken.trans hclock.le)

/-- **A lost claim stays lost.** Whatever workers do after a claim has expired or was
    superseded, renewing it fails, and so does every save under it: of the row itself, and,
    for a delete request, of the cleanups that belong to it, if the save begins after that. -/
theorem lost_claim_stays_lost (h : Lost s key token) (htoken : token ≤ s.clock)
    (hrun : Runs s es s') (htime : s'.clock < time) :
    (∀ record lease, record.key = key → record.claimToken = some token →
      renewWorkerClaim s' record lease time = none) ∧
    (∀ record active c, record.key = key → claimOf record active = some token →
      saveWorkerRecord s' record active c time = none) ∧
    ∀ cleanup active c parent, s'.clock < c.checked → cleanup.queue = .objectCleanups →
      cleanup.deleteRequestId = some parent.id → activeClaim active parent.id = some parent →
      key = (.deleteRequests, parent.id) → parent.claimToken = some token →
      saveWorkerRecord s' cleanup active c time = none := by
  have hlost := h.run htoken hrun
  have hnow := hlost time htime
  refine ⟨fun record lease hkey ht => ?_, fun record active c hkey ht => ?_,
    fun cleanup active c parent hchecked hqueue hparent hactive hkey ht => ?_⟩
  · simp [renewWorkerClaim, hkey, ht, hnow]
  · simp [saveWorkerRecord, claimStands, ht, hkey, hnow]
  · subst hkey
    simp [saveWorkerRecord, parentHeld, hqueue, hparent, hactive, ht, hlost c.checked hchecked]

def claimedRow (claimedAt : Time) : Row where
  queue := .deleteRequests
  id := 1
  status := .started
  claimedAt := some claimedAt
  claimExpiresAt := some (claimedAt + 5)

def queuesAt (clock : Time) (rows : List Row) : Queues :=
  ⟨rows.foldl Table.upsert Table.empty, clock⟩

def claimOthers : Event := .claim .deleteRequests ⟨21, fun _ => false, fun _ => 21⟩ "other" 1 5

theorem lost_claim_stays_lost_reclaimed :
    ∃ s', Runs (queuesAt 20 [claimedRow 5]) [(21, claimOthers)] s' ∧
      s'.holds (.deleteRequests, 1) (some 21) 22 = true ∧
      renewWorkerClaim s' ⟨claimedRow 5, some 5⟩ 5 22 = none := by
  have hlost : Lost (queuesAt 20 [claimedRow 5]) (.deleteRequests, 1) 5 := by
    intro time htime
    have hlate : 10 ≤ time := le_trans (by decide) (le_of_lt htime)
    rw [Bool.eq_false_iff, ne_eq, holds_eq_true]
    rintro ⟨row, e, ⟨⟩, -, -, ⟨⟩, hearly⟩
    exact absurd hearly (Nat.not_lt.mpr hlate)
  have hrun : Runs (queuesAt 20 [claimedRow 5]) [(21, claimOthers)] _ :=
    .step (by decide) ⟨le_rfl, fun _ => Nat.lt_succ_self 20⟩ .done
  exact ⟨_, hrun, by decide, (lost_claim_stays_lost hlost (by decide) hrun (by decide)).1
    _ 5 rfl rfl⟩

/-- The statement is issued under the claim. -/
def Event.Uses (key : Queue × QueueId) (token : Time) : Event → Prop
  | .renew record _ => record.key = key ∧ record.claimToken = some token
  | .save record active _ => record.key = key ∧ claimOf record active = some token
  | _ => False

/-- What the holder of a claim does in a run: nothing but renew it before it expires. The
    times are those of expiry, at first and in the end. -/
inductive Renewing (key : Queue × QueueId) (token : Time) :
    Time → List (Time × Event) → Time → Prop
  | done {expires : Time} : Renewing key token expires [] expires
  | renew {record : WorkerRecord} {lease : Nat} {time expires last : Time}
      {es : List (Time × Event)} : record.key = key → record.claimToken = some token →
      time < expires → Renewing key token (time + lease) es last →
      Renewing key token expires ((time, .renew record lease) :: es) last
  | other {e : Event} {time expires last : Time} {es : List (Time × Event)} :
      ¬ e.Uses key token → Renewing key token expires es last →
      Renewing key token expires ((time, e) :: es) last

theorem Renewing.clock_lt {expires last : Time} (h : Renewing key token expires es last)
    (hrun : Runs s es s') (hlast : s'.clock < last) : s.clock < expires := by
  induction h generalizing s with
  | done =>
    cases hrun
    exact hlast
  | renew _ _ htime _ _ =>
    obtain _ | ⟨hclock, -, -⟩ := hrun
    exact hclock.trans htime
  | other _ _ ih =>
    obtain _ | ⟨hclock, -, hrest⟩ := hrun
    exact hclock.trans (ih hrest hlast)

/-- The step: the others are kept off the row by its lease. -/
theorem leased_row_untouched {row : Row} {expires : Time} {e : Event}
    (hget : s.rows.get key = some row) (hclaimed : row.claimedAt = some token)
    (hexpires : row.claimExpiresAt = some expires) (hopen : row.status ∉ row.queue.finished)
    (htime : time < expires) (hfits : e.Fits s time) (hother : ¬ e.Uses key token) :
    (e.perform s time).rows.get key = some row := by
  have hown : ∀ t, s.holds key t time = true → t = some token := by
    intro t ht
    obtain ⟨row', -, hrow', -, ht', -⟩ := holds_eq_true.mp ht
    cases hget.symm.trans hrow'
    exact ht'.symm.trans hclaimed
  have hchange := perform_change s time key e
  generalize (e.perform s time).rows.get key = new at hchange
  cases hchange with
  | same => exact hget
  | @granted _ c _ _ _ _ hold hcandidate =>
    cases hget.symm.trans hold
    simp only [isCandidate, hexpires, Option.all_some, Bool.and_eq_true,
      decide_eq_true_eq] at hcandidate
    have hnow : c.now ≤ time := hfits.1
    exact absurd (hcandidate.1.2.trans hnow) (Nat.not_le.mpr htime)
  | renewed hkey _ hholds => exact absurd ⟨hkey, hown _ hholds⟩ hother
  | saved hkey hguard =>
    rcases claimStands_cases hguard with ⟨-, hfree⟩ | hholds
    · simp [hkey, hget, hclaimed] at hfree
    · exact absurd ⟨hkey, hown _ (hkey ▸ hholds)⟩ hother
  | purged hold hfinished =>
    cases hget.symm.trans hold
    exact absurd hfinished hopen

/-- The run: nothing but the expiry of the row changes. -/
theorem renewed_claim_kept {row : Row} {expires last : Time}
    (hget : s.rows.get key = some row) (hclaimed : row.claimedAt = some token)
    (hexpires : row.claimExpiresAt = some expires) (hopen : row.status ∉ row.queue.finished)
    (hrun : Runs s es s') (hrenewing : Renewing key token expires es last)
    (hlast : s'.clock < last) :
    s'.rows.get key = some { row with claimExpiresAt := some last } := by
  induction hrenewing generalizing s row with
  | done =>
    cases hrun
    rw [hget, ← hexpires]
  | @renew record lease time _ _ _ hkey htoken htime _ ih =>
    obtain _ | ⟨-, -, hrest⟩ := hrun
    subst hkey
    have hholds : s.holds record.key record.claimToken time = true :=
      holds_eq_true.mpr ⟨row, _, hget, by rw [htoken, Option.isSome_some],
        hclaimed.trans htoken.symm, hexpires, htime⟩
    have hrow : row.key = record.key := (Table.get_eq_some.mp hget).2
    refine @ih _ { row with claimExpiresAt := some (time + lease) } ?_ hclaimed rfl hopen
      hrest hlast
    change (Event.perform s time (.renew record lease)).rows.get record.key = _
    rw [Event.perform, renewWorkerClaim_eq hholds hget, Option.getD_some, Table.get_upsert]
    exact if_pos hrow
  | other hother hrest ih =>
    obtain _ | ⟨-, hfits, hrun⟩ := hrun
    refine ih ?_ hclaimed hexpires hopen hrun hlast
    exact leased_row_untouched hget hclaimed hexpires hopen (hrest.clock_lt hrun hlast) hfits
      hother

/-- **A granted claim that is renewed in time is kept, and can be used.** While a worker
    renews the claim of a record it was handed before each expiry, nobody else is granted the
    row, saves it or purges it; its renewals succeed and its saves are accepted. -/
theorem granted_claim_usable {q : Queue} {c : Claiming} {workerId : String} {limit lease : Nat}
    {record : WorkerRecord} {start last : Time}
    (hrecord : record ∈ (claimWorkerRecords s q c workerId limit lease).2)
    (hrun : Runs s ((start, .claim q c workerId limit lease) :: es) s')
    (hrenewing : Renewing record.key (c.clock record.id) (c.clock record.id + lease) es last)
    (hclock : s'.clock < last) (htime : time < last) :
    s'.rows.get record.key = some { record.toRow with claimExpiresAt := some last } ∧
    (renewWorkerClaim s' record lease time).isSome = true ∧
    ∀ saved active c', saved.key = record.key → claimOf saved active = record.claimToken →
      parentHeld s' saved active c'.checked = true →
      (saveWorkerRecord s' saved active c' time).isSome = true := by
  obtain ⟨granted, hgranted, rfl⟩ := List.mem_map.mp hrecord
  obtain ⟨row, hrow, rfl⟩ := List.mem_map.mp hgranted
  obtain _ | ⟨-, -, hrest⟩ := hrun
  have hget : Table.get (Queues.rows { Event.perform s start (.claim q c workerId limit lease)
      with clock := start }) row.key = some (grant c workerId lease row) := get_claimed hrow
  have hopen : Status.started ∉ row.queue.finished := by
    cases row.queue <;> decide
  have hkept := renewed_claim_kept hget rfl rfl hopen hrest hrenewing hclock
  have hholds : s'.holds row.key (some (c.clock row.id)) time = true :=
    holds_eq_true.mpr ⟨_, _, hkept, rfl, rfl, rfl, htime⟩
  refine ⟨hkept, Option.isSome_of_eq_some (renewWorkerClaim_eq hholds hkept),
    fun saved active c' hkey hclaim hparent => ?_⟩
  have hstands : claimStands s' saved active time = true := by
    rw [claimStands, hclaim, hkey]
    exact hholds
  rw [saveWorkerRecord, hparent, hstands]
  rfl

theorem granted_claim_usable_renewal :
    ∃ s' record, Runs (queuesAt 20 [claimedRow 5]) [(21, claimOthers), (22, .renew record 5)] s' ∧
      (renewWorkerClaim s' record 5 26).isSome = true := by
  let record : WorkerRecord :=
    ⟨grant ⟨21, fun _ => false, fun _ => 21⟩ "other" 5 (claimedRow 5), some 21⟩
  have hrun : Runs (queuesAt 20 [claimedRow 5]) [(21, claimOthers), (22, .renew record 5)] _ :=
    .step (by decide) ⟨le_rfl, fun _ => Nat.lt_succ_self 20⟩ (.step (by decide) trivial .done)
  exact ⟨_, record, hrun, (granted_claim_usable (List.mem_singleton.mpr rfl) hrun
    (.renew rfl rfl (by decide) .done) (by decide) (by decide)).2.1⟩

/-- An unfinished cleanup of a stored delete request. -/
structure Attached (s : Queues) (cleanup request : QueueId) : Prop where
  cleanup : ∃ row, s.rows.get (.objectCleanups, cleanup) = some row ∧ row.status ≠ .done ∧
    row.deleteRequestId = some request
  request : (s.rows.get (.deleteRequests, request)).isSome = true

/-- **No cleanup is stranded.** As long as a cleanup is not saved as done or moved to another
    request, it and the delete request it belongs to stay stored, through every purge. -/
theorem unfinished_cleanup_kept {cleanup request : QueueId} (h : Attached s cleanup request)
    (hrun : Runs s es s') (hsaves : ∀ e ∈ es, ∀ record active c,
      e.2 = .save record active c → record.key = (.objectCleanups, cleanup) →
      record.status ≠ .done ∧ record.deleteRequestId = some request) :
    Attached s' cleanup request := by
  induction hrun with
  | done => exact h
  | @step s s' time e es hclock hfits hrest ih =>
    obtain ⟨row, hget, hstatus, hparent⟩ := h.cleanup
    obtain ⟨hstored, hkey⟩ := Table.get_eq_some.mp hget
    have hqueue : row.queue = .objectCleanups := congrArg Prod.fst hkey
    refine ih ⟨?_, ?_⟩ fun e he => hsaves e (List.mem_cons_of_mem _ he)
    · have hchange := perform_change s time (.objectCleanups, cleanup) e
      change ∃ row, (e.perform s time).rows.get (.objectCleanups, cleanup) = some row ∧ _
      generalize (e.perform s time).rows.get (.objectCleanups, cleanup) = new at hchange
      cases hchange with
      | same => exact ⟨row, hget, hstatus, hparent⟩
      | granted hold _ =>
        cases hget.symm.trans hold
        exact ⟨_, rfl, nofun, hparent⟩
      | renewed _ hold _ =>
        cases hget.symm.trans hold
        exact ⟨_, rfl, hstatus, hparent⟩
      | saved hkey _ => exact ⟨_, rfl, hsaves _ List.mem_cons_self _ _ _ rfl hkey⟩
      | purged hold hfinished =>
        cases hget.symm.trans hold
        rw [hqueue] at hfinished
        exact absurd (List.mem_singleton.mp hfinished) hstatus
    · have hchange := perform_change s time (.deleteRequests, request) e
      change ((e.perform s time).rows.get (.deleteRequests, request)).isSome = true
      generalize (e.perform s time).rows.get (.deleteRequests, request) = new at hchange
      cases hchange with
      | same => exact h.request
      | purged hold _ hdone =>
        have hrequest := (Table.get_eq_some.mp hold).2
        have hid : some request = some (Row.id ‹_›) := congrArg (some ·.2) hrequest.symm
        exact absurd (hdone (congrArg Prod.fst hrequest) row hstored hqueue
          (hparent.trans hid)) hstatus
      | _ => rfl

theorem unfinished_cleanup_kept_purge :
    let s := queuesAt 20 [{ queue := .deleteRequests, id := 1, status := .done },
      { queue := .objectCleanups, id := 2, status := .error, deleteRequestId := some 1 }]
    ∃ s', Runs s [(21, .purge 20 (fun _ => false) 10)] s' ∧ Attached s' 2 1 := by
  intro s
  have hrun : Runs s [(21, .purge 20 (fun _ => false) 10)] _ := .step (by decide) trivial .done
  exact ⟨_, hrun, unfinished_cleanup_kept ⟨⟨_, rfl, by decide, rfl⟩, rfl⟩ hrun (by simp)⟩

end Tamoss.WorkerClaims
