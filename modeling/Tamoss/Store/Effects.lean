/-
  **What one call does to the tables and to the writes of its session.**
-/
import Tamoss.Store.Protocol

namespace Tamoss

variable {mt : MediaTimestamp} {i : SessionId}

def Call.Submits : Call → List Write → Prop
  | .begin, _ | .commit, _ | .rollback, _ => False
  | .write w, ws => ws = [w]
  | .createProfile profile, ws => ws = [] ∨ ws = [.saveProfile profile]
  | .deleteProfile p, ws => ws = [] ∨ ws = [.deleteProfile p]
  | .deleteSegmentBatch _ _, ws => ∀ x ∈ ws, ∃ row, x = .deleteSegment row
  | .createObjects objects, ws => ∀ x ∈ ws, ∃ o ∈ objects, x = .saveObject o
  | _, ws => ws = []

inductive Effect : Call → Database → Session → Database → Session → Prop
  | begin {db : Database} {l : Session} :
      Effect .begin db l db { l with inTransaction := true }
  | commit {db : Database} {l : Session} : Effect .commit db l (db.applyAll l.writes) .idle
  | rollback {db : Database} {l : Session} : Effect .rollback db l db .idle
  | pending {q : Call} {db : Database} {l : Session} {ws : List Write} :
      q.Submits ws → l.inTransaction = true → Effect q db l db (l.push ws)
  | done {q : Call} {db : Database} {l : Session} {ws : List Write} :
      q.Submits ws → l.inTransaction = false → Effect q db l (db.applyAll ws) l

variable {q : Call}

theorem Call.Submits.mem {ws : List Write} (hq : q.Submits ws) {x : Write} (hx : x ∈ ws) :
    q = .write x ∨ (∃ row, x = .deleteSegment row) ∨
      (∃ objects, q = .createObjects objects ∧ ∃ o ∈ objects, x = .saveObject o) ∨
      (∃ profile, x = .saveProfile profile) ∨ ∃ p, x = .deleteProfile p := by
  cases q with
  | begin => exact hq.elim
  | commit => exact hq.elim
  | rollback => exact hq.elim
  | write w =>
    obtain rfl : ws = [w] := hq
    exact .inl (congrArg Call.write (List.mem_singleton.mp hx).symm)
  | createProfile profile =>
    rcases hq with rfl | rfl
    · cases hx
    · exact .inr (.inr (.inr (.inl ⟨profile, List.mem_singleton.mp hx⟩)))
  | deleteProfile p =>
    rcases hq with rfl | rfl
    · cases hx
    · exact .inr (.inr (.inr (.inr ⟨p, List.mem_singleton.mp hx⟩)))
  | deleteSegmentBatch filter limit => exact .inr (.inl (hq x hx))
  | createObjects objects => exact .inr (.inr (.inl ⟨objects, rfl, hq x hx⟩))
  | _ =>
    obtain rfl : ws = [] := hq
    cases hx

theorem Effect.none (hq : q.Submits []) (db : Database) (l : Session) : Effect q db l db l := by
  cases htx : l.inTransaction with
  | true =>
    have h : Effect q db l db (l.push []) := .pending hq htx
    rwa [Session.push, List.append_nil] at h
  | false => exact .done hq htx

/-- What a call may note down: copies in the session's own hands, and flows it found empty. -/
structure Notes (i : SessionId) (w : World) (history : History) : Prop where
  version : history.version = w.history.version
  saves : history.saves = w.history.saves
  others : ∀ j, j ≠ i → history.copies j = w.history.copies j ∧
    history.condemned j = w.history.condemned j
  own : ∃ new, history.copies i = w.history.copies i ++ new ∧ ∀ copy ∈ new,
    copy.version = w.history.version copy.flowId ∧
      (copy.locked = true → w.locks (.flow copy.flowId) = some i)

inductive Moves (i : SessionId) : Call → World → Session → World → Session → Prop
  | begin {w : World} {l : Session} : Moves i .begin w l w { l with inTransaction := true }
  | commit {w : World} {l : Session} :
      Moves i .commit w l ((w.commit i l.writes).release i) .idle
  | rollback {w : World} {l : Session} : Moves i .rollback w l (w.release i) .idle
  | locks {q : Call} {w : World} {l : Session} {locks : Lock → Option SessionId} :
      q.Submits [] → (∀ k j, w.locks k = some j → locks k = some j) →
      (∀ k j, locks k = some j → w.locks k = some j ∨ j = i ∧ l.inTransaction = true) →
      Moves i q w l { w with locks } l
  | submits {q : Call} {w w' : World} {l l' : Session} {ws : List Write} :
      q.Submits ws → w.submit i ws l = (w', l') → Moves i q w l w' l'
  | notes {q : Call} {w : World} {l : Session} {history : History} :
      q.Submits [] → Notes i w history → Moves i q w l { w with history } l

variable {l l' : Session} {w w' : World}

namespace Moves

theorem refl (hq : q.Submits []) : Moves i q w l w l :=
  .locks hq (fun _ _ h => h) fun _ _ h => .inl h

theorem acquire (hq : q.Submits []) {k : Lock} (h : w.acquire i k l = some w') :
    Moves i q w l w' l := by
  unfold World.acquire at h
  split at h
  · rename_i hnone
    split at h
    · rename_i htx
      cases h
      refine .locks hq (fun k' j hk' => ?_) fun k' j hk' => ?_
      · rw [Function.update_of_ne]
        · exact hk'
        · rintro rfl
          rw [hnone] at hk'
          cases hk'
      · by_cases hk : k' = k
        · subst hk
          rw [Function.update_self] at hk'
          exact .inr ⟨(Option.some.inj hk').symm, htx⟩
        · rw [Function.update_of_ne hk] at hk'
          exact .inl hk'
    · cases h
      exact refl hq
  · split at h
    · cases h
      exact refl hq
    · cases h

theorem noteCopies (hq : q.Submits []) (flows : List FlowId) :
    Moves i q w l (w.noteCopies i flows) l := by
  refine .notes hq ⟨rfl, rfl, fun j hj => ⟨Function.update_of_ne hj _ _, rfl⟩,
    flows.map fun f => (⟨f, w.history.version f, w.locks (.flow f) = some i⟩ : FlowCopy),
    Function.update_self .., fun copy hcopy => ?_⟩
  obtain ⟨f, -, rfl⟩ := List.mem_map.mp hcopy
  exact ⟨rfl, of_decide_eq_true⟩

theorem noteCondemned (hq : q.Submits []) (f : FlowId) (answer : String) :
    Moves i q w l (w.noteCondemned i f answer l) l := by
  unfold World.noteCondemned
  split
  · split
    · exact .notes hq ⟨rfl, rfl, fun j hj => ⟨rfl, Function.update_of_ne hj _ _⟩, [], by simp⟩
    · exact refl hq
  · exact refl hq

theorem effect (h : Moves i q w l w' l') : Effect q w.db l w'.db l' := by
  cases h with
  | begin => exact .begin
  | commit => exact .commit
  | rollback => exact .rollback
  | locks hq => exact .none hq w.db l
  | notes hq => exact .none hq w.db l
  | submits hq h =>
    unfold World.submit at h
    split at h
    · rename_i htx
      obtain ⟨rfl, rfl⟩ := Prod.mk.inj h
      exact .pending hq htx
    · rename_i htx
      obtain ⟨rfl, rfl⟩ := Prod.mk.inj h
      exact .done hq (Bool.eq_false_iff.mpr htx)

theorem running (h : Moves i q w l w' l') : w'.running = w.running := by
  cases h with
  | submits _ h =>
    unfold World.submit at h
    split at h <;> exact (congrArg World.running (Prod.mk.inj h).1).symm
  | _ => rfl

/-- A session leaves what the others have noted down alone. -/
theorem others (h : Moves i q w l w' l') {j : SessionId} (hj : j ≠ i) :
    w'.history.copies j = w.history.copies j ∧ w'.history.condemned j = w.history.condemned j := by
  cases h with
  | submits _ h =>
    unfold World.submit at h
    split at h
    · cases h
      exact ⟨rfl, rfl⟩
    · cases h
      exact ⟨rfl, rfl⟩
  | notes _ hnotes => exact hnotes.others j hj
  | commit => exact ⟨Function.update_of_ne hj _ _, Function.update_of_ne hj _ _⟩
  | rollback => exact ⟨Function.update_of_ne hj _ _, Function.update_of_ne hj _ _⟩
  | _ => exact ⟨rfl, rfl⟩

end Moves

/-- **What a call can do.** -/
theorem exec_moves {ch : Choice} {r : q.Resp}
    (h : exec mt i ch q w l = some (r, w', l')) : Moves i q w l w' l' := by
  have hlock : ∀ k, q.Submits [] → ((w.acquire i k l).map fun w => ((), w, l)) = some ((), w', l') →
      Moves i q w l w' l' := by
    intro k hq hk
    obtain ⟨w₁, hacq, heq⟩ := Option.map_eq_some_iff.mp hk
    cases heq
    exact .acquire hq hacq
  cases q with
  | begin =>
    cases h
    exact .begin
  | commit =>
    cases h
    exact .commit
  | rollback =>
    cases h
    exact .rollback
  | lockFlowSegments f => exact hlock _ rfl h
  | lockObject o => exact hlock _ rfl h
  | lockProfile p => exact hlock _ rfl h
  | lockSource s =>
    simp only [exec] at h
    split at h
    · exact hlock _ rfl h
    · cases h
      exact .refl rfl
  | createProfile profile =>
    refine .submits ?_ (Prod.mk.inj (Option.some.inj h)).2
    split
    · exact .inr rfl
    · exact .inl rfl
  | deleteProfile p =>
    refine .submits ?_ (Prod.mk.inj (Option.some.inj h)).2
    split
    · exact .inr rfl
    · exact .inl rfl
  | deleteSegmentBatch filter limit =>
    refine .submits ?_ (Prod.mk.inj (Option.some.inj h)).2
    intro x hx
    obtain ⟨row, -, rfl⟩ := List.mem_map.mp hx
    exact ⟨row, rfl⟩
  | createObjects objects =>
    refine .submits ?_ (Prod.mk.inj (Option.some.inj h)).2
    intro x hx
    obtain ⟨o, ho, rfl⟩ := List.mem_map.mp hx
    exact ⟨o, (List.mem_filter.mp ho).1, rfl⟩
  | write wr => exact .submits rfl (Prod.mk.inj (Option.some.inj h)).2
  | getFlow f toSave =>
    cases h
    cases toSave
    · exact .refl rfl
    · exact .noteCopies (by rfl) [f]
  | listFlowsCollecting f =>
    cases h
    exact .noteCopies (by rfl) _
  | segmentDeleteTimerange filter =>
    cases h
    exact .noteCondemned (by rfl) _ _
  | listUnreferencedObjectsCreatedBefore before limit =>
    cases h
    split
    · rename_i htx
      refine .locks rfl (fun k j hk => ?_) fun k j hk => ?_
      · split
        · -- only objects that are free, or locked by the session, are listed
          rename_i hmem
          obtain ⟨o, ho, rfl⟩ := List.mem_map.mp hmem
          have ho := List.mem_of_mem_take ho
          rw [(List.perm_insertionSort _ _).mem_iff, List.mem_filter] at ho
          simp only [Bool.and_eq_true, Bool.or_eq_true, decide_eq_true_eq] at ho
          rcases ho.2.2 with hfree | hown
          · rw [hfree] at hk
            cases hk
          · exact hown.symm.trans hk
        · exact hk
      · split at hk
        · exact .inr ⟨(Option.some.inj hk).symm, htx⟩
        · exact .inl hk
    · exact .refl rfl
  | _ =>
    cases h
    exact .refl rfl

theorem exec_effect {ch : Choice} {r : q.Resp}
    (h : exec mt i ch q w l = some (r, w', l')) : Effect q w.db l w'.db l' :=
  (exec_moves h).effect

theorem exec_running {ch : Choice} {r : q.Resp}
    (h : exec mt i ch q w l = some (r, w', l')) : w'.running = w.running :=
  (exec_moves h).running

end Tamoss
