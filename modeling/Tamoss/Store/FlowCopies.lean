/-
  **Copies of flows on their way from a read to a save.**
-/
import Tamoss.Store.Effects

namespace Tamoss

open Lib.Machine

def Write.OnFlows : Write → Prop
  | .saveFlow _ _ | .deleteFlow _ => True
  | _ => False

theorem Write.flows_apply {w : Write} (h : ¬ w.OnFlows) (db : Database) :
    (w.apply db).flows = db.flows := by
  cases w with
  | saveFlow => exact absurd trivial h
  | deleteFlow => exact absurd trivial h
  | _ => rfl

variable {ws : List Write}

theorem flows_applyAll (h : ∀ w ∈ ws, ¬ w.OnFlows) (db : Database) :
    (db.applyAll ws).flows = db.flows := by
  induction ws generalizing db with
  | nil => rfl
  | cons w ws ih =>
    rw [Database.applyAll_cons, ih (fun x hx => h x (List.mem_cons_of_mem w hx)),
      Write.flows_apply (h w List.mem_cons_self)]

variable {f : FlowId} {db : Database}

theorem mem_flowSaves {basis : Nat} {present : Bool} (h : (f, basis, present) ∈ db.flowSaves ws) :
    ∃ before flow after, ws = before ++ .saveFlow flow basis :: after ∧ flow.id = f ∧
      present = ((db.applyAll before).flows.get f).isSome := by
  induction ws generalizing db with
  | nil => simp [Database.flowSaves] at h
  | cons w ws ih =>
    rcases List.mem_append.mp h with h | h
    · cases w with
      | saveFlow flow b =>
        obtain ⟨rfl, hrest⟩ := Prod.mk.inj (List.mem_singleton.mp h)
        obtain ⟨rfl, rfl⟩ := Prod.mk.inj hrest
        exact ⟨[], flow, ws, rfl, rfl, rfl⟩
      | _ => cases h
    · obtain ⟨before, flow, after, rfl, hid, hpresent⟩ := ih h
      exact ⟨w :: before, flow, after, rfl, hid, hpresent⟩

theorem flowSaves_eq_nil (h : ∀ w ∈ ws, ¬ w.OnFlows) (db : Database) : db.flowSaves ws = [] := by
  refine List.eq_nil_iff_forall_not_mem.mpr fun ⟨f, basis, present⟩ hmem => ?_
  obtain ⟨before, flow, after, rfl, -⟩ := mem_flowSaves hmem
  exact h (.saveFlow flow basis) (by simp) trivial

theorem isSome_flows_applyAll (h : ∀ f, .deleteFlow f ∉ ws) (hf : (db.flows.get f).isSome = true) :
    ((db.applyAll ws).flows.get f).isSome = true := by
  induction ws generalizing db with
  | nil => exact hf
  | cons w ws ih =>
    refine ih (fun g hg => h g (List.mem_cons_of_mem w hg)) ?_
    cases w with
    | saveFlow flow basis =>
      show ((db.flows.upsert flow).get f).isSome = true
      rw [Lib.Table.get_upsert]
      split
      · rfl
      · exact hf
    | deleteFlow g => exact absurd List.mem_cons_self (h g)
    | _ => exact hf

theorem flowSaves_of_appears
    (hbefore : db.flows.get f = none) (hafter : (db.applyAll ws).flows.get f ≠ none) :
    ∃ basis, (f, basis, false) ∈ db.flowSaves ws := by
  induction ws generalizing db with
  | nil => exact absurd hbefore hafter
  | cons w ws ih =>
    by_cases hnow : (w.apply db).flows.get f = none
    · obtain ⟨basis, hmem⟩ := ih hnow hafter
      exact ⟨basis, List.mem_append_right _ hmem⟩
    · cases w with
      | saveFlow flow basis =>
        refine ⟨basis, List.mem_append_left _ ?_⟩
        by_cases hid : f = flow.id
        · subst hid
          simp [hbefore]
        · exact absurd ((Lib.Table.get_upsert_of_ne _ hid).trans hbefore) hnow
      | deleteFlow g =>
        refine absurd ?_ hnow
        by_cases hg : f = g
        · subst hg
          exact Lib.Table.get_erase_self _ _
        · exact (Lib.Table.get_erase_of_ne _ hg).trans hbefore
      | _ => exact absurd hbefore hnow

/-- A copy in the hands of session `j` is current, and the lock it was read under is
    still held. -/
structure CopyOk (j : SessionId) (w : World) (copy : FlowCopy) : Prop where
  current : copy.version = w.history.version copy.flowId
  locked : copy.locked = true → w.locks (.flow copy.flowId) = some j

/-- The invariant: no committed save was made from an old copy or of a row that was gone,
    and every copy in someone's hands is still good. -/
structure CopyInv (w : World) : Prop where
  saves : ∀ s ∈ w.history.saves,
    s.basis = s.current ∧ (s.present = true ∨ s.byPut = true)
  copies : ∀ j, ∀ copy ∈ w.history.copies j, CopyOk j w copy

structure CopyRely (i : SessionId) (w w' : World) : Prop where
  copies : w'.history.copies i = w.history.copies i
  running : w'.running i = w.running i
  metadata : ∀ copy ∈ w.history.copies i,
    w'.db.metadataOf copy.flowId = w.db.metadataOf copy.flowId

theorem CopyRely.refl (i : SessionId) (w : World) : CopyRely i w w :=
  ⟨rfl, rfl, fun _ _ => rfl⟩

theorem CopyRely.trans {i : SessionId} {w w' w'' : World} (h : CopyRely i w w')
    (h' : CopyRely i w' w'') : CopyRely i w w'' :=
  ⟨h'.copies.trans h.copies, h'.running.trans h.running, fun copy hcopy =>
    (h'.metadata copy (h.copies ▸ hcopy)).trans (h.metadata copy hcopy)⟩

def ChangesGuarded (i : SessionId) (w : World) (l : Session) : Prop :=
  ∀ f, (w.view l).metadataOf f ≠ w.db.metadataOf f →
    ∀ j, j ≠ i → ∀ copy ∈ w.history.copies j, copy.flowId = f →
      copy.locked = true ∧ w.locks (.flow f) = some i

variable (mt : MediaTimestamp) (fc : FlowContract)

def guardedChanges : (service mt fc).Discipline where
  starts _ := True
  calls i c _ w l :=
    match c with
    | .commit => ChangesGuarded i w l
    | _ => True

def copyProtocol : (service mt fc).Protocol where
  discipline := guardedChanges mt fc
  Inv := CopyInv
  Rely := CopyRely
  rely_refl := CopyRely.refl
  rely_trans _ _ _ _ h h' := h.trans h'

variable {mt fc} {i : SessionId}

/-- The copy is in the session's hands, and the row it will overwrite is there unless
    `put_flow` is going to create it. -/
def Backed (i : SessionId) (w : World) (f : FlowId) (version : Nat) : Prop :=
  (∃ copy ∈ w.history.copies i, copy.flowId = f ∧ copy.version = version) ∧
    ((w.db.flows.get f).isSome = true ∨ Op.puts f (w.running i) = true)

theorem Database.isSome_flows {db db' : Database} (h : db'.metadataOf f = db.metadataOf f) :
    (db'.flows.get f).isSome = (db.flows.get f).isSome := by
  simpa [Database.metadataOf] using congrArg Option.isSome h

theorem Backed.rely {w w' : World} {version : Nat} (h : Backed i w f version)
    (hr : CopyRely i w w') : Backed i w' f version := by
  obtain ⟨⟨copy, hcopy, rfl, hversion⟩, hrow⟩ := h
  refine ⟨⟨copy, hr.copies ▸ hcopy, rfl, hversion⟩, ?_⟩
  rwa [Database.isSome_flows (hr.metadata copy hcopy), hr.running]

structure OpenStep (i : SessionId) (w w' : World) (l l' : Session) : Prop where
  flows : w'.db.flows = w.db.flows
  version : w'.history.version = w.history.version
  saves : w'.history.saves = w.history.saves
  running : w'.running = w.running
  others : ∀ j, j ≠ i → w'.history.copies j = w.history.copies j
  own : ∃ new, w'.history.copies i = w.history.copies i ++ new ∧
    ∀ copy ∈ new, CopyOk i w' copy
  locks : ∀ k j, w.locks k = some j → w'.locks k = some j
  tx : l'.inTransaction = l.inTransaction
  writes : ∃ ws, l'.writes = l.writes ++ ws ∧ ∀ x ∈ ws, ¬ x.OnFlows

namespace OpenStep

variable {w w' : World} {l l' : Session}

theorem of_locks {locks : Lock → Option SessionId}
    (h : ∀ k j, w.locks k = some j → locks k = some j) : OpenStep i w { w with locks } l l :=
  ⟨rfl, rfl, rfl, rfl, fun _ _ => rfl, ⟨[], by simp⟩, h, rfl, ⟨[], by simp⟩⟩

theorem notes {history : History} (h : Notes i w history) :
    OpenStep i w { w with history } l l where
  flows := rfl
  version := h.version
  saves := h.saves
  running := rfl
  others j hj := (h.others j hj).1
  own := by
    obtain ⟨new, hnew, hok⟩ := h.own
    refine ⟨new, hnew, fun copy hcopy => ⟨?_, (hok copy hcopy).2⟩⟩
    exact (hok copy hcopy).1.trans (congrFun h.version copy.flowId).symm
  locks _ _ h := h
  tx := rfl
  writes := ⟨[], by simp⟩

theorem submit {ws : List Write} (hws : ∀ x ∈ ws, ¬ x.OnFlows)
    (h : w.submit i ws l = (w', l')) : OpenStep i w w' l l' := by
  unfold World.submit at h
  split at h
  · cases h
    exact ⟨rfl, rfl, rfl, rfl, fun _ _ => rfl, ⟨[], by simp⟩, fun _ _ h => h, rfl, ws, rfl, hws⟩
  · cases h
    have hflows : (w.db.applyAll ws).flows = w.db.flows := flows_applyAll hws w.db
    refine ⟨hflows, ?_, ?_, rfl, fun _ _ => rfl, ⟨[], by simp [World.commit]⟩, fun _ _ h => h,
      rfl, ⟨[], by simp⟩⟩
    · funext f
      exact if_pos (by simp only [Database.metadataOf, hflows])
    · simp [World.commit, flowSaves_eq_nil hws]

theorem inv (h : OpenStep i w w' l l') (hi : CopyInv w) : CopyInv w' where
  saves := h.saves ▸ hi.saves
  copies j copy hcopy := by
    have hkeep : ∀ copy ∈ w.history.copies j, CopyOk j w' copy := fun copy hcopy =>
      ⟨h.version ▸ (hi.copies j copy hcopy).current,
        fun hlocked => h.locks _ _ ((hi.copies j copy hcopy).locked hlocked)⟩
    by_cases hj : j = i
    · subst hj
      obtain ⟨new, hnew, hok⟩ := h.own
      rw [hnew] at hcopy
      exact (List.mem_append.mp hcopy).elim (hkeep copy) (hok copy)
    · exact hkeep copy (h.others j hj ▸ hcopy)

theorem metadata (h : OpenStep i w w' l l') (f : FlowId) :
    w'.db.metadataOf f = w.db.metadataOf f := by
  simp only [Database.metadataOf, h.flows]

theorem rely (h : OpenStep i w w' l l') {j : SessionId} (hj : j ≠ i) : CopyRely j w w' :=
  ⟨h.others j hj, congrFun h.running j, fun copy _ => h.metadata copy.flowId⟩

theorem backed (h : OpenStep i w w' l l') {f : FlowId} {version : Nat}
    (hb : Backed i w f version) : Backed i w' f version := by
  obtain ⟨⟨copy, hcopy, hid, hversion⟩, hrow⟩ := hb
  obtain ⟨new, hnew, -⟩ := h.own
  refine ⟨⟨copy, hnew ▸ List.mem_append_left new hcopy, hid, hversion⟩, ?_⟩
  rwa [h.flows, h.running]

end OpenStep

theorem Call.Open.submits {c : Call} (hc : c.Open) {ws : List Write} (h : c.Submits ws) :
    ∀ x ∈ ws, ¬ x.OnFlows := by
  intro x hx
  cases c with
  | begin => exact hc.elim
  | commit => exact hc.elim
  | rollback => exact hc.elim
  | write wr =>
    obtain rfl : ws = [wr] := h
    obtain rfl := List.mem_singleton.mp hx
    cases x <;> first | exact hc.elim | exact id
  | createProfile profile =>
    rcases h with rfl | rfl
    · cases hx
    · obtain rfl := List.mem_singleton.mp hx
      exact id
  | deleteProfile p =>
    rcases h with rfl | rfl
    · cases hx
    · obtain rfl := List.mem_singleton.mp hx
      exact id
  | deleteSegmentBatch filter limit =>
    obtain ⟨row, rfl⟩ := h x hx
    exact id
  | createObjects objects =>
    obtain ⟨o, -, rfl⟩ := h x hx
    exact id
  | _ =>
    obtain rfl : ws = [] := h
    cases hx

theorem exec_open {ch : Choice} {c : Call} (hc : c.Open) {w w' : World} {l l' : Session}
    {r : c.Resp} (h : exec mt i ch c w l = some (r, w', l')) : OpenStep i w w' l l' := by
  cases exec_moves h with
  | begin => exact hc.elim
  | commit => exact hc.elim
  | rollback => exact hc.elim
  | locks _ hlocks => exact .of_locks hlocks
  | submits hws hsub => exact .submit (hc.submits hws) hsub
  | notes _ hnotes => exact .notes hnotes

def Session.Clean (l : Session) : Prop := ∀ x ∈ l.writes, ¬ x.OnFlows

def SavesBacked (i : SessionId) (w : World) (l : Session) : Prop :=
  ∀ before flow basis after, l.writes = before ++ .saveFlow flow basis :: after →
    Backed i w flow.id basis ∧ ∀ f, .deleteFlow f ∉ before

theorem Session.Clean.savesBacked {w : World} {l : Session} (h : l.Clean) : SavesBacked i w l :=
  fun before flow basis after hw => absurd trivial (h (.saveFlow flow basis) (by simp [hw]))

variable {j : SessionId}

theorem locks_release {w : World} (hj : j ≠ i) {k : Lock}
    (h : w.locks k = some j) : (w.release i).locks k = some j := by
  show (if w.locks k = some i then none else w.locks k) = some j
  rw [if_neg (by rw [h]; simpa using hj), h]

theorem CopyInv.release {w : World} (h : CopyInv w) (i : SessionId) :
    CopyInv (w.release i) where
  saves := h.saves
  copies j copy hcopy := by
    by_cases hj : j = i
    · subst hj
      simp [World.release] at hcopy
    · have hcopy : copy ∈ w.history.copies j := by
        simpa [World.release, hj] using hcopy
      exact ⟨(h.copies j copy hcopy).current,
        fun hlocked => locks_release hj ((h.copies j copy hcopy).locked hlocked)⟩

theorem CopyRely.release (w : World) (hj : j ≠ i) : CopyRely j w (w.release i) :=
  ⟨Function.update_of_ne hj _ _, rfl, fun _ _ => rfl⟩

theorem ChangesGuarded.metadata {w : World} {l : Session} (hg : ChangesGuarded i w l)
    (hi : CopyInv w) (hj : j ≠ i) {copy : FlowCopy} (hcopy : copy ∈ w.history.copies j) :
    (w.db.applyAll l.writes).metadataOf copy.flowId = w.db.metadataOf copy.flowId := by
  by_contra hne
  obtain ⟨hlocked, hours⟩ := hg copy.flowId hne j hj copy hcopy rfl
  have htheirs := (hi.copies j copy hcopy).locked hlocked
  rw [hours, Option.some.injEq] at htheirs
  exact hj htheirs.symm

theorem CopyInv.commit {w : World} {l : Session} (h : CopyInv w) (hs : SavesBacked i w l)
    (hg : ChangesGuarded i w l) : CopyInv ((w.commit i l.writes).release i) where
  saves s hmem := by
    rcases List.mem_append.mp hmem with hold | hnew
    · exact h.saves s hold
    · obtain ⟨⟨f, basis, present⟩, hsave, rfl⟩ := List.mem_map.mp hnew
      obtain ⟨before, flow, after, hw, rfl, hpresent⟩ := mem_flowSaves hsave
      obtain ⟨⟨⟨copy, hcopy, hid, hversion⟩, hrow⟩, hdel⟩ := hs before flow basis after hw
      refine ⟨?_, hrow.imp_left fun hsome => ?_⟩
      · rw [← hversion, (h.copies i copy hcopy).current, hid]
      · exact hpresent.trans (isSome_flows_applyAll hdel hsome)
  copies j copy hcopy := by
    by_cases hj : j = i
    · subst hj
      simp [World.release] at hcopy
    · have hcopy : copy ∈ w.history.copies j := by
        simpa [World.release, World.commit, hj] using hcopy
      refine ⟨?_, fun hlocked => ?_⟩
      · rw [(h.copies j copy hcopy).current]
        exact (if_pos (hg.metadata h hj hcopy)).symm
      · exact locks_release (w := w.commit i l.writes) hj
          ((h.copies j copy hcopy).locked hlocked)

theorem CopyRely.commit {w : World} {l : Session} (h : CopyInv w)
    (hg : ChangesGuarded i w l) (hj : j ≠ i) : CopyRely j w ((w.commit i l.writes).release i) :=
  ⟨Function.update_of_ne hj _ _, rfl, fun _ hcopy => hg.metadata h hj hcopy⟩

abbrev WorldAssertion := World → Session → Prop

variable (mt fc) in
def CopySpec {α : Type} (i : SessionId) (A : WorldAssertion) (p : App α)
    (Q : α → WorldAssertion) (E : PyError → Session → Prop) : Prop :=
  Triple (copyProtocol mt fc) i A p Q E

/-- Before anything is saved: the copies `B` are in hand. -/
structure Copied (i : SessionId) (tx : Bool) (B : List (FlowId × Nat)) (w : World)
    (l : Session) : Prop where
  tx : l.inTransaction = tx
  clean : l.Clean
  backed : ∀ b ∈ B, Backed i w b.1 b.2

/-- While the copies `B` are being saved. -/
structure Saving (i : SessionId) (B : List (FlowId × Nat)) (w : World) (l : Session) :
    Prop where
  tx : l.inTransaction = true
  saved : SavesBacked i w l
  undeleted : ∀ f, .deleteFlow f ∉ l.writes
  backed : ∀ b ∈ B, Backed i w b.1 b.2

structure Saved (i : SessionId) (w : World) (l : Session) : Prop where
  tx : l.inTransaction = true
  saved : SavesBacked i w l

def Outside (l : Session) : Prop := l.inTransaction = false ∧ l.Clean

theorem Copied.saving {B : List (FlowId × Nat)} {w : World} {l : Session}
    (h : Copied i true B w l) : Saving i B w l :=
  ⟨h.tx, h.clean.savesBacked, fun _ hf => h.clean _ hf trivial, h.backed⟩

theorem Saving.done {B : List (FlowId × Nat)} {w : World} {l : Session}
    (h : Saving i B w l) : Saved i w l := ⟨h.tx, h.saved⟩

/-- An assertion that the moves of the others and the session's own open calls keep. -/
structure OpenStable (i : SessionId) (A : WorldAssertion) : Prop where
  rely : ∀ w w' l, A w l → CopyRely i w w' → A w' l
  step : ∀ w w' l l', A w l → OpenStep i w w' l l' → A w' l'

theorem Session.Clean.openStep {w w' : World} {l l' : Session} (h : l.Clean)
    (hs : OpenStep i w w' l l') : l'.Clean := by
  obtain ⟨ws, hw, hclean⟩ := hs.writes
  intro x hx
  rw [hw] at hx
  exact (List.mem_append.mp hx).elim (h x) (hclean x)

theorem OpenStable.clean : OpenStable i (fun _ l => l.Clean) :=
  ⟨fun _ _ _ h _ => h, fun _ _ _ _ h hs => h.openStep hs⟩

theorem OpenStable.and {A A' : WorldAssertion} (h : OpenStable i A) (h' : OpenStable i A') :
    OpenStable i (fun w l => A w l ∧ A' w l) :=
  ⟨fun w w' l hw hr => ⟨h.rely w w' l hw.1 hr, h'.rely w w' l hw.2 hr⟩,
    fun w w' l l' hw hs => ⟨h.step w w' l l' hw.1 hs, h'.step w w' l l' hw.2 hs⟩⟩

theorem OpenStable.running (P : Option Op → Prop) : OpenStable i (fun w _ => P (w.running i)) :=
  ⟨fun _ _ _ h hr => by rwa [hr.running], fun _ _ _ _ h hs => by rwa [hs.running]⟩

theorem OpenStable.copied (tx : Bool) (B : List (FlowId × Nat)) : OpenStable i (Copied i tx B) :=
  ⟨fun _ _ _ h hr => ⟨h.tx, h.clean, fun b hb => (h.backed b hb).rely hr⟩,
    fun _ _ _ _ h hs => ⟨hs.tx.trans h.tx, h.clean.openStep hs,
      fun b hb => hs.backed (h.backed b hb)⟩⟩

theorem SavesBacked.openStep {w w' : World} {l l' : Session} (h : SavesBacked i w l)
    (hs : OpenStep i w w' l l') : SavesBacked i w' l' := by
  obtain ⟨ws, hw, hclean⟩ := hs.writes
  intro before flow basis after heq
  rw [hw, List.append_eq_append_iff] at heq
  rcases heq with ⟨rest, rfl, hrest⟩ | ⟨rest, hbefore, hafter⟩
  · exact absurd trivial (hclean (.saveFlow flow basis) (by simp [hrest]))
  · cases rest with
    | nil =>
      rw [List.nil_append] at hafter
      exact absurd trivial (hclean (.saveFlow flow basis) (by simp [← hafter]))
    | cons x rest =>
      obtain ⟨rfl, -⟩ := List.cons.inj hafter
      obtain ⟨hb, hdel⟩ := h before flow basis rest hbefore
      exact ⟨hs.backed hb, hdel⟩

theorem OpenStable.saving (B : List (FlowId × Nat)) : OpenStable i (Saving i B) where
  rely _ _ _ h hr := ⟨h.tx, fun before flow basis after hw =>
    (h.saved before flow basis after hw).imp_left (·.rely hr), h.undeleted,
    fun b hb => (h.backed b hb).rely hr⟩
  step _ _ _ _ h hs := by
    refine ⟨hs.tx.trans h.tx, h.saved.openStep hs, fun f hf => ?_,
      fun b hb => hs.backed (h.backed b hb)⟩
    obtain ⟨ws, hw, hclean⟩ := hs.writes
    rw [hw] at hf
    exact (List.mem_append.mp hf).elim (h.undeleted f) (fun hf => hclean _ hf trivial)

theorem OpenStable.saved : OpenStable i (Saved i) :=
  ⟨fun _ _ _ h hr => ⟨h.tx, fun before flow basis after hw =>
    (h.saved before flow basis after hw).imp_left (·.rely hr)⟩,
    fun _ _ _ _ h hs => ⟨hs.tx.trans h.tx, h.saved.openStep hs⟩⟩

namespace CopySpec

variable {A : WorldAssertion} {E : PyError → Session → Prop} {α β : Type}
variable {B : List (FlowId × Nat)} {tx : Bool}

theorem statement {c : Call} {Q : c.Resp → WorldAssertion}
    (hA : ∀ w w' l, A w l → CopyRely i w w' → A w' l)
    (hQ : ∀ r w w' l, Q r w l → CopyRely i w w' → Q r w' l)
    (h : ∀ (w : World) (l : Session), CopyInv w → A w l →
      ∀ ch r w' l', exec mt i ch c w l = some (r, w', l') →
      (guardedChanges mt fc).calls i c r w l →
      CopyInv w' ∧ (∀ j, j ≠ i → CopyRely j w w') ∧ Q r w' l') : CopySpec mt fc i A (call c) Q E :=
  Triple.call (fun w w' l hw hr _ => hA w w' l hw hr)
    (fun r w w' l hw hr _ => hQ r w w' l hw hr) (fun _ _ _ _ => trivial) h

variable {p : App α}

theorem bind {k : α → App β} {R : α → WorldAssertion} {Q : β → WorldAssertion}
    (hp : CopySpec mt fc i A p R E) (hk : ∀ a, CopySpec mt fc i (R a) (k a) Q E) :
    CopySpec mt fc i A (p >>= k) Q E :=
  Triple.bind hp hk

variable {Q : α → WorldAssertion}

theorem pre {R : WorldAssertion} (hp : CopySpec mt fc i R p Q E) (h : ∀ w l, A w l → R w l) :
    CopySpec mt fc i A p Q E :=
  Triple.pre hp fun w l _ => h w l

theorem conseq {Q Q' : α → WorldAssertion} {E' : PyError → Session → Prop}
    (hp : CopySpec mt fc i A p Q' E') (hQ : ∀ a w l, Q' a w l → Q a w l)
    (hE : ∀ e l, E' e l → E e l) : CopySpec mt fc i A p Q E :=
  Triple.conseq hp (fun _ _ _ h => h) (fun a w l _ => hQ a w l) hE

theorem post {Q Q' : α → WorldAssertion} (hp : CopySpec mt fc i A p Q' E)
    (hQ : ∀ a w l, Q' a w l → Q a w l) : CopySpec mt fc i A p Q E :=
  hp.conseq hQ fun _ _ h => h

theorem assume {φ : Prop}
    (hp : φ → CopySpec mt fc i A p Q E) : CopySpec mt fc i (fun w l => φ ∧ A w l) p Q E :=
  Triple.assume hp

theorem pure (hA : OpenStable i A) {a : α}
    (h : ∀ w l, A w l → Q a w l) : CopySpec mt fc i A (Pure.pure a) Q E :=
  Triple.pure (fun w w' l h hr _ => hA.rely w w' l h hr) fun w l _ => h w l

theorem throw {e : PyError} (hE : ∀ w l, A w l → E e l) :
    CopySpec mt fc i A (MonadExcept.throw e) Q E :=
  Triple.throw hE

theorem of_only {P : Call → Prop} (hA : ∀ w w' l, A w l → CopyRely i w w' → A w' l)
    (hE : ∀ e w l, A w l → E e l) (hcall : ∀ c, P c → CopySpec mt fc i A (call c) (fun _ => A) E)
    (hp : Lib.Only P p) : CopySpec mt fc i A p (fun _ => A) E :=
  Triple.of_only (fun w w' l h hr _ => hA w w' l h hr) hE hcall hp

theorem opens (hA : OpenStable i A) (hE : ∀ e w l, A w l → E e l)
    (hp : Lib.Only Call.Open p) : CopySpec mt fc i A p (fun _ => A) E := by
  refine of_only hA.rely hE (fun c hc => ?_) hp
  refine statement hA.rely (fun _ => hA.rely) ?_
  intro w l hi hAw ch r w' l' he _
  have hs := exec_open hc he
  exact ⟨hs.inv hi, fun j hj => hs.rely hj, hA.step w w' l l' hAw hs⟩

theorem commit : CopySpec mt fc i (fun w l => SavesBacked i w l) (call .commit)
    (fun _ _ l => Outside l) E := by
  refine statement (fun w w' l h hr before flow basis after hw =>
    (h before flow basis after hw).imp_left (·.rely hr)) (fun _ _ _ _ h _ => h) ?_
  intro w l hi hs ch r w' l' he hg
  cases he
  exact ⟨hi.commit hs hg, fun j hj => CopyRely.commit hi hg hj, rfl, by simp [Session.Clean, Session.idle]⟩

theorem rollback : CopySpec mt fc i Always (call .rollback) (fun _ _ l => Outside l) E := by
  refine statement (fun _ _ _ h _ => h) (fun _ _ _ _ h _ => h) ?_
  intro w l hi _ ch r w' l' he _
  cases he
  exact ⟨hi.release i, fun j hj => CopyRely.release w hj, rfl, by simp [Session.Clean, Session.idle]⟩

variable {A' : WorldAssertion}

theorem begin (hA : OpenStable i A) (hA' : OpenStable i A')
    (h : ∀ w l, A w l → A' w { l with inTransaction := true }) :
    CopySpec mt fc i A (call .begin) (fun _ => A') E := by
  refine statement hA.rely (fun _ => hA'.rely) ?_
  intro w l hi hAw ch r w' l' he _
  cases he
  exact ⟨hi, fun j _ => CopyRely.refl j w, h w l hAw⟩

theorem keeps (hp : Lib.Only Call.KeepsFlows p) :
    CopySpec mt fc i (fun _ l => l.Clean) p (fun _ _ l => l.Clean) (fun _ l => l.Clean) := by
  refine of_only OpenStable.clean.rely (fun _ _ _ h => h) (fun c hc => ?_) hp
  have hopen : c.Open → CopySpec mt fc i (fun _ l => l.Clean) (call c) (fun _ _ l => l.Clean)
      (fun _ l => l.Clean) := fun h =>
    opens OpenStable.clean (fun _ _ _ h => h) (only_call h)
  cases c with
  | begin => exact begin OpenStable.clean OpenStable.clean fun _ _ h => h
  | commit => exact (commit.pre fun w l h => h.savesBacked).post fun _ _ _ h => h.2
  | rollback => exact (rollback.pre fun _ _ _ => trivial).post fun _ _ _ h => h.2
  | write w => exact hopen (by cases w <;> first | exact hc.elim | trivial)
  | _ => exact hopen trivial

variable {body : App α}

/-- **Transactions.** A body that saves good copies only may be run as a unit of work. -/
theorem unitOfWork (hA : OpenStable i A)
    (hA' : OpenStable i A') (h : ∀ w l, A w l → A' w { l with inTransaction := true })
    (hbody : CopySpec mt fc i A' body (fun _ => Saved i) Always) :
    CopySpec mt fc i A (unitOfWork body) (fun _ _ l => Outside l) (fun _ => Outside) := by
  rw [unitOfWork_eq]
  refine Triple.bind (begin hA hA' h) fun _ => Triple.attempt hbody (fun a => ?_) (fun e => ?_)
  · exact Triple.bind (commit.pre fun w l h => h.saved) fun _ =>
      Triple.pure (fun _ _ _ h _ _ => h) fun _ _ _ h => h
  · exact Triple.bind (rollback.pre fun _ _ _ => trivial) fun _ => Triple.throw fun _ _ h => h

theorem copies_noteCopies {w : World} {flows : List FlowId} {f : FlowId} (hf : f ∈ flows) :
    ∃ copy ∈ (w.noteCopies i flows).history.copies i,
      copy.flowId = f ∧ copy.version = w.history.version f := by
  refine ⟨⟨f, w.history.version f, w.locks (.flow f) = some i⟩, ?_, rfl, rfl⟩
  simp only [World.noteCopies, Function.update_self, List.mem_append, List.mem_map]
  exact .inr ⟨f, hf, rfl⟩

theorem getFlow (f : FlowId) (put : Bool) : CopySpec mt fc i
      (fun w l => (put = true → Op.puts f (w.running i) = true) ∧ Copied i tx B w l)
      (call (.getFlow f true)) (fun r w l => (∀ flow, r.flow = some flow → flow.id = f) ∧
        (put = true ∨ r.flow.isSome = true → Copied i tx ((f, r.version) :: B) w l) ∧
        Copied i tx B w l) E := by
  refine statement (fun w w' l h hr => ⟨by rw [hr.running]; exact h.1,
    (OpenStable.copied tx B).rely w w' l h.2 hr⟩) (fun r w w' l h hr => ⟨h.1,
    fun hput => (OpenStable.copied tx _).rely w w' l (h.2.1 hput) hr,
    (OpenStable.copied tx B).rely w w' l h.2.2 hr⟩) ?_
  intro w l hi ⟨hput, h⟩ ch r w' l' he _
  have hs := exec_open (c := .getFlow f true) trivial he
  have hcopied := (OpenStable.copied tx B).step w w' l l' h hs
  cases he
  have hview : (w.view l).flows = w.db.flows := flows_applyAll h.clean w.db
  refine ⟨hs.inv hi, fun j hj => hs.rely hj, fun flow hflow => ?_, fun hrow => ?_, hcopied⟩
  · exact (Lib.Table.get_eq_some.mp hflow).2
  · refine ⟨h.tx, h.clean, List.forall_mem_cons.mpr ⟨⟨?_, ?_⟩, hcopied.backed⟩⟩
    · exact copies_noteCopies List.mem_cons_self
    · rw [hview] at hrow
      exact hrow.symm.imp_right hput

theorem listFlowsCollecting (f : FlowId) :
    CopySpec mt fc i (Copied i tx B) (call (.listFlowsCollecting f))
      (fun parents => Copied i tx (parents.map fun p => (p.1.id, p.2))) E := by
  refine statement (OpenStable.copied tx B).rely (fun _ => (OpenStable.copied tx _).rely) ?_
  intro w l hi h ch r w' l' he _
  have hs := exec_open (c := .listFlowsCollecting f) trivial he
  cases he
  have hview : (w.view l).flows = w.db.flows := flows_applyAll h.clean w.db
  refine ⟨hs.inv hi, fun j hj => hs.rely hj, h.tx, h.clean, fun b hb => ?_⟩
  simp only [List.map_map, List.mem_map] at hb
  obtain ⟨parent, hmem, rfl⟩ := hb
  refine And.intro (copies_noteCopies (List.mem_map_of_mem hmem)) (.inl ?_)
  · have hrow := (List.mem_filter.mp ((List.perm_insertionSort _ _).mem_iff.mp hmem)).1
    rw [hview] at hrow
    exact Option.isSome_iff_exists.mpr ⟨parent, Lib.Table.get_eq_some.mpr ⟨hrow, rfl⟩⟩

theorem submitFlow {wr : Write} {Q : Unit → WorldAssertion} (hQ : ∀ r, OpenStable i (Q r))
    (h : ∀ w l, Saving i B w l → Q () w { l with writes := l.writes ++ [wr] }) :
    CopySpec mt fc i (Saving i B) (call (.write wr)) Q E := by
  refine statement (OpenStable.saving B).rely (fun r => (hQ r).rely) ?_
  intro w l hi hA ch r w' l' he _
  obtain ⟨-, hsub⟩ := Prod.mk.inj (Option.some.inj he)
  change (if l.inTransaction then _ else _) = (w', l') at hsub
  rw [if_pos hA.tx] at hsub
  cases hsub
  exact ⟨hi, fun j _ => CopyRely.refl j _, h _ _ hA⟩

theorem saveFlow {flow : FlowRecord} {version : Nat} (hmem : (flow.id, version) ∈ B) :
    CopySpec mt fc i (Saving i B) (call (.write (.saveFlow flow version)))
      (fun _ => Saving i B) E := by
  refine submitFlow (fun _ => OpenStable.saving B) fun w l h => ⟨h.tx, ?_, fun f hf => ?_, h.backed⟩
  · intro before flow' basis after heq
    -- the new save is the last one, or the save is an older one
    rcases List.eq_nil_or_concat after with rfl | ⟨after, x, rfl⟩
    · obtain ⟨rfl, hlast⟩ := List.append_inj' heq rfl
      cases hlast
      exact ⟨h.backed _ hmem, h.undeleted⟩
    · rw [List.concat_eq_append, ← List.cons_append, ← List.append_assoc] at heq
      exact h.saved before flow' basis after (List.append_inj' heq rfl).1
  · simpa using h.undeleted f (by simpa using hf)

theorem deleteFlow (f : FlowId) :
    CopySpec mt fc i (Saving i B) (call (.write (.deleteFlow f))) (fun _ => Saved i) E := by
  refine submitFlow (fun _ => OpenStable.saved) fun w l h => ⟨h.tx, ?_⟩
  intro before flow basis after heq
  rcases List.eq_nil_or_concat after with rfl | ⟨after, x, rfl⟩
  · cases (List.append_inj' heq rfl).2
  · rw [List.concat_eq_append, ← List.cons_append, ← List.append_assoc] at heq
    exact h.saved before flow basis after (List.append_inj' heq rfl).1

theorem transaction (hbody : CopySpec mt fc i (Copied i true B) body (fun _ => Saved i) Always) :
    CopySpec mt fc i (Copied i tx B) (Tamoss.unitOfWork body) (fun _ _ l => Outside l)
      (fun _ => Outside) :=
  unitOfWork (.copied tx B) (.copied true B) (fun _ _ h => ⟨rfl, h.clean, h.backed⟩) hbody

end CopySpec

end Tamoss
