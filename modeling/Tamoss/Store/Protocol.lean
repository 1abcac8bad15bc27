/-
  **The locking protocol of the service, and a rule for every statement.**
-/
import Tamoss.Lib.Triple
import Tamoss.Store.Transaction
import Tamoss.Store.Calls

namespace Tamoss

open Lib.Machine

variable (mt : MediaTimestamp) (fc : FlowContract) (noDeletes : Prop)

def DeletesFlow (i : SessionId) (c : Core) (l : Session) : Prop :=
  ∃ r rounds request, c.running i = some (.processDeleteRequest r rounds) ∧
    (c.view l).deleteRequests.get r = some request ∧ request.deleteFlow = true

def BatchCovers (i : SessionId) (filter : SegmentDeleteFilter) (w : World) (l : Session) :
    Prop :=
  DeletesFlow i w.core l →
    ∀ row ∈ (w.view l).segmentsOf filter.flowId, filter.selects row = true

def CommitSpares (i : SessionId) (w : World) (l : Session) : Prop :=
  ∀ j, j ≠ i → ∀ f ∈ w.history.condemned j,
    ∀ row ∈ (w.view l).segmentsOf f, row ∈ w.db.segmentsOf f

def storeDiscipline : (service mt fc).Discipline where
  starts op := noDeletes → ∀ f, op ≠ Op.deleteFlow f
  calls i c _ w l :=
    match c with
    | .deleteSegmentBatch filter _ => noDeletes ∨ BatchCovers i filter w l
    | .commit => noDeletes ∨ CommitSpares i w l
    | .write (.deleteFlow _) => ¬ noDeletes
    | _ => True

structure StoreInv (w : World) : Prop where
  core : w.core.Inv mt
  deletions : ∀ d ∈ w.history.deletions, d.segments = [] ∧ d.listedBy = []
  quiet : noDeletes → ∀ j, w.history.condemned j = [] ∧
    ∀ f, w.running j ≠ some (.deleteFlow f)

def storeProtocol : (service mt fc).Protocol where
  discipline := storeDiscipline mt fc noDeletes
  Inv := StoreInv mt noDeletes
  Rely i w w' := Core.Rely i w.core w'.core
  rely_refl i w := Core.Rely.refl i w.core
  rely_trans _ _ _ _ h h' := h.trans h'

abbrev CoreAssertion := Core → Session → Prop

abbrev AtRest {α : Type} : α → Session → Prop := fun _ l => l = .idle

def CoreAssertion.lift (A : CoreAssertion) : (service mt fc).Assertion :=
  fun w l => A (World.core w) l

def CoreAssertion.Stable (i : SessionId) (A : CoreAssertion) : Prop :=
  ∀ c c' l, A c l → Core.Rely i c c' → c'.Inv mt → A c' l

def Spec {α : Type} (i : SessionId) (A : CoreAssertion) (p : App α)
    (Q : α → CoreAssertion) (E : PyError → Session → Prop) : Prop :=
  Triple (storeProtocol mt fc noDeletes) i (A.lift mt fc) p (fun a => (Q a).lift mt fc) E

variable {mt fc noDeletes} {i : SessionId} {A : CoreAssertion}
variable {E : PyError → Session → Prop}

theorem CoreAssertion.Stable.lift (h : A.Stable mt i) :
    Lib.Machine.Stable (storeProtocol mt fc noDeletes) i (A.lift mt fc) :=
  fun w w' l hA hr hi => h w.core w'.core l hA hr hi.core

theorem CoreAssertion.Stable.and {B : CoreAssertion} (hA : A.Stable mt i)
    (hB : B.Stable mt i) : CoreAssertion.Stable mt i (fun c l => A c l ∧ B c l) :=
  fun c c' l h hr hi => ⟨hA c c' l h.1 hr hi, hB c c' l h.2 hr hi⟩

theorem CoreAssertion.Stable.local (B : Session → Prop) :
    CoreAssertion.Stable mt i (fun _ l => B l) :=
  fun _ _ _ h _ _ => h

theorem TxInv.stable (dirty : FlowId → ObjectId → Prop) :
    CoreAssertion.Stable mt i (TxInv mt i dirty) :=
  fun _ _ _ h hr hi => h.rely hr hi

structure SameCore (w w' : World) : Prop where
  core : w'.core = w.core
  deletions : w'.history.deletions = w.history.deletions

theorem SameCore.refl (w : World) : SameCore w w := ⟨rfl, rfl⟩

variable {w w' : World}

theorem SameCore.inv (h : SameCore w w') (hi : StoreInv mt noDeletes w) :
    StoreInv mt noDeletes w' where
  core := h.core ▸ hi.core
  deletions := h.deletions ▸ hi.deletions
  quiet hq j := by
    have hcon : w'.history.condemned = w.history.condemned := congrArg Core.condemned h.core
    have hrun : w'.running = w.running := congrArg Core.running h.core
    rw [hcon, hrun]
    exact hi.quiet hq j

theorem SameCore.rely (h : SameCore w w') (j : SessionId) :
    Core.Rely j w.core w'.core := h.core ▸ Core.Rely.refl j w.core

theorem exec_read {ch : Choice} {c : Call} (hc : c.IsRead) {l l' : Session}
    {r : c.Resp} (h : exec mt i ch c w l = some (r, w', l')) : SameCore w w' ∧ l' = l := by
  cases c <;> simp only [Call.IsRead] at hc <;>
    simp only [exec, Option.some.injEq, Prod.mk.injEq] at h <;>
    obtain ⟨-, rfl, rfl⟩ := h <;> refine ⟨?_, rfl⟩
  case getFlow f toSave =>
    cases toSave
    · exact .refl w
    · exact ⟨rfl, rfl⟩
  all_goals exact ⟨rfl, rfl⟩

namespace Spec

variable {c : Call} {Q : c.Resp → CoreAssertion}

theorem statement (hA : A.Stable mt i) (hQ : ∀ r, (Q r).Stable mt i)
    (h : ∀ (w : World) (l : Session), StoreInv mt noDeletes w → A w.core l →
      ∀ ch r w' l', exec mt i ch c w l = some (r, w', l') →
      (storeDiscipline mt fc noDeletes).calls i c r w l →
      StoreInv mt noDeletes w' ∧ (∀ j, j ≠ i → Core.Rely j w.core w'.core) ∧
        Q r w'.core l') : Spec mt fc noDeletes i A (call c) Q E :=
  Triple.call hA.lift (fun r => (hQ r).lift) (fun _ _ _ _ => trivial) h

theorem forM {α : Type} {xs : List α} {f : α → App PUnit} (I : List α → CoreAssertion)
    (hst : ∀ done, (I done).Stable mt i) (hf : ∀ done x rest, xs = done ++ x :: rest →
      Spec mt fc noDeletes i (I done) (f x) (fun _ => I (done ++ [x])) E) :
    Spec mt fc noDeletes i (I []) (xs.forM f) (fun _ => I xs) E :=
  Triple.forM (fun done => (hst done).lift) hf

theorem read (hc : c.IsRead) (hA : A.Stable mt i) (hQ : ∀ r, (Q r).Stable mt i)
    (h : ∀ ch w l r w' l', w.core.Inv mt → A w.core l →
      exec mt i ch c w l = some (r, w', l') → Q r w.core l) :
    Spec mt fc noDeletes i A (call c) Q E := by
  refine statement hA hQ ?_
  intro w l hi hAw ch r w' l' he _
  obtain ⟨hsame, rfl⟩ := exec_read hc he
  refine ⟨hsame.inv hi, fun j _ => hsame.rely j, ?_⟩
  show Q r w'.core l'
  rw [hsame.core]
  exact h ch w l' r w' l' hi.core hAw he

theorem read' (hc : c.IsRead) (hA : A.Stable mt i) :
    Spec mt fc noDeletes i A (call c) (fun _ => A) E :=
  read hc hA (fun _ => hA) fun _ _ _ _ _ _ _ h _ => h

end Spec

/-! ## Frames

What an operation remembers about the database has to survive the locks it takes and
the writes it makes to other tables. -/

def Write.Neutral : Write → Prop
  | .saveFlow _ _ | .saveSource _ | .deleteSource _ | .saveProfile _ | .deleteProfile _
  | .saveObjectCleanup _ | .saveObjectCopy _ | .saveDeleteRequest _ => True
  | _ => False

def Write.Side (w : Write) : Prop := w.Neutral ∧ ∀ request, w ≠ .saveDeleteRequest request

variable {w : Write}

theorem Write.Neutral.not_touchesFlow (h : w.Neutral) (f : FlowId) : ¬ w.TouchesFlow f := by
  cases w <;> simp_all [Write.Neutral, Write.TouchesFlow]

theorem Write.Neutral.not_touchesObject (h : w.Neutral) (o : ObjectId) : ¬ w.TouchesObject o := by
  cases w <;> simp_all [Write.Neutral, Write.TouchesObject]

variable {ws : List Write}

theorem segmentsOf_applyAll_neutral (h : ∀ w ∈ ws, w.Neutral)
    (db : Database) (f : FlowId) : (db.applyAll ws).segmentsOf f = db.segmentsOf f := by
  rw [segmentsOf_applyAll]
  exact rowsAfter_eq_self Core.segmentsOf_flowId fun w hw ht =>
    absurd ht ((h w hw).not_touchesFlow f)

theorem objects_get_applyAll_neutral (h : ∀ w ∈ ws, w.Neutral)
    (db : Database) (o : ObjectId) : (db.applyAll ws).objects.get o = db.objects.get o := by
  rw [objects_get_applyAll]
  exact objectAfter_of_not_touches (fun w hw => (h w hw).not_touchesObject o) _

variable (mt i) in
structure Frame (F : CoreAssertion) : Prop where
  stable : F.Stable mt i
  lock : ∀ c l locks, F c l → (∀ k, c.Holds i k → locks k = some i) → F { c with locks } l
  push : ∀ c l ws, F c l → (∀ w ∈ ws, w.Side) → F c (l.push ws)

namespace Frame

variable {F G : CoreAssertion}

theorem true : Frame mt i Always :=
  ⟨fun _ _ _ _ _ _ => trivial, fun _ _ _ _ _ => trivial, fun _ _ _ _ _ => trivial⟩

theorem and (hF : Frame mt i F) (hG : Frame mt i G) :
    Frame mt i (fun c l => F c l ∧ G c l) where
  stable := hF.stable.and hG.stable
  lock c l locks h hm := ⟨hF.lock c l locks h.1 hm, hG.lock c l locks h.2 hm⟩
  push c l ws h hws := ⟨hF.push c l ws h.1 hws, hG.push c l ws h.2 hws⟩

theorem or (hF : Frame mt i F) (hG : Frame mt i G) :
    Frame mt i (fun c l => F c l ∨ G c l) where
  stable := fun c c' l h hr hi => h.imp (hF.stable c c' l · hr hi) (hG.stable c c' l · hr hi)
  lock c l locks h hm := h.imp (hF.lock c l locks · hm) (hG.lock c l locks · hm)
  push c l ws h hws := h.imp (hF.push c l ws · hws) (hG.push c l ws · hws)

theorem forall_of {γ : Type} {F : γ → CoreAssertion} (h : ∀ x, Frame mt i (F x)) :
    Frame mt i (fun c l => ∀ x, F x c l) where
  stable := fun c c' l hF hr hi x => (h x).stable c c' l (hF x) hr hi
  lock c l locks hF hm x := (h x).lock c l locks (hF x) hm
  push c l ws hF hws x := (h x).push c l ws (hF x) hws

theorem imp {φ : Prop} (h : φ → Frame mt i F) : Frame mt i (fun c l => φ → F c l) where
  stable := fun c c' l hF hr hi hφ => (h hφ).stable c c' l (hF hφ) hr hi
  lock c l locks hF hm hφ := (h hφ).lock c l locks (hF hφ) hm
  push c l ws hF hws hφ := (h hφ).push c l ws (hF hφ) hws

theorem holds (k : Lock) : Frame mt i (fun c _ => c.Holds i k) where
  stable := fun _ _ _ h hr _ => (hr.locks k).mpr h
  lock _ _ _ h hm := hm k h
  push _ _ _ h _ := h

theorem rows (f : FlowId) (P : List SegmentRow → Prop) :
    Frame mt i (fun c l => c.Holds i (.flow f) ∧ P ((c.view l).segmentsOf f)) where
  stable := fun c c' l h hr _ => ⟨(hr.locks _).mpr h.1, (hr.view_rows h.1).symm ▸ h.2⟩
  lock _ _ _ h hm := ⟨hm _ h.1, h.2⟩
  push c l ws h hws := by
    refine ⟨h.1, ?_⟩
    rw [Core.view_push, segmentsOf_applyAll_neutral fun w hw => (hws w hw).1]
    exact h.2

theorem object (o : ObjectId) (P : Option MediaObjectRecord → Prop) :
    Frame mt i (fun c l => c.Holds i (.object o) ∧ P ((c.view l).objects.get o)) where
  stable := fun c c' l h hr _ => ⟨(hr.locks _).mpr h.1, (hr.view_object h.1).symm ▸ h.2⟩
  lock _ _ _ h hm := ⟨hm _ h.1, h.2⟩
  push c l ws h hws := by
    refine ⟨h.1, ?_⟩
    rw [Core.view_push, objects_get_applyAll_neutral fun w hw => (hws w hw).1]
    exact h.2

theorem running (P : Option Op → List FlowId → Prop) :
    Frame mt i (fun c _ => P (c.running i) (c.condemned i)) where
  stable := fun c c' l h hr _ => by
    show P (c'.running i) (c'.condemned i)
    rw [hr.running, hr.condemned]
    exact h
  lock _ _ _ h _ := h
  push _ _ _ h _ := h

theorem writes {P : Write → Prop} (hP : ∀ w, w.Side → P w) :
    Frame mt i (fun _ l => ∀ w ∈ l.writes, P w) where
  stable := CoreAssertion.Stable.local _
  lock _ _ _ h _ := h
  push c l ws h hws w hw := by
    rcases List.mem_append.mp hw with hw | hw
    · exact h w hw
    · exact hP w (hws w hw)

end Frame

variable (mt i) in
def InTx (dirty : FlowId → ObjectId → Prop) (F : CoreAssertion) : CoreAssertion :=
  fun c l => TxInv mt i dirty c l ∧ F c l

variable (mt fc noDeletes i) in
abbrev TxOk {α : Type} (dirty : FlowId → ObjectId → Prop) (F : CoreAssertion) (p : App α) : Prop :=
  Spec mt fc noDeletes i (InTx mt i dirty F) p (fun _ => InTx mt i clean Always) Always

variable {dirty : FlowId → ObjectId → Prop} {F : CoreAssertion}

theorem InTx.stable (hF : Frame mt i F) : (InTx mt i dirty F).Stable mt i :=
  CoreAssertion.Stable.and (TxInv.stable dirty) hF.stable

variable {w w' : World}

theorem acquire_eq_some {k : Lock} {l : Session}
    (h : w.acquire i k l = some w') (htx : l.inTransaction = true) :
    ∃ locks, w' = { w with locks } ∧ locks k = some i ∧
      (∀ k', w.core.Holds i k' → locks k' = some i) ∧
      ∀ j, j ≠ i → ∀ k', locks k' = some j ↔ w.locks k' = some j := by
  unfold World.acquire at h
  split at h
  · rename_i hnone
    rw [if_pos htx, Option.some.injEq] at h
    refine ⟨_, h.symm, by simp, fun k' hk' => ?_, fun j hj k' => ?_⟩
    · by_cases hk : k' = k
      · simp [hk]
      · rw [Function.update_of_ne hk]
        exact hk'
    · by_cases hk : k' = k
      · subst hk
        simp [hnone, Ne.symm hj]
      · rw [Function.update_of_ne hk]
  · rename_i j hsome
    split at h
    · rename_i hji
      rw [Option.some.injEq] at h
      exact ⟨w.locks, h.symm, hji ▸ hsome, fun _ h => h, fun _ _ _ => Iff.rfl⟩
    · cases h

theorem Core.Rely.of_locks {w : World} {locks : Lock → Option SessionId} {j : SessionId}
    (h : ∀ k, locks k = some j ↔ w.locks k = some j) :
    Core.Rely j w.core ({ w with locks } : World).core :=
  ⟨h, fun _ _ => rfl, fun _ _ => rfl, rfl, rfl⟩

theorem StoreInv.of_locks {w : World} (h : StoreInv mt noDeletes w)
    (locks : Lock → Option SessionId) : StoreInv mt noDeletes { w with locks } :=
  ⟨⟨h.core.consistent, h.core.condemned⟩, h.deletions, h.quiet⟩

theorem exec_submit {l l' : Session} {ws : List Write}
    (h : w.submit i ws l = (w', l')) (htx : l.inTransaction = true) : w' = w ∧ l' = l.push ws := by
  unfold World.submit at h
  rw [if_pos htx, Prod.mk.injEq] at h
  exact ⟨h.1.symm, h.2.symm⟩

namespace Spec

theorem lock {c : Call} {k : Lock} (hF : Frame mt i F)
    (hexec : ∀ ch w l r w' l', exec mt i ch c w l = some (r, w', l') →
      w.acquire i k l = some w' ∧ l' = l) : Spec mt fc noDeletes i (InTx mt i dirty F) (call c)
      (fun _ => InTx mt i dirty (fun c l => F c l ∧ c.Holds i k)) E := by
  refine statement (InTx.stable hF) (fun _ => InTx.stable (hF.and (.holds k))) ?_
  intro w l hi hA ch r w' l' he _
  obtain ⟨hacq, rfl⟩ := hexec ch w l r w' l' he
  obtain ⟨locks, rfl, hk, hmono, hothers⟩ := acquire_eq_some hacq hA.1.inTransaction
  refine ⟨hi.of_locks locks, fun j hj => Core.Rely.of_locks (hothers j hj), ?_⟩
  exact ⟨hA.1.lock hi.core hmono, hF.lock _ _ _ hA.2 hmono, hk⟩

theorem lockFlow (hF : Frame mt i F) (f : FlowId) :
    Spec mt fc noDeletes i (InTx mt i dirty F) (call (.lockFlowSegments f))
      (fun _ => InTx mt i dirty (fun c l => F c l ∧ c.Holds i (.flow f))) E :=
  lock hF fun ch w l r w' l' he => by simpa [exec, eq_comm] using he

theorem lockObject (hF : Frame mt i F) (o : ObjectId) :
    Spec mt fc noDeletes i (InTx mt i dirty F) (call (.lockObject o))
      (fun _ => InTx mt i dirty (fun c l => F c l ∧ c.Holds i (.object o))) E :=
  lock hF fun ch w l r w' l' he => by simpa [exec, eq_comm] using he

theorem push {c : Call} {A' : c.Resp → CoreAssertion} (hA : A.Stable mt i)
    (hA' : ∀ r, (A' r).Stable mt i) (htx : ∀ c l, A c l → l.inTransaction = true)
    (h : ∀ ch w l r w' l', w.core.Inv mt → A w.core l →
      exec mt i ch c w l = some (r, w', l') →
      (storeDiscipline mt fc noDeletes).calls i c r w l →
      ∃ ws, w.submit i ws l = (w', l') ∧ A' r w.core (l.push ws)) :
    Spec mt fc noDeletes i A (call c) A' E := by
  refine statement hA hA' ?_
  intro w l hi hAw ch r w' l' he hd
  obtain ⟨ws, hsub, hpost⟩ := h ch w l r w' l' hi.core hAw he hd
  obtain ⟨rfl, rfl⟩ := exec_submit hsub (htx _ _ hAw)
  exact ⟨hi, fun j _ => Core.Rely.refl j _, hpost⟩

theorem side (hF : Frame mt i F) {wr : Write} (hw : wr.Side) :
    Spec mt fc noDeletes i (InTx mt i dirty F) (call (.write wr))
      (fun _ => InTx mt i dirty F) E := by
  refine push (InTx.stable hF) (fun _ => InTx.stable hF) (fun _ _ h => h.1.inTransaction) ?_
  intro ch w l r w' l' _ hA he _
  have hside : ∀ x ∈ [wr], x.Side := by simpa using hw
  refine ⟨[wr], by simpa [exec] using he, ?_, hF.push _ _ _ hA.2 hside⟩
  exact hA.1.push_neutral (fun x hx => (hside x hx).1.not_touchesFlow)
    (fun x hx => (hside x hx).1.not_touchesObject)

theorem saveFlow (hF : Frame mt i F) (flow : FlowRecord) (basis : Nat) :
    Spec mt fc noDeletes i (InTx mt i dirty F) (call (.write (.saveFlow flow basis)))
      (fun _ => InTx mt i dirty F) E :=
  side hF (by simp [Write.Side, Write.Neutral])

theorem saveRequest {request : DeletionRequestRecord} {F' : CoreAssertion}
    (hF : Frame mt i F) (hF' : Frame mt i F')
    (hpush : ∀ c l, F c l → F' c (l.push [.saveDeleteRequest request])) :
    Spec mt fc noDeletes i (InTx mt i dirty F) (call (.write (.saveDeleteRequest request)))
      (fun _ => InTx mt i dirty F') E := by
  refine push (InTx.stable hF) (fun _ => InTx.stable hF') (fun _ _ h => h.1.inTransaction) ?_
  intro ch w l r w' l' _ hA he _
  refine ⟨[.saveDeleteRequest request], by simpa [exec] using he, ?_, hpush _ _ hA.2⟩
  exact hA.1.push_neutral (by simp [Write.TouchesFlow]) (by simp [Write.TouchesObject])

end Spec

end Tamoss
