/-
  **The protocol that keeps segments linked, and a rule for every statement.**
-/
import Tamoss.Store.Links
import Tamoss.Store.WellFormed

namespace Tamoss

open Lib.Machine

structure Granted (mt : MediaTimestamp) (exact : Prop) (i : SessionId) (w : World)
    (l : Session) : Prop where
  wellFormed : (w.view l).WellFormed mt
  free : l.inTransaction = false → ∀ k, w.locks k ≠ some i
  consistent : exact → Consistent mt w.db

def GeneratesIds : Option Op → Prop
  | some (.allocateFlowStorage _ _ request _) => request.objectIds = none
  | _ => False

def LinkReq (exact : Prop) (i : SessionId) (q : Call) (c : Core) (l : Session) : Prop :=
  match q with
  | .lockFlowSegments f => c.Holds i (.flow f) ∨ ∀ k, c.Holds i k → k.OfCatalogue
  | .lockObject o => ¬ GeneratesIds (c.running i) →
      c.Holds i (.object o) ∨ ∀ o', c.Holds i (.object o') → o' < o
  | .storageDelete ids b => ∀ o ∈ ids, ∀ m, c.db.objects.get o = some m →
      hasControlledInstanceOn m.instances b = false
  | .commit => ∀ o m m', c.db.objects.get o = some m → m.referencedByFlows ≠ [] →
      (c.view l).objects.get o = some m' → Keeps exact m m'
  | .write w => l.inTransaction = false → w.Neutral
  | .deleteSegmentBatch _ _ => l.inTransaction = true
  | .createObjects _ => l.inTransaction = true
  | _ => True

def Call.IsQuery : Call → Prop
  | .storageDelete _ _ => False
  | q => q.IsRead

theorem Call.Tame.isQuery {q : Call} (hq : q.Tame) (h : q.IsRead) : q.IsQuery := by
  cases q <;> first | exact h | exact hq.elim

theorem Call.Tame.linkReq {q : Call} (hq : q.Tame) (hquery : ¬ q.IsQuery) {exact : Prop}
    {i : SessionId} {c : Core} {l : Session} : LinkReq exact i q c l := by
  cases q with
  | write w => cases w <;> first | exact hq.elim | exact fun _ => trivial
  | _ => first | exact hq.elim | exact absurd trivial hquery | trivial

section Protocol

variable (mt : MediaTimestamp) (fc : FlowContract) (exact : Prop)
variable (D : (service mt fc).Discipline)

def linkProtocol : (service mt fc).Protocol where
  discipline := D.assuming fun i _ w l => Granted mt exact i w l
  Inv w := Linked mt exact (World.db w)
  Rely i w w' := LinkRely i (World.core w) (World.core w')
  Req i q w l := LinkReq exact i q (World.core w) l
  rely_refl i w := LinkRely.refl i (World.core w)
  rely_trans _ _ _ _ h h' := h.trans h'

abbrev LinkSpec {α : Type} (i : SessionId) (A : CoreAssertion) (p : App α)
    (Q : α → CoreAssertion) (E : PyError → Session → Prop) : Prop :=
  Triple (linkProtocol mt fc exact D) i (A.lift mt fc) p (fun a => (Q a).lift mt fc) E

def LinkStable (i : SessionId) (A : CoreAssertion) : Prop :=
  ∀ c c' l, A c l → LinkRely i c c' → Linked mt exact c'.db → A c' l

end Protocol

variable {mt : MediaTimestamp} {fc : FlowContract} {exact : Prop}
variable {D : (service mt fc).Discipline} {i : SessionId} {A : CoreAssertion}
variable {E : PyError → Session → Prop}

theorem LinkStable.lift (h : LinkStable mt exact i A) :
    Stable (linkProtocol mt fc exact D) i (A.lift mt fc) :=
  fun w w' l hA hr hi => h w.core w'.core l hA hr hi

theorem LinkStable.and {B : CoreAssertion} (hA : LinkStable mt exact i A)
    (hB : LinkStable mt exact i B) : LinkStable mt exact i (fun c l => A c l ∧ B c l) :=
  fun c c' l h hr hi => ⟨hA c c' l h.1 hr hi, hB c c' l h.2 hr hi⟩

theorem LinkStable.local (B : Session → Prop) : LinkStable mt exact i (fun _ l => B l) :=
  fun _ _ _ h _ _ => h

variable (mt exact i) in
structure Carried (F : CoreAssertion) : Prop where
  stable : LinkStable mt exact i F
  push : ∀ c l ws, F c l → (∀ w ∈ ws, w.Neutral) → F c (l.push ws)
  profile : ∀ c l locks, F c l →
    (∀ k, ¬ k.OfCatalogue → (locks k = some i ↔ c.Holds i k)) → F { c with locks } l

variable (i) in
def Lockable (F : CoreAssertion) : Prop :=
  ∀ c l locks, F c l → (∀ k, c.Holds i k → locks k = some i) →
    (∀ k, locks k = some i → c.Holds i k ∨ ∃ o, k = .object o) → F { c with locks } l

namespace Carried

variable {F G : CoreAssertion}

theorem true : Carried mt exact i Always :=
  ⟨fun _ _ _ _ _ _ => trivial, fun _ _ _ _ _ => trivial, fun _ _ _ _ _ => trivial⟩

theorem and (hF : Carried mt exact i F) (hG : Carried mt exact i G) :
    Carried mt exact i (fun c l => F c l ∧ G c l) where
  stable := hF.stable.and hG.stable
  push c l ws h hws := ⟨hF.push c l ws h.1 hws, hG.push c l ws h.2 hws⟩
  profile c l locks h hk := ⟨hF.profile c l locks h.1 hk, hG.profile c l locks h.2 hk⟩

theorem const (φ : Prop) : Carried mt exact i (fun _ _ => φ) :=
  ⟨fun _ _ _ h _ _ => h, fun _ _ _ h _ => h, fun _ _ _ h _ => h⟩

theorem forall_of {γ : Type} {F : γ → CoreAssertion} (h : ∀ x, Carried mt exact i (F x)) :
    Carried mt exact i (fun c l => ∀ x, F x c l) where
  stable c c' l hF hr hi x := (h x).stable c c' l (hF x) hr hi
  push c l ws hF hws x := (h x).push c l ws (hF x) hws
  profile c l locks hF hk x := (h x).profile c l locks (hF x) hk

theorem exists_of {γ : Type} {F : γ → CoreAssertion} (h : ∀ x, Carried mt exact i (F x)) :
    Carried mt exact i (fun c l => ∃ x, F x c l) where
  stable c c' l := fun ⟨x, hF⟩ hr hi => ⟨x, (h x).stable c c' l hF hr hi⟩
  push c l ws := fun ⟨x, hF⟩ hws => ⟨x, (h x).push c l ws hF hws⟩
  profile c l locks := fun ⟨x, hF⟩ hk => ⟨x, (h x).profile c l locks hF hk⟩

theorem imp {φ : Prop} (h : φ → Carried mt exact i F) :
    Carried mt exact i (fun c l => φ → F c l) where
  stable c c' l hF hr hi hφ := (h hφ).stable c c' l (hF hφ) hr hi
  push c l ws hF hws hφ := (h hφ).push c l ws (hF hφ) hws
  profile c l locks hF hk hφ := (h hφ).profile c l locks (hF hφ) hk

theorem or (hF : Carried mt exact i F) (hG : Carried mt exact i G) :
    Carried mt exact i (fun c l => F c l ∨ G c l) where
  stable c c' l h hr hi := h.imp (hF.stable c c' l · hr hi) (hG.stable c c' l · hr hi)
  push c l ws h hws := h.imp (hF.push c l ws · hws) (hG.push c l ws · hws)
  profile c l locks h hk := h.imp (hF.profile c l locks · hk) (hG.profile c l locks · hk)

theorem held {P : (Lock → Prop) → Prop}
    (hP : ∀ S T : Lock → Prop, (∀ k, ¬ k.OfCatalogue → (S k ↔ T k)) → P S → P T) :
    Carried mt exact i (fun c _ => P (c.Holds i)) where
  stable _ _ _ h hr _ := hP _ _ (fun k _ => (hr.locks k).symm) h
  push _ _ _ h _ := h
  profile _ _ _ h hk := hP _ _ (fun k hne => (hk k hne).symm) h

theorem holds {k : Lock} (hk : ¬ k.OfCatalogue) : Carried mt exact i (fun c _ => c.Holds i k) :=
  held (P := fun S => S k) fun _ _ h hS => (h k hk).mp hS

theorem object (o : ObjectId) (P : Option MediaObjectRecord → Prop) :
    Carried mt exact i (fun c l => c.Holds i (.object o) ∧ P ((c.view l).objects.get o)) where
  stable c c' l h hr _ := ⟨(hr.locks _).mpr h.1, (hr.view_object h.1).symm ▸ h.2⟩
  push c l ws h hws := by
    refine ⟨h.1, ?_⟩
    rw [Core.view_push, objects_get_applyAll_neutral hws]
    exact h.2
  profile c l locks h hk := ⟨(hk _ id).mpr h.1, h.2⟩

theorem rows (f : FlowId) (P : SegmentRow → Prop) :
    Carried mt exact i (fun c l => c.Holds i (.flow f) ∧
      ∀ row ∈ (c.view l).segments.rows, row.record.flowId = f → P row) where
  stable c c' l h hr _ := by
    refine ⟨(hr.locks _).mpr h.1, fun row hrow hf => ?_⟩
    exact h.2 row (hr.view_rows hrow (.inl (hf ▸ h.1))) hf
  push c l ws h hws := by
    refine ⟨h.1, fun row hrow hf => h.2 row ?_ hf⟩
    rw [Core.view_push] at hrow
    exact (mem_segments_untouched fun w hw => (hws w hw).not_touchesFlow).mp hrow
  profile c l locks h hk := ⟨(hk _ id).mpr h.1, h.2⟩

theorem running (P : Option Op → Prop) : Carried mt exact i (fun c _ => P (c.running i)) where
  stable c c' l h hr _ := by
    show P (c'.running i)
    rw [hr.running]
    exact h
  push _ _ _ h _ := h
  profile _ _ _ h _ := h

theorem writes {P : Write → Prop} (hP : ∀ w, w.Neutral → P w) :
    Carried mt exact i (fun _ l => ∀ w ∈ l.writes, P w) where
  stable _ _ _ h _ _ := h
  push c l ws h hws w hw := by
    rcases List.mem_append.mp hw with hw | hw
    · exact h w hw
    · exact hP w (hws w hw)
  profile _ _ _ h _ := h

end Carried

variable {l : Session}

theorem addsNone_of_neutral (h : ∀ w ∈ l.writes, w.Neutral) : AddsNone l :=
  fun _ hm => h _ hm

theorem removesNone_of_neutral (h : ∀ w ∈ l.writes, w.Neutral) : RemovesNone l :=
  ⟨fun _ hm => h _ hm, fun _ hm => h _ hm, fun _ hm => h _ hm⟩

theorem AddsNone.carried : Carried mt exact i (fun _ l => AddsNone l) where
  stable _ _ _ h _ _ := h
  push _ _ _ h hws row hm :=
    (List.mem_append.mp hm).elim (h row) fun hm => (hws _ hm).not_touchesFlow _ rfl
  profile _ _ _ h _ := h

theorem RemovesNone.carried : Carried mt exact i (fun _ l => RemovesNone l) where
  stable _ _ _ h _ _ := h
  push _ _ _ h hws :=
    ⟨fun row hm => (List.mem_append.mp hm).elim (h.segments row) fun hm => hws _ hm,
    fun f hm => (List.mem_append.mp hm).elim (h.flows f) fun hm => hws _ hm,
    fun o hm => (List.mem_append.mp hm).elim (h.objects o) fun hm => hws _ hm⟩
  profile _ _ _ h _ := h

theorem Lockable.local (P : Session → Prop) : Lockable i (fun _ l => P l) :=
  fun _ _ _ h _ _ => h

theorem Lockable.holds (k : Lock) : Lockable i (fun c _ => c.Holds i k) :=
  fun _ _ _ h hk _ => hk k h

theorem Lockable.and {F G : CoreAssertion} (hF : Lockable i F) (hG : Lockable i G) :
    Lockable i (fun c l => F c l ∧ G c l) :=
  fun c l locks h hk hk' => ⟨hF c l locks h.1 hk hk', hG c l locks h.2 hk hk'⟩

variable (mt exact i) in
def InLink (F : CoreAssertion) : CoreAssertion := fun c l => LinkTx mt exact i c l ∧ F c l

variable (mt fc exact D i) in
abbrev LinkOk {α : Type} (F : CoreAssertion) (p : App α) : Prop :=
  LinkSpec mt fc exact D i (InLink mt exact i F) p (fun _ => InLink mt exact i Always) Always

theorem InLink.stable {F : CoreAssertion} (hF : Carried mt exact i F) :
    LinkStable mt exact i (InLink mt exact i F) :=
  fun c c' l h hr hi => ⟨h.1.rely hr hi, hF.stable c c' l h.2 hr hi⟩

variable (i) in
def Resting (P : Option Op → Prop) : CoreAssertion :=
  fun c l => l = .idle ∧ P (c.running i)

/-- Started at rest the program ends at rest, also with an exception. -/
abbrev RestSpec (mt : MediaTimestamp) (fc : FlowContract) (exact : Prop)
    (D : (service mt fc).Discipline) (i : SessionId) {α : Type} (P : Option Op → Prop)
    (p : App α) : Prop :=
  LinkSpec mt fc exact D i (Resting i P) p (fun _ _ l => l = .idle) (fun _ l => l = .idle)

theorem Resting.stable {P : Option Op → Prop} : LinkStable mt exact i (Resting i P) :=
  fun c c' l h hr _ => ⟨h.1, by rw [hr.running]; exact h.2⟩

theorem idle_stable : LinkStable mt exact i AtRest := .local (· = .idle)

variable (i) in
def Opening (P : Option Op → Prop) : CoreAssertion := fun c l =>
  (∀ w ∈ l.writes, w.Neutral) ∧ (∀ k, c.Holds i k → k.OfCatalogue) ∧ P (c.running i)

theorem Opening.carried (P : Option Op → Prop) : Carried mt exact i (Opening i P) := by
  refine (Carried.writes fun _ h => h).and (Carried.and ?_ (.running P))
  exact Carried.held (P := fun S => ∀ k, S k → k.OfCatalogue) fun S T h hS k hk => by
    by_contra hne
    exact hne (hS k ((h k hne).mpr hk))

namespace LinkSpec

variable {F F' G : CoreAssertion} {P : Option Op → Prop}

variable {q : Call} {Q : q.Resp → CoreAssertion}

theorem statement (hA : LinkStable mt exact i A) (hQ : ∀ r, LinkStable mt exact i (Q r))
    (hreq : ∀ c l, Linked mt exact c.db → A c l → LinkReq exact i q c l)
    (h : ∀ (w : World) (l : Session), Linked mt exact w.db → A w.core l →
      ∀ ch r w' l', exec mt i ch q w l = some (r, w', l') → Granted mt exact i w l →
      Linked mt exact w'.db ∧ (∀ j, j ≠ i → LinkRely j w.core w'.core) ∧ Q r w'.core l') :
    LinkSpec mt fc exact D i A (call q) Q E :=
  Triple.call hA.lift (fun r => (hQ r).lift) (fun w l hi hAw => hreq w.core l hi hAw)
    fun w l hi hAw ch r w' l' he hd => h w l hi hAw ch r w' l' he hd.2

theorem read (hq : q.IsQuery) (hA : LinkStable mt exact i A) (hQ : ∀ r, LinkStable mt exact i (Q r))
    (h : ∀ ch w l r w' l', A w.core l → Granted mt exact i w l →
      exec mt i ch q w l = some (r, w', l') → Q r w.core l) :
    LinkSpec mt fc exact D i A (call q) Q E := by
  have hread : q.IsRead := by
    cases q with
    | storageDelete => exact hq.elim
    | _ => exact hq
  refine statement hA hQ (fun c l _ _ => ?_) ?_
  · cases q <;> trivial
  · intro w l hi hAw ch r w' l' he hg
    obtain ⟨hsame, rfl⟩ := exec_read hread he
    have hdb : w'.db = w.db := congrArg Core.db hsame.core
    refine ⟨hdb ▸ hi, fun j _ => ?_, ?_⟩
    · rw [hsame.core]
      exact LinkRely.refl j _
    · rw [hsame.core]
      exact h ch w l' r w' l' hAw hg he

theorem read' (hq : q.IsQuery) (hA : LinkStable mt exact i A) :
    LinkSpec mt fc exact D i A (call q) (fun _ => A) E :=
  read hq hA (fun _ => hA) fun _ _ _ _ _ _ h _ _ => h

theorem bind {α β : Type} {p : App α} {k : α → App β} {R : α → CoreAssertion}
    {Q : β → CoreAssertion} (hp : LinkSpec mt fc exact D i A p R E)
    (hk : ∀ a, LinkSpec mt fc exact D i (R a) (k a) Q E) :
    LinkSpec mt fc exact D i A (p >>= k) Q E :=
  Triple.bind hp hk

theorem reading {α : Type} {k : q.Resp → App α} {Q : α → CoreAssertion}
    (hA : LinkStable mt exact i A) (hq : q.IsQuery)
    (h : ∀ r, LinkSpec mt fc exact D i A (k r) Q E) :
    LinkSpec mt fc exact D i A (call q >>= k) Q E :=
  bind (read' hq hA) h

theorem pure {α : Type} (hA : LinkStable mt exact i A) (a : α) :
    LinkSpec mt fc exact D i A (Pure.pure a) (fun _ => A) E :=
  Triple.pure hA.lift fun _ _ _ h => h

theorem pre {α : Type} {B : CoreAssertion} {p : App α} {Q : α → CoreAssertion}
    (h : LinkSpec mt fc exact D i B p Q E)
    (hA : ∀ c l, Linked mt exact c.db → A c l → B c l) : LinkSpec mt fc exact D i A p Q E :=
  Triple.pre h fun w l hi hAw => hA w.core l hi hAw

theorem assume {α : Type} {φ : Prop} {p : App α} {Q : α → CoreAssertion}
    (h : φ → LinkSpec mt fc exact D i A p Q E) :
    LinkSpec mt fc exact D i (fun c l => φ ∧ A c l) p Q E :=
  Triple.assume h

theorem exists_pre {α γ : Type} {B : γ → CoreAssertion} {p : App α} {Q : α → CoreAssertion}
    (h : ∀ x, LinkSpec mt fc exact D i (B x) p Q E) :
    LinkSpec mt fc exact D i (fun c l => ∃ x, B x c l) p Q E :=
  Triple.exists_pre h

theorem except {α : Type} (hA : LinkStable mt exact i A) (hE : ∀ e c l, A c l → E e l)
    (x : Except PyError α) :
    LinkSpec mt fc exact D i A (liftM x : App α) (fun a c l => x = .ok a ∧ A c l) E :=
  Triple.except hA.lift x (fun _ hx _ _ _ hA => ⟨hx, hA⟩) (fun e _ w l hA => hE e w.core l hA)

theorem requireFlow (hF : Carried mt exact i F) (f : FlowId) (toSave : Bool) :
    LinkSpec mt fc exact D i (InLink mt exact i F) (requireFlow f toSave)
      (fun r c l => r.1.id = f ∧ InLink mt exact i F c l) Always := by
  have hst := InLink.stable hF
  have hget : LinkSpec mt fc exact D i (InLink mt exact i F) (call (.getFlow f toSave))
      (fun found c l => (∀ flow, found.flow = some flow → flow.id = f) ∧ InLink mt exact i F c l)
      Always := by
    refine read (by trivial) hst
      (fun _ c c' l h hr hi => ⟨h.1, hst c c' l h.2 hr hi⟩) ?_
    intro ch w l r w' l' hA _ he
    obtain ⟨rfl, -⟩ := Prod.mk.inj (Option.some.inj he)
    exact ⟨fun flow h => (Lib.Table.get_eq_some.mp h).2, hA⟩
  refine bind hget fun found => Triple.assume fun hid => ?_
  split
  · exact Triple.throw fun _ _ _ => trivial
  · rename_i flow hflow
    exact Triple.pure hst.lift fun w l _ h => ⟨hid flow hflow, h⟩

end LinkSpec

theorem acquire_inTransaction {k : Lock} {w w' : World} {l : Session}
    (h : w.acquire i k l = some w') (htx : l.inTransaction = true) :
    ∃ locks, w' = { w with locks } ∧
      (∀ k', locks k' = some i ↔ k' = k ∨ w.core.Holds i k') ∧
      ∀ j, j ≠ i → ∀ k', locks k' = some j ↔ w.locks k' = some j := by
  obtain ⟨locks, rfl, hk, hmono, hothers⟩ := acquire_eq_some h htx
  refine ⟨locks, rfl, fun k' => ⟨fun hk' => ?_, fun hk' => ?_⟩, hothers⟩
  · by_cases hkk : k' = k
    · exact .inl hkk
    · -- no other lock changes hands
      right
      unfold World.acquire at h
      split at h
      · rw [if_pos htx, Option.some.injEq, World.mk.injEq] at h
        rw [← h.2.1, Function.update_of_ne hkk] at hk'
        exact hk'
      · split at h
        · rw [Option.some.injEq, World.mk.injEq] at h
          rw [← h.2.1] at hk'
          exact hk'
        · cases h
  · rcases hk' with rfl | hk'
    · exact hk
    · exact hmono k' hk'

theorem LinkRely.of_locks {w : World} {locks : Lock → Option SessionId} {j : SessionId}
    (h : ∀ k, locks k = some j ↔ w.locks k = some j) :
    LinkRely j w.core ({ w with locks } : World).core :=
  .of_same h (fun _ => rfl) (fun _ hrow => hrow) rfl

namespace LinkSpec

variable {F F' G : CoreAssertion} {P : Option Op → Prop}

theorem lock {q : Call} {k : Lock} (hF : Carried mt exact i F) (hF' : Carried mt exact i F')
    (hexec : ∀ ch w l r w' l', exec mt i ch q w l = some (r, w', l') →
      w.acquire i k l = some w' ∧ l' = l) (hreq : ∀ c l, F c l → LinkReq exact i q c l)
    (hlock : ∀ c l locks, F c l → (∀ k', locks k' = some i ↔ k' = k ∨ c.Holds i k') →
      F' { c with locks } l) :
    LinkSpec mt fc exact D i (InLink mt exact i F) (call q) (fun _ => InLink mt exact i F') E := by
  refine statement (InLink.stable hF) (fun _ => InLink.stable hF') (fun c l _ h => hreq c l h.2) ?_
  intro w l hi hA ch r w' l' he _
  obtain ⟨hacq, rfl⟩ := hexec ch w l r w' l' he
  obtain ⟨locks, rfl, hk, hothers⟩ := acquire_inTransaction hacq hA.1.inTransaction
  refine ⟨hi, fun j hj => LinkRely.of_locks (hothers j hj), ?_, ?_⟩
  · exact hA.1.lock fun k' hk' => (hk k').mpr (.inr hk')
  · exact hlock w.core l' locks hA.2 hk

theorem lockFlow (hF : Carried mt exact i F) (hF' : Carried mt exact i F') (f : FlowId)
    (hfree : ∀ c l, F c l → c.Holds i (.flow f) ∨ ∀ k, c.Holds i k → k.OfCatalogue)
    (hlock : ∀ c l locks, F c l → (∀ k, locks k = some i ↔ k = .flow f ∨ c.Holds i k) →
      F' { c with locks } l) :
    LinkSpec mt fc exact D i (InLink mt exact i F) (call (.lockFlowSegments f))
      (fun _ => InLink mt exact i F') E :=
  lock hF hF' (fun ch w l r w' l' he => by simpa [exec, eq_comm] using he) hfree hlock

def Free (i : SessionId) (ids : List ObjectId) : CoreAssertion := fun c _ =>
  (∀ o ∈ ids, c.Holds i (.object o)) ∨ (∀ o, ¬ c.Holds i (.object o)) ∨
    GeneratesIds (c.running i)

end LinkSpec

theorem HoldsObjects.carried (ids : List ObjectId) : Carried mt exact i (HoldsObjects i ids) :=
  .forall_of fun o => .imp fun _ => .holds (k := .object o) id

theorem ObjectsAre.carried (ids : List ObjectId) (objects : ObjectsById) :
    Carried mt exact i (ObjectsAre i ids objects) :=
  .forall_of fun o => .imp fun _ => .object o fun x => x = objects.get o

theorem lockOrder_lt {ids done rest : List ObjectId} {o : ObjectId}
    (h : ids.dedup.insertionSort (· ≤ ·) = done ++ o :: rest) : ∀ o' ∈ done, o' < o := by
  intro o' ho'
  have hsorted := List.pairwise_insertionSort (· ≤ ·) ids.dedup
  have hnodup : (ids.dedup.insertionSort (· ≤ ·)).Nodup :=
    (List.perm_insertionSort _ _).nodup_iff.mpr (List.nodup_dedup ids)
  rw [h] at hsorted hnodup
  have hle := (List.pairwise_append.mp hsorted).2.2 o' ho' o List.mem_cons_self
  have hne := (List.nodup_append.mp hnodup).2.2 o' ho' o List.mem_cons_self
  by_contra hlt
  exact hne (String.le_antisymm hle (String.not_lt.mp hlt))

namespace LinkSpec

variable {F F' G : CoreAssertion} {P : Option Op → Prop}

theorem lockObjects (hF : Carried mt exact i F) (hL : Lockable i F) {ids : List ObjectId}
    (hG : ∀ c l, G c l → F c l ∧ Free i ids c l) :
    LinkSpec mt fc exact D i (InLink mt exact i G) (lockObjects ids)
      (fun _ => InLink mt exact i fun c l => F c l ∧ HoldsObjects i ids c l) E := by
  -- the locks held are the ones taken so far, unless the order does not matter
  let Order (done : List ObjectId) : CoreAssertion := fun c _ =>
    (∀ o ∈ ids, c.Holds i (.object o)) ∨ (∀ o, c.Holds i (.object o) → o ∈ done) ∨
      GeneratesIds (c.running i)
  have hOrder : ∀ done, Carried mt exact i (Order done) := by
    intro done
    refine Carried.or (HoldsObjects.carried ids) (Carried.or ?_ (.running GeneratesIds))
    exact Carried.held (P := fun S => ∀ o, S (.object o) → o ∈ done)
      fun S T h hS o ho => hS o ((h _ id).mpr ho)
  let I (done : List ObjectId) : CoreAssertion := fun c l =>
    F c l ∧ HoldsObjects i done c l ∧ Order done c l
  have hI : ∀ done, Carried mt exact i (I done) := fun done =>
    hF.and ((HoldsObjects.carried done).and (hOrder done))
  have hloop : LinkSpec mt fc exact D i (InLink mt exact i (I [])) (Tamoss.lockObjects ids)
      (fun _ => InLink mt exact i (I (ids.dedup.insertionSort (· ≤ ·)))) E := by
    refine Triple.forM (I := fun done => (InLink mt exact i (I done)).lift mt fc)
      (fun done => (InLink.stable (hI done)).lift) ?_
    intro done o rest hxs
    refine lock (k := .object o) (hI done) (hI (done ++ [o]))
      (fun ch w l r w' l' he => by simpa [exec, eq_comm] using he) ?_ ?_
    · intro c l hc hgen
      rcases hc.2.2 with hall | hdone | hg
      · have ho : o ∈ ids.dedup.insertionSort (· ≤ ·) := by rw [hxs]; simp
        rw [(List.perm_insertionSort _ _).mem_iff, List.mem_dedup] at ho
        exact .inl (hall o ho)
      · exact .inr fun o' ho' => lockOrder_lt hxs o' (hdone o' ho')
      · exact absurd hg hgen
    · intro c l locks hc hk
      refine ⟨hL c l locks hc.1 (fun k h => (hk k).mpr (.inr h)) fun k h => ?_, ?_, ?_⟩
      · rcases (hk k).mp h with rfl | h
        · exact .inr ⟨o, rfl⟩
        · exact .inl h
      · intro o' ho'
        rcases List.mem_append.mp ho' with ho' | ho'
        · exact (hk _).mpr (.inr (hc.2.1 o' ho'))
        · obtain rfl := List.mem_singleton.mp ho'
          exact (hk _).mpr (.inl rfl)
      · refine hc.2.2.imp (fun h o' ho' => (hk _).mpr (.inr (h o' ho'))) (.imp_left fun h o' ho' => ?_)
        rcases (hk _).mp ho' with he | ho'
        · obtain rfl : o' = o := by simpa using he
          simp
        · exact List.mem_append_left _ (h o' ho')
  refine Triple.conseq hloop (fun w l _ h => ?_) (fun _ w l _ h => ?_) (fun _ _ h => h)
  · obtain ⟨hFw, hfree⟩ := hG _ _ h.2
    refine ⟨h.1, hFw, fun o ho => absurd ho (by simp), ?_⟩
    exact hfree.imp_right (.imp_left fun hnone o ho => absurd ho (hnone o))
  · refine ⟨h.1, h.2.1, fun o ho => h.2.2.1 o ?_⟩
    rw [(List.perm_insertionSort _ _).mem_iff]
    exact List.mem_dedup.mpr ho

theorem getObjects (hF : Carried mt exact i F) (ids : List ObjectId) :
    LinkSpec mt fc exact D i (InLink mt exact i fun c l => F c l ∧ HoldsObjects i ids c l)
      (call (.getObjects ids))
      (fun objects c l => (∀ o m, objects.get o = some m → o ∈ ids ∧ ObjectOk mt m ∧
          ObjectLink exact m) ∧
        InLink mt exact i (fun c l => F c l ∧ ObjectsAre i ids objects c l) c l) E := by
  have hQ : ∀ objects, LinkStable mt exact i
      (InLink mt exact i fun c l => F c l ∧ ObjectsAre i ids objects c l) :=
    fun objects => InLink.stable (hF.and (ObjectsAre.carried ids objects))
  refine read (by trivial) (InLink.stable (hF.and (HoldsObjects.carried ids)))
    (fun objects c c' l h hr hi => ⟨h.1, hQ objects c c' l h.2 hr hi⟩) ?_
  intro ch w l r w' l' hA hg he
  obtain ⟨rfl, -⟩ := Prod.mk.inj (Option.some.inj he)
  refine ⟨fun o m hm => ?_, hA.1, hA.2.1, fun o ho => ⟨hA.2.2 o ho, ?_⟩⟩
  · obtain ⟨hmem, rfl⟩ := Lib.Table.get_eq_some.mp hm
    obtain ⟨hmem, hid⟩ := Lib.Table.mem_filter.mp hmem
    have hview : (w.view l).objects.get m.id = some m := Lib.Table.get_eq_some.mpr ⟨hmem, rfl⟩
    exact ⟨by simpa using hid, hg.wellFormed.object _ _ hview, hA.1.linked.object _ _ hview⟩
  · exact (Lib.Table.get_filter fun x hx => by simpa [hx] using ho).symm

theorem push {q : Call} {A' : q.Resp → CoreAssertion} (hA : LinkStable mt exact i A)
    (hA' : ∀ r, LinkStable mt exact i (A' r)) (htx : ∀ c l, A c l → l.inTransaction = true)
    (hreq : ∀ c l, A c l → l.inTransaction = true → LinkReq exact i q c l)
    (h : ∀ ch w l r w' l', Linked mt exact w.db → A w.core l → Granted mt exact i w l →
      exec mt i ch q w l = some (r, w', l') →
      ∃ ws, w.submit i ws l = (w', l') ∧ A' r w.core (l.push ws)) :
    LinkSpec mt fc exact D i A (call q) A' E := by
  refine statement hA hA' (fun c l _ hc => hreq c l hc (htx c l hc)) ?_
  intro w l hi hAw ch r w' l' he hg
  obtain ⟨ws, hsub, hpost⟩ := h ch w l r w' l' hi hAw hg he
  obtain ⟨rfl, rfl⟩ := exec_submit hsub (htx _ _ hAw)
  exact ⟨hi, fun j _ => LinkRely.refl j _, hpost⟩

variable {wr : Write}

theorem write {A' : CoreAssertion} (hA : LinkStable mt exact i A)
    (hA' : LinkStable mt exact i A') (htx : ∀ c l, A c l → l.inTransaction = true)
    (h : ∀ c l, A c l → A' c (l.push [wr])) :
    LinkSpec mt fc exact D i A (call (.write wr)) (fun _ => A') E :=
  push hA (fun _ => hA') htx (fun _ _ _ htrue hfalse => by rw [htrue] at hfalse; cases hfalse)
    fun ch w l r w' l' _ hAw _ he => ⟨[wr], by simpa [exec] using he, h w.core l hAw⟩

theorem neutral (hF : Carried mt exact i F) (hw : wr.Neutral) :
    LinkSpec mt fc exact D i (InLink mt exact i F) (call (.write wr))
      (fun _ => InLink mt exact i F) E := by
  refine write (InLink.stable hF) (InLink.stable hF) (fun _ _ h => h.1.inTransaction) ?_
  intro c l h
  have hws : ∀ x ∈ [wr], x.Neutral := by simpa using hw
  exact ⟨h.1.push_neutral hws, hF.push c l [wr] h.2 hws⟩

theorem unlinkFlowCollectionReferences (hF : Carried mt exact i F) (f : FlowId) :
    LinkSpec mt fc exact D i (InLink mt exact i F) (unlinkFlowCollectionReferences f)
      (fun _ => InLink mt exact i F) E := by
  refine reading (InLink.stable hF) trivial fun parents => ?_
  refine Triple.forM (I := fun _ => (InLink mt exact i F).lift mt fc)
    (fun _ => (InLink.stable hF).lift) fun _ ⟨parent, version⟩ _ _ => ?_
  dsimp only
  split
  · exact Triple.pure (InLink.stable hF).lift fun _ _ _ h => h
  · exact neutral hF trivial

theorem timerange (hF : Carried mt exact i F) (filter : SegmentDeleteFilter) :
    LinkSpec mt fc exact D i (InLink mt exact i F) (call (.segmentDeleteTimerange filter))
      (fun _ => InLink mt exact i F) E := by
  refine statement (InLink.stable hF) (fun _ => InLink.stable hF) (fun _ _ _ _ => trivial) ?_
  intro w l hi hA ch r w' l' he _
  obtain ⟨-, hl⟩ := Prod.mk.inj (Option.some.inj he)
  obtain ⟨hw, rfl⟩ := Prod.mk.inj hl
  rw [noteCondemned_of_inTransaction hA.1.inTransaction] at hw
  subst hw
  exact ⟨hi, fun j _ => LinkRely.refl j _, hA⟩

theorem tame {α : Type} {p : App α} (hF : Carried mt exact i F) (hp : Lib.Only Call.Tame p) :
    LinkSpec mt fc exact D i (InLink mt exact i F) p (fun _ => InLink mt exact i F) Always := by
  refine Triple.of_only (InLink.stable hF).lift (fun _ _ _ _ => trivial) (fun q hq => ?_) hp
  by_cases hquery : q.IsQuery
  · exact read' hquery (InLink.stable hF)
  refine statement (InLink.stable hF) (fun _ => InLink.stable hF)
    (fun _ _ _ _ => hq.linkReq hquery) ?_
  intro w l hi hA ch r w' l' he _
  rcases exec_quiet hq.quiet (fun h => hquery (hq.isQuery h)) he with
    ⟨rfl, rfl⟩ | ⟨k, hk, hacq, rfl⟩ | ⟨ws, hws, hsub⟩
  · exact ⟨hi, fun j _ => LinkRely.refl j _, hA⟩
  · obtain ⟨locks, rfl, hheld, hothers⟩ := acquire_inTransaction hacq hA.1.inTransaction
    refine ⟨hi, fun j hj => LinkRely.of_locks (hothers j hj), ?_, ?_⟩
    · exact hA.1.lock fun k' hk' => (hheld k').mpr (.inr hk')
    · refine hF.profile w.core l' locks hA.2 fun k' hne => ?_
      rw [hheld]
      exact or_iff_right fun heq => hne (heq ▸ hk)
  · obtain ⟨rfl, rfl⟩ := exec_submit hsub hA.1.inTransaction
    have hws : ∀ x ∈ ws, x.Neutral := fun x hx => (hws x hx).1
    exact ⟨hi, fun j _ => LinkRely.refl j _, hA.1.push_neutral hws, hF.push _ l ws hA.2 hws⟩

theorem calm {α : Type} {p : App α} (hF : Carried mt exact i F) (hp : Lib.Only Call.Calm p) :
    LinkSpec mt fc exact D i (InLink mt exact i F) p (fun _ => InLink mt exact i F) Always :=
  tame hF (tame_of_calm hp)

theorem begin : LinkSpec mt fc exact D i (Resting i P) (call .begin)
    (fun _ => InLink mt exact i (Opening i P)) E := by
  refine statement Resting.stable (fun _ => InLink.stable (Opening.carried P))
    (fun _ _ _ _ => trivial) ?_
  intro w l hi hA ch r w' l' he hg
  obtain ⟨rfl, hP⟩ := hA
  simp only [exec, Option.some.injEq, Prod.mk.injEq] at he
  obtain ⟨-, rfl, rfl⟩ := he
  refine ⟨hi, fun j _ => LinkRely.refl j _, LinkTx.start hi rfl rfl, ?_, ?_, hP⟩
  · exact fun x hx => by cases hx
  · exact fun k hk => absurd hk (hg.free rfl k)

theorem commit (hF : Carried mt exact i F) :
    LinkSpec mt fc exact D i (InLink mt exact i F) (call .commit) (fun _ => AtRest) E := by
  refine statement (InLink.stable hF) (fun _ => idle_stable) (fun _ _ _ h => h.1.kept) ?_
  intro w l hi hA ch r w' l' he _
  simp only [exec, Option.some.injEq, Prod.mk.injEq] at he
  obtain ⟨-, rfl, rfl⟩ := he
  refine ⟨hA.1.linked, fun j hj => ?_, rfl⟩
  have hrelease := Core.Rely.release (w.commit i l.writes) hj
  exact (hA.1.rely_commit hj).trans (.of_same hrelease.locks (fun _ => rfl) (fun _ h => h) rfl)

theorem rollback : LinkSpec mt fc exact D i Always (call .rollback) (fun _ => AtRest) E := by
  refine statement (.local fun _ => True) (fun _ => idle_stable) (fun _ _ _ _ => trivial) ?_
  intro w l hi _ ch r w' l' he _
  simp only [exec, Option.some.injEq, Prod.mk.injEq] at he
  obtain ⟨-, rfl, rfl⟩ := he
  refine ⟨hi, fun j hj => ?_, rfl⟩
  exact .of_same (Core.Rely.release w hj).locks (fun _ => rfl) (fun _ h => h) rfl

theorem unitOfWork {α : Type} {body : App α} (hbody : LinkOk mt fc exact D i (Opening i P) body) :
    RestSpec mt fc exact D i P (unitOfWork body) := by
  rw [unitOfWork_eq]
  refine bind begin fun _ => Triple.attempt hbody (fun a => ?_) (fun e => ?_)
  · exact bind (commit .true) fun _ => pure idle_stable a
  · exact bind rollback fun _ => Triple.throw fun _ _ h => h

theorem commit_neutral {w : World} {ws : List Write} (hi : Linked mt exact w.db)
    (hws : ∀ x ∈ ws, x.Neutral) :
    Linked mt exact (w.commit i ws).db ∧ ∀ j, LinkRely j w.core (w.commit i ws).core := by
  have hrows : ∀ row, row ∈ (w.db.applyAll ws).segments.rows ↔ row ∈ w.db.segments.rows :=
    fun row => mem_segments_untouched fun x hx => (hws x hx).not_touchesFlow
  have hobj : ∀ o, (w.db.applyAll ws).objects.get o = w.db.objects.get o :=
    objects_get_applyAll_neutral hws w.db
  refine ⟨⟨fun row hrow o hn => ?_, fun o m hm => ?_⟩, fun j => .of_same (fun _ => Iff.rfl)
    hobj (fun row => (hrows row).mp) rfl⟩
  · show ∃ m, (w.db.applyAll ws).objects.get o = some m ∧ _
    rw [hobj]
    exact hi.tied row ((hrows row).mp hrow) o hn
  · exact hi.object o m (hobj o ▸ hm)

theorem autocommit (hw : wr.Neutral) :
    LinkSpec mt fc exact D i (Resting i P) (call (.write wr)) (fun _ => Resting i P) E := by
  refine statement Resting.stable (fun _ => Resting.stable) (fun _ _ _ _ _ => hw) ?_
  intro w l hi hA ch r w' l' he _
  obtain ⟨rfl, hP⟩ := hA
  simp only [exec, World.submit, Session.idle, Bool.false_eq_true, if_false,
    Option.some.injEq, Prod.mk.injEq] at he
  obtain ⟨-, rfl, rfl⟩ := he
  have hws : ∀ x ∈ [wr], x.Neutral := by simpa using hw
  obtain ⟨hlinked, hrely⟩ := commit_neutral (i := i) hi hws
  exact ⟨hlinked, fun j _ => hrely j, rfl, hP⟩

theorem timerangeResting (filter : SegmentDeleteFilter) :
    LinkSpec mt fc exact D i (Resting i P) (call (.segmentDeleteTimerange filter))
      (fun _ => Resting i P) E := by
  refine statement Resting.stable (fun _ => Resting.stable) (fun _ _ _ _ => trivial) ?_
  intro w l hi hA ch r w' l' he _
  obtain ⟨-, hl⟩ := Prod.mk.inj (Option.some.inj he)
  obtain ⟨rfl, rfl⟩ := Prod.mk.inj hl
  unfold World.noteCondemned
  split
  · split
    · exact ⟨hi, fun j _ => .of_same (fun _ => Iff.rfl) (fun _ => rfl) (fun _ h => h) rfl, hA⟩
    · exact ⟨hi, fun j _ => LinkRely.refl j _, hA⟩
  · exact ⟨hi, fun j _ => LinkRely.refl j _, hA⟩

theorem calmResting {α : Type} {p : App α} (hp : Lib.Only Call.Calm p) :
    LinkSpec mt fc exact D i (Resting i P) p (fun _ => Resting i P) AtRest := by
  refine Triple.of_only Resting.stable.lift (fun _ _ _ h => h.1) (fun q hq => ?_) hp
  by_cases hquery : q.IsQuery
  · exact read' hquery Resting.stable
  refine statement Resting.stable (fun _ => Resting.stable)
    (fun _ _ _ _ => hq.tame.linkReq hquery) ?_
  intro w l hi hA ch r w' l' he _
  obtain ⟨rfl, hP⟩ := hA
  rcases exec_quiet hq.quiet (fun h => hquery (hq.tame.isQuery h)) he with
    ⟨rfl, rfl⟩ | ⟨k, -, hacq, rfl⟩ | ⟨ws, hws, hsub⟩
  · exact ⟨hi, fun j _ => LinkRely.refl j _, rfl, hP⟩
  · obtain rfl := acquire_idle hacq
    exact ⟨hi, fun j _ => LinkRely.refl j _, rfl, hP⟩
  · obtain ⟨rfl, rfl⟩ := submit_idle hsub
    obtain ⟨hlinked, hrely⟩ := commit_neutral (i := i) hi fun x hx => (hws x hx).1
    exact ⟨hlinked, fun j _ => hrely j, rfl, hP⟩

theorem tameTransaction {p : App Unit} (hp : TameTransaction p) : RestSpec mt fc exact D i P p := by
  obtain ⟨β, check, body, hcheck, hbody, rfl⟩ := hp
  apply bind (calmResting hcheck)
  intro b
  apply unitOfWork
  exact Triple.pre (tame .true (hbody b)) fun _ _ _ h => ⟨h.1, trivial⟩

end LinkSpec

end Tamoss
