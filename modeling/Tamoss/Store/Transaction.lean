/-
  **What a transaction may count on, and what it must leave behind.**
-/
import Tamoss.Store.Consistency

namespace Tamoss

structure Core where
  db : Database
  locks : Lock → Option SessionId
  running : SessionId → Option Op
  condemned : SessionId → List FlowId

def World.core (w : World) : Core := ⟨w.db, w.locks, w.running, w.history.condemned⟩

namespace Core

def Holds (c : Core) (i : SessionId) (lock : Lock) : Prop := c.locks lock = some i

def view (c : Core) (l : Session) : Database := c.db.applyAll l.writes

/-- The committed database is consistent and the flows about to be deleted as empty
    have no segments. -/
structure Inv (mt : MediaTimestamp) (c : Core) : Prop where
  consistent : Consistent mt c.db
  condemned : ∀ j f, f ∈ c.condemned j → c.db.segmentsOf f = []

/-- What session `i` may assume of the moves of the others. -/
structure Rely (i : SessionId) (c c' : Core) : Prop where
  locks : ∀ lock, c'.Holds i lock ↔ c.Holds i lock
  rows : ∀ f, c.Holds i (.flow f) → c'.db.segmentsOf f = c.db.segmentsOf f
  objects : ∀ o, c.Holds i (.object o) → c'.db.objects.get o = c.db.objects.get o
  running : c'.running i = c.running i
  condemned : c'.condemned i = c.condemned i

theorem Rely.refl (i : SessionId) (c : Core) : Rely i c c :=
  ⟨fun _ => Iff.rfl, fun _ _ => rfl, fun _ _ => rfl, rfl, rfl⟩

theorem Rely.trans {i : SessionId} {c c' c'' : Core} (h : Rely i c c') (h' : Rely i c' c'') :
    Rely i c c'' where
  locks lock := (h'.locks lock).trans (h.locks lock)
  rows f hf := (h'.rows f ((h.locks _).mpr hf)).trans (h.rows f hf)
  objects o ho := (h'.objects o ((h.locks _).mpr ho)).trans (h.objects o ho)
  running := h'.running.trans h.running
  condemned := h'.condemned.trans h.condemned

variable {f : FlowId}

theorem segmentsOf_flowId {db : Database} : ∀ row ∈ db.segmentsOf f, row.record.flowId = f :=
  fun _ h => (Database.mem_segmentsOf.mp h).2

theorem Rely.view_rows {i : SessionId} {c c' : Core} (h : Rely i c c') {l : Session}
    (hf : c.Holds i (.flow f)) : (c'.view l).segmentsOf f = (c.view l).segmentsOf f := by
  simp only [view, segmentsOf_applyAll, h.rows f hf]

theorem Rely.view_object {i : SessionId} {c c' : Core} (h : Rely i c c') {l : Session}
    {o : ObjectId} (ho : c.Holds i (.object o)) :
    (c'.view l).objects.get o = (c.view l).objects.get o := by
  simp only [view, objects_get_applyAll, h.objects o ho]

end Core

def Session.push (l : Session) (writes : List Write) :
    Session :=
  { l with writes := l.writes ++ writes }

@[simp] theorem Core.view_push (c : Core) (l : Session) (ws : List Write) :
    c.view (l.push ws) = (c.view l).applyAll ws := by
  simp [Core.view, Session.push]

/-- **The invariant of a transaction in progress.** -/
structure TxInv (mt : MediaTimestamp) (i : SessionId) (dirty : FlowId → ObjectId → Prop) (c : Core)
    (l : Session) : Prop where
  inTransaction : l.inTransaction = true
  flowWrites : ∀ w ∈ l.writes, ∀ f, w.TouchesFlow f →
    c.Holds i (.flow f) ∨ w = .deleteFlow f ∧ f ∈ c.condemned i
  objectWrites : ∀ w ∈ l.writes, ∀ o, w.TouchesObject o → c.Holds i (.object o)
  rows : ∀ f, c.Holds i (.flow f) → RowsOk mt ((c.view l).segmentsOf f)
  object : ∀ o obj, c.Holds i (.object o) → (c.view l).objects.get o = some obj →
    ObjectOk mt obj
  refsOther : ∀ o f, c.Holds i (.object o) → ¬ c.Holds i (.flow f) →
    (f ∈ refsOf ((c.view l).objects.get o) ↔ f ∈ refsOf (c.db.objects.get o))
  namesOther : ∀ f o, c.Holds i (.flow f) → ¬ c.Holds i (.object o) →
    NamesObject ((c.view l).segmentsOf f) o → NamesObject (c.db.segmentsOf f) o
  namesKept : ∀ f o, c.Holds i (.flow f) → ¬ c.Holds i (.object o) → ¬ dirty f o →
    NamesObject (c.db.segmentsOf f) o → NamesObject ((c.view l).segmentsOf f) o
  listed : ∀ f o, c.Holds i (.flow f) → c.Holds i (.object o) →
    NamesObject ((c.view l).segmentsOf f) o → f ∈ refsOf ((c.view l).objects.get o)
  listedOnly : ∀ f o, c.Holds i (.flow f) → c.Holds i (.object o) → ¬ dirty f o →
    f ∈ refsOf ((c.view l).objects.get o) → NamesObject ((c.view l).segmentsOf f) o
  deleted : ∀ before f after, l.writes = before ++ .deleteFlow f :: after →
    (c.db.applyAll before).segmentsOf f = []
  gone : ∀ f, .deleteFlow f ∈ l.writes → (c.view l).segmentsOf f = []

abbrev clean : FlowId → ObjectId → Prop := fun _ _ => False

namespace TxInv

variable {mt : MediaTimestamp} {i : SessionId} {dirty : FlowId → ObjectId → Prop}
variable {c c' : Core} {l : Session}

variable {f : FlowId}

theorem view_rows (h : TxInv mt i dirty c l) (hc : c.Inv mt)
    (hf : ¬ c.Holds i (.flow f)) : (c.view l).segmentsOf f = c.db.segmentsOf f := by
  rw [Core.view, segmentsOf_applyAll]
  refine rowsAfter_eq_self Core.segmentsOf_flowId fun w hw ht => ?_
  rcases h.flowWrites w hw f ht with hheld | ⟨hdel, hcon⟩
  · exact absurd hheld hf
  · exact ⟨hdel, hc.condemned i f hcon⟩

variable {o : ObjectId}

theorem view_object (h : TxInv mt i dirty c l)
    (ho : ¬ c.Holds i (.object o)) : (c.view l).objects.get o = c.db.objects.get o := by
  rw [Core.view, objects_get_applyAll]
  exact objectAfter_of_not_touches (fun w hw ht => ho (h.objectWrites w hw o ht)) _

theorem start (hc : c.Inv mt) (htx : l.inTransaction = true) (hw : l.writes = []) :
    TxInv mt i clean c l := by
  have hview : c.view l = c.db := by rw [Core.view, hw]; rfl
  constructor
  · exact htx
  · simp [hw]
  · simp [hw]
  · exact fun f _ => hview ▸ hc.consistent.rows f
  · exact fun o obj _ h => hc.consistent.object o obj (hview ▸ h)
  · exact fun o f _ _ => by rw [hview]
  · exact fun f o _ _ h => hview ▸ h
  · exact fun f o _ _ _ h => hview.symm ▸ h
  · exact fun f o _ _ h => by rw [hview] at h ⊢; exact (hc.consistent.refs f o).mpr h
  · exact fun f o _ _ _ h => by rw [hview] at h ⊢; exact (hc.consistent.refs f o).mp h
  · intro before f after h
    rw [hw] at h
    exact absurd h.symm (by simp)
  · simp [hw]

theorem rely (h : TxInv mt i dirty c l) (hr : Core.Rely i c c') (hc' : c'.Inv mt) :
    TxInv mt i dirty c' l := by
  have hflow : ∀ f, c'.Holds i (.flow f) ↔ c.Holds i (.flow f) := fun f => hr.locks _
  have hobj : ∀ o, c'.Holds i (.object o) ↔ c.Holds i (.object o) := fun o => hr.locks _
  have hrows : ∀ f, c'.Holds i (.flow f) →
      (c'.view l).segmentsOf f = (c.view l).segmentsOf f ∧
      c'.db.segmentsOf f = c.db.segmentsOf f := fun f hf =>
    ⟨hr.view_rows ((hflow f).mp hf), hr.rows f ((hflow f).mp hf)⟩
  have hobject : ∀ o, c'.Holds i (.object o) →
      (c'.view l).objects.get o = (c.view l).objects.get o ∧
      c'.db.objects.get o = c.db.objects.get o := fun o ho =>
    ⟨hr.view_object ((hobj o).mp ho), hr.objects o ((hobj o).mp ho)⟩
  have hflowWrites : ∀ w ∈ l.writes, ∀ f, w.TouchesFlow f →
      c'.Holds i (.flow f) ∨ w = .deleteFlow f ∧ f ∈ c'.condemned i := by
    intro w hw f ht
    rw [hflow, hr.condemned]
    exact h.flowWrites w hw f ht
  -- the writes on a flow that is not locked delete it, and it has no segments
  have hempty : ∀ before after f, l.writes = before ++ after → .deleteFlow f ∈ l.writes →
      ¬ c'.Holds i (.flow f) → (c'.db.applyAll before).segmentsOf f = [] := by
    intro before after f hw hdel hf
    have hcon : f ∈ c'.condemned i := by
      rcases hflowWrites _ hdel f rfl with h1 | h1
      · exact absurd h1 hf
      · exact h1.2
    have hnil := hc'.condemned i f hcon
    rw [segmentsOf_applyAll, rowsAfter_eq_self Core.segmentsOf_flowId, hnil]
    intro w hwb ht
    rcases hflowWrites w (by rw [hw]; exact List.mem_append_left _ hwb) f ht with h1 | h1
    · exact absurd h1 hf
    · exact ⟨h1.1, hnil⟩
  constructor
  · exact h.inTransaction
  · exact hflowWrites
  · exact fun w hw o ht => (hobj o).mpr (h.objectWrites w hw o ht)
  · exact fun f hf => (hrows f hf).1 ▸ h.rows f ((hflow f).mp hf)
  · exact fun o obj ho hget => h.object o obj ((hobj o).mp ho) ((hobject o ho).1 ▸ hget)
  · intro o f ho hf
    rw [(hobject o ho).1, (hobject o ho).2]
    exact h.refsOther o f ((hobj o).mp ho) (fun hh => hf ((hflow f).mpr hh))
  · intro f o hf ho
    rw [(hrows f hf).1, (hrows f hf).2]
    exact h.namesOther f o ((hflow f).mp hf) (fun hh => ho ((hobj o).mpr hh))
  · intro f o hf ho
    rw [(hrows f hf).1, (hrows f hf).2]
    exact h.namesKept f o ((hflow f).mp hf) (fun hh => ho ((hobj o).mpr hh))
  · intro f o hf ho
    rw [(hrows f hf).1, (hobject o ho).1]
    exact h.listed f o ((hflow f).mp hf) ((hobj o).mp ho)
  · intro f o hf ho
    rw [(hrows f hf).1, (hobject o ho).1]
    exact h.listedOnly f o ((hflow f).mp hf) ((hobj o).mp ho)
  · intro before f after hw
    by_cases hf : c'.Holds i (.flow f)
    · rw [segmentsOf_applyAll, (hrows f hf).2, ← segmentsOf_applyAll]
      exact h.deleted before f after hw
    · exact hempty before _ f hw (by rw [hw]; simp) hf
  · intro f hdel
    by_cases hf : c'.Holds i (.flow f)
    · rw [(hrows f hf).1]
      exact h.gone f hdel
    · exact hempty l.writes [] f (by simp) hdel hf

theorem consistent (h : TxInv mt i clean c l) (hc : c.Inv mt) : Consistent mt (c.view l) where
  rows f := by
    by_cases hf : c.Holds i (.flow f)
    · exact h.rows f hf
    · rw [h.view_rows hc hf]
      exact hc.consistent.rows f
  object o obj hget := by
    by_cases ho : c.Holds i (.object o)
    · exact h.object o obj ho hget
    · rw [h.view_object ho] at hget
      exact hc.consistent.object o obj hget
  refs f o := by
    by_cases hf : c.Holds i (.flow f)
    · by_cases ho : c.Holds i (.object o)
      · exact ⟨h.listedOnly f o hf ho (by simp), h.listed f o hf ho⟩
      · rw [h.view_object ho, hc.consistent.refs]
        exact ⟨h.namesKept f o hf ho (by simp), h.namesOther f o hf ho⟩
    · rw [h.view_rows hc hf, ← hc.consistent.refs]
      by_cases ho : c.Holds i (.object o)
      · exact h.refsOther o f ho hf
      · rw [h.view_object ho]

theorem lock (h : TxInv mt i dirty c l) (hc : c.Inv mt) {locks : Lock → Option SessionId}
    (hmono : ∀ k, c.Holds i k → locks k = some i) : TxInv mt i dirty { c with locks } l := by
  -- what was not held before is seen as committed, where the invariant applies
  have hrows : ∀ f, ¬ c.Holds i (.flow f) →
      (c.view l).segmentsOf f = c.db.segmentsOf f := fun f => h.view_rows hc
  have hobj : ∀ o, ¬ c.Holds i (.object o) →
      (c.view l).objects.get o = c.db.objects.get o := fun o => h.view_object
  have hrefs : ∀ f o, ¬ c.Holds i (.flow f) ∨ ¬ c.Holds i (.object o) → ¬ dirty f o →
      (f ∈ refsOf ((c.view l).objects.get o) ↔ NamesObject ((c.view l).segmentsOf f) o) := by
    intro f o hnew hd
    by_cases hf : c.Holds i (.flow f)
    · have ho := hnew.resolve_left (not_not.mpr hf)
      rw [hobj o ho, hc.consistent.refs]
      exact ⟨h.namesKept f o hf ho hd, h.namesOther f o hf ho⟩
    · rw [hrows f hf, ← hc.consistent.refs]
      by_cases ho : c.Holds i (.object o)
      · exact h.refsOther o f ho hf
      · rw [hobj o ho]
  constructor
  · exact h.inTransaction
  · exact fun w hw f ht => (h.flowWrites w hw f ht).imp_left (hmono _)
  · exact fun w hw o ht => hmono _ (h.objectWrites w hw o ht)
  · intro f _
    show RowsOk mt ((c.view l).segmentsOf f)
    by_cases hf : c.Holds i (.flow f)
    · exact h.rows f hf
    · rw [hrows f hf]
      exact hc.consistent.rows f
  · intro o obj _ hget
    change (c.view l).objects.get o = some obj at hget
    by_cases ho : c.Holds i (.object o)
    · exact h.object o obj ho hget
    · rw [hobj o ho] at hget
      exact hc.consistent.object o obj hget
  · intro o f _ hf
    show f ∈ refsOf ((c.view l).objects.get o) ↔ _
    by_cases ho : c.Holds i (.object o)
    · exact h.refsOther o f ho (fun hh => hf (hmono _ hh))
    · rw [hobj o ho]
  · intro f o _ ho hn
    change NamesObject ((c.view l).segmentsOf f) o at hn
    by_cases hf : c.Holds i (.flow f)
    · exact h.namesOther f o hf (fun hh => ho (hmono _ hh)) hn
    · rwa [hrows f hf] at hn
  · intro f o _ ho hd hn
    show NamesObject ((c.view l).segmentsOf f) o
    by_cases hf : c.Holds i (.flow f)
    · exact h.namesKept f o hf (fun hh => ho (hmono _ hh)) hd hn
    · rwa [hrows f hf]
  · intro f o _ _ hn
    change NamesObject ((c.view l).segmentsOf f) o at hn
    show f ∈ refsOf ((c.view l).objects.get o)
    by_cases hf : c.Holds i (.flow f)
    · by_cases ho : c.Holds i (.object o)
      · exact h.listed f o hf ho hn
      · rw [hobj o ho, hc.consistent.refs]
        exact h.namesOther f o hf ho hn
    · rw [hrows f hf, ← hc.consistent.refs] at hn
      by_cases ho : c.Holds i (.object o)
      · exact (h.refsOther o f ho hf).mpr hn
      · rwa [hobj o ho]
  · intro f o _ _ hd hn
    change f ∈ refsOf ((c.view l).objects.get o) at hn
    show NamesObject ((c.view l).segmentsOf f) o
    by_cases hnew : c.Holds i (.flow f) ∧ c.Holds i (.object o)
    · exact h.listedOnly f o hnew.1 hnew.2 hd hn
    · exact (hrefs f o (not_and_or.mp hnew) hd).mp hn
  · exact h.deleted
  · exact h.gone

variable {ws : List Write}

theorem deleted_push (h : TxInv mt i dirty c l)
    (hws : ∀ f, .deleteFlow f ∉ ws) {before after : List Write}
    (hw : l.writes ++ ws = before ++ .deleteFlow f :: after) :
    (c.db.applyAll before).segmentsOf f = [] := by
  rcases List.append_eq_append_iff.mp hw with ⟨e, -, he⟩ | ⟨e, he, hrest⟩
  · exact absurd (he ▸ by simp : Write.deleteFlow f ∈ ws) (hws f)
  · cases e with
    | nil =>
      rw [List.nil_append] at hrest
      exact absurd (hrest ▸ by simp : Write.deleteFlow f ∈ ws) (hws f)
    | cons x e =>
      rw [List.cons_append, List.cons.injEq] at hrest
      exact h.deleted before f e (by rw [he, hrest.1])

theorem push_neutral (h : TxInv mt i dirty c l)
    (hf : ∀ w ∈ ws, ∀ f, ¬ w.TouchesFlow f) (ho : ∀ w ∈ ws, ∀ o, ¬ w.TouchesObject o) :
    TxInv mt i dirty c (l.push ws) := by
  have hrows : ∀ f, (c.view (l.push ws)).segmentsOf f = (c.view l).segmentsOf f := by
    intro f
    rw [Core.view_push, segmentsOf_applyAll]
    exact rowsAfter_eq_self Core.segmentsOf_flowId fun w hw ht => absurd ht (hf w hw f)
  have hobj : ∀ o, (c.view (l.push ws)).objects.get o = (c.view l).objects.get o := by
    intro o
    rw [Core.view_push, objects_get_applyAll]
    exact objectAfter_of_not_touches (fun w hw => ho w hw o) _
  have hdel : ∀ f, .deleteFlow f ∉ ws := fun f hm => hf _ hm f rfl
  constructor
  · exact h.inTransaction
  · intro w hw f ht
    rcases List.mem_append.mp hw with hw | hw
    · exact h.flowWrites w hw f ht
    · exact absurd ht (hf w hw f)
  · intro w hw o ht
    rcases List.mem_append.mp hw with hw | hw
    · exact h.objectWrites w hw o ht
    · exact absurd ht (ho w hw o)
  · exact fun f hh => hrows f ▸ h.rows f hh
  · exact fun o obj hh hget => h.object o obj hh (hobj o ▸ hget)
  · exact fun o f hh hh' => hobj o ▸ h.refsOther o f hh hh'
  · exact fun f o hh hh' => hrows f ▸ h.namesOther f o hh hh'
  · exact fun f o hh hh' hd => hrows f ▸ h.namesKept f o hh hh' hd
  · exact fun f o hh hh' => hrows f ▸ hobj o ▸ h.listed f o hh hh'
  · exact fun f o hh hh' hd => hrows f ▸ hobj o ▸ h.listedOnly f o hh hh' hd
  · exact fun before f after hw => h.deleted_push hdel hw
  · intro f hm
    rw [hrows]
    exact h.gone f ((List.mem_append.mp hm).resolve_right (hdel f))

variable {dirty' : FlowId → ObjectId → Prop}

theorem push_object (h : TxInv mt i dirty c l) {w : Write} {new : Option MediaObjectRecord}
    (hw : w.onObject o ((c.view l).objects.get o) = new)
    (hflow : ∀ f, ¬ w.TouchesFlow f) (htouch : ∀ o', w.TouchesObject o' → o' = o)
    (hheld : c.Holds i (.object o)) (hok : ∀ obj, new = some obj → ObjectOk mt obj)
    (hother : ∀ g, ¬ c.Holds i (.flow g) →
      (g ∈ refsOf new ↔ g ∈ refsOf ((c.view l).objects.get o)))
    (hlisted : ∀ f, c.Holds i (.flow f) → NamesObject ((c.view l).segmentsOf f) o →
      f ∈ refsOf new) (hlistedOnly : ∀ f, c.Holds i (.flow f) → ¬ dirty' f o → f ∈ refsOf new →
      NamesObject ((c.view l).segmentsOf f) o)
    (hdirty : ∀ f o', o' ≠ o → dirty f o' → dirty' f o') : TxInv mt i dirty' c (l.push [w]) := by
  have hrows : ∀ f, (c.view (l.push [w])).segmentsOf f = (c.view l).segmentsOf f := by
    intro f
    rw [Core.view_push, segmentsOf_applyAll]
    exact rowsAfter_eq_self Core.segmentsOf_flowId fun w' hw' ht =>
      absurd (List.mem_singleton.mp hw' ▸ ht) (hflow f)
  have hobjSelf : (c.view (l.push [w])).objects.get o = new := by
    rw [Core.view_push, objects_get_applyAll]
    exact hw
  have hobj : ∀ o', o' ≠ o →
      (c.view (l.push [w])).objects.get o' = (c.view l).objects.get o' := by
    intro o' hne
    rw [Core.view_push, objects_get_applyAll]
    refine objectAfter_of_not_touches (fun w' hw' ht => hne ?_) _
    obtain rfl := List.mem_singleton.mp hw'
    exact htouch o' ht
  have hdel : ∀ f, .deleteFlow f ∉ [w] := fun f hm =>
    hflow f (List.mem_singleton.mp hm ▸ rfl)
  constructor
  · exact h.inTransaction
  · intro w' hw' f ht
    rcases List.mem_append.mp hw' with hw' | hw'
    · exact h.flowWrites w' hw' f ht
    · exact absurd (List.mem_singleton.mp hw' ▸ ht) (hflow f)
  · intro w' hw' o' ht
    rcases List.mem_append.mp hw' with hw' | hw'
    · exact h.objectWrites w' hw' o' ht
    · obtain rfl := List.mem_singleton.mp hw'
      rw [htouch o' ht]
      exact hheld
  · exact fun f hh => hrows f ▸ h.rows f hh
  · intro o' obj hh hget
    by_cases hoo : o' = o
    · subst hoo
      exact hok obj (hobjSelf ▸ hget)
    · exact h.object o' obj hh (hobj o' hoo ▸ hget)
  · intro o' f hh hf
    by_cases hoo : o' = o
    · subst hoo
      rw [hobjSelf, hother f hf]
      exact h.refsOther o' f hh hf
    · rw [hobj o' hoo]
      exact h.refsOther o' f hh hf
  · exact fun f o' hf hh => hrows f ▸ h.namesOther f o' hf hh
  · intro f o' hf hh hd
    rw [hrows]
    have hoo : o' ≠ o := fun he => hh (he ▸ hheld)
    exact h.namesKept f o' hf hh (fun hd' => hd (hdirty f o' hoo hd'))
  · intro f o' hf hh
    rw [hrows]
    by_cases hoo : o' = o
    · subst hoo
      rw [hobjSelf]
      exact hlisted f hf
    · rw [hobj o' hoo]
      exact h.listed f o' hf hh
  · intro f o' hf hh hd
    rw [hrows]
    by_cases hoo : o' = o
    · subst hoo
      rw [hobjSelf]
      exact hlistedOnly f hf hd
    · rw [hobj o' hoo]
      exact h.listedOnly f o' hf hh (fun hd' => hd (hdirty f o' hoo hd'))
  · exact fun before f after hw' => h.deleted_push hdel hw'
  · intro f hm
    rw [hrows]
    exact h.gone f ((List.mem_append.mp hm).resolve_right (hdel f))

theorem tidy (h : TxInv mt i dirty c l)
    (hfix : ∀ f o, c.Holds i (.flow f) → dirty f o → dirty' f o ∨
      c.Holds i (.object o) ∧ (f ∈ refsOf ((c.view l).objects.get o) →
        NamesObject ((c.view l).segmentsOf f) o)) : TxInv mt i dirty' c l :=
  { h with
    namesKept := by
      intro f o hf ho hd hn
      refine h.namesKept f o hf ho (fun hd' => ?_) hn
      rcases hfix f o hf hd' with h1 | h1
      · exact hd h1
      · exact ho h1.1
    listedOnly := by
      intro f o hf ho hd hn
      by_cases hd' : dirty f o
      · rcases hfix f o hf hd' with h1 | h1
        · exact absurd h1 hd
        · exact h1.2 hn
      · exact h.listedOnly f o hf ho hd' hn }

theorem mem_rowsAfter_deleteSegment {rows deleted : List SegmentRow}
    {x : SegmentRow} : x ∈ rowsAfter f (deleted.map .deleteSegment) rows ↔
      x ∈ rows ∧ ∀ r ∈ deleted, x.key ≠ r.key := by
  induction deleted generalizing rows with
  | nil => simp [rowsAfter]
  | cons r rs ih =>
    show x ∈ rowsAfter f (rs.map .deleteSegment) (Write.onRows f rows (.deleteSegment r)) ↔ _
    rw [ih]
    simp [Write.onRows, and_assoc]

theorem push_deleteSegments (h : TxInv mt i dirty c l)
    (hheld : c.Holds i (.flow f)) {deleted : List SegmentRow}
    (hdel : ∀ row ∈ deleted, row ∈ (c.view l).segmentsOf f) (hdirty : ∀ g o, dirty g o → dirty' g o)
    (hnamed : ∀ row ∈ deleted, ∀ o, row.record.Names o → dirty' f o) :
    TxInv mt i dirty' c (l.push (deleted.map .deleteSegment)) := by
  set ws := deleted.map Write.deleteSegment with hws
  have hmem : ∀ g x, x ∈ (c.view (l.push ws)).segmentsOf g ↔
      x ∈ (c.view l).segmentsOf g ∧ ∀ r ∈ deleted, x.key ≠ r.key := by
    intro g x
    rw [Core.view_push, segmentsOf_applyAll, hws, mem_rowsAfter_deleteSegment]
  have hobj : ∀ o, (c.view (l.push ws)).objects.get o = (c.view l).objects.get o := by
    intro o
    rw [Core.view_push, objects_get_applyAll]
    refine objectAfter_of_not_touches (fun w hw => ?_) _
    obtain ⟨r, -, rfl⟩ := List.mem_map.mp hw
    simp [Write.TouchesObject]
  -- a row that is not one of the deleted ones stays
  have hstay : ∀ g x, x ∈ (c.view l).segmentsOf g → x ∉ deleted →
      x ∈ (c.view (l.push ws)).segmentsOf g := by
    intro g x hx hnot
    refine (hmem g x).mpr ⟨hx, fun r hr hkey => hnot ?_⟩
    have h1 := (Database.mem_segmentsOf.mp hx).1
    have h2 := (Database.mem_segmentsOf.mp (hdel r hr)).1
    rw [(c.view l).segments.eq_of_key_eq h1 h2 hkey]
    exact hr
  have hsub : ∀ g o, NamesObject ((c.view (l.push ws)).segmentsOf g) o →
      NamesObject ((c.view l).segmentsOf g) o := by
    rintro g o ⟨x, hx, hn⟩
    exact ⟨x, ((hmem g x).mp hx).1, hn⟩
  have hkeep : ∀ g o, ¬ dirty' g o → NamesObject ((c.view l).segmentsOf g) o →
      NamesObject ((c.view (l.push ws)).segmentsOf g) o := by
    rintro g o hd ⟨x, hx, hn⟩
    refine ⟨x, hstay g x hx (fun hmd => hd ?_), hn⟩
    have hg : f = g := (Core.segmentsOf_flowId x (hdel x hmd)).symm.trans
      (Core.segmentsOf_flowId x hx)
    exact hg ▸ hnamed x hmd o hn
  have hnodel : ∀ g, .deleteFlow g ∉ ws := by simp [hws]
  constructor
  · exact h.inTransaction
  · intro w hw g ht
    rcases List.mem_append.mp hw with hw | hw
    · exact h.flowWrites w hw g ht
    · obtain ⟨r, hr, rfl⟩ := List.mem_map.mp hw
      have hg : f = g := (Core.segmentsOf_flowId r (hdel r hr)).symm.trans ht
      exact .inl (hg ▸ hheld)
  · intro w hw o ht
    rcases List.mem_append.mp hw with hw | hw
    · exact h.objectWrites w hw o ht
    · obtain ⟨r, -, rfl⟩ := List.mem_map.mp hw
      exact absurd ht (by simp [Write.TouchesObject])
  · exact fun g hg => (h.rows g hg).subset fun x hx => ((hmem g x).mp hx).1
  · exact fun o obj ho hget => h.object o obj ho (hobj o ▸ hget)
  · exact fun o g ho hg => hobj o ▸ h.refsOther o g ho hg
  · exact fun g o hg ho hn => h.namesOther g o hg ho (hsub g o hn)
  · exact fun g o hg ho hd hn =>
      hkeep g o hd (h.namesKept g o hg ho (fun hd' => hd (hdirty g o hd')) hn)
  · intro g o hg ho hn
    rw [hobj]
    exact h.listed g o hg ho (hsub g o hn)
  · intro g o hg ho hd hn
    rw [hobj] at hn
    exact hkeep g o hd (h.listedOnly g o hg ho (fun hd' => hd (hdirty g o hd')) hn)
  · exact fun before g after hw => h.deleted_push hnodel hw
  · intro g hm
    have hnil := h.gone g ((List.mem_append.mp hm).resolve_right (hnodel g))
    refine List.eq_nil_iff_forall_not_mem.mpr fun x hx => ?_
    have := ((hmem g x).mp hx).1
    rw [hnil] at this
    exact absurd this (by simp)

variable {row : SegmentRow}

theorem view_saveSegment (h : TxInv mt i dirty c l)
    (hheld : c.Holds i (.flow row.record.flowId)) (hrow : RowOk mt row)
    (hapart : ∀ x ∈ (c.view l).segmentsOf row.record.flowId, row.Apart x) :
    (c.view (l.push [.saveSegment row])).segmentsOf row.record.flowId =
      (c.view l).segmentsOf row.record.flowId ++ [row] := by
  rw [Core.view_push, segmentsOf_applyAll]
  show Write.onRows _ ((c.view l).segmentsOf row.record.flowId) (.saveSegment row) = _
  rw [Write.onRows, if_pos rfl, List.filter_eq_self.mpr fun x hx => ?_]
  have := hrow.key_ne ((h.rows _ hheld).row x hx) (hapart x hx)
  simpa using this.symm

theorem push_saveSegment (h : TxInv mt i dirty c l)
    (hheld : c.Holds i (.flow row.record.flowId)) (hrow : RowOk mt row)
    (hapart : ∀ x ∈ (c.view l).segmentsOf row.record.flowId, row.Apart x)
    (hobjects : ∀ o, row.record.Names o → c.Holds i (.object o) ∧
      row.record.flowId ∈ refsOf ((c.view l).objects.get o))
    (hnodel : .deleteFlow row.record.flowId ∉ l.writes) :
    TxInv mt i dirty c (l.push [.saveSegment row]) := by
  have hrowsSelf := h.view_saveSegment hheld hrow hapart
  set f := row.record.flowId with hf
  have hrows : ∀ g, g ≠ f → (c.view (l.push [.saveSegment row])).segmentsOf g =
      (c.view l).segmentsOf g := by
    intro g hg
    rw [Core.view_push, segmentsOf_applyAll]
    show Write.onRows g ((c.view l).segmentsOf g) (.saveSegment row) = _
    rw [Write.onRows, if_neg (fun he => hg he.symm)]
  have hobj : ∀ o, (c.view (l.push [.saveSegment row])).objects.get o =
      (c.view l).objects.get o := by
    intro o
    rw [Core.view_push, objects_get_applyAll]
    rfl
  have hnames : ∀ g o, NamesObject ((c.view (l.push [.saveSegment row])).segmentsOf g) o ↔
      NamesObject ((c.view l).segmentsOf g) o ∨ g = f ∧ row.record.Names o := by
    intro g o
    by_cases hg : g = f
    · subst hg
      rw [hrowsSelf]
      simp [NamesObject, or_and_right, exists_or]
    · rw [hrows g hg]
      simp [hg]
  have hnodel' : ∀ g, .deleteFlow g ∉ [Write.saveSegment row] := by simp
  constructor
  · exact h.inTransaction
  · intro w hw g ht
    rcases List.mem_append.mp hw with hw | hw
    · exact h.flowWrites w hw g ht
    · obtain rfl := List.mem_singleton.mp hw
      exact .inl (ht ▸ hheld)
  · intro w hw o ht
    rcases List.mem_append.mp hw with hw | hw
    · exact h.objectWrites w hw o ht
    · obtain rfl := List.mem_singleton.mp hw
      exact absurd ht (by simp [Write.TouchesObject])
  · intro g hg
    by_cases hgf : g = f
    · subst hgf
      rw [hrowsSelf]
      refine ⟨fun x hx => ?_, fun x hx y hy hne => ?_⟩
      · rcases List.mem_append.mp hx with hx | hx
        · exact (h.rows _ hg).row x hx
        · exact List.mem_singleton.mp hx ▸ hrow
      · rcases List.mem_append.mp hx with hx | hx <;>
          rcases List.mem_append.mp hy with hy | hy
        · exact (h.rows _ hg).apart x hx y hy hne
        · exact List.mem_singleton.mp hy ▸ (hapart x hx).symm
        · exact List.mem_singleton.mp hx ▸ hapart y hy
        · exact absurd ((List.mem_singleton.mp hx).trans (List.mem_singleton.mp hy).symm) hne
    · rw [hrows g hgf]
      exact h.rows g hg
  · exact fun o obj ho hget => h.object o obj ho (hobj o ▸ hget)
  · exact fun o g ho hg => hobj o ▸ h.refsOther o g ho hg
  · intro g o hg ho hn
    rcases (hnames g o).mp hn with hn | ⟨-, hn⟩
    · exact h.namesOther g o hg ho hn
    · exact absurd (hobjects o hn).1 ho
  · exact fun g o hg ho hd hn => (hnames g o).mpr (.inl (h.namesKept g o hg ho hd hn))
  · intro g o hg ho hn
    rw [hobj]
    rcases (hnames g o).mp hn with hn | ⟨hgf, hn⟩
    · exact h.listed g o hg ho hn
    · exact hgf ▸ (hobjects o hn).2
  · intro g o hg ho hd hn
    rw [hobj] at hn
    exact (hnames g o).mpr (.inl (h.listedOnly g o hg ho hd hn))
  · exact fun before g after hw => h.deleted_push hnodel' hw
  · intro g hm
    have hm' := (List.mem_append.mp hm).resolve_right (hnodel' g)
    have hgf : g ≠ f := fun he => hnodel (he ▸ hm')
    rw [hrows g hgf]
    exact h.gone g hm'

theorem push_deleteFlow (h : TxInv mt i dirty c l) (hheld : c.Holds i (.flow f) ∨ f ∈ c.condemned i)
    (hnil : (c.view l).segmentsOf f = []) : TxInv mt i dirty c (l.push [.deleteFlow f]) := by
  have hrows : ∀ g, (c.view (l.push [.deleteFlow f])).segmentsOf g =
      (c.view l).segmentsOf g := by
    intro g
    rw [Core.view_push, segmentsOf_applyAll]
    refine rowsAfter_eq_self Core.segmentsOf_flowId fun w hw ht => ?_
    obtain rfl := List.mem_singleton.mp hw
    have hg : f = g := ht
    subst hg
    exact ⟨rfl, hnil⟩
  have hobj : ∀ o, (c.view (l.push [.deleteFlow f])).objects.get o =
      (c.view l).objects.get o := by
    intro o
    rw [Core.view_push, objects_get_applyAll]
    rfl
  constructor
  · exact h.inTransaction
  · intro w hw g ht
    rcases List.mem_append.mp hw with hw | hw
    · exact h.flowWrites w hw g ht
    · obtain rfl := List.mem_singleton.mp hw
      have hg : f = g := ht
      subst hg
      exact hheld.imp_right fun hc => ⟨rfl, hc⟩
  · intro w hw o ht
    rcases List.mem_append.mp hw with hw | hw
    · exact h.objectWrites w hw o ht
    · obtain rfl := List.mem_singleton.mp hw
      exact absurd ht (by simp [Write.TouchesObject])
  · exact fun g hg => hrows g ▸ h.rows g hg
  · exact fun o obj ho hget => h.object o obj ho (hobj o ▸ hget)
  · exact fun o g ho hg => hobj o ▸ h.refsOther o g ho hg
  · exact fun g o hg ho => hrows g ▸ h.namesOther g o hg ho
  · exact fun g o hg ho hd => hrows g ▸ h.namesKept g o hg ho hd
  · exact fun g o hg ho => hrows g ▸ hobj o ▸ h.listed g o hg ho
  · exact fun g o hg ho hd => hrows g ▸ hobj o ▸ h.listedOnly g o hg ho hd
  · intro before g after hw
    rcases List.append_eq_append_iff.mp hw with ⟨e, hbefore, he⟩ | ⟨e, he, hrest⟩
    · -- the new write itself
      cases e with
      | nil =>
        rw [List.nil_append, List.cons.injEq] at he
        obtain rfl : f = g := by simpa using he.1
        rw [hbefore, List.append_nil]
        exact hnil
      | cons x e => simp at he
    · cases e with
      | nil =>
        rw [List.nil_append, List.cons.injEq] at hrest
        obtain rfl : g = f := by simpa using hrest.1
        rw [List.append_nil] at he
        rw [← he]
        exact hnil
      | cons x e =>
        rw [List.cons_append, List.cons.injEq] at hrest
        exact h.deleted before g e (by rw [he, hrest.1])
  · intro g hm
    rw [hrows]
    rcases List.mem_append.mp hm with hm | hm
    · exact h.gone g hm
    · obtain rfl : g = f := by simpa using hm
      exact hnil

end TxInv

end Tamoss
