/-
  **Rules for transactions, for statements outside one, and for statements on segments
  and media objects.**
-/
import Tamoss.Store.Protocol
import Mathlib.Data.List.Dedup

namespace Tamoss

open Lib.Machine

variable {mt : MediaTimestamp} {fc : FlowContract} {noDeletes : Prop} {i : SessionId}
variable {dirty : FlowId → ObjectId → Prop} {A F : CoreAssertion}
variable {E : PyError → Session → Prop}

variable {f : FlowId} {db : Database}

theorem mem_flowDeletions {ws : List Write}
    {rows : List SegmentRow} (h : (f, rows) ∈ db.flowDeletions ws) :
    ∃ before after, ws = before ++ .deleteFlow f :: after ∧
      rows = (db.applyAll before).segmentsOf f := by
  induction ws generalizing db with
  | nil => simp [Database.flowDeletions] at h
  | cons w ws ih =>
    rcases List.mem_append.mp h with h | h
    · cases w with
      | deleteFlow g =>
        dsimp only at h
        split at h
        · obtain ⟨rfl, rfl⟩ := Prod.mk.inj (List.mem_singleton.mp h)
          exact ⟨[], ws, rfl, rfl⟩
        · cases h
      | _ => cases h
    · obtain ⟨before, after, rfl, rfl⟩ := ih h
      exact ⟨w :: before, after, rfl, rfl⟩

theorem Consistent.listing_eq_nil (h : Consistent mt db)
    (hnil : db.segmentsOf f = []) : db.listing f = [] := by
  rw [Database.listing, List.map_eq_nil_iff, List.filter_eq_nil_iff]
  intro o ho hf
  have hget : db.objects.get o.id = some o := Lib.Table.get_eq_some.mpr ⟨ho, rfl⟩
  have hnames := (h.refs f o.id).mp (by rw [hget]; simpa using hf)
  rw [hnil] at hnames
  exact not_namesObject_nil _ hnames

variable {j : SessionId}

theorem Core.Rely.release (w : World) (hj : j ≠ i) : Core.Rely j w.core (w.release i).core := by
  refine ⟨fun k => ?_, fun _ _ => rfl, fun _ _ => rfl, rfl, ?_⟩
  · show (if w.locks k = some i then none else w.locks k) = some j ↔ w.locks k = some j
    by_cases hk : w.locks k = some i
    · rw [if_pos hk, hk]
      simp [Ne.symm hj]
    · rw [if_neg hk]
  · show Function.update w.history.condemned i [] j = _
    rw [Function.update_of_ne hj]
    rfl

variable {w : World}

theorem mem_condemned_release
    (h : f ∈ (w.release i).history.condemned j) : j ≠ i ∧ f ∈ w.history.condemned j := by
  change f ∈ Function.update w.history.condemned i [] j at h
  by_cases hj : j = i
  · subst hj
    rw [Function.update_self] at h
    cases h
  · rw [Function.update_of_ne hj] at h
    exact ⟨hj, h⟩

theorem StoreInv.not_condemned (h : StoreInv mt noDeletes w) (hq : noDeletes)
    : f ∉ w.history.condemned j := by
  rw [(h.quiet hq j).1]
  exact List.not_mem_nil

theorem StoreInv.release (h : StoreInv mt noDeletes w) (i : SessionId) :
    StoreInv mt noDeletes (w.release i) where
  core := ⟨h.core.consistent, fun j f hf => h.core.condemned j f (mem_condemned_release hf).2⟩
  deletions := h.deletions
  quiet hq j := by
    refine ⟨List.eq_nil_iff_forall_not_mem.mpr fun f hf => ?_, (h.quiet hq j).2⟩
    exact h.not_condemned hq (mem_condemned_release hf).2

variable {l : Session}

theorem StoreInv.commit (h : StoreInv mt noDeletes w)
    (htx : TxInv mt i clean w.core l) (hspare : noDeletes ∨ CommitSpares i w l) :
    StoreInv mt noDeletes ((w.commit i l.writes).release i) := by
  have hcons : Consistent mt (w.db.applyAll l.writes) := htx.consistent h.core
  refine ⟨⟨hcons, fun j f hf => ?_⟩, fun d hd => ?_, fun hq j => ⟨?_, (h.quiet hq j).2⟩⟩
  · obtain ⟨hj, hf⟩ := mem_condemned_release hf
    rcases hspare with hq | hspare
    · exact absurd hf (h.not_condemned hq)
    · -- the rows committed for a condemned flow were there before: there are none
      refine List.eq_nil_iff_forall_not_mem.mpr fun row hrow => ?_
      have hold : row ∈ w.core.db.segmentsOf f := hspare j hj f hf row hrow
      rw [h.core.condemned j f hf] at hold
      cases hold
  · change d ∈ w.history.deletions ++ _ at hd
    rcases List.mem_append.mp hd with hd | hd
    · exact h.deletions d hd
    · obtain ⟨⟨f, rows⟩, hmem, rfl⟩ := List.mem_map.mp hd
      obtain ⟨before, after, hw, rfl⟩ := mem_flowDeletions hmem
      exact ⟨htx.deleted before f after hw,
        hcons.listing_eq_nil (htx.gone f (by rw [hw]; simp))⟩
  · refine List.eq_nil_iff_forall_not_mem.mpr fun f hf => ?_
    exact h.not_condemned hq (mem_condemned_release hf).2

theorem Core.Rely.commit (hi : w.core.Inv mt) (htx : TxInv mt i dirty w.core l) (hj : j ≠ i) :
    Core.Rely j w.core ((w.commit i l.writes).release i).core := by
  have hcommit : Core.Rely j w.core (w.commit i l.writes).core := by
    refine ⟨fun k => Iff.rfl, fun f hf => ?_, fun o ho => ?_, rfl, rfl⟩
    · refine htx.view_rows hi fun hh => hj ?_
      exact Option.some.inj (hf.symm.trans hh)
    · refine htx.view_object fun hh => hj ?_
      exact Option.some.inj (ho.symm.trans hh)
  exact hcommit.trans (Core.Rely.release _ hj)

namespace Spec

theorem begin (hF : Frame mt i F) :
    Spec mt fc noDeletes i (fun c l => l = .idle ∧ F c ⟨true, []⟩) (call .begin)
      (fun _ => InTx mt i clean F) E := by
  have hst : CoreAssertion.Stable mt i (fun c l => l = .idle ∧ F c ⟨true, []⟩) :=
    fun c c' l h hr hi => ⟨h.1, hF.stable c c' _ h.2 hr hi⟩
  refine statement hst (fun _ => InTx.stable hF) ?_
  intro w l hi hA ch r w' l' he _
  obtain ⟨rfl, hFw⟩ := hA
  simp only [exec, Option.some.injEq, Prod.mk.injEq] at he
  obtain ⟨-, rfl, rfl⟩ := he
  exact ⟨hi, fun j _ => Core.Rely.refl j _, TxInv.start hi.core rfl rfl, hFw⟩

theorem commit (hF : Frame mt i F) :
    Spec mt fc noDeletes i (InTx mt i clean F) (call .commit) (fun _ => AtRest) E := by
  refine statement (InTx.stable hF) (fun _ => CoreAssertion.Stable.local (· = .idle)) ?_
  intro w l hi hA ch r w' l' he hd
  simp only [exec, Option.some.injEq, Prod.mk.injEq] at he
  obtain ⟨-, rfl, rfl⟩ := he
  exact ⟨hi.commit hA.1 hd, fun j hj => Core.Rely.commit hi.core hA.1 hj, rfl⟩

theorem rollback : Spec mt fc noDeletes i Always (call .rollback) (fun _ => AtRest) E := by
  refine statement (CoreAssertion.Stable.local (fun _ => True))
    (fun _ => CoreAssertion.Stable.local (· = .idle)) ?_
  intro w l hi _ ch r w' l' he _
  simp only [exec, Option.some.injEq, Prod.mk.injEq] at he
  obtain ⟨-, rfl, rfl⟩ := he
  exact ⟨hi.release i, fun j hj => Core.Rely.release w hj, rfl⟩

/-- **Transactions.** A body that starts with nothing dirty and ends with nothing dirty
    may be run as a unit of work; an exception may come from any state of it. -/
theorem unitOfWork {α : Type} {body : App α} {R : α → Prop} (hF : Frame mt i F)
    (hbody : Spec mt fc noDeletes i (InTx mt i clean F) body
      (fun a => InTx mt i clean (fun _ _ => R a)) Always) :
    Spec mt fc noDeletes i (fun c l => l = .idle ∧ F c ⟨true, []⟩) (unitOfWork body)
      (fun a _ l => l = .idle ∧ R a) AtRest := by
  rw [unitOfWork_eq]
  refine Triple.bind (begin hF) fun _ => Triple.attempt hbody (fun a => ?_) (fun e => ?_)
  · have hcommit : R a → Spec mt fc noDeletes i (InTx mt i clean Always)
        (call .commit >>= fun _ => pure a) (fun a _ l => l = .idle ∧ R a)
        AtRest := fun ha => Triple.bind (commit .true) fun _ =>
      Triple.pure (CoreAssertion.Stable.local (· = .idle)).lift fun _ _ _ h => ⟨h, ha⟩
    exact (Triple.assume hcommit).pre fun w l _ h => ⟨h.2, h.1, trivial⟩
  · exact Triple.bind rollback fun _ => Triple.throw fun _ _ h => h

end Spec

variable (i) in
def Idle (P : Option Op → List FlowId → Prop) : CoreAssertion :=
  fun c l => l = .idle ∧ P (c.running i) (c.condemned i)

/-- Started idle the program ends idle, also with an exception. -/
abbrev IdleSpec (mt : MediaTimestamp) (fc : FlowContract) (noDeletes : Prop) (i : SessionId)
    {α : Type} (P : Option Op → List FlowId → Prop) (p : App α) : Prop :=
  Spec mt fc noDeletes i (Idle i P) p (fun _ _ l => l = .idle) (fun _ l => l = .idle)

variable {P : Option Op → List FlowId → Prop}

theorem Idle.stable : (Idle i P).Stable mt i :=
  fun c c' l h hr _ => ⟨h.1, by rw [hr.running, hr.condemned]; exact h.2⟩

variable {ws : List Write}

theorem flowDeletions_neutral (h : ∀ w ∈ ws, w.Neutral) (db : Database) :
    db.flowDeletions ws = [] := by
  refine List.eq_nil_iff_forall_not_mem.mpr fun ⟨f, rows⟩ hmem => ?_
  obtain ⟨before, after, rfl, -⟩ := mem_flowDeletions hmem
  exact h (.deleteFlow f) (by simp)

theorem StoreInv.commit_neutral {w : World} (h : StoreInv mt noDeletes w)
    (hws : ∀ w ∈ ws, w.Neutral) : StoreInv mt noDeletes (w.commit i ws) where
  core := by
    have hrows : ∀ f, (w.db.applyAll ws).segmentsOf f = w.db.segmentsOf f :=
      segmentsOf_applyAll_neutral hws w.db
    have hobj : ∀ o, (w.db.applyAll ws).objects.get o = w.db.objects.get o :=
      objects_get_applyAll_neutral hws w.db
    refine ⟨⟨fun f => ?_, fun o obj ho => ?_, fun f o => ?_⟩, fun j f hf => ?_⟩
    · exact (hrows f).symm ▸ h.core.consistent.rows f
    · exact h.core.consistent.object o obj ((hobj o) ▸ ho)
    · show f ∈ refsOf ((w.db.applyAll ws).objects.get o) ↔
        NamesObject ((w.db.applyAll ws).segmentsOf f) o
      rw [hrows, hobj]
      exact h.core.consistent.refs f o
    · exact (hrows f).trans (h.core.condemned j f hf)
  deletions d hd := by
    change d ∈ w.history.deletions ++ _ at hd
    rw [flowDeletions_neutral hws] at hd
    exact h.deletions d (by simpa using hd)
  quiet := h.quiet

theorem Core.Rely.commit_neutral {w : World} (hws : ∀ w ∈ ws, w.Neutral)
    (j : SessionId) : Core.Rely j w.core (w.commit i ws).core :=
  ⟨fun _ => Iff.rfl, fun f _ => segmentsOf_applyAll_neutral hws w.db f,
    fun o _ => objects_get_applyAll_neutral hws w.db o, rfl, rfl⟩

theorem segmentDeleteTimerange_eq {db : Database} {filter : SegmentDeleteFilter} :
    db.segmentDeleteTimerange mt filter = "()" ↔
      ∀ row ∈ db.segmentsOf filter.flowId, filter.selects row = false := by
  have hrows : db.segments.rows.filter filter.selects = [] ↔
      ∀ row ∈ db.segmentsOf filter.flowId, filter.selects row = false := by
    rw [List.filter_eq_nil_iff]
    refine ⟨fun h row hrow => ?_, fun h row hrow hsel => ?_⟩
    · simpa using h row (Database.mem_segmentsOf.mp hrow).1
    · have hflow : row.record.flowId = filter.flowId := by
        simp only [SegmentDeleteFilter.selects, Bool.and_eq_true, decide_eq_true_eq] at hsel
        exact hsel.1.1.1.1
      rw [h row (Database.mem_segmentsOf.mpr ⟨hrow, hflow⟩)] at hsel
      cases hsel
  rw [← hrows, Database.segmentDeleteTimerange]
  generalize db.segments.rows.filter filter.selects = rows
  cases rows with
  | nil => simp [timerangeFromBounds]
  | cons row rows =>
    simp only [List.map_cons, List.min?_cons', List.max?_cons', timerangeFromBounds,
      reduceCtorEq, iff_false]
    intro h
    split at h
    · exact absurd (congrArg (fun s => s.toList.head?) h) (by simp)
    · exact absurd (congrArg (fun s => s.toList.head?) h) (by simp)

theorem noteCondemned_of_ne {w : World} {l : Session}
    (h : ∀ f, w.running i ≠ some (.deleteFlow f)) (f : FlowId) (answer : String) :
    w.noteCondemned i f answer l = w := by
  unfold World.noteCondemned
  split
  · rename_i g hrun
    exact absurd hrun (h g)
  · rfl

theorem noteCondemned_of_inTransaction {w : World} {l : Session}
    (h : l.inTransaction = true) (f : FlowId) (answer : String) :
    w.noteCondemned i f answer l = w := by
  unfold World.noteCondemned
  split
  · exact if_neg fun hc => absurd h (by simp [hc.2.2])
  · rfl

theorem noteCondemned_deleteFlow {w : World} {f : FlowId}
    (h : w.running i = some (.deleteFlow f)) (answer : String) :
    w.noteCondemned i f answer .idle = if answer = "()" then
        { w with history := { w.history with
            condemned := Function.update w.history.condemned i
              (f :: w.history.condemned i) } }
      else w := by
  simp [World.noteCondemned, h, Session.idle]

variable {w w' : World}

theorem acquire_idle {k : Lock} (h : w.acquire i k .idle = some w') : w' = w := by
  simp only [World.acquire, Session.idle, Bool.false_eq_true, if_false] at h
  split at h
  · exact (Option.some.inj h).symm
  · split at h
    · exact (Option.some.inj h).symm
    · cases h

theorem submit_idle {l' : Session}
    (h : w.submit i ws .idle = (w', l')) : w' = w.commit i ws ∧ l' = .idle := by
  simp only [World.submit, Session.idle, Bool.false_eq_true, if_false, Prod.mk.injEq] at h
  exact ⟨h.1.symm, h.2.symm⟩

def Lock.OfCatalogue : Lock → Prop
  | .profile _ | .source _ => True
  | _ => False

variable {l l' : Session} {ch : Choice}

theorem exec_quiet {c : Call} (hc : c.Quiet) (hread : ¬ c.IsRead) {r : c.Resp}
    (h : exec mt i ch c w l = some (r, w', l')) :
    (w' = w ∧ l' = l) ∨ (∃ k : Lock, k.OfCatalogue ∧ w.acquire i k l = some w' ∧ l' = l) ∨
      ∃ ws : List Write, (∀ x ∈ ws, x.Side) ∧ w.submit i ws l = (w', l') := by
  have hlock : ∀ k : Lock, k.OfCatalogue →
      ((w.acquire i k l).map fun w => ((), w, l)) = some ((), w', l') →
      ∃ k : Lock, k.OfCatalogue ∧ w.acquire i k l = some w' ∧ l' = l := by
    intro k hk hmap
    obtain ⟨w₁, hacq, heq⟩ := Option.map_eq_some_iff.mp hmap
    cases heq
    exact ⟨k, hk, hacq, rfl⟩
  cases c with
  | lockProfile p => exact .inr (.inl (hlock (.profile p) trivial h))
  | lockSource s =>
    simp only [exec] at h
    split at h
    · exact .inr (.inl (hlock (.source s) trivial h))
    · cases h
      exact .inl ⟨rfl, rfl⟩
  | createProfile profile =>
    obtain ⟨-, hsub⟩ := Prod.mk.inj (Option.some.inj h)
    refine .inr (.inr ⟨_, ?_, hsub⟩)
    intro x hx
    split at hx <;> simp at hx
    subst hx
    exact ⟨trivial, by simp⟩
  | deleteProfile p =>
    obtain ⟨-, hsub⟩ := Prod.mk.inj (Option.some.inj h)
    refine .inr (.inr ⟨_, ?_, hsub⟩)
    intro x hx
    split at hx <;> simp at hx
    subst hx
    exact ⟨trivial, by simp⟩
  | write wr =>
    obtain ⟨-, hsub⟩ := Prod.mk.inj (Option.some.inj h)
    refine .inr (.inr ⟨[wr], ?_, hsub⟩)
    intro x hx
    obtain rfl := List.mem_singleton.mp hx
    cases x <;> simp_all [Call.Quiet, Call.IsRead, Write.Side, Write.Neutral]
  | _ => first | exact absurd trivial hread | exact absurd hc hread

namespace Spec

theorem autocommit {wr : Write} (hw : wr.Neutral) :
    Spec mt fc noDeletes i (Idle i P) (call (.write wr)) (fun _ => Idle i P) E := by
  refine statement Idle.stable (fun _ => Idle.stable) ?_
  intro w l hi hA ch r w' l' he _
  obtain ⟨rfl, hP⟩ := hA
  simp only [exec, World.submit, Session.idle, Bool.false_eq_true, if_false,
    Option.some.injEq, Prod.mk.injEq] at he
  obtain ⟨-, rfl, rfl⟩ := he
  have hws : ∀ x ∈ [wr], x.Neutral := by simpa using hw
  exact ⟨hi.commit_neutral hws, fun j _ => Core.Rely.commit_neutral hws j, rfl, hP⟩

theorem timerangeIdle (hP : ∀ op condemned, P op condemned → ∀ f, op ≠ some (.deleteFlow f))
    (filter : SegmentDeleteFilter) :
    Spec mt fc noDeletes i (Idle i P) (call (.segmentDeleteTimerange filter))
      (fun _ => Idle i P) E := by
  refine statement Idle.stable (fun _ => Idle.stable) ?_
  intro w l hi hA ch r w' l' he _
  obtain ⟨hres, hl⟩ := Prod.mk.inj (Option.some.inj he)
  obtain ⟨hw, rfl⟩ := Prod.mk.inj hl
  rw [noteCondemned_of_ne (hP _ _ hA.2)] at hw
  subst hw
  exact ⟨hi, fun j _ => Core.Rely.refl j _, hA⟩

theorem timerangeCondemns (hdel : ¬ noDeletes) (f : FlowId) :
    Spec mt fc noDeletes i (Idle i fun op _ => op = some (.deleteFlow f))
      (call (.segmentDeleteTimerange ⟨f, none, none, false, none⟩))
      (fun answer => Idle i fun _ condemned => answer = "()" → f ∈ condemned) E := by
  refine statement Idle.stable (fun _ => Idle.stable) ?_
  intro w l hi hA ch r w' l' he _
  obtain ⟨rfl, hrun⟩ := hA
  have hrun' : w.running i = some (.deleteFlow f) := hrun
  obtain ⟨hr, hl⟩ := Prod.mk.inj (Option.some.inj he)
  obtain ⟨hw, rfl⟩ := Prod.mk.inj hl
  rw [noteCondemned_deleteFlow hrun', hr] at hw
  by_cases hans : r = "()"
  · have hnil : w.db.segmentsOf f = [] := by
      rw [hans, segmentDeleteTimerange_eq] at hr
      refine List.eq_nil_iff_forall_not_mem.mpr fun row hrow => ?_
      have hflow := (Database.mem_segmentsOf.mp hrow).2
      have := hr row hrow
      simp [SegmentDeleteFilter.selects, hflow] at this
    rw [if_pos hans] at hw
    subst hw
    refine ⟨⟨⟨hi.core.consistent, fun j g hg => ?_⟩, hi.deletions, fun hq => absurd hq hdel⟩,
      fun j hj => ⟨fun _ => Iff.rfl, fun _ _ => rfl, fun _ _ => rfl, rfl, ?_⟩, rfl,
      fun _ => ?_⟩
    · change g ∈ Function.update w.history.condemned i (f :: w.history.condemned i) j at hg
      by_cases hj : j = i
      · subst hj
        rw [Function.update_self] at hg
        rcases List.mem_cons.mp hg with rfl | hg
        · exact hnil
        · exact hi.core.condemned j g hg
      · rw [Function.update_of_ne hj] at hg
        exact hi.core.condemned j g hg
    · show Function.update w.history.condemned i (f :: w.history.condemned i) j = _
      rw [Function.update_of_ne hj]
      rfl
    · show f ∈ Function.update w.history.condemned i (f :: w.history.condemned i) i
      simp
  · rw [if_neg hans] at hw
    subst hw
    exact ⟨hi, fun j _ => Core.Rely.refl j _, rfl, fun h => absurd h hans⟩

end Spec

variable (mt i) in
structure Memo (F : CoreAssertion) : Prop where
  stable : F.Stable mt i
  lock : ∀ c l locks, F c l → (∀ k, c.Holds i k → locks k = some i) → F { c with locks } l
  push : ∀ c l ws, F c l → (∀ w ∈ ws, ∀ request, w ≠ .saveDeleteRequest request) →
    F c (l.push ws)

theorem Memo.frame (h : Memo mt i F) : Frame mt i F :=
  ⟨h.stable, h.lock, fun c l ws hF hws => h.push c l ws hF fun w hw => (hws w hw).2⟩

theorem Memo.true : Memo mt i Always :=
  ⟨fun _ _ _ _ _ _ => trivial, fun _ _ _ _ _ => trivial, fun _ _ _ _ _ => trivial⟩

theorem Memo.holds (k : Lock) : Memo mt i (fun c _ => c.Holds i k) where
  stable := (Frame.holds k).stable
  lock _ _ _ h hm := hm k h
  push _ _ _ h _ := h

theorem Memo.and {G : CoreAssertion} (hF : Memo mt i F) (hG : Memo mt i G) :
    Memo mt i (fun c l => F c l ∧ G c l) where
  stable := hF.stable.and hG.stable
  lock c l locks h hm := ⟨hF.lock c l locks h.1 hm, hG.lock c l locks h.2 hm⟩
  push c l ws h hws := ⟨hF.push c l ws h.1 hws, hG.push c l ws h.2 hws⟩

namespace Spec

theorem write {wr : Write} {A' : CoreAssertion} (hA : A.Stable mt i) (hA' : A'.Stable mt i)
    (htx : ∀ c l, A c l → l.inTransaction = true)
    (h : ∀ c l, c.Inv mt → A c l → ((∃ f, wr = .deleteFlow f) → ¬ noDeletes) →
      A' c (l.push [wr])) : Spec mt fc noDeletes i A (call (.write wr)) (fun _ => A') E := by
  refine push hA (fun _ => hA') htx fun ch w l r w' l' hi hAw he hd =>
    ⟨[wr], by simpa [exec] using he, h w.core l hi hAw ?_⟩
  rintro ⟨f, rfl⟩
  exact hd

theorem timerange (hF : Frame mt i F) (filter : SegmentDeleteFilter) : Spec mt fc noDeletes i
      (InTx mt i dirty fun c l => F c l ∧ c.Holds i (.flow filter.flowId))
      (call (.segmentDeleteTimerange filter))
      (fun answer => InTx mt i dirty fun c l => F c l ∧ c.Holds i (.flow filter.flowId) ∧
        (answer = "()" →
          ∀ row ∈ (c.view l).segmentsOf filter.flowId, filter.selects row = false)) E := by
  refine statement (InTx.stable (hF.and (.holds _)))
    (fun answer => InTx.stable (hF.and (.rows filter.flowId fun rows => answer = "()" →
      ∀ row ∈ rows, filter.selects row = false))) ?_
  intro w l hi hA ch r w' l' he _
  obtain ⟨hans, hl⟩ := Prod.mk.inj (Option.some.inj he)
  obtain ⟨hw, rfl⟩ := Prod.mk.inj hl
  rw [noteCondemned_of_inTransaction hA.1.inTransaction] at hw
  subst hw
  refine ⟨hi, fun j _ => Core.Rely.refl j _, hA.1, hA.2.1, hA.2.2, fun hr => ?_⟩
  exact segmentDeleteTimerange_eq.mp (hans.trans hr)

end Spec

theorem SegmentRecord.mem_objectIds {s : SegmentRecord} (hinit : s.initObjectId ≠ some "")
    {o : ObjectId} : o ∈ s.objectIds ↔ s.Names o := by
  constructor
  · intro hmem
    rcases List.mem_cons.mp hmem with rfl | hmem
    · exact .inl rfl
    · exact .inr (Option.mem_toList.mp (List.mem_filter.mp hmem).1)
  · rintro (rfl | hn)
    · exact List.mem_cons_self
    · refine List.mem_cons_of_mem _ (List.mem_filter.mpr ⟨by simp [hn], ?_⟩)
      have : o ≠ "" := fun he => hinit (he ▸ hn)
      simpa using this

namespace Spec

theorem deleteSegmentBatch (hF : Memo mt i F) {cov : Prop} (filter : SegmentDeleteFilter)
    (hcov : cov → ¬ noDeletes ∧ ∀ c l, F c l → DeletesFlow i c l) (limit : Nat) :
    Spec mt fc noDeletes i (InTx mt i clean fun c l => F c l ∧ c.Holds i (.flow filter.flowId))
      (call (.deleteSegmentBatch filter limit)) (fun deleted => InTx mt i
        (fun g o => g = filter.flowId ∧ o ∈ deleted.flatMap SegmentRecord.objectIds)
        fun c l => F c l ∧ c.Holds i (.flow filter.flowId) ∧
          (cov → ∀ row ∈ (c.view l).segmentsOf filter.flowId, filter.selects row = true)) E := by
  refine push (InTx.stable (hF.and (.holds _)).frame)
    (fun _ => InTx.stable (hF.frame.and (.rows filter.flowId fun rows =>
      cov → ∀ row ∈ rows, filter.selects row = true)))
    (fun _ _ h => h.1.inTransaction) ?_
  intro ch w l r w' l' hi hA he hd
  set rows := (w.view l).segmentBatch filter limit ch.skip with hrows
  obtain ⟨hr, hl⟩ := Prod.mk.inj (Option.some.inj he)
  have hmem : ∀ row ∈ rows, row ∈ (w.core.view l).segmentsOf filter.flowId := by
    intro row hrow
    have := List.mem_of_mem_take hrow
    rw [mem_orderRows, List.mem_filter, Bool.and_eq_true] at this
    obtain ⟨hin, hsel, -⟩ := this
    simp only [SegmentDeleteFilter.selects, Bool.and_eq_true, decide_eq_true_eq] at hsel
    exact Database.mem_segmentsOf.mpr ⟨hin, hsel.1.1.1.1⟩
  have hview : ∀ g row, row ∈ ((w.core.view (l.push (rows.map .deleteSegment))).segmentsOf g)
      → row ∈ (w.core.view l).segmentsOf g := by
    intro g row hrow
    rw [Core.view_push, segmentsOf_applyAll, TxInv.mem_rowsAfter_deleteSegment] at hrow
    exact hrow.1
  refine ⟨rows.map .deleteSegment, hl, ?_, ?_, hA.2.2, ?_⟩
  · refine hA.1.push_deleteSegments hA.2.2 hmem (fun _ _ h => absurd h (by simp)) ?_
    intro row hrow o hnames
    refine ⟨rfl, List.mem_flatMap.mpr ⟨row.record, hr ▸ List.mem_map_of_mem hrow, ?_⟩⟩
    have hinit := ((hA.1.rows _ hA.2.2).row row (hmem row hrow)).init
    exact (SegmentRecord.mem_objectIds hinit).mpr hnames
  · refine hF.push _ _ _ hA.2.1 fun x hx => ?_
    obtain ⟨row, -, rfl⟩ := List.mem_map.mp hx
    simp
  · intro hc row hrow
    obtain ⟨hdel, hflow⟩ := hcov hc
    exact (hd.resolve_left hdel) (hflow _ _ hA.2.1) row (hview _ row hrow)

end Spec

theorem Session.push_push (l : Session) (ws ws' : List Write) :
    (l.push ws).push ws' = l.push (ws ++ ws') := by
  simp [Session.push]

variable {l : Session}

theorem TxInv.push_unreferenced {c : Core} (h : TxInv mt i clean c l)
    {w : Write} {o : ObjectId} {new : Option MediaObjectRecord}
    (hw : w.onObject o ((c.view l).objects.get o) = new)
    (hflow : ∀ f, ¬ w.TouchesFlow f) (htouch : ∀ o', w.TouchesObject o' → o' = o)
    (hheld : c.Holds i (.object o)) (hok : ∀ obj, new = some obj → ObjectOk mt obj)
    (hold : refsOf ((c.view l).objects.get o) = []) (hnew : refsOf new = []) :
    TxInv mt i clean c (l.push [w]) := by
  refine h.push_object hw hflow htouch hheld hok (fun g _ => by rw [hold, hnew])
    (fun f hf hn => ?_) (fun f _ _ hf => ?_) (fun _ _ _ h => h)
  · have := h.listed f o hf hheld hn
    rw [hold] at this
    cases this
  · rw [hnew] at hf
    cases hf

theorem TxInv.push_create {c : Core} (h : TxInv mt i clean c l) {objects : List MediaObjectRecord}
    (hheld : ∀ o ∈ objects, c.Holds i (.object o.id))
    (hnew : ∀ o ∈ objects, o.referencedByFlows = [] ∧ ObjectOk mt o)
    (hold : ∀ o ∈ objects, refsOf ((c.view l).objects.get o.id) = []) :
    TxInv mt i clean c (l.push (objects.map .saveObject)) := by
  induction objects generalizing l with
  | nil => simpa [Session.push] using h
  | cons o os ih =>
    have hget : ∀ o', (c.view (l.push [.saveObject o])).objects.get o' =
        if o.id = o' then some o else (c.view l).objects.get o' := by
      intro o'
      rw [Core.view_push, objects_get_applyAll]
      rfl
    have hstep : TxInv mt i clean c (l.push [.saveObject o]) := by
      have hw : Write.onObject o.id ((c.view l).objects.get o.id) (.saveObject o) =
          some o := by simp [Write.onObject]
      refine h.push_unreferenced hw
        (by simp [Write.TouchesFlow]) (fun o' ho' => ho'.symm) (hheld o (by simp)) ?_
        (hold o (by simp)) (hnew o (by simp)).1
      intro obj hobj
      obtain rfl := Option.some.inj hobj
      exact (hnew o (by simp)).2
    have := ih hstep (fun o' ho' => hheld o' (by simp [ho']))
      (fun o' ho' => hnew o' (by simp [ho'])) (fun o' ho' => by
        rw [hget]
        split
        · exact (hnew o (by simp)).1
        · exact hold o' (by simp [ho']))
    rwa [Session.push_push] at this

variable (i) in
def HoldsObjects (ids : List ObjectId) : CoreAssertion :=
  fun c _ => ∀ o ∈ ids, c.Holds i (.object o)

theorem HoldsObjects.memo (ids : List ObjectId) : Memo mt i (HoldsObjects i ids) where
  stable := fun _ _ _ h hr _ o ho => (hr.locks _).mpr (h o ho)
  lock _ _ _ h hm o ho := hm _ (h o ho)
  push _ _ _ h _ := h

namespace Spec

theorem lockObjects (hF : Frame mt i F) (ids : List ObjectId) :
    Spec mt fc noDeletes i (InTx mt i dirty F) (lockObjects ids)
      (fun _ => InTx mt i dirty fun c l => F c l ∧ HoldsObjects i ids c l) E := by
  let I (done : List ObjectId) : CoreAssertion :=
    InTx mt i dirty fun c l => F c l ∧ HoldsObjects i done c l
  have hloop : Spec mt fc noDeletes i (I []) (Tamoss.lockObjects ids)
      (fun _ => I (ids.dedup.insertionSort (· ≤ ·))) E := by
    refine forM I (fun done => InTx.stable (hF.and (HoldsObjects.memo done).frame)) ?_
    intro done o rest _
    refine Triple.post (lockObject (hF.and (HoldsObjects.memo done).frame) o) ?_
    intro _ w l _ h
    refine ⟨h.1, h.2.1.1, fun o' ho' => ?_⟩
    rcases List.mem_append.mp ho' with ho' | ho'
    · exact h.2.1.2 o' ho'
    · obtain rfl := List.mem_singleton.mp ho'
      exact h.2.2
  refine Triple.conseq hloop (fun w l _ h => ⟨h.1, h.2, by simp [HoldsObjects]⟩)
    (fun _ w l _ h => ⟨h.1, h.2.1, fun o ho => h.2.2 o ?_⟩) (fun _ _ h => h)
  rw [(List.perm_insertionSort _ _).mem_iff]
  exact List.mem_dedup.mpr ho

theorem createObjects {objects : List MediaObjectRecord}
    (hnew : ∀ o ∈ objects, o.referencedByFlows = [] ∧ ObjectOk mt o) :
    Spec mt fc noDeletes i (InTx mt i clean (HoldsObjects i (objects.map (·.id))))
      (call (.createObjects objects)) (fun _ => InTx mt i clean Always) E := by
  refine push (InTx.stable (HoldsObjects.memo _).frame) (fun _ => InTx.stable .true)
    (fun _ _ h => h.1.inTransaction) ?_
  intro ch w l r w' l' hi hA he _
  obtain ⟨-, hl⟩ := Prod.mk.inj (Option.some.inj he)
  refine ⟨_, hl, hA.1.push_create (fun o ho => ?_) (fun o ho => ?_) (fun o ho => ?_), trivial⟩
  · exact hA.2 o.id (List.mem_map_of_mem (List.mem_filter.mp ho).1)
  · exact hnew o (List.mem_filter.mp ho).1
  · have hnone : (w.view l).objects.get o.id = none := by
      simpa using (List.mem_filter.mp ho).2
    show refsOf ((w.view l).objects.get o.id) = []
    rw [hnone]
    rfl

end Spec

theorem exec_listUnreferenced {ch : Choice} {before : Time} {limit : Nat} {w w' : World}
    {l l' : Session} {objects : List MediaObjectRecord}
    (h : exec mt i ch (.listUnreferencedObjectsCreatedBefore before limit) w l =
      some (objects, w', l')) (htx : l.inTransaction = true) :
    ∃ locks, w' = { w with locks } ∧ l' = l ∧
      (∀ k, locks k = some i ↔ (∃ o ∈ objects, k = .object o.id) ∨ w.core.Holds i k) ∧
      (∀ j, j ≠ i → ∀ k, locks k = some j ↔ w.locks k = some j) ∧
      ∀ o ∈ objects, refsOf ((w.core.view l).objects.get o.id) = [] := by
  obtain ⟨rfl, hl⟩ := Prod.mk.inj (Option.some.inj h)
  obtain ⟨rfl, rfl⟩ := Prod.mk.inj hl
  rw [if_pos htx]
  set free : ObjectId → Bool := fun o =>
    w.locks (.object o) = none || w.locks (.object o) = some i with hfree
  have hmem : ∀ o ∈ (w.view l).unreferencedObjects free before limit,
      free o.id = true ∧ o.referencedByFlows = [] ∧ (w.view l).objects.get o.id = some o := by
    intro o ho
    have h := List.mem_of_mem_take ho
    rw [(List.perm_insertionSort _ _).mem_iff, List.mem_filter] at h
    simp only [Bool.and_eq_true, List.isEmpty_iff] at h
    exact ⟨h.2.2, h.2.1.1, Lib.Table.get_eq_some.mpr ⟨h.1, rfl⟩⟩
  refine ⟨_, rfl, rfl, fun k => ?_, fun j hj k => ?_, fun o ho => ?_⟩
  · split
    · rename_i hk
      obtain ⟨o, ho, rfl⟩ := List.mem_map.mp hk
      exact ⟨fun _ => .inl ⟨o, ho, rfl⟩, fun _ => rfl⟩
    · rename_i hk
      refine ⟨.inr, fun hor => hor.resolve_left ?_⟩
      rintro ⟨o, ho, rfl⟩
      exact hk (List.mem_map_of_mem ho)
  · -- a lock that is taken was free or ours
    split
    · rename_i hk
      obtain ⟨o, ho, rfl⟩ := List.mem_map.mp hk
      have := (hmem o ho).1
      simp only [hfree, Bool.or_eq_true, decide_eq_true_eq] at this
      rcases this with h | h <;> simp [h, Ne.symm hj]
    · rfl
  · show refsOf ((w.view l).objects.get o.id) = []
    rw [(hmem o ho).2.2]
    exact (hmem o ho).2.1

namespace Spec

theorem listUnreferenced (before : Time) (limit : Nat) :
    Spec mt fc noDeletes i (InTx mt i clean Always)
      (call (.listUnreferencedObjectsCreatedBefore before limit))
      (fun objects => InTx mt i clean fun c l => ∀ o ∈ objects,
        c.Holds i (.object o.id) ∧ refsOf ((c.view l).objects.get o.id) = []) E := by
  refine statement (InTx.stable .true)
    (fun objects => InTx.stable (.forall_of fun o => .imp fun _ =>
      .object o.id fun object => refsOf object = [])) ?_
  intro w l hi hA ch r w' l' he _
  obtain ⟨locks, rfl, rfl, hk, hothers, hrefs⟩ := exec_listUnreferenced he hA.1.inTransaction
  refine ⟨hi.of_locks _, fun j hj => Core.Rely.of_locks (hothers j hj),
    hA.1.lock hi.core fun k h => (hk k).mpr (.inr h), fun o ho => ⟨?_, hrefs o ho⟩⟩
  exact (hk _).mpr (.inl ⟨o, ho, rfl⟩)

end Spec

variable (i) in
def ObjectsAre (ids : List ObjectId) (objects : ObjectsById) : CoreAssertion :=
  fun c l => ∀ o, o ∈ ids → c.Holds i (.object o) ∧ (c.view l).objects.get o = objects.get o

theorem ObjectsAre.frame (ids : List ObjectId) (objects : ObjectsById) :
    Frame mt i (ObjectsAre i ids objects) :=
  .forall_of fun o => .imp fun _ => .object o fun x => x = objects.get o

variable (i) in
def RowsAre (f : FlowId) (rows : List SegmentRow) : CoreAssertion :=
  fun c l => c.Holds i (.flow f) ∧ (c.view l).segmentsOf f = rows

theorem RowsAre.frame (f : FlowId) (rows : List SegmentRow) : Frame mt i (RowsAre i f rows) :=
  .rows f (· = rows)

theorem Frame.const (φ : Prop) : Frame mt i (fun _ _ => φ) :=
  ⟨fun _ _ _ h _ _ => h, fun _ _ _ h _ => h, fun _ _ _ h _ => h⟩

namespace Spec

theorem getObjects (hF : Frame mt i F) (ids : List ObjectId) :
    Spec mt fc noDeletes i (InTx mt i dirty fun c l => F c l ∧ HoldsObjects i ids c l)
      (call (.getObjects ids))
      (fun objects => InTx mt i dirty fun c l => (∀ o ∈ objects.rows, o.id ∈ ids) ∧
        F c l ∧ ObjectsAre i ids objects c l) E := by
  refine read trivial (InTx.stable (hF.and (HoldsObjects.memo ids).frame))
    (fun objects => InTx.stable ((Frame.const _).and
      (hF.and (ObjectsAre.frame ids objects)))) ?_
  intro ch w l r w' l' _ hA he
  obtain ⟨rfl, -⟩ := Prod.mk.inj (Option.some.inj he)
  refine ⟨hA.1, fun o ho => by simpa using (Lib.Table.mem_filter.mp ho).2, hA.2.1,
    fun o ho => ⟨hA.2.2 o ho, ?_⟩⟩
  exact (Lib.Table.get_filter fun x hx => by simpa [hx] using ho).symm

variable {f : FlowId}

theorem readRows {c : Call} (hc : c.IsRead) (hF : Frame mt i F)
    {rows : List SegmentRow} {φ : c.Resp → Prop}
    (h : ∀ ch (w : World) l r w' l', (w.view l).segmentsOf f = rows →
      exec mt i ch c w l = some (r, w', l') → φ r) :
    Spec mt fc noDeletes i (InTx mt i dirty fun c l => RowsAre i f rows c l ∧ F c l) (call c)
      (fun r => InTx mt i dirty fun c l => φ r ∧ RowsAre i f rows c l ∧ F c l) E := by
  have hF' := (RowsAre.frame f rows).and hF
  refine read hc (InTx.stable hF') (fun r => InTx.stable ((Frame.const _).and hF')) ?_
  intro ch w l r w' l' _ hA he
  exact ⟨hA.1, h ch w l r w' l' hA.2.1.2 he, hA.2⟩

theorem segmentsOverlap (hF : Frame mt i F) {stored : List SegmentRow} (rows : List SegmentRow) :
    Spec mt fc noDeletes i (InTx mt i dirty fun c l => RowsAre i f stored c l ∧ F c l)
      (call (.segmentsOverlap f (rows.map fun row => (row.timerangeStart, row.timerangeEnd))))
      (fun overlap => InTx mt i dirty fun c l =>
        (overlap = false → ∀ row ∈ rows, ∀ x ∈ stored, row.Apart x) ∧
          RowsAre i f stored c l ∧ F c l) E := by
  refine readRows (by trivial) hF fun ch w l r w' l' hview he hno row hrow x hx => ?_
  obtain ⟨hr, -⟩ := Prod.mk.inj (Option.some.inj he)
  rw [hview, hno, List.any_eq_false] at hr
  have hx' := hr x hx
  rw [Bool.not_eq_true, List.any_eq_false] at hx'
  have hnot := hx' _ (List.mem_map_of_mem hrow)
  simp only [SegmentRow.overlaps, Bool.and_eq_true, decide_eq_true_eq, not_and] at hnot
  unfold SegmentRow.Apart
  omega

end Spec

/-! ## Control flow

`Steady A E` is what lets an operation read, branch and raise: `A` is stable, and it is
fine to raise from a state in `A`. -/

variable (mt i) in
structure Steady (A : CoreAssertion) (E : PyError → Session → Prop) : Prop where
  stable : A.Stable mt i
  raises : ∀ e c l, A c l → E e l

theorem Steady.inTx (hF : Frame mt i F) : Steady mt i (InTx mt i dirty F) Always :=
  ⟨InTx.stable hF, fun _ _ _ _ => trivial⟩

theorem Steady.idle : Steady mt i (Idle i P) AtRest :=
  ⟨Idle.stable, fun _ _ _ h => h.1⟩

theorem Steady.and_const (h : Steady mt i A E) (φ : Prop) : Steady mt i (fun c l => φ ∧ A c l) E :=
  ⟨fun c c' l hA hr hi => ⟨hA.1, h.stable c c' l hA.2 hr hi⟩, fun e c l hA => h.raises e c l hA.2⟩

namespace Spec

variable {α β : Type} {Q : α → CoreAssertion}

theorem pure (h : Steady mt i A E) (a : α) :
    Spec mt fc noDeletes i A (Pure.pure a) (fun _ => A) E :=
  Triple.pure h.stable.lift fun _ _ _ hA => hA

theorem throw (h : Steady mt i A E) (e : PyError) :
    Spec mt fc noDeletes i A (MonadExcept.throw e : App α) Q E :=
  Triple.throw fun w l hA => h.raises e w.core l hA

theorem except (h : Steady mt i A E) (x : Except PyError α) :
    Spec mt fc noDeletes i A (liftM x : App α) (fun a c l => x = .ok a ∧ A c l) E :=
  Triple.except h.stable.lift x (fun _ hx _ _ _ hA => ⟨hx, hA⟩)
    (fun e _ w l hA => h.raises e w.core l hA)

variable {p : App α}

theorem bind {k : α → App β} {B : β → CoreAssertion}
    (hp : Spec mt fc noDeletes i A p Q E) (hk : ∀ a, Spec mt fc noDeletes i (Q a) (k a) B E) :
    Spec mt fc noDeletes i A (p >>= k) B E :=
  Triple.bind hp hk

theorem assume {φ : Prop} (h : φ → Spec mt fc noDeletes i A p Q E) :
    Spec mt fc noDeletes i (fun c l => φ ∧ A c l) p Q E :=
  Triple.assume h

theorem tryCatch {h : PyError → App α} {E' : PyError → Session → Prop}
    (hQ : ∀ a, (Q a).Stable mt i) (hp : Spec mt fc noDeletes i A p Q E)
    (hh : ∀ e, Spec mt fc noDeletes i (fun _ l => E e l) (h e) Q E') :
    Spec mt fc noDeletes i A (MonadExcept.tryCatch p h) Q E' :=
  Triple.tryCatch (fun a => (hQ a).lift) hp hh

theorem exists_pre {γ : Type} {B : γ → CoreAssertion}
    (h : ∀ x, Spec mt fc noDeletes i (B x) p Q E) :
    Spec mt fc noDeletes i (fun c l => ∃ x, B x c l) p Q E :=
  Triple.exists_pre h

theorem pre {B : CoreAssertion} (h : Spec mt fc noDeletes i B p Q E)
    (hA : ∀ c l, c.Inv mt → A c l → B c l) : Spec mt fc noDeletes i A p Q E :=
  Triple.pre h fun w l hi hAw => hA w.core l hi.core hAw

theorem post {Q' : α → CoreAssertion} (h : Spec mt fc noDeletes i A p Q' E)
    (hQ : ∀ a c l, c.Inv mt → Q' a c l → Q a c l) : Spec mt fc noDeletes i A p Q E :=
  Triple.post h fun a w l hi hq => hQ a w.core l hi.core hq

theorem throwIf {φ : Prop} [Decidable φ] {e : PyError} {k : PUnit → App α}
    (hA : Steady mt i A E) (hk : ¬ φ → Spec mt fc noDeletes i A (k ⟨⟩) Q E) :
    Spec mt fc noDeletes i A (if φ then MonadExcept.throw e >>= k else k ⟨⟩) Q E := by
  split
  · exact bind (throw (Q := fun _ _ _ => False) hA e) fun _ _ _ _ h => h.elim
  · rename_i hφ
    exact hk hφ

theorem transaction {body : App α} (h : TxOk mt fc noDeletes i clean Always body) :
    IdleSpec mt fc noDeletes i P (Tamoss.unitOfWork body) :=
  post (pre (unitOfWork (R := fun _ => True) Frame.true h) fun _ _ _ h => ⟨h.1, trivial⟩)
    fun _ _ _ _ h => h.1

theorem quiet (hF : Frame mt i F) (hp : Lib.Only Call.Quiet p) :
    Spec mt fc noDeletes i (InTx mt i dirty F) p (fun _ => InTx mt i dirty F) Always := by
  refine Triple.of_only (InTx.stable hF).lift (fun _ _ _ _ => trivial) (fun c hc => ?_) hp
  by_cases hread : c.IsRead
  · exact read' hread (InTx.stable hF)
  refine statement (InTx.stable hF) (fun _ => InTx.stable hF) ?_
  intro w l hi hA ch r w' l' he _
  rcases exec_quiet hc hread he with ⟨rfl, rfl⟩ | ⟨k, -, hacq, rfl⟩ | ⟨ws, hws, hsub⟩
  · exact ⟨hi, fun j _ => Core.Rely.refl j _, hA⟩
  · obtain ⟨locks, rfl, -, hmono, hothers⟩ := acquire_eq_some hacq hA.1.inTransaction
    refine ⟨hi.of_locks locks, fun j hj => Core.Rely.of_locks (hothers j hj), ?_⟩
    exact ⟨hA.1.lock hi.core hmono, hF.lock _ _ _ hA.2 hmono⟩
  · obtain ⟨rfl, rfl⟩ := exec_submit hsub hA.1.inTransaction
    refine ⟨hi, fun j _ => Core.Rely.refl j _, ?_, hF.push _ _ _ hA.2 hws⟩
    exact hA.1.push_neutral (fun x hx => (hws x hx).1.not_touchesFlow)
      (fun x hx => (hws x hx).1.not_touchesObject)

theorem calm (hF : Frame mt i F) (hp : Lib.Only Call.Calm p) :
    Spec mt fc noDeletes i (InTx mt i dirty F) p (fun _ => InTx mt i dirty F)
      Always := quiet hF (quiet_of_calm hp)

theorem quietIdle (hp : Lib.Only Call.Quiet p) :
    Spec mt fc noDeletes i (Idle i P) p (fun _ => Idle i P) AtRest := by
  refine Triple.of_only Idle.stable.lift (fun _ _ _ h => h.1) (fun c hc => ?_) hp
  by_cases hread : c.IsRead
  · exact read' hread Idle.stable
  refine statement Idle.stable (fun _ => Idle.stable) ?_
  intro w l hi hA ch r w' l' he _
  obtain ⟨rfl, hP⟩ := hA
  rcases exec_quiet hc hread he with ⟨rfl, rfl⟩ | ⟨k, -, hacq, rfl⟩ | ⟨ws, hws, hsub⟩
  · exact ⟨hi, fun j _ => Core.Rely.refl j _, rfl, hP⟩
  · obtain rfl := acquire_idle hacq
    exact ⟨hi, fun j _ => Core.Rely.refl j _, rfl, hP⟩
  · obtain ⟨rfl, rfl⟩ := submit_idle hsub
    have hneutral : ∀ x ∈ ws, x.Neutral := fun x hx => (hws x hx).1
    exact ⟨hi.commit_neutral hneutral, fun j _ => Core.Rely.commit_neutral hneutral j, rfl, hP⟩

theorem calmIdle (hp : Lib.Only Call.Calm p) :
    Spec mt fc noDeletes i (Idle i P) p (fun _ => Idle i P) AtRest :=
  quietIdle (quiet_of_calm hp)

theorem tameTransaction {p : App Unit} (hp : TameTransaction p) :
    IdleSpec mt fc noDeletes i P p := by
  obtain ⟨β, check, body, hcheck, hbody, rfl⟩ := hp
  apply bind (calmIdle hcheck)
  intro b
  exact transaction (quiet .true (quiet_of_tame (hbody b)))

end Spec

end Tamoss
