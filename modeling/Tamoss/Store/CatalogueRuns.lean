/-
  **Runs in which no commit disturbs what another operation has read.**
-/
import Tamoss.Store.CatalogueWalk

namespace Tamoss

open Lib.Machine

variable {mt : MediaTimestamp} {fc : FlowContract} {i : SessionId}

variable (mt fc) in
abbrev recordedService : Lib.Machine SessionId Call Call.Resp :=
  (service mt fc).recorded catalogueAccount.note Ledger.first

/-- Every run of the service is a run on record with the ledger left out. -/
theorem exists_recordedRun {db₀ : Database} {c : (service mt fc).Config}
    (hc : (service mt fc).Reachable (.free _) (World.initial db₀) c) : ∃ ledger,
      (recordedService mt fc).Reachable (.free _) (World.initial db₀, .empty)
        (c.withRoster ledger) :=
  hc.exists_recorded .empty

variable (mt fc) in
def undisturbed : (recordedService mt fc).Discipline where
  starts _ := True
  calls i c _ s l := match c with
    | .commit => ∀ e ∈ s.2.rows, e.1 ≠ i → e.2.StandsIn (World.view s.1 l)
    | _ => True

structure Tracks (l : Session) (m : Ledger) : Prop where
  inTx : l.inTransaction = m.inTx
  writes : l.writes.filter Write.onCatalogue = m.writes

variable {q : Call} {ws : List Write}

theorem Call.Submits.onCatalogue (hq : q.Submits ws) {x : Write} (hx : x ∈ ws)
    (hon : x.onCatalogue = true) : q = .write x := by
  rcases hq.mem hx with h | ⟨row, rfl⟩ | ⟨objects, -, o, -, rfl⟩ | ⟨profile, rfl⟩ | ⟨p, rfl⟩
  · exact h
  · cases hon
  · cases hon
  · cases hon
  · cases hon

theorem note_of_submits (hq : q.Submits ws) (r : q.Resp) (m : Ledger) :
    (Ledger.note q r m).inTx = m.inTx ∧
      (Ledger.note q r m).writes = m.writes ++ ws.filter Write.onCatalogue := by
  by_cases hwrite : ∃ w, q = .write w
  · obtain ⟨w, rfl⟩ := hwrite
    obtain rfl : ws = [w] := hq
    unfold Ledger.note
    dsimp only
    cases hw : w.onCatalogue <;> simp [hw]
  · have hfilter : ws.filter Write.onCatalogue = [] :=
      List.filter_eq_nil_iff.mpr fun x hx hon => hwrite ⟨x, hq.onCatalogue hx hon⟩
    rw [hfilter, List.append_nil]
    cases q with
    | begin => exact hq.elim
    | commit => exact hq.elim
    | rollback => exact hq.elim
    | write w => exact absurd ⟨w, rfl⟩ hwrite
    | _ => exact ⟨rfl, rfl⟩

theorem note_edit (r : q.Resp) (m : Ledger) : (Ledger.note q r m).edit = m.edit := by
  cases q with
  | write w =>
    unfold Ledger.note
    dsimp only
    split <;> rfl
  | _ => rfl

variable {m : Ledger}

theorem writes_apart (hq : q.Submits ws) {l : Session}
    (hreq : catalogueAccount.Req q m) (htracks : Tracks l m)
    (htx : l.inTransaction = false) : ∀ x ∈ ws, x.onCatalogue = false := by
  intro x hx
  cases hon : x.onCatalogue with
  | false => rfl
  | true =>
    obtain rfl := hq.onCatalogue hx hon
    have hin := (hreq hon).1
    rw [← htracks.inTx, htx] at hin
    cases hin

variable {l l' : Session} {db db' : Database}

theorem Tracks.step (r : q.Resp)
    (h : Tracks l m) (heffect : Effect q db l db' l') (hreq : catalogueAccount.Req q m) :
    Tracks l' (Ledger.note q r m) := by
  cases heffect with
  | begin => exact ⟨rfl, h.writes⟩
  | commit => exact ⟨rfl, rfl⟩
  | rollback => exact ⟨rfl, rfl⟩
  | pending hq htx =>
    obtain ⟨hin, hwrites⟩ := note_of_submits hq r m
    refine ⟨h.inTx.trans hin.symm, ?_⟩
    rw [hwrites, Session.push, List.filter_append, h.writes]
  | done hq htx =>
    obtain ⟨hin, hwrites⟩ := note_of_submits hq r m
    refine ⟨h.inTx.trans hin.symm, ?_⟩
    have hnone := writes_apart hq hreq h htx
    rw [hwrites, h.writes, List.filter_eq_nil_iff.mpr fun x hx => by simp [hnone x hx],
      List.append_nil]

theorem Tracks.view {l : Session} (h : Tracks l m) (w : World) :
    SameCatalogue (w.view l) (w.db.applyAll m.writes) :=
  h.writes ▸ SameCatalogue.applyAll_filter l.writes w.db

theorem sameCatalogue_of_effect (hne : q ≠ .commit)
    (htracks : Tracks l m) (heffect : Effect q db l db' l')
    (hreq : catalogueAccount.Req q m) : SameCatalogue db' db := by
  cases heffect with
  | begin => exact .refl db
  | commit => exact absurd rfl hne
  | rollback => exact .refl db
  | pending hq htx => exact .refl db
  | done hq htx => exact .of_writes (writes_apart hq hreq htracks htx) db

theorem Effect.of_commit (h : Effect .commit db l db' l') : db' = db.applyAll l.writes := by
  cases h with
  | commit => rfl
  | pending h => exact h.elim
  | done h => exact h.elim

variable {ch : Choice} {r : q.Resp}

theorem stands_note {w w' : World}
    (h : exec mt i ch q w l = some (r, w', l')) (htracks : Tracks l m)
    (hm : m.StandsIn w.db) : (Ledger.note q r m).StandsIn w.db := by
  have henter : ∀ read : CatalogueRead, read.Stands (w.view l) → (m.enter read).StandsIn w.db := by
    intro read hread e he
    rcases List.mem_append.mp he with hold | hnew
    · exact hm e hold
    · obtain rfl := List.mem_singleton.mp hnew
      exact hread.congr (htracks.view w)
  cases q with
  | begin => exact hm
  | commit => exact fun e he => by cases he
  | rollback => exact fun e he => by cases he
  | write wr =>
    unfold Ledger.note
    dsimp only
    split <;> exact hm
  | getFlow f toSave =>
    cases h
    exact henter _ rfl
  | listFlowsCollecting f =>
    cases h
    apply henter
    simp [CatalogueRead.Stands, Function.comp_def]
  | listFlowsBySource s =>
    cases h
    apply henter
    exact ⟨fun flow hflow => List.mem_map_of_mem hflow, fun row hrow => List.mem_map_of_mem hrow⟩
  | getSource s =>
    cases h
    exact henter _ rfl
  | _ => exact hm

def catalogueInvariant (mt : MediaTimestamp) (fc : FlowContract) (db₀ : Database) :
    Invariant (recordedService mt fc) where
  shared s := (CollectionsOk db₀ → CollectionsOk (World.db s.1)) ∧
    (FlowsSourced db₀ → FlowsSourced (World.db s.1)) ∧
    ∀ e ∈ s.2.rows, e.2.StandsIn (World.db s.1)
  thread i l s := ∃ m : Ledger, s.2.get i = some (i, m) ∧ Tracks l m ∧ m.Sound ∧
    m.edit = (World.running s.1 i).bind Op.sourceEdit

theorem program_catalogue (op : Op) :
    ((service mt fc).program op).Minds catalogueAccount Always (Ledger.first op) := by
  refine Lib.Prog.Minds.bind ((operation_catalogue mt fc op _ ?_).mono fun _ _ _ => trivial)
  exact ⟨rfl, rfl, rfl, fun _ _ => trivial⟩

variable {c : (recordedService mt fc).Config}

theorem undisturbed_req {s₀ : World × Lib.Roster SessionId Ledger}
    (hc : (recordedService mt fc).Reachable (undisturbed mt fc) s₀ c) :
    (recordedService mt fc).Reachable ((undisturbed mt fc).assuming fun i q s _ =>
      ∀ m, s.2.get i = some (i, m) → catalogueAccount.Req q m) s₀ c := by
  refine hc.assuming ?_
  intro c hc i l q k hth m hm
  have hprogram : ∀ op, (undisturbed mt fc).starts op →
      ((service mt fc).program op).Minds catalogueAccount Always (Ledger.first op) :=
    fun op _ => program_catalogue op
  obtain ⟨m', hm', hminds⟩ :=
    Reachable.minds_recorded (fun _ _ _ _ _ _ _ _ => trivial) hprogram hc hth
  cases hm.symm.trans hm'
  exact hminds.1

variable {db₀ : Database}

theorem catalogueInvariant_call {s s' : World × Lib.Roster SessionId Ledger}
    (hshared : (catalogueInvariant mt fc db₀).shared s)
    (hthread : (catalogueInvariant mt fc db₀).thread i l s)
    (hexec : (recordedService mt fc).exec i ch q s l = some (r, s', l'))
    (hcommit : (undisturbed mt fc).calls i q r s l)
    (hreq : ∀ m, s.2.get i = some (i, m) → catalogueAccount.Req q m) :
    (catalogueInvariant mt fc db₀).shared s' ∧
      (catalogueInvariant mt fc db₀).Spares i s s' ∧
      (catalogueInvariant mt fc db₀).thread i l' s' := by
  obtain ⟨m, hm, htracks, hsound, hedit⟩ := hthread
  obtain ⟨hcollections, hsourced, hstands⟩ := hshared
  obtain ⟨hex, hroster⟩ := recorded_exec hexec
  have hroster := hroster m hm
  have heffect : Effect q (World.db s.1) l (World.db s'.1) l' := exec_effect hex
  have hrunning : World.running s'.1 = World.running s.1 := exec_running hex
  have hreq := hreq m hm
  have hown : m.StandsIn (World.db s.1) := hstands (i, m) (Lib.Table.get_eq_some.mp hm).1
  refine ⟨?_, ?_, ?_⟩
  · by_cases hq : q = .commit
    · subst hq
      -- a commit applies the writes of the ledger
      have hdb : World.db s'.1 = (World.db s.1).applyAll l.writes := heffect.of_commit
      have hview : SameCatalogue (World.db s'.1) ((World.db s.1).applyAll m.writes) :=
        hdb ▸ htracks.view s.1
      refine ⟨fun h₀ => ?_, fun h₀ => ?_, ?_⟩
      · exact hview.symm.collectionsOk (hsound.collections _ hown (hcollections h₀))
      · exact hview.symm.flowsSourced (hsound.sourced _ hown (hsourced h₀))
      · intro e he
        rw [hroster] at he
        rcases Lib.Table.mem_upsert.mp he with ⟨hold, hne⟩ | rfl
        · exact hdb ▸ hcommit e hold hne
        · exact fun read hread => by cases hread
    · have hsame := sameCatalogue_of_effect hq htracks heffect hreq
      refine ⟨fun h₀ => hsame.symm.collectionsOk (hcollections h₀),
        fun h₀ => hsame.symm.flowsSourced (hsourced h₀), ?_⟩
      intro e he
      rw [hroster] at he
      rcases Lib.Table.mem_upsert.mp he with ⟨hold, -⟩ | rfl
      · exact (hstands e hold).congr hsame.symm
      · exact (stands_note hex htracks hown).congr hsame.symm
  · rintro j lj hj ⟨mj, hmj, hrest⟩
    refine ⟨mj, ?_, ?_⟩
    · rw [hroster]
      exact (Lib.Table.get_upsert_of_ne _ hj).trans hmj
    · rw [hrunning]
      exact hrest
  · refine ⟨Ledger.note q r m, ?_, htracks.step r heffect hreq, hsound.note r hreq, ?_⟩
    · rw [hroster]
      exact Lib.Table.get_upsert_self _ (i, Ledger.note q r m)
    · rw [note_edit, hrunning]
      exact hedit

theorem catalogueInvariant_run
    (hc : (recordedService mt fc).Reachable (undisturbed mt fc) (World.initial db₀, .empty) c) :
    c.Satisfies (catalogueInvariant mt fc db₀) := by
  refine Reachable.invariant ?_ ?_ ?_ ?_ (undisturbed_req hc)
  · exact ⟨fun h => h, fun h => h, fun e he => by cases he⟩
  · rintro i op s ⟨hcollections, hsourced, hstands⟩ -
    refine ⟨⟨hcollections, hsourced, ?_⟩, ?_, ?_⟩
    · intro e he
      rcases Lib.Table.mem_upsert.mp he with ⟨hold, -⟩ | rfl
      · exact hstands e hold
      · exact fun read hread => by cases hread
    · rintro j lj hj ⟨mj, hmj, htracks, hsound, hedit⟩
      refine ⟨mj, (Lib.Table.get_upsert_of_ne _ hj).trans hmj, htracks, hsound, ?_⟩
      exact hedit.trans (congrArg (Option.bind · Op.sourceEdit)
        (Function.update_of_ne hj _ _).symm)
    · refine ⟨Ledger.first op, Lib.Table.get_upsert_self _ (i, Ledger.first op), ⟨rfl, rfl⟩,
        Ledger.sound_of_writes_nil rfl, ?_⟩
      have hop : Function.update (World.running s.1) i (some op) i = some op :=
        Function.update_self i _ _
      exact (congrArg (Option.bind · Op.sourceEdit) hop).symm
  · intro i ch q s l r s' l' hshared hthread hexec hcalls
    exact catalogueInvariant_call hshared hthread hexec hcalls.1 hcalls.2
  · rintro i s ⟨hcollections, hsourced, hstands⟩
    refine ⟨⟨hcollections, hsourced, ?_⟩, ?_⟩
    · intro e he
      exact hstands e (Lib.Table.mem_erase.mp he).1
    · rintro j lj hj ⟨mj, hmj, htracks, hsound, hedit⟩
      refine ⟨mj, (Lib.Table.get_erase_of_ne _ hj).trans hmj, htracks, hsound, ?_⟩
      exact hedit.trans (congrArg (Option.bind · Op.sourceEdit)
        (Function.update_of_ne hj _ _).symm)

end Tamoss
