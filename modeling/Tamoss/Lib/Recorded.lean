/-
  **Machines with the memories of their threads on record.**

  The ledger is written beside the shared state and never read, so that every run of the machine
  is a run on record with the ledger left out (`Reachable.exists_recorded`).
-/
import Tamoss.Lib.Account
import Tamoss.Lib.Table

namespace Lib

/-- The memory of each running thread. -/
abbrev Roster (ι μ : Type) := Table ι (ι × μ) Prod.fst

namespace Machine

variable {ι C μ : Type} {R : C → Type} [DecidableEq ι]

/-- The machine with its threads' memories: a memory is opened with `first` when the thread
    starts, takes note of every answer and is dropped when the thread ends. -/
def recorded (M : Machine ι C R) (note : (c : C) → R c → μ → μ) (first : M.Op → μ) :
    Machine ι C R where
  Op := M.Op
  Shared := M.Shared × Roster ι μ
  Local := M.Local
  Choice := M.Choice
  program := M.program
  idle := M.idle
  enter i op s := (M.enter i op s.1, s.2.upsert (i, first op))
  exec i ch c s l := (M.exec i ch c s.1 l).map fun (r, s', l') =>
    (r, (s', match s.2.get i with
      | some (_, m) => s.2.upsert (i, note c r m)
      | none => s.2), l')
  leave i s := (M.leave i s.1, s.2.erase i)

variable {M : Machine ι C R} {note : (c : C) → R c → μ → μ} {first : M.Op → μ}

theorem recorded_exec {i : ι} {ch : M.Choice} {c : C} {s s' : M.Shared × Roster ι μ}
    {l l' : M.Local} {r : R c} (h : (M.recorded note first).exec i ch c s l = some (r, s', l')) :
    M.exec i ch c s.1 l = some (r, s'.1, l') ∧
      ∀ m, s.2.get i = some (i, m) → s'.2 = s.2.upsert (i, note c r m) := by
  obtain ⟨⟨r₁, s₁, l₁⟩, hex, heq⟩ := Option.map_eq_some_iff.mp h
  cases heq
  refine ⟨hex, ?_⟩
  intro m hm
  simp only [hm]

theorem Reachable.minds_recorded {𝒜 : Account C R μ} {first : M.Op → μ}
    {D : (M.recorded 𝒜.note first).Discipline} {s₀ : M.Shared × Roster ι μ}
    (hgiven : ∀ i q r s l m, D.calls i q r s l → s.2.get i = some (i, m) → 𝒜.Given q r m)
    (hstart : ∀ op, D.starts op → (M.program op).Minds 𝒜 (fun _ _ => True) (first op))
    {c : (M.recorded 𝒜.note first).Config} (hc : (M.recorded 𝒜.note first).Reachable D s₀ c)
    {i : ι} {l : M.Local} {p : Prog C R Unit} (hth : c.threads i = some ⟨l, p⟩) :
    ∃ m, c.shared.2.get i = some (i, m) ∧ p.Minds 𝒜 (fun _ _ => True) m := by
  induction hc generalizing i l p with
  | init => cases hth
  | @step c c' a hc hstep hperm ih =>
    cases stepped hstep with
    | start j op _ =>
      simp only [Function.update_apply] at hth
      split at hth
      · rename_i hij
        subst hij
        cases hth
        exact ⟨first op, Table.get_upsert_self _ (i, first op), hstart op hperm⟩
      · rename_i hij
        obtain ⟨m, hm, hp⟩ := ih hth
        exact ⟨m, (Table.get_upsert_of_ne _ hij).trans hm, hp⟩
    | call j ch l₀ q k r s l₁ hj hex =>
      obtain ⟨m₀, hm₀, hp₀⟩ := ih hj
      have hroster : s.2 = c.shared.2.upsert (j, 𝒜.note q r m₀) :=
        (recorded_exec hex).2 m₀ hm₀
      simp only [Function.update_apply] at hth
      split at hth
      · rename_i hij
        subst hij
        cases hth
        refine ⟨𝒜.note q r m₀, ?_, ?_⟩
        · exact hroster ▸ Table.get_upsert_self _ (i, 𝒜.note q r m₀)
        · exact hp₀.2 r (hgiven i q r _ l₀ m₀ (hperm l₀ q k r s l hj hex) hm₀)
      · rename_i hij
        obtain ⟨m, hm, hp⟩ := ih hth
        refine ⟨m, ?_, hp⟩
        exact hroster ▸ (Table.get_upsert_of_ne _ hij).trans hm
    | leave j =>
      simp only [Function.update_apply] at hth
      split at hth
      · cases hth
      · rename_i hij
        obtain ⟨m, hm, hp⟩ := ih hth
        exact ⟨m, (Table.get_erase_of_ne _ hij).trans hm, hp⟩

/-! ### The ledger only watches -/

def Discipline.onRecord (D : M.Discipline) : (M.recorded note first).Discipline where
  starts := D.starts
  calls i q r s l := D.calls i q r s.1 l

def Config.withRoster (c : M.Config) (roster : Roster ι μ) : (M.recorded note first).Config where
  shared := (c.shared, roster)
  threads i := (c.threads i).map fun t => ⟨t.loc, t.prog⟩

/-- Every run is what is left of a run on record when the ledger is dropped. -/
theorem Reachable.exists_recorded {D : M.Discipline} {s₀ : M.Shared} {c : M.Config}
    (h : M.Reachable D s₀ c) (roster₀ : Roster ι μ) :
    ∃ roster, (M.recorded note first).Reachable D.onRecord (s₀, roster₀) (c.withRoster roster) := by
  induction h with
  | init => exact ⟨roster₀, .init⟩
  | @step c c' a hc hstep hperm ih =>
    obtain ⟨roster, hrecorded⟩ := ih
    cases stepped hstep with
    | start i op hnone =>
      refine ⟨roster.upsert (i, first op), .step (.start i op) hrecorded ?_ hperm⟩
      simp only [Machine.step, Config.withRoster, hnone, Option.map_none]
      refine congrArg some (congrArg (Config.mk _) (funext fun j => ?_))
      by_cases hj : j = i
      · subst hj
        simp only [Function.update_self, Option.map_some]
        rfl
      · simp only [Function.update_of_ne hj]
    | call i ch l q k r s l' hth hex =>
      have hexec : ∃ roster', (M.recorded note first).exec i ch q (c.shared, roster) l =
          some (r, (s, roster'), l') := by
        simp only [recorded, hex, Option.map_some]
        exact ⟨_, rfl⟩
      obtain ⟨roster', hexec⟩ := hexec
      refine ⟨roster', .step (.call i ch) hrecorded ?_ ?_⟩
      · simp only [Machine.step, Config.withRoster, hth, Option.map_some, hexec]
        refine congrArg some (congrArg (Config.mk _) (funext fun j => ?_))
        by_cases hj : j = i
        · subst hj
          simp only [Function.update_self, Option.map_some]
        · simp only [Function.update_of_ne hj]
      · intro l₁ q₁ k₁ r₁ s₁ l₁' hth₁ hex₁
        simp only [Config.withRoster, hth, Option.map_some, Option.some.injEq] at hth₁
        cases hth₁
        cases hexec.symm.trans hex₁
        exact hperm l q k r s l' hth hex
    | leave i =>
      refine ⟨roster.erase i, .step (.leave i) hrecorded ?_ trivial⟩
      cases hth : c.threads i with
      | none =>
        simp only [Machine.step, hth] at hstep
        cases hstep
      | some t =>
        simp only [Machine.step, Config.withRoster, hth, Option.map_some]
        refine congrArg some (congrArg (Config.mk _) (funext fun j => ?_))
        by_cases hj : j = i
        · subst hj
          simp only [Function.update_self, Option.map_none]
        · simp only [Function.update_of_ne hj]

end Machine

end Lib
