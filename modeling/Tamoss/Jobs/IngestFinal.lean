/-
  **An ingest run that has ended stays as it ended.**
-/
import Tamoss.Jobs.IngestOnce

namespace Tamoss.Jobs

open Lib Operator

variable {d : Site} {key : Key} {m : RunMemo} {w w' : World}

structure Ended (d : Site) (w : World) : Prop where
  uids : RunUIDs w
  same : ∀ k a b, w.runs.Had k a → w.runs.Had k b → a.uid = b.uid
  output : ∀ k a b, w.runs.Had k a → w.runs.Had k b →
    outputProblem d a.spec = outputProblem d b.spec
  valid : ∀ k a, w.runs.Had k a → a.status.phase.terminal = true → outputProblem d a.spec = none
  final : ∀ k a b, w.runs.Had k a → a.status.phase.terminal = true → w.runs.current k = some b →
    b.status.phase = a.status.phase ∧ b.status.completedAt = a.status.completedAt

/-- What a worker on the run under the key can rely on: it may report only while the run has not
    ended. -/
structure Tracks (d : Site) (key : Key) (m : RunMemo) (w : World) : Prop where
  had : ∀ run, m.run = some run → w.runs.Had key run
  current : ∀ run b, m.run = some run → m.spent = false →
    (outputProblem d run.spec = none → run.status.phase.terminal = false) →
    w.runs.current key = some b → b.status.phase.terminal = false

def Tracked (d : Site) (x : Request) (m : RunMemo) (w : World) : Prop :=
  ∀ key, x = .ingestRun key → Tracks d key m w

def endsShown (d : Site) : (operator d).Conduct where
  starts := ingestOperations
  calls
    | .change (.createRun key _), _, w => key ∉ (World.runs w).keys
    | .getRun key, .ok run, w =>
      ((World.runs w).current key).any (fun stored => stored.status.phase.terminal) = true →
        run.status.phase.terminal = true
    | _, _, _ => True

variable {c : Call}

theorem RunStep.status {run : IngestRun} {s : Option IngestRun}
    (h : RunStep w w' c key s) (hs : s = some run) :
    (run.uid = w.next ∧ run.status.phase = .unset ∧ ∃ spec, c = .change (.createRun key spec)) ∨
      ∃ before, w.runs.current key = some before ∧ run.uid = before.uid ∧
        outputProblem d run.spec = outputProblem d before.spec ∧
        (run.status = before.status ∨ ∃ original status, c = .patchRunStatus key original status ∧
          (run.status.phase = before.status.phase ∨ run.status.phase = status.phase)) := by
  cases h with
  | create _ spec habsent hnext =>
    cases hs
    exact .inl ⟨rfl, rfl, spec, rfl⟩
  | cancel _ before hrun =>
    cases hs
    exact .inr ⟨before, hrun, rfl, rfl, .inl rfl⟩
  | delete => cases hs
  | patch _ original status before hrun =>
    cases hs
    refine .inr ⟨before, hrun, rfl, rfl, .inr ⟨original, status, rfl, ?_⟩⟩
    simp only [RunStatus.merge, mergeField]
    split
    · exact .inl rfl
    · exact .inr rfl

variable {r : c.Resp}

theorem Ended.step (h : Ended d w) (heffect : Effect d w c r w')
    (hworker : ∀ x, m.request = some x → Tracked d x m w) (hreq : runReq d c m)
    (hconduct : (endsShown d).calls c r w) : Ended d w' := by
  rcases heffect.runs with hsame | ⟨k₀, s, hstep, hput, -⟩
  · refine ⟨h.uids.step heffect, ?_, ?_, ?_, ?_⟩ <;> rw [hsame]
    · exact h.same
    · exact h.output
    · exact h.valid
    · exact h.final
  -- a state is new under its name, or is a state of the run that is stored
  have hversion : ∀ k a, w'.runs.Had k a → (k = k₀ ∧ s = some a) ∨ w.runs.Had k a := by
    intro k a ha
    rwa [hput, Directory.had_put] at ha
  have hunused : ∀ spec, c = .change (.createRun k₀ spec) → ∀ b, ¬ w.runs.Had k₀ b := by
    intro spec hc b hb
    subst hc
    exact hconduct (Directory.mem_keys_of_had hb)
  have horigin : ∀ k a, w'.runs.Had k a → (k = k₀ ∧ s = some a ∧ ∀ b, ¬ w.runs.Had k b) ∨
      ∃ b, w.runs.Had k b ∧ a.uid = b.uid ∧ outputProblem d a.spec = outputProblem d b.spec := by
    intro k a ha
    rcases hversion k a ha with ⟨rfl, hs⟩ | ha
    · rcases hstep.status hs with ⟨-, -, spec, hc⟩ | ⟨b, hb, huid, houtput, -⟩
      · exact .inl ⟨rfl, hs, hunused spec hc⟩
      · exact .inr ⟨b, Directory.had_of_current hb, huid, houtput⟩
    · exact .inr ⟨a, ha, rfl, rfl⟩
  refine ⟨h.uids.step heffect, ?_, ?_, ?_, ?_⟩
  · intro k a b ha hb
    rcases horigin k a ha with ⟨-, hsa, hnone⟩ | ⟨a', ha', hau, -⟩ <;>
      rcases horigin k b hb with ⟨-, hsb, hnone'⟩ | ⟨b', hb', hbu, -⟩
    · rw [Option.some.inj (hsa.symm.trans hsb)]
    · exact absurd hb' (hnone b')
    · exact absurd ha' (hnone' a')
    · rw [hau, hbu]
      exact h.same k a' b' ha' hb'
  · intro k a b ha hb
    rcases horigin k a ha with ⟨-, hsa, hnone⟩ | ⟨a', ha', -, hao⟩ <;>
      rcases horigin k b hb with ⟨-, hsb, hnone'⟩ | ⟨b', hb', -, hbo⟩
    · rw [Option.some.inj (hsa.symm.trans hsb)]
    · exact absurd hb' (hnone b')
    · exact absurd ha' (hnone' a')
    · rw [hao, hbo]
      exact h.output k a' b' ha' hb'
  · intro k a ha hterminal
    rcases hversion k a ha with ⟨rfl, hs⟩ | ha
    · rcases hstep.status (d := d) hs with ⟨-, hphase, -⟩ | ⟨before, hbefore, -, houtput, hstatus⟩
      · rw [hphase] at hterminal
        cases hterminal
      · rw [houtput]
        have hhad := Directory.had_of_current hbefore
        rcases hstatus with hstatus | ⟨original, status, rfl, hphase | hphase⟩
        · exact h.valid k before hhad (hstatus ▸ hterminal)
        · exact h.valid k before hhad (hphase ▸ hterminal)
        · -- the reconciler reports an end only for a run with a valid output
          obtain ⟨run, hrequest, hrun, -, -, -, -, hlaunch, -⟩ := hreq
          rw [h.output k before run hhad ((hworker _ hrequest k rfl).had run hrun)]
          exact (hlaunch (hphase ▸ hterminal)).1
    · exact h.valid k a ha hterminal
  · intro k a b ha hterminal hb
    rw [hput, Directory.current_put] at hb
    split at hb
    · rename_i hk
      subst hk
      rcases hversion k a ha with ⟨-, hs⟩ | ha
      · rw [Option.some.inj (hs.symm.trans hb)]
        exact ⟨rfl, rfl⟩
      · rcases hstep.status (d := d) hb with ⟨-, -, spec, hc⟩ | ⟨before, hbefore, -, -, hstatus⟩
        · exact absurd ha (hunused spec hc a)
        · have hwas := h.final k a before ha hterminal hbefore
          rcases hstatus with hstatus | ⟨original, status, rfl, -⟩
          · rw [hstatus]
            exact hwas
          · -- the worker that writes the status has seen that the run has not ended
            obtain ⟨run, hrequest, hrun, hspent, -, -, hwanted, -⟩ := hreq
            have hopen := (hworker _ hrequest k rfl).current run before hrun hspent hwanted hbefore
            rw [hwas.1, hterminal] at hopen
            cases hopen
    · rcases hversion k a ha with ⟨hk, -⟩ | ha
      · exact absurd hk ‹_›
      · exact h.final k a b ha hterminal hb

theorem Tracks.step {m' : RunMemo} (h : Tracks d key m' w)
    (heffect : Effect d w c r w') (hreq : runReq d c m)
    (hother : (∃ original status, c = .patchRunStatus key original status) →
      m.request ≠ some (.ingestRun key)) : Tracks d key m' w' := by
  constructor
  · intro run hrun
    exact heffect.runs_had (h.had run hrun)
  · intro run b hrun hspent hwanted hb
    rcases heffect.runs with hsame | ⟨k₀, s, hstep, hput, -⟩
    · rw [hsame] at hb
      exact h.current run b hrun hspent hwanted hb
    · rw [hput, Directory.current_put] at hb
      split at hb
      · rename_i hk
        subst hk
        rcases hstep.status (d := d) hb with ⟨-, hphase, -⟩ | ⟨before, hbefore, -, -, hstatus⟩
        · rw [hphase]
          rfl
        · rcases hstatus with hstatus | ⟨original, status, rfl, -⟩
          · rw [hstatus]
            exact h.current run before hrun hspent hwanted hbefore
          · obtain ⟨run', hrequest, -⟩ := hreq
            exact absurd hrequest (hother ⟨original, status, rfl⟩)
      · exact h.current run b hrun hspent hwanted hb

theorem Tracked.note (hworld : Ended d w) {ch : Choice} (hperform : w.perform d ch c = some (r, w'))
    (hworker : ∀ x, m.request = some x → Tracked d x m w) (hreq : runReq d c m)
    (hconduct : (endsShown d).calls c r w) : ∀ x, ((runAccount d).note c r m).request = some x →
      Tracked d x ((runAccount d).note c r m) w' := by
  have heffect := perform_effect hperform
  cases c with
  | begin request =>
    obtain ⟨-, hrun, -⟩ := hreq
    intro x _ key _
    constructor
    · intro run h
      exact absurd (hrun.symm.trans h) nofun
    · intro run _ h
      exact absurd (hrun.symm.trans h) nofun
  | getRun k =>
    cases r with
    | error e =>
      intro x hx key hkey
      exact (hworker x hx key hkey).step heffect hreq fun ⟨_, _, hc⟩ => by cases hc
    | ok run =>
      intro x hx key hkey
      have hsame : m.request = some (.ingestRun key) := hkey ▸ hx
      rw [hreq.1] at hsame
      cases hsame
      have hhad : w.runs.Had k run := getRun_had hperform
      constructor
      · intro run' h
        cases h
        exact heffect.runs_had hhad
      · intro run' b h _ hwanted hb
        cases h
        cases heffect
        cases hterminal : b.status.phase.terminal with
        | false => rfl
        | true =>
          have hshown : run.status.phase.terminal = true := by
            apply hconduct
            rw [show (World.runs w).current k = some b from hb]
            exact hterminal
          rw [hwanted (hworld.valid k run hhad hshown)] at hshown
          cases hshown
  | patchRunStatus k original status =>
    intro x hx key hkey
    constructor
    · intro run hrun
      exact heffect.runs_had ((hworker x hx key hkey).had run hrun)
    · intro _ _ _ hspent
      cases hspent
  | _ =>
    intro x hx key hkey
    have htracks : Tracks d key m w' :=
      (hworker x hx key hkey).step heffect hreq fun ⟨_, _, hc⟩ => by cases hc
    exact ⟨htracks.had, htracks.current⟩

def endedKnowledge (d : Site) : (operator d).Knowledge RunMemo where
  world := Ended d
  request := RunMemo.request
  worker := Tracked d

/-- **Terminal phases are absorbing.**  In every run of reconciles, Jobs and other writers in
    which a read shows a run as ended once it has ended, and in which no name is used for two
    runs: the stored run has the phase and the completion time of every version of it that had
    a terminal phase. -/
theorem terminal_phase_absorbing {c : (operator d).machine.Config}
    (hc : (operator d).Reachable (endsShown d) {} c) {key : Key} {a b : IngestRun}
    (ha : c.shared.world.runs.Had key a) (hterminal : a.status.phase.terminal = true)
    (hb : c.shared.world.runs.current key = some b) :
    b.uid = a.uid ∧ b.status.phase = a.status.phase ∧
      b.status.completedAt = a.status.completedAt := by
  have hknown : Service.Known (runAccount d) {} (endedKnowledge d) c := by
    apply hc.known
    · refine ⟨⟨?_, ?_⟩, ?_, ?_, ?_, ?_⟩
      · exact fun k a ha => absurd ha List.not_mem_nil
      · exact fun k _ a _ ha => absurd ha List.not_mem_nil
      · exact fun k a _ ha => absurd ha List.not_mem_nil
      · exact fun k a _ ha => absurd ha List.not_mem_nil
      · exact fun k a ha => absurd ha List.not_mem_nil
      · exact fun k a _ ha => absurd ha List.not_mem_nil
    · exact runAccount_attested rfl
    · intro op hop
      cases op with
      | ingestRun key => exact reconcileIngestRun_keeps.minds
      | change x => exact ⟨trivial, fun _ _ => trivial⟩
      | _ => exact hop.elim
    · intro _ _ _ _ _ _ _ _ _
      trivial
    · intro ch q w r w' m hworld hworker hreq hperform hconduct
      have heffect := perform_effect hperform
      constructor
      · exact hworld.step heffect hworker hreq hconduct
      · exact Tracked.note hworld hperform hworker hreq hconduct
      · intro x m' _ hother _ hx key hkey
        exact (hx key hkey).step heffect hreq fun _ => hkey ▸ hother
  obtain ⟨hphase, hcompleted⟩ := hknown.world.final key a b ha hterminal hb
  exact ⟨hknown.world.same key b a (Directory.had_of_current hb) ha, hphase, hcompleted⟩

instance (d : Site) : DecidablePred (endsShown d).starts :=
  inferInstanceAs (DecidablePred ingestOperations)

instance (d : Site) (c : Call) (r : c.Resp) (w : (operator d).World) :
    Decidable ((endsShown d).calls c r w) := by
  rcases c with _ | _
  case getRun =>
    rcases r with _ | _
    case ok => exact inferInstanceAs (Decidable (_ = true → _ = true))
    case error => exact .isTrue trivial
  case change x =>
    rcases x with _ | _
    case createRun => exact inferInstanceAs (Decidable (_ ∉ (World.runs w).keys))
    all_goals exact .isTrue trivial
  all_goals exact .isTrue trivial

def clipEnd (w : World) : Option (RunPhase × Option Nat) :=
  (w.runs.current clip).map fun run => (run.status.phase, run.status.completedAt)

def clipSucceeded : List (Act plainSite) :=
  clipLaunched 10 ++ happens (.runJob (ingestJobKey plainSite clip) 0 false) ++
    happens (.finishJob (ingestJobKey plainSite clip) .complete) ++
    works (.ingestRun clip) 8
      { stream := .ok { runFinished := true, outcome := .succeeded } }

theorem terminal_phase_absorbing_clip : ∃ c a b,
    (operator plainSite).Reachable (endsShown plainSite) {} c ∧
      c.shared.world.runs.Had clip a ∧ a.status.phase = .succeeded ∧
      c.shared.world.runs.current clip = some b ∧ b.status.phase = a.status.phase ∧
      b.status.completedAt = a.status.completedAt := by
  obtain ⟨c, hc, hP⟩ : ∃ c, (operator plainSite).Reachable (endsShown plainSite) {} c ∧
      clipEnd c.shared.world = some (.succeeded, some 0) :=
    Service.Reachable.of_run (clipSucceeded ++ happens .tick ++
      happens (.removeJob (ingestJobKey plainSite clip)) ++ works (.ingestRun clip) 3 {})
      (by decide +kernel)
  obtain ⟨run, hrun, hseen⟩ := Option.map_eq_some_iff.mp hP
  have hhad := Directory.had_of_current hrun
  have hphase : run.status.phase = .succeeded := congrArg Prod.fst hseen
  have hterminal : run.status.phase.terminal = true := by
    rw [hphase]
    rfl
  exact ⟨c, run, run, hc, hhad, hphase, hrun, (terminal_phase_absorbing hc hhad hterminal hrun).2⟩

/-- The run has succeeded and its Job has gone; a reconcile that reads the run as it was before
    makes it `Failed`, with another completion time. -/
theorem succeeded_run_fails : ∃ c a, (operator plainSite).Reachable (.free _) {} c ∧
    c.shared.world.runs.Had clip a ∧
      (a.status.phase, a.status.completedAt) = (.succeeded, some 0) ∧
      clipEnd c.shared.world = some (.failed, some 1) := by
  obtain ⟨c, hc, hP⟩ : ∃ c, (operator plainSite).Reachable (.free _) {} c ∧
      clipEnd c.shared.world = some (.failed, some 1) ∧
        ((c.shared.world.runs.object clip).lagging 1).map
          (fun run => (run.status.phase, run.status.completedAt)) =
            some (.succeeded, some 0) :=
    Service.Reachable.of_run (clipSucceeded ++ happens .tick ++
      happens (.removeJob (ingestJobKey plainSite clip)) ++
      works (.ingestRun clip) 7 { age := fun k => if k = clip then 1 else 0 })
      (by decide +kernel)
  obtain ⟨hfailed, hbefore⟩ := hP
  obtain ⟨a, ha, hseen⟩ := Option.map_eq_some_iff.mp hbefore
  exact ⟨c, a, hc, Versioned.had_of_lagging ha, hseen, hfailed⟩

end Tamoss.Jobs
