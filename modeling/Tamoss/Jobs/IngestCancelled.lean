/-
  **A cancelled ingest run has no Job.**
-/
import Tamoss.Jobs.IngestOnce

namespace Tamoss.Jobs

open Lib Operator

variable {d : Site} {key : Key} {run : IngestRun} {m : RunMemo} {w w' : World}

/-- No version of a run that was ever cancelled has a Job, and no Job has left Pods behind. -/
structure Stopped (d : Site) (w : World) : Prop where
  uids : RunUIDs w
  spec : ∀ k a b, w.runs.Had k a → w.runs.Had k b → a.uid = b.uid →
    outputProblem d a.spec = outputProblem d b.spec
  final : ∀ k a b, w.runs.Had k a → a.status.phase = .cancelled → w.runs.current k = some b →
    b.uid = a.uid → outputProblem d b.spec = none → b.status.phase = .cancelled
  jobs : ∀ k job, w.jobs.current k = some job → ∃ key run, w.runs.Had key run ∧
    k = ingestJobKey d key ∧ job.controller = some run.uid
  pods : ∀ k pod, w.pods.current k = some pod → ∃ k' job, w.jobs.current k' = some job ∧
    job.uid = pod.job ∧ job.controller = pod.jobController
  stopped : ∀ k a, w.runs.Had k a → a.status.phase = .cancelled → ∀ k' job,
    w.jobs.current k' = some job → job.controller ≠ some a.uid

structure Watch (d : Site) (key : Key) (m : RunMemo) (w : World) : Prop where
  had : ∀ run, m.run = some run → w.runs.Had key run
  current : ∀ run b, m.run = some run → m.spent = false →
    (outputProblem d run.spec = none → run.status.phase.terminal = false) →
    w.runs.current key = some b → outputProblem d b.spec = none → b.status.phase ≠ .cancelled
  versions : ∀ run a, m.run = some run → m.spent = false → Launchable d run →
    w.runs.Had key a → a.uid = run.uid → a.status.phase ≠ .cancelled
  absent : m.job = some none → ∀ k job a, w.jobs.current k = some job → w.runs.Had key a →
    job.controller ≠ some a.uid

def Watched (d : Site) (x : Request) (m : RunMemo) (w : World) : Prop :=
  ∀ key, x = .ingestRun key → Watch d key m w

abbrev OnRun (d : Site) (m : RunMemo) (w : World) : Prop :=
  ∀ x, m.request = some x → Watched d x m w

/-- Cached reads of runs, Jobs and Pods are up to date, and a Job is removed only when none of
    its Pods is left. -/
def cacheCurrent (d : Site) : (operator d).Conduct where
  starts := ingestOperations
  calls
    | .change (.removeJob key), _, w =>
      ∀ x ∈ w.pods.list fun _ => 0, (w.jobs.current key).map Job.uid ≠ some x.2.job
    | .getRun key, r, w => w.Current (.getRun key) r
    | .getJob key, r, w => w.Current (.getJob key) r
    | .listPods ns selector, r, w => w.Current (.listPods ns selector) r
    | _, _, _ => True

variable {c : Call} {s : Option IngestRun} {k₀ : Key}

theorem RunStep.versions (h : RunStep w w' c k₀ s) (hs : s = some run) :
    (run.uid = w.next ∧ run.status.phase = .unset) ∨
      ∃ before, w.runs.current k₀ = some before ∧ run.uid = before.uid ∧
        outputProblem d run.spec = outputProblem d before.spec ∧
        (run.status.phase = before.status.phase ∨ ∃ original status,
          c = .patchRunStatus k₀ original status ∧ run.status.phase = status.phase) := by
  cases h with
  | create _ spec habsent hnext =>
    cases hs
    exact .inl ⟨rfl, rfl⟩
  | cancel _ before hrun =>
    cases hs
    exact .inr ⟨before, hrun, rfl, rfl, .inl rfl⟩
  | delete => cases hs
  | patch _ original status before hrun =>
    cases hs
    refine .inr ⟨before, hrun, rfl, rfl, ?_⟩
    simp only [RunStatus.merge, mergeField]
    split
    · exact .inl rfl
    · exact .inr ⟨original, status, rfl, rfl⟩

variable {r : c.Resp}

theorem Stopped.run_step (h : Stopped d w) (heffect : Effect d w c r w') (hworker : OnRun d m w)
    (hreq : runReq d c m) (hstep : RunStep w w' c k₀ s)
    (hruns : w'.runs = w.runs.put k₀ s) (hjobs : w'.jobs = w.jobs) (hpods : w'.pods = w.pods) :
    Stopped d w' := by
  have hversion : ∀ k a, w'.runs.Had k a → (k = k₀ ∧ s = some a) ∨ w.runs.Had k a := by
    intro k a ha
    rwa [hruns, Directory.had_put] at ha
  have hnew : ∀ k a, w.runs.Had k a → a.uid ≠ w.next := fun k a ha =>
    Nat.ne_of_lt (h.uids.below k a ha)
  -- where the UID and the output of a version come from
  have horigin : ∀ k a, w'.runs.Had k a → (s = some a ∧ a.uid = w.next) ∨
      ∃ b, w.runs.Had k b ∧ a.uid = b.uid ∧
        outputProblem d a.spec = outputProblem d b.spec := by
    intro k a ha
    rcases hversion k a ha with ⟨rfl, hs⟩ | ha
    · rcases hstep.versions hs with ⟨huid, -⟩ | ⟨b, hb, huid, hspec, -⟩
      · exact .inl ⟨hs, huid⟩
      · exact .inr ⟨b, Directory.had_of_current hb, huid, hspec⟩
    · exact .inr ⟨a, ha, rfl, rfl⟩
  refine ⟨h.uids.step heffect, fun k a b ha hb hab => ?_, fun k a b ha hcancelled hb hba hvalid => ?_,
    fun k job hjob => ?_, fun k pod hpod => ?_, fun k a ha hcancelled k' job hjob => ?_⟩
  · rcases horigin k a ha with ⟨hsa, hanew⟩ | ⟨a', ha', haa, hspeca⟩ <;>
      rcases horigin k b hb with ⟨hsb, hbnew⟩ | ⟨b', hb', hbb, hspecb⟩
    · rw [Option.some.inj (hsa.symm.trans hsb)]
    · exact absurd (hbb.symm.trans (hab.symm.trans hanew)) (hnew k b' hb')
    · exact absurd (haa.symm.trans (hab.trans hbnew)) (hnew k a' ha')
    · rw [hspeca, hspecb]
      exact h.spec k a' b' ha' hb' (haa.symm.trans (hab.trans hbb))
  · rw [hruns, Directory.current_put] at hb
    split at hb
    · rename_i hk
      subst hk
      rcases hversion k a ha with ⟨-, hs⟩ | ha
      · exact Option.some.inj (hs.symm.trans hb) ▸ hcancelled
      · rcases hstep.versions (d := d) hb with ⟨huid, -⟩ | ⟨before, hbefore, huid, hspec, hphase⟩
        · exact absurd (hba.symm.trans huid) (hnew k a ha)
        · have hwas := h.final k a before ha hcancelled hbefore (huid.symm.trans hba)
            (hspec ▸ hvalid)
          rcases hphase with hphase | ⟨original, status, rfl, hphase⟩
          · exact hphase.trans hwas
          · -- the worker that writes the status has seen that the run was not cancelled
            obtain ⟨run, hrequest, hrun, hspent, -, -, hwanted, -, -⟩ := hreq
            exact absurd hwas ((hworker _ hrequest k rfl).current run before hrun hspent hwanted
              hbefore (hspec ▸ hvalid))
    · rcases hversion k a ha with ⟨hk, -⟩ | ha
      · exact absurd hk ‹_›
      · exact h.final k a b ha hcancelled hb hba hvalid
  · rw [hjobs] at hjob
    obtain ⟨key, run, hrun, hk, hcontroller⟩ := h.jobs k job hjob
    exact ⟨key, run, heffect.runs_had hrun, hk, hcontroller⟩
  · rw [hpods] at hpod
    rw [hjobs]
    exact h.pods k pod hpod
  · rw [hjobs] at hjob
    rcases hversion k a ha with ⟨rfl, hs⟩ | ha
    · rcases hstep.versions (d := d) hs with ⟨-, hphase⟩ | ⟨before, hbefore, huid, -, hphase⟩
      · rw [hcancelled] at hphase
        cases hphase
      · rw [huid]
        rcases hphase with hphase | ⟨original, status, rfl, hphase⟩
        · exact h.stopped k before (Directory.had_of_current hbefore) (hphase ▸ hcancelled) k' job
            hjob
        · obtain ⟨run, hrequest, -, -, -, -, -, -, hcancel⟩ := hreq
          exact (hworker _ hrequest k rfl).absent (hcancel (hphase ▸ hcancelled)) k' job before
            hjob (Directory.had_of_current hbefore)
    · exact h.stopped k a ha hcancelled k' job hjob

theorem Stopped.job_origin (h : Stopped d w)
    (heffect : Effect d w c r w') (hreq : runReq d c m) {k : Key} {job : Job}
    (hjob : w'.jobs.current k = some job) :
    (∃ before, w.jobs.current k = some before ∧ job.controller = before.controller) ∨
      ∃ key run controller spec, c = .createJob k controller spec ∧
        m.request = some (.ingestRun key) ∧ m.run = some run ∧ m.spent = false ∧
        Launchable d run ∧ k = ingestJobKey d key ∧ job.controller = some run.uid := by
  rcases heffect.jobs with hsame | ⟨k₀, s, hstep, hput, -⟩
  · rw [hsame] at hjob
    exact .inl ⟨job, hjob, rfl⟩
  · rw [hput, Directory.current_put] at hjob
    split at hjob
    · rename_i hk
      subst hk
      generalize hbefore : w.jobs.current k = before at hstep
      subst hjob
      cases hstep with
      | launch job hnew hcall hjob =>
        rcases hcall with rfl | ⟨controller, hcontroller, rfl⟩
        · exact hreq.elim
        · obtain ⟨key, run, hrequest, hrun, hspent, hkey, rfl, hlaunch⟩ := hreq
          exact .inr ⟨key, run, _, _, rfl, hrequest, hrun, hspent, hlaunch, hkey, hcontroller⟩
      | keep before job huid hcontroller =>
        obtain ⟨-, run, -, -, hcontrolled⟩ := h.jobs k before hbefore
        refine .inl ⟨before, rfl, ?_⟩
        rcases hcontroller with hnone | hsame
        · rw [hcontrolled] at hnone
          cases hnone
        · exact hsame
    · exact .inl ⟨job, hjob, rfl⟩

theorem Stopped.job_step (h : Stopped d w) (heffect : Effect d w c r w') (hworker : OnRun d m w)
    (hreq : runReq d c m) (hconduct : (cacheCurrent d).calls c r w)
    (hruns : w'.runs = w.runs) (hpods : w'.pods = w.pods) : Stopped d w' := by
  refine ⟨h.uids.step heffect, ?_, ?_, fun k job hjob => ?_, fun k pod hpod => ?_,
    fun k a ha hcancelled k' job hjob => ?_⟩
  · rw [hruns]
    exact h.spec
  · rw [hruns]
    exact h.final
  · rw [hruns]
    rcases h.job_origin heffect hreq hjob with ⟨before, hbefore, hsame⟩ |
      ⟨key, run, -, -, -, hrequest, hrun, -, -, hk, hcontroller⟩
    · rw [hsame]
      exact h.jobs k before hbefore
    · exact ⟨key, run, (hworker _ hrequest key rfl).had run hrun, hk, hcontroller⟩
  · rw [hpods] at hpod
    obtain ⟨k', job, hjob, huid, hcontroller⟩ := h.pods k pod hpod
    obtain ⟨-, run, -, -, hcontrolled⟩ := h.jobs k' job hjob
    rcases controlled_after heffect hjob hcontrolled with ⟨job', hjob', hu', huid'⟩ | ⟨-, rfl | rfl⟩
    · exact ⟨k', job', hjob', huid'.trans huid, hu'.trans (hcontrolled.symm.trans hcontroller)⟩
    · -- the Job is removed although the Pod is left
      refine absurd ?_ (hconduct (k, pod) (Directory.mem_list_current.mpr hpod))
      rw [hjob]
      exact congrArg some huid
    · cases hreq
  · rw [hruns] at ha
    rcases h.job_origin heffect hreq hjob with ⟨before, hbefore, hsame⟩ |
      ⟨key, run, -, -, -, hrequest, hrun, hspent, hlaunch, -, hcontroller⟩
    · rw [hsame]
      exact h.stopped k a ha hcancelled k' before hbefore
    · rw [hcontroller]
      intro heq
      have hau := (Option.some.inj heq).symm
      have hwatch := hworker _ hrequest key rfl
      obtain rfl := h.uids.apart k key a run ha (hwatch.had run hrun) hau
      exact hwatch.versions run a hrun hspent hlaunch ha hau hcancelled

theorem Stopped.pod_step (h : Stopped d w)
    (heffect : Effect d w c r w') {s : Option Pod} (hstep : PodStep w c k₀ s)
    (hpods : w'.pods = w.pods.put k₀ s) (hjobs : w'.jobs = w.jobs) (hruns : w'.runs = w.runs) :
    Stopped d w' := by
  refine ⟨h.uids.step heffect, hruns ▸ h.spec, hruns ▸ h.final, hjobs ▸ hruns ▸ h.jobs,
    fun k pod hpod => ?_, hjobs ▸ hruns ▸ h.stopped⟩
  rw [hjobs]
  rw [hpods, Directory.current_put] at hpod
  split at hpod
  · subst hpod
    cases hstep with
    | create _ jobKey job hjob => exact ⟨jobKey, job, hjob, rfl, rfl⟩
    | finish _ exitCode pod hpod => exact h.pods _ pod hpod
  · exact h.pods k pod hpod

theorem Stopped.step (h : Stopped d w) (heffect : Effect d w c r w')
    (hworker : OnRun d m w) (hreq : runReq d c m)
    (hconduct : (cacheCurrent d).calls c r w) : Stopped d w' := by
  rcases heffect.runs with hruns | ⟨k₀, s, hstep, hput, hjobs, hpods, -⟩
  · rcases heffect.pods with hpods | ⟨k₀, s, hstep, hput, hjobs⟩ | ⟨key, rfl⟩
    · exact h.job_step heffect hworker hreq hconduct hruns hpods
    · exact h.pod_step heffect hstep hput hjobs hruns
    · cases hreq
  · exact h.run_step heffect hworker hreq hstep hput hjobs hpods

def Call.own : Call → Bool
  | .createJob .. | .patchRunStatus .. => true
  | _ => false

theorem Watch.step {m' : RunMemo} (h : Watch d key m' w) (hworld : Stopped d w)
    (heffect : Effect d w c r w') (hworker : OnRun d m w) (hreq : runReq d c m)
    (hother : c.own = true → m.request ≠ some (.ingestRun key)) : Watch d key m' w' := by
  -- where a version of the run comes from
  have horigin : ∀ a, w'.runs.Had key a → w.runs.Had key a ∨
      (a.uid = w.next ∧ a.status.phase = .unset) ∨
      ∃ before, w.runs.current key = some before ∧ a.uid = before.uid ∧
        outputProblem d a.spec = outputProblem d before.spec ∧
        a.status.phase = before.status.phase := by
    intro a ha
    rcases heffect.runs with hsame | ⟨k₀, s, hstep, hput, -⟩
    · exact .inl (hsame ▸ ha)
    · rw [hput, Directory.had_put] at ha
      rcases ha with ⟨rfl, hs⟩ | ha
      · rcases hstep.versions hs with hnew | ⟨before, hbefore, huid, hspec, hphase⟩
        · exact .inr (.inl hnew)
        · refine .inr (.inr ⟨before, hbefore, huid, hspec, ?_⟩)
          rcases hphase with hphase | ⟨original, status, rfl, -⟩
          · exact hphase
          · obtain ⟨run, hrequest, -⟩ := hreq
            exact absurd hrequest (hother rfl)
      · exact .inl ha
  refine ⟨fun run hrun => heffect.runs_had (h.had run hrun), fun run b hrun hspent hwanted hb hvalid => ?_,
    fun run a hrun hspent hlaunch ha hau => ?_, fun hjob k job a hcurrent ha => ?_⟩
  · rcases heffect.runs with hsame | ⟨k₀, s, hstep, hput, -⟩
    · rw [hsame] at hb
      exact h.current run b hrun hspent hwanted hb hvalid
    · rw [hput, Directory.current_put] at hb
      split at hb
      · rename_i hk
        subst hk
        rcases hstep.versions (d := d) hb with ⟨-, hphase⟩ | ⟨before, hbefore, -, hspec, hphase⟩
        · rw [hphase]
          exact RunPhase.noConfusion
        · rcases hphase with hphase | ⟨original, status, rfl, -⟩
          · rw [hphase]
            exact h.current run before hrun hspent hwanted hbefore (hspec ▸ hvalid)
          · obtain ⟨run, hrequest, -⟩ := hreq
            exact absurd hrequest (hother rfl)
      · exact h.current run b hrun hspent hwanted hb hvalid
  · rcases horigin a ha with ha | ⟨-, hphase⟩ | ⟨before, hbefore, huid, -, hphase⟩
    · exact h.versions run a hrun hspent hlaunch ha hau
    · rw [hphase]
      exact RunPhase.noConfusion
    · rw [hphase]
      exact h.versions run before hrun hspent hlaunch (Directory.had_of_current hbefore)
        (huid.symm.trans hau)
  · -- the UID is that of a run from before, unless it is new and no Job can have it
    have hcontrolled : ∀ a, w.runs.Had key a → job.controller ≠ some a.uid := by
      intro a ha
      rcases hworld.job_origin heffect hreq hcurrent with ⟨before, hbefore, hsame⟩ |
        ⟨key', run, controller, spec, rfl, hrequest, hrun, -, -, -, hcontroller⟩
      · rw [hsame]
        exact h.absent hjob k before a hbefore ha
      · rw [hcontroller]
        intro heq
        obtain rfl := hworld.uids.apart key' key run a
          ((hworker _ hrequest key' rfl).had run hrun) ha (Option.some.inj heq)
        exact hother rfl hrequest
    have hbelow : job.controller ≠ some w.next := by
      intro heq
      rcases hworld.job_origin heffect hreq hcurrent with ⟨before, hbefore, hsame⟩ |
        ⟨key', run, controller, spec, rfl, hrequest, hrun, -, -, -, hcontroller⟩
      · obtain ⟨key', run, hrun, -, hcontroller⟩ := hworld.jobs k before hbefore
        rw [hsame, hcontroller] at heq
        exact absurd (Option.some.inj heq) (Nat.ne_of_lt (hworld.uids.below key' run hrun))
      · rw [hcontroller] at heq
        exact absurd (Option.some.inj heq) (Nat.ne_of_lt (hworld.uids.below key' run
          ((hworker _ hrequest key' rfl).had run hrun)))
    rcases horigin a ha with ha | ⟨huid, -⟩ | ⟨before, hbefore, huid, -⟩
    · exact hcontrolled a ha
    · rw [huid]
      exact hbelow
    · rw [huid]
      exact hcontrolled before (Directory.had_of_current hbefore)

theorem Watched.note (hworld : Stopped d w) (heffect : Effect d w c r w') (hworker : OnRun d m w)
    (hreq : runReq d c m) (hconduct : (cacheCurrent d).calls c r w) :
    ∀ x, ((runAccount d).note c r m).request = some x →
      Watched d x ((runAccount d).note c r m) w' := by
  have hstep : c.own = false → ∀ x, m.request = some x → Watched d x m w' :=
    fun hown x hx key hkey => (hworker x hx key hkey).step hworld heffect hworker hreq
      fun htrue => absurd htrue (by simp [hown])
  cases c with
  | begin request =>
    obtain ⟨-, hrun, hjob, -⟩ := hreq
    intro x _ key _
    refine ⟨fun run h => ?_, fun run _ h => ?_, fun run _ h => ?_, fun h => ?_⟩
    · exact absurd (hrun.symm.trans h) nofun
    · exact absurd (hrun.symm.trans h) nofun
    · exact absurd (hrun.symm.trans h) nofun
    · exact absurd (hjob.symm.trans h) nofun
  | getRun k =>
    cases r with
    | error e => exact hstep rfl
    | ok run =>
      intro x hx key hkey
      have hsame : m.request = some (.ingestRun key) := hkey ▸ hx
      have hwatch := hstep rfl x hx key hkey
      rw [hreq.1] at hsame
      cases hsame
      cases heffect
      have hcurrent : w.runs.current k = some run := Fresh.ok hconduct
      have hhad := Directory.had_of_current hcurrent
      refine ⟨fun run' h => ?_, fun run' b h _ hwanted hb hvalid => ?_,
        fun run' a h _ hlaunch ha hau hcancelled => ?_, hwatch.absent⟩
      · cases h
        exact hhad
      · cases h
        obtain rfl := Option.some.inj (hcurrent.symm.trans hb)
        intro hcancelled
        have hterminal := hwanted hvalid
        rw [hcancelled] at hterminal
        cases hterminal
      · cases h
        have hfinal := hworld.final k a run ha hcancelled hcurrent hau.symm hlaunch.1
        have hterminal := hlaunch.2
        rw [hfinal] at hterminal
        cases hterminal
  | getJob jobKey =>
    intro x hx key hkey
    have hwatch := hstep rfl x hx key hkey
    cases heffect
    refine ⟨hwatch.had, hwatch.current, hwatch.versions, fun htold k job a hjob ha => ?_⟩
    obtain ⟨key', hrequest, rfl⟩ := hreq
    have hsame : m.request = some (.ingestRun key) := hkey ▸ hx
    rw [hrequest] at hsame
    cases hsame
    -- a Job of the run can only be under the key that was looked at
    have habsent : w.jobs.current (ingestJobKey d key) = none := by
      cases r with
      | ok job' => cases htold
      | error e =>
        cases e with
        | notFound => exact Fresh.notFound hconduct
        | _ => cases htold
    intro heq
    obtain ⟨key', run, hrun, rfl, hcontroller⟩ := hworld.jobs k job hjob
    obtain rfl := hworld.uids.apart key' key run a hrun ha
      (Option.some.inj (hcontroller.symm.trans heq))
    rw [habsent] at hjob
    cases hjob
  | createJob jobKey controller spec =>
    intro x hx key hkey
    have hwatch := hworker x hx key hkey
    have hruns : w'.runs = w.runs := by cases heffect <;> rfl
    refine ⟨?_, ?_, ?_, fun htold => by cases htold⟩
    · rw [hruns]
      exact hwatch.had
    · rw [hruns]
      exact hwatch.current
    · rw [hruns]
      exact hwatch.versions
  | patchRunStatus k original status =>
    intro x hx key hkey
    have hwatch := hworker x hx key hkey
    refine ⟨fun run hrun => heffect.runs_had (hwatch.had run hrun), fun _ _ _ h => ?_,
      fun _ _ _ h => ?_, fun htold k' job a hjob ha => ?_⟩
    · cases h
    · cases h
    cases heffect with
    | none => exact hwatch.absent htold k' job a hjob ha
    | patchRunStatus _ _ _ run hrun =>
      rcases Directory.had_put.mp ha with ⟨rfl, hnew⟩ | ha
      · cases hnew
        exact hwatch.absent htold k' job run hjob (Directory.had_of_current hrun)
      · exact hwatch.absent htold k' job a hjob ha
  | _ => exact hstep rfl

def stoppedKnowledge (d : Site) : (operator d).Knowledge RunMemo where
  world := Stopped d
  request := RunMemo.request
  worker := Watched d

/-- **Cancelled means stopped.**  In every run in which reads through the cache are up to
    date and a Job is removed only when its Pods are gone: once the phase of a run has been
    `Cancelled`, there is no Job that the run controls and no Pod of such a Job. -/
theorem cancelled_means_stopped {c : (operator d).machine.Config}
    (hc : (operator d).Reachable (cacheCurrent d) {} c) {key : Key} {run : IngestRun}
    (hrun : c.shared.world.runs.Had key run) (hcancelled : run.status.phase = .cancelled) :
    (∀ k job, c.shared.world.jobs.current k = some job → job.controller ≠ some run.uid) ∧
      ∀ k pod, c.shared.world.pods.current k = some pod → pod.jobController ≠ some run.uid := by
  have hknown : Service.Known (runAccount d) {} (stoppedKnowledge d) c := by
    refine hc.known ?_ (runAccount_attested rfl) ?_ (fun _ _ _ _ _ _ _ _ _ => trivial) ?_
    · refine ⟨⟨fun k a ha => ?_, fun k _ a _ ha => ?_⟩, fun k a _ ha => ?_, fun k a _ ha => ?_,
        fun k job hjob => ?_, fun k pod hpod => ?_, fun k a ha => ?_⟩
      · exact absurd ha List.not_mem_nil
      · exact absurd ha List.not_mem_nil
      · exact absurd ha List.not_mem_nil
      · exact absurd ha List.not_mem_nil
      · cases hjob
      · cases hpod
      · exact absurd ha List.not_mem_nil
    · intro op hop
      cases op with
      | ingestRun key => exact reconcileIngestRun_keeps.minds
      | change x => exact ⟨trivial, fun _ _ => trivial⟩
      | _ => exact hop.elim
    · intro ch q w r w' m hworld hworker hreq hperform hconduct
      have heffect := perform_effect hperform
      refine ⟨hworld.step heffect hworker hreq hconduct,
        Watched.note hworld heffect hworker hreq hconduct, ?_⟩
      intro x m' _ hother _ hx key hkey
      exact (hx key hkey).step hworld heffect hworker hreq fun _ => hkey ▸ hother
  have hstopped := hknown.world.stopped key run hrun hcancelled
  refine ⟨hstopped, fun k pod hpod => ?_⟩
  obtain ⟨k', job, hjob, -, hcontroller⟩ := hknown.world.pods k pod hpod
  exact hcontroller ▸ hstopped k' job hjob

instance (d : Site) : DecidablePred (cacheCurrent d).starts :=
  inferInstanceAs (DecidablePred ingestOperations)

instance (d : Site) (c : Call) (r : c.Resp) (w : (operator d).World) :
    Decidable ((cacheCurrent d).calls c r w) := by
  rcases c with _ | _
  case change x =>
    rcases x with _ | _
    case removeJob => exact inferInstanceAs (Decidable (∀ x ∈ World.pods w |>.list fun _ => 0, _))
    all_goals exact .isTrue trivial
  case getRun => exact World.Current.decidable w _ r
  case getJob => exact World.Current.decidable w _ r
  case listPods => exact World.Current.decidable w _ r
  all_goals exact .isTrue trivial

def clipSeen (w : World) : Option (Uid × RunPhase) × Option Uid :=
  ((w.runs.current clip).map fun run => (run.uid, run.status.phase),
    (w.jobs.current (ingestJobKey plainSite clip)).bind Job.controller)

theorem cancelled_means_stopped_clip : ∃ c run,
    (operator plainSite).Reachable (cacheCurrent plainSite) {} c ∧
      c.shared.world.runs.Had clip run ∧ run.status.phase = .cancelled ∧
      ∀ k job, c.shared.world.jobs.current k = some job → job.controller ≠ some run.uid := by
  obtain ⟨c, hc, hP⟩ : ∃ c, (operator plainSite).Reachable (cacheCurrent plainSite) {} c ∧
      clipSeen c.shared.world = (some (2, .cancelled), none) :=
    Service.Reachable.of_run (clipLaunched 10 ++
      happens (.createPod ⟨"media", "clip-pod"⟩ (ingestJobKey plainSite clip)) ++
      happens (.cancelRun clip) ++ works (.ingestRun clip) 6 {} ++
      happens (.removePod ⟨"media", "clip-pod"⟩) ++
      happens (.removeJob (ingestJobKey plainSite clip)) ++ works (.ingestRun clip) 6 {})
      (by decide +kernel)
  obtain ⟨run, hrun, hseen⟩ :=
    Option.map_eq_some_iff.mp (congrArg Prod.fst hP)
  have hhad := Directory.had_of_current hrun
  have hphase : run.status.phase = .cancelled := congrArg Prod.snd hseen
  exact ⟨c, run, hc, hhad, hphase, (cancelled_means_stopped hc hhad hphase).1⟩

/-- The cache does not yet show the Job that was created, so the run becomes `Cancelled`
    while its Job is there. -/
theorem cancelled_with_live_job : ∃ c, (operator plainSite).Reachable (.free _) {} c ∧
    clipSeen c.shared.world = (some (2, .cancelled), some 2) :=
  Service.Reachable.of_run (clipLaunched 10 ++ happens (.cancelRun clip) ++
    works (.ingestRun clip) 6
      { age := fun k => if k = ingestJobKey plainSite clip then 1 else 0 })
    (by decide +kernel)

end Tamoss.Jobs
