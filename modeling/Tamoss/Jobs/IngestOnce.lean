/-
  **At most one TAMSin Job for an ingest run.**
-/
import Tamoss.Jobs.Effects

namespace Tamoss.Jobs

open Lib Operator

/-- What a worker on an `IngestRun` remembers: its request, the run it has read, what it found
    under the key of the run's Job, and whether it has written the status. -/
structure RunMemo where
  request : Option Request := none
  run : Option IngestRun := none
  job : Option (Option Job) := none
  spent : Bool := false

def Launchable (d : Site) (run : IngestRun) : Prop :=
  outputProblem d run.spec = none ∧ run.status.phase.terminal = false

def runReq (d : Site) : Call → RunMemo → Prop
  | .begin request, m =>
    m.request = none ∧ m.run = none ∧ m.job = none ∧ ∃ key, request = .ingestRun key
  | .getRun key, m => m.request = some (.ingestRun key) ∧ m.spent = false
  | .getJob jobKey, m =>
    ∃ key, m.request = some (.ingestRun key) ∧ jobKey = ingestJobKey d key
  | .createJob jobKey controller _, m =>
    ∃ key run, m.request = some (.ingestRun key) ∧ m.run = some run ∧ m.spent = false ∧
      jobKey = ingestJobKey d key ∧ controller = run.uid ∧ Launchable d run
  | .patchRunStatus key original status, m =>
    ∃ run, m.request = some (.ingestRun key) ∧ m.run = some run ∧ m.spent = false ∧
      original = run.status ∧ (status.jobName = original.jobName ∨ status.jobName ≠ "") ∧
      (outputProblem d run.spec = none → run.status.phase.terminal = false) ∧
      (status.phase.terminal = true → Launchable d run) ∧
      (status.phase = .cancelled → m.job = some none)
  | .deleteJob _ foreground, _ => foreground = true
  | .applyJob .., _ | .applyConfigMap .., _ | .deleteConfigMap _, _ | .deletePod _, _ => False
  | _, _ => True

def runAccount (d : Site) : Account Call Call.Resp RunMemo where
  note
    | .begin request, _, m => { m with request := some request }
    | .getRun _, .ok run, m => { m with run := some run }
    | .getJob _, answer, m => { m with job := told answer }
    | .createJob .., _, m => { m with job := none }
    | .patchRunStatus .., _, m => { m with spent := true }
    | _, _, m => m
  Req := runReq d

structure Reporting (d : Site) (key : Key) (run : IngestRun) (m : RunMemo) : Prop where
  req : m.request = some (.ingestRun key)
  read : m.run = some run
  unspent : m.spent = false
  wanted : outputProblem d run.spec = none → run.status.phase.terminal = false

variable {d : Site} {key : Key} {run : IngestRun} {m : RunMemo}

theorem ingestJobKey_name : (ingestJobKey d key).name ≠ "" := by
  simp only [ingestJobKey, cutName]
  split <;> simp

variable {report : PhaseReport}

theorem setIngestRunJobPhase_keeps (hm : Reporting d key run m)
    {input : StatusInput} (hjob : ∀ j, input.job = some j → j.1.name ≠ "")
    (hterminal : report.phase.terminal = true → Launchable d run)
    (hcancelled : report.phase = .cancelled → m.job = some none) :
    Keeps (runAccount d) (setIngestRunJobPhase key run report input) m := by
  refine Keeps.ask trivial fun (now : Nat) => ?_
  dsimp only
  split
  · exact Keeps.done
  · refine Keeps.ask ⟨run, hm.req, hm.read, hm.unspent, rfl, ?_, hm.wanted, fun h => ?_, fun h => ?_⟩
      fun _ => Keeps.done
    · rw [jobPhaseStatus_jobName]
      cases hinput : input.job with
      | none => exact .inl rfl
      | some j => exact .inr (hjob j hinput)
    · exact hterminal (jobPhaseStatus_terminal run now report input h)
    · exact hcancelled (jobPhaseStatus_phase run now report input h)

theorem setIngestRunPhase_keeps (hm : Reporting d key run m)
    (hterminal : report.phase.terminal = true → Launchable d run)
    (hcancelled : report.phase = .cancelled → m.job = some none) :
    Keeps (runAccount d) (setIngestRunPhase key run report) m :=
  setIngestRunJobPhase_keeps hm (fun j hj => by cases hj) hterminal hcancelled

theorem refuse_keeps (hm : Reporting d key run m) {refusal : Refusal} :
    Keeps (runAccount d) (refuse key run refusal) m :=
  setIngestRunPhase_keeps hm (fun h => by cases h) (fun h => by cases h)

variable {job : Job}

theorem reportJob_keeps (hm : Reporting d key run m) (hrun : Launchable d run)
    {stream : Option StreamSummary} (hreport : report.phase ≠ .cancelled) :
    Keeps (runAccount d) (setIngestRunJobPhase key run report
      { job := some (ingestJobKey d key, job), stream := stream }) m := by
  refine setIngestRunJobPhase_keeps hm (fun j hj => ?_) (fun _ => hrun) (fun h => absurd h hreport)
  cases hj
  exact ingestJobKey_name

theorem deleteAndReport_keeps (hm : Reporting d key run m) (hrun : Launchable d run)
    (hreport : report.phase ≠ .cancelled) : Keeps (runAccount d) (if job.deleting then
        setIngestRunJobPhase key run report { job := some (ingestJobKey d key, job) }
      else do
        afterDelete (← ask (.deleteJob (ingestJobKey d key) true))
          (setIngestRunJobPhase key run report { job := some (ingestJobKey d key, job) })) m := by
  split
  · exact reportJob_keeps hm hrun hreport
  · exact Keeps.ask rfl fun _ => Keeps.afterDelete (reportJob_keeps hm hrun hreport)

theorem reconcileIngestCancellation_keeps (hm : Reporting d key run m) {job : Option Job}
    (hrun : Launchable d run) (hjob : m.job = some job) :
    Keeps (runAccount d) (reconcileIngestCancellation d key run job) m := by
  cases job with
  | none =>
    refine Keeps.ask trivial fun answer => Keeps.onOk fun pods _ => ?_
    split
    · exact setIngestRunPhase_keeps hm (fun _ => hrun) (fun h => by cases h)
    · exact setIngestRunPhase_keeps hm (fun _ => hrun) fun _ => hjob
  | some job => exact deleteAndReport_keeps hm hrun nofun

theorem abandonIngestRun_keeps (hm : Reporting d key run m) (hrun : Launchable d run) :
    Keeps (runAccount d) (abandonIngestRun d key run job) m := by
  refine Keeps.ask trivial fun answer => ?_
  split
  · exact Keeps.done
  · exact deleteAndReport_keeps hm hrun nofun
  · exact Keeps.done

theorem reconcileMissingIngestJob_keeps (hm : Reporting d key run m) (hrun : Launchable d run) :
    Keeps (runAccount d) (reconcileMissingIngestJob d key run) m := by
  refine Keeps.ask trivial fun answer => ?_
  split
  · exact Keeps.done
  · exact setIngestRunPhase_keeps hm (fun _ => hrun) (fun h => by cases h)
  · exact Keeps.done

theorem ingestStreamFailurePhase_ne_cancelled (job : Job) (now : Nat) (e : StreamError) :
    (ingestStreamFailurePhase job now e).phase ≠ .cancelled := by
  cases e with
  | invalid => exact nofun
  | unavailable =>
    simp only [ingestStreamFailurePhase]
    split <;> exact RunPhase.noConfusion

theorem trackIngestJob_keeps (hm : Reporting d key run m) (hrun : Launchable d run) :
    Keeps (runAccount d) (trackIngestJob d key run job) m := by
  refine Keeps.ask trivial fun now => ?_
  split
  · refine Keeps.ask trivial fun answer => ?_
    split
    · exact reportJob_keeps hm hrun (ingestStreamFailurePhase_ne_cancelled _ _ _)
    · exact reportJob_keeps hm hrun (ingestPhaseFromJob_ne_cancelled _ _ _ _)
  · exact reportJob_keeps hm hrun (ingestPhaseFromJob_ne_cancelled _ _ _ _)

theorem persistResolvedFlowProfiles_keeps (hm : Reporting d key run m) (hrun : Launchable d run)
    {profiles : List String} {next : Reconcile} (hnext : Keeps (runAccount d) next m) :
    Keeps (runAccount d) (persistResolvedFlowProfiles key run profiles next) m := by
  unfold persistResolvedFlowProfiles
  split
  · exact hnext
  · refine Keeps.ask ⟨run, hm.req, hm.read, hm.unspent, rfl, .inl rfl, hm.wanted, fun _ => hrun,
      fun h => ?_⟩ fun _ => Keeps.done
    have hterminal := hrun.2
    rw [show run.status.phase = .cancelled from h] at hterminal
    cases hterminal

theorem launchIngestJob_keeps (hm : Reporting d key run m) (hrun : Launchable d run)
    {attempt : Nat} {plan : IngestPlan} :
    Keeps (runAccount d) (launchIngestJob d key run attempt plan) m := by
  refine Keeps.ask ⟨key, run, hm.req, hm.read, hm.unspent, rfl, rfl, hrun⟩ fun answer => ?_
  split
  · exact Keeps.done
  · have hm' : Reporting d key run { m with job := none } :=
      ⟨hm.req, hm.read, hm.unspent, hm.wanted⟩
    refine setIngestRunJobPhase_keeps hm' (fun j hj => ?_) (fun _ => hrun) ?_
    · cases hj
      exact ingestJobKey_name
    · exact nofun

theorem admitIngestRun_keeps (hm : Reporting d key run m) (hrun : Launchable d run) :
    Keeps (runAccount d) (admitIngestRun d key run) m := by
  refine Keeps.ask trivial fun answer => ?_
  split
  · exact refuse_keeps hm
  · refine Keeps.ask trivial fun answer => ?_
    split
    · exact persistResolvedFlowProfiles_keeps hm hrun (refuse_keeps hm)
    · refine persistResolvedFlowProfiles_keeps hm hrun (Keeps.ask trivial fun answer => ?_)
      split
      · exact refuse_keeps hm
      · exact launchIngestJob_keeps hm hrun

theorem reconcileWantedRun_keeps (hm : Reporting d key run m) (hrun : Launchable d run)
    {job : Option Job} : Keeps (runAccount d) (reconcileWantedRun d key run job) m := by
  refine Keeps.ask trivial fun answer => Keeps.onFound (fun _ => ?_) fun t _ => ?_
  · cases job with
    | none => exact refuse_keeps hm
    | some job => exact abandonIngestRun_keeps hm hrun
  · cases job with
    | none =>
      dsimp only
      split
      · exact reconcileMissingIngestJob_keeps hm hrun
      · exact admitIngestRun_keeps hm hrun
    | some job => exact trackIngestJob_keeps hm hrun

theorem reconcileValidRun_keeps (hread : m.request = some (.ingestRun key) ∧ m.run = some run ∧
    m.spent = false) (hvalid : outputProblem d run.spec = none) {job : Option Job}
    (hjob : m.job = some job) : Keeps (runAccount d) (reconcileValidRun d key run job) m := by
  obtain ⟨hreq, hrun, hspent⟩ := hread
  unfold reconcileValidRun
  split
  · exact Keeps.done
  · rename_i hopen
    have hlaunch : Launchable d run := ⟨hvalid, by simpa using hopen⟩
    have hm : Reporting d key run m := ⟨hreq, hrun, hspent, fun _ => hlaunch.2⟩
    split
    · exact refuse_keeps hm
    · split
      · exact reconcileIngestCancellation_keeps hm hlaunch hjob
      · exact reconcileWantedRun_keeps hm hlaunch

theorem reconcileIngestRun_keeps : Keeps (runAccount d) (reconcileIngestRun d key) {} := by
  refine Keeps.ask ⟨rfl, rfl, rfl, key, rfl⟩ fun _ => Keeps.ask ⟨rfl, rfl⟩ fun answer => ?_
  refine Keeps.onFound (fun _ => Keeps.done) fun run hanswer => ?_
  subst hanswer
  dsimp only
  split
  · exact Keeps.done
  · split
    · rename_i problem hproblem
      exact refuse_keeps ⟨rfl, rfl, rfl, fun h => by rw [hproblem] at h; cases h⟩
    · rename_i hvalid
      refine Keeps.ask ⟨key, rfl, rfl⟩ fun answer => Keeps.onFound (fun hnone => ?_) fun job hjob => ?_
      · subst hnone
        exact reconcileValidRun_keeps ⟨rfl, rfl, rfl⟩ hvalid rfl
      · subst hjob
        exact reconcileValidRun_keeps ⟨rfl, rfl, rfl⟩ hvalid rfl

structure RunUIDs (w : World) : Prop where
  below : ∀ k a, w.runs.Had k a → a.uid < w.next
  apart : ∀ k k' a b, w.runs.Had k a → w.runs.Had k' b → a.uid = b.uid → k = k'

variable {w w' : World}

variable {c : Call}

theorem RunStep.uid {s : Option IngestRun} (h : RunStep w w' c key s) (hs : s = some run) :
    (∃ before, w.runs.current key = some before ∧ before.uid = run.uid) ∨
      (run.uid = w.next ∧ w'.next = w.next + 1) := by
  cases h with
  | create _ spec habsent hnext =>
    cases hs
    exact .inr ⟨rfl, hnext⟩
  | cancel _ before hrun =>
    cases hs
    exact .inl ⟨before, hrun, rfl⟩
  | delete => cases hs
  | patch _ original status before hrun =>
    cases hs
    exact .inl ⟨before, hrun, rfl⟩

variable {r : c.Resp}

theorem RunUIDs.step (h : RunUIDs w) (heffect : Effect d w c r w') : RunUIDs w' := by
  rcases heffect.runs with hsame | ⟨k₀, s, hstep, hruns, -⟩
  · refine ⟨fun k a ha => ?_, fun k k' a b ha hb => ?_⟩
    · rw [hsame] at ha
      exact Nat.lt_of_lt_of_le (h.below k a ha) heffect.next_le
    · rw [hsame] at ha hb
      exact h.apart k k' a b ha hb
  · -- every version has a UID that was there before under its key, or the new one
    have hold : ∀ k a, w'.runs.Had k a → (∃ b, w.runs.Had k b ∧ b.uid = a.uid) ∨
        (k = k₀ ∧ a.uid = w.next ∧ w'.next = w.next + 1) := by
      intro k a ha
      rw [hruns, Directory.had_put] at ha
      rcases ha with ⟨rfl, hs⟩ | ha
      · rcases hstep.uid hs with ⟨b, hb, hba⟩ | hnew
        · exact .inl ⟨b, Directory.had_of_current hb, hba⟩
        · exact .inr ⟨rfl, hnew⟩
      · exact .inl ⟨a, ha, rfl⟩
    refine ⟨fun k a ha => ?_, fun k k' a b ha hb hab => ?_⟩
    · rcases hold k a ha with ⟨b, hb, hba⟩ | ⟨-, hnew, hnext⟩
      · exact hba ▸ Nat.lt_of_lt_of_le (h.below k b hb) heffect.next_le
      · rw [hnew, hnext]
        exact Nat.lt_succ_self w.next
    · rcases hold k a ha with ⟨a', ha', haa⟩ | ⟨rfl, hanew, -⟩ <;>
        rcases hold k' b hb with ⟨b', hb', hbb⟩ | ⟨rfl, hbnew, -⟩
      · exact h.apart k k' a' b' ha' hb' (haa.trans (hab.trans hbb.symm))
      · exact absurd (haa.trans (hab.trans hbnew)) (Nat.ne_of_lt (h.below k a' ha'))
      · exact absurd (hbb.trans (hab.symm.trans hanew)) (Nat.ne_of_lt (h.below k' b' hb'))
      · rfl

def ReadRun (x : Request) (m : RunMemo) (w : World) : Prop :=
  ∀ key run, x = .ingestRun key → m.run = some run → w.runs.Had key run

variable {k : Key}

theorem Effect.runs_had (h : Effect d w c r w') {a : IngestRun}
    (ha : w.runs.Had k a) : w'.runs.Had k a := by
  rcases h.runs with hsame | ⟨key, s, -, hput, -⟩
  · rwa [hsame]
  · rw [hput]
    exact ha.put

structure OneJob (d : Site) (w : World) : Prop where
  uids : RunUIDs w
  known : ∀ u ∈ w.created, ∃ k a, w.runs.Had k a ∧ a.uid = u
  recorded : ∀ k run, w.runs.current k = some run → run.uid ∈ w.created →
    run.status.jobName ≠ "" ∨
      ∃ job, w.jobs.current (ingestJobKey d k) = some job ∧ job.controller = some run.uid
  once : w.created.Nodup

/-- Reconciles of `IngestRun`s, and whatever others do. -/
def ingestOperations : Operation → Prop
  | .ingestRun _ | .change _ => True
  | _ => False

instance : DecidablePred ingestOperations := fun op => by
  rcases op with _ | _ <;> unfold ingestOperations <;> infer_instance

def launchesRecorded (d : Site) : (operator d).Conduct where
  starts := ingestOperations
  calls
    | .createJob _ controller _, .ok _, w =>
      ∃ x ∈ w.runs.list fun _ => 0, x.2.uid = controller ∧ x.2.status.jobName = ""
    | .change (.removeJob key), _, w =>
      ∀ x ∈ w.runs.list fun _ => 0,
        (w.jobs.current key).bind Job.controller = some x.2.uid → x.2.status.jobName ≠ ""
    | _, _, _ => True

theorem merge_jobName {original status stored : RunStatus}
    (h : status.jobName = original.jobName ∨ status.jobName ≠ "") (hstored : stored.jobName ≠ "") :
    (RunStatus.merge original status stored).jobName ≠ "" := by
  simp only [RunStatus.merge, mergeField]
  split
  · exact hstored
  · rename_i hchanged
    exact h.resolve_left hchanged

theorem stored_before (heffect : Effect d w c r w') (hreq : runReq d c m)
    (hrun : w'.runs.current k = some run) :
    (∃ before, w.runs.current k = some before ∧ before.uid = run.uid ∧
      (before.status.jobName ≠ "" → run.status.jobName ≠ "")) ∨ run.uid = w.next := by
  rcases heffect.runs with hsame | ⟨key, s, hstep, hput, -⟩
  · rw [hsame] at hrun
    exact .inl ⟨run, hrun, rfl, id⟩
  · rw [hput, Directory.current_put] at hrun
    split at hrun
    · rename_i hk
      subst hk
      cases hstep with
      | create _ spec habsent hnext =>
        cases hrun
        exact .inr rfl
      | cancel _ before hbefore =>
        cases hrun
        exact .inl ⟨before, hbefore, rfl, id⟩
      | delete => cases hrun
      | patch _ original status before hbefore =>
        cases hrun
        obtain ⟨-, -, -, -, -, hname, -⟩ := hreq
        exact .inl ⟨before, hbefore, rfl, merge_jobName hname⟩
    · exact .inl ⟨run, hrun, rfl, id⟩

theorem controlled_after (heffect : Effect d w c r w')
    {u : Uid} (hjob : w.jobs.current k = some job) (hu : job.controller = some u) :
    (∃ job', w'.jobs.current k = some job' ∧ job'.controller = some u ∧ job'.uid = job.uid) ∨
      (w'.runs = w.runs ∧ (c = .change (.removeJob k) ∨ c = .deleteJob k false)) := by
  rcases heffect.jobs with hsame | ⟨key, s, hstep, hput, hruns⟩
  · exact .inl ⟨job, by rw [hsame, hjob], hu, rfl⟩
  · by_cases hk : k = key
    · subst hk
      rw [hjob] at hstep
      rw [hput, Directory.current_put_self]
      cases hstep with
      | keep _ job' huid hcontroller =>
        refine .inl ⟨job', rfl, ?_, huid⟩
        rcases hcontroller with hnone | hsame
        · rw [hu] at hnone
          cases hnone
        · exact hsame.trans hu
      | remove _ hcall => exact .inr ⟨hruns, hcall⟩
    · exact .inl ⟨job, by rw [hput, Directory.current_put_of_ne hk, hjob], hu, rfl⟩

theorem OneJob.keep (h : OneJob d w) (heffect : Effect d w c r w')
    (hreq : runReq d c m) (hconduct : (launchesRecorded d).calls c r w)
    (hcreated : w'.created = w.created) : OneJob d w' := by
  refine ⟨h.uids.step heffect, fun u hu => ?_, fun k run hrun hu => ?_, hcreated ▸ h.once⟩
  · rw [hcreated] at hu
    obtain ⟨k, a, ha, hau⟩ := h.known u hu
    exact ⟨k, a, heffect.runs_had ha, hau⟩
  · rw [hcreated] at hu
    rcases stored_before heffect hreq hrun with ⟨before, hbefore, huid, hname⟩ | hnew
    · rw [← huid] at hu ⊢
      rcases h.recorded k before hbefore hu with hrecorded | ⟨job, hjob, hcontrolled⟩
      · exact .inl (hname hrecorded)
      · rcases controlled_after heffect hjob hcontrolled with ⟨job', hjob', hu', -⟩ | ⟨hruns, hc⟩
        · exact .inr ⟨job', hjob', hu'⟩
        · refine .inl (hname ?_)
          rcases hc with rfl | rfl
          · refine hconduct (k, before) (Directory.mem_list_current.mpr hbefore) ?_
            rw [hjob]
            exact hcontrolled
          · cases hreq
    · -- a UID that is only now given cannot have been given to a Job
      obtain ⟨k', a, ha, hau⟩ := h.known run.uid hu
      exact absurd (hau.trans hnew) (Nat.ne_of_lt (h.uids.below k' a ha))

theorem OneJob.step (h : OneJob d w) (heffect : Effect d w c r w')
    (hworker : ∀ x, m.request = some x → ReadRun x m w) (hreq : runReq d c m)
    (hconduct : (launchesRecorded d).calls c r w) : OneJob d w' := by
  by_cases hcreated : w'.created = w.created
  · exact h.keep heffect hreq hconduct hcreated
  · have hstep := heffect
    cases heffect
    case createJob jobKey controller spec habsent =>
      obtain ⟨key, run, hrequest, hrun, -, rfl, rfl, -⟩ := hreq
      have hread := hworker _ hrequest key run rfl hrun
      obtain ⟨⟨k, stored⟩, hstored, huid, hname⟩ := hconduct
      have hcurrent := Directory.mem_list_current.mp hstored
      obtain rfl := h.uids.apart k key stored run (Directory.had_of_current hcurrent) hread huid
      -- a Job created before would be recorded, or still be there
      have hfirst : run.uid ∉ w.created := by
        intro hmem
        rcases h.recorded k stored hcurrent (huid ▸ hmem) with hrecorded | ⟨job, hjob, -⟩
        · exact hrecorded hname
        · rw [habsent] at hjob
          cases hjob
      refine ⟨h.uids.step hstep, fun u hu => ?_, fun k' run' hrun' hu => ?_,
        List.nodup_cons.mpr ⟨hfirst, h.once⟩⟩
      · rcases List.mem_cons.mp hu with rfl | hu
        · exact ⟨k, run, hread, rfl⟩
        · exact h.known u hu
      · rcases List.mem_cons.mp hu with hsame | hu
        · obtain rfl := h.uids.apart k' k run' run (Directory.had_of_current hrun') hread hsame
          exact .inr ⟨_, Directory.current_put_self, congrArg some hsame.symm⟩
        · refine (h.recorded k' run' hrun' hu).imp_right fun ⟨job, hjob, hcontrolled⟩ => ?_
          refine ⟨job, ?_, hcontrolled⟩
          rw [← hjob]
          refine Directory.current_put_of_ne fun heq => ?_
          rw [heq, habsent] at hjob
          cases hjob
    all_goals exact absurd rfl hcreated

def oneJobKnowledge (d : Site) : (operator d).Knowledge RunMemo where
  world := OneJob d
  request := RunMemo.request
  worker := ReadRun

theorem runAccount_attested {K : (operator d).Knowledge RunMemo}
    (hK : K.request = RunMemo.request) : Service.Attested (runAccount d) {} K := by
  refine ⟨by rw [hK]; rfl, fun q r m hreq => ?_⟩
  rw [hK]
  cases q with
  | begin request => rfl
  | getRun key => cases r <;> rfl
  | _ => rfl

theorem ReadRun.note {ch : Choice} (hperform : w.perform d ch c = some (r, w'))
    (h : ∀ x, m.request = some x → ReadRun x m w) (hreq : runReq d c m) :
    ∀ x, ((runAccount d).note c r m).request = some x →
      ReadRun x ((runAccount d).note c r m) w' := by
  have heffect := perform_effect hperform
  have hkeep : ∀ x, m.request = some x → ReadRun x m w' := fun x hx key run hkey hrun =>
    heffect.runs_had (h x hx key run hkey hrun)
  cases c with
  | begin request =>
    intro x _ key run _ hrun
    exact absurd (hreq.2.1.symm.trans hrun) nofun
  | getRun key =>
    cases r with
    | error e => exact hkeep
    | ok run =>
      intro x hx key' run' hkey hrun
      cases hrun
      have hsame : m.request = some (.ingestRun key') := hkey ▸ hx
      rw [hreq.1] at hsame
      cases hsame
      exact heffect.runs_had (getRun_had hperform)
  | _ => exact hkeep

/-- **At most one TAMSin Job is created for a run.**  In every run in which a Job is only
    created while its run is stored without a recorded Job, and a Job is only removed once
    its run has it recorded, no run ever gets a second one. -/
theorem at_most_one_ingest_job {c : (operator d).machine.Config}
    (hc : (operator d).Reachable (launchesRecorded d) {} c) (u : Uid) :
    c.shared.world.created.count u ≤ 1 := by
  have hknown : Service.Known (runAccount d) {} (oneJobKnowledge d) c := by
    refine hc.known ?_ (runAccount_attested rfl) ?_ (fun _ _ _ _ _ _ _ _ _ => trivial) ?_
    · refine ⟨⟨fun k a ha => ?_, fun k _ a _ ha => ?_⟩, fun u hu => ?_, fun k run hrun => ?_,
        List.nodup_nil⟩
      · exact absurd ha List.not_mem_nil
      · exact absurd ha List.not_mem_nil
      · exact absurd hu List.not_mem_nil
      · cases hrun
    · intro op hop
      cases op with
      | ingestRun key => exact reconcileIngestRun_keeps.minds
      | change x => exact ⟨trivial, fun _ _ => trivial⟩
      | _ => exact hop.elim
    · intro ch q w r w' m hworld hworker hreq hperform hconduct
      have heffect := perform_effect hperform
      refine ⟨hworld.step heffect hworker hreq hconduct, ReadRun.note hperform hworker hreq, ?_⟩
      intro x m' _ _ _ hx key run hkey hrun
      exact heffect.runs_had (hx key run hkey hrun)
  exact List.nodup_iff_count_le_one.mp hknown.world.once u

def clip : Key := ⟨"media", "clip"⟩

def clipLaunched (calls : Nat) : List (Act plainSite) :=
  happens (.setTamoss demo.key (some demo)) ++ happens (.createRun clip { tamossRef := "demo" }) ++
    works (.ingestRun clip) calls { admission := .ok 1 }

instance (d : Site) : DecidablePred (launchesRecorded d).starts :=
  inferInstanceAs (DecidablePred ingestOperations)

instance (d : Site) (c : Call) (r : c.Resp) (w : (operator d).World) :
    Decidable ((launchesRecorded d).calls c r w) := by
  rcases c with _ | _
  case createJob =>
    rcases r with _ | _
    case ok => exact inferInstanceAs (Decidable (∃ x ∈ World.runs w |>.list fun _ => 0, _ ∧ _))
    case error => exact .isTrue trivial
  case change x =>
    rcases x with _ | _
    case removeJob => exact inferInstanceAs (Decidable (∀ x ∈ World.runs w |>.list fun _ => 0, _ → _))
    all_goals exact .isTrue trivial
  all_goals exact .isTrue trivial

/-- The Job is recorded, and its removal later does not bring a second one. -/
theorem at_most_one_ingest_job_clip : ∃ c,
    (operator plainSite).Reachable (launchesRecorded plainSite) {} c ∧
      c.shared.world.created = [2] ∧ c.shared.world.created.count 2 ≤ 1 := by
  obtain ⟨c, hc, hP⟩ : ∃ c, (operator plainSite).Reachable (launchesRecorded plainSite) {} c ∧
      c.shared.world.created = [2] :=
    Service.Reachable.of_run (clipLaunched 10 ++
      happens (.removeJob (ingestJobKey plainSite clip)) ++
      works (.ingestRun clip) 6 { admission := .ok 1 }) (by decide +kernel)
  exact ⟨c, hc, hP, at_most_one_ingest_job hc 2⟩

/-- The operator stops after creating the Job and before recording it; the Job outlives its
    time, and the next reconcile creates another one. -/
theorem ingest_replayed : ∃ c, (operator plainSite).Reachable (.free _) {} c ∧
    c.shared.world.created.count 2 = 2 :=
  Service.Reachable.of_run (clipLaunched 8 ++
    happens (.removeJob (ingestJobKey plainSite clip)) ++
    works (.ingestRun clip) 8 { admission := .ok 1 }) (by decide +kernel)

end Tamoss.Jobs
