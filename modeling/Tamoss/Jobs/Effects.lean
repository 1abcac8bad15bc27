/-
  **What a call can do to the cluster.**
-/
import Tamoss.Jobs.Cluster

namespace Tamoss.Jobs

open Lib Operator

def Call.Idle : (c : Call) → c.Resp → Prop
  | .applyConfigMap .., .ok _ | .applyJob .., .ok _ | .createJob .., .ok _
  | .deleteConfigMap _, .ok _ | .deleteJob .., .ok _ | .deletePod _, .ok _
  | .patchBackendFinalizers .., .ok _ | .patchBackendStatus .., .ok _
  | .updateProfileFinalizers .., .ok _ | .patchProfileFinalizers .., .ok _
  | .patchProfileStatus .., .ok _ | .patchRunStatus .., .ok _ | .change _, _ => False
  | _, _ => True

abbrev accepted : Except ApiError Unit := .ok ()

inductive Effect (d : Site) (w : World) : (c : Call) → c.Resp → World → Prop
  | none (c : Call) (r : c.Resp) (hidle : c.Idle r) : Effect d w c r w
  | setTamoss (key : Key) (tamoss : Option Instance) :
      Effect d w (.change (.setTamoss key tamoss)) ()
        { w with
          tamosses := w.tamosses.put key (tamoss.map fun t => { t with
            key := key
            uid := ((w.tamosses.current key).map Instance.uid).getD w.next })
          next := w.next + 1 }
  | createBackend (key : Key) (spec : BackendSpec) (habsent : w.backends.current key = none) :
      Effect d w (.change (.createBackend key spec)) ()
        { w with
          backends := w.backends.put key
            (some { uid := w.next, resourceVersion := w.next, spec := spec })
          next := w.next + 1 }
  | editBackend (key : Key) (spec : BackendSpec) (b : StorageBackend)
      (hb : w.backends.current key = some b) (hfixed : b.spec.fixed = spec.fixed) :
      Effect d w (.change (.editBackend key spec)) ()
        { w with
          backends := w.backends.put key (some
            { b with resourceVersion := w.next, generation := b.generation + 1, spec := spec })
          next := w.next + 1 }
  | deleteBackend (key : Key) (b : StorageBackend) (hb : w.backends.current key = some b) :
      Effect d w (.change (.deleteBackend key)) ()
        { w with
          backends := w.backends.put key
            (if b.finalizers = [] then none
            else some { b with resourceVersion := w.next, deleting := true })
          next := w.next + 1 }
  | createProfile (key : Key) (spec : ProfileSpec) (habsent : w.profiles.current key = none) :
      Effect d w (.change (.createProfile key spec)) ()
        { w with
          profiles := w.profiles.put key (some
            { uid := w.next, resourceVersion := w.next, creationTimestamp := w.clock
              spec := spec })
          next := w.next + 1 }
  | deleteProfile (key : Key) (p : FlowProfile) (hp : w.profiles.current key = some p) :
      Effect d w (.change (.deleteProfile key)) ()
        { w with
          profiles := w.profiles.put key
            (if p.finalizers = [] then none
            else some { p with resourceVersion := w.next, deleting := true })
          next := w.next + 1 }
  | createRun (key : Key) (spec : RunSpec) (habsent : w.runs.current key = none) :
      Effect d w (.change (.createRun key spec)) ()
        { w with
          runs := w.runs.put key (some { uid := w.next, spec := spec })
          next := w.next + 1 }
  | cancelRun (key : Key) (run : IngestRun) (hrun : w.runs.current key = some run) :
      Effect d w (.change (.cancelRun key)) ()
        { w with
          runs := w.runs.put key (some
            { run with generation := run.generation + 1, spec.desiredState := .cancelled }) }
  | deleteRun (key : Key) :
      Effect d w (.change (.deleteRun key)) () { w with runs := w.runs.put key none }
  | runJob (key : Key) (age : Nat) (inUse : Bool) (job : Job)
      (databases : Connection → Database) (hjob : w.jobs.current key = some job)
      (hopen : job.unfinished) (hdone : w.carryOut d job age inUse = some { w with databases }) :
      Effect d w (.change (.runJob key age inUse)) ()
        { w.putJob key (some { job with done := true }) with databases }
  | finishJob (key : Key) (outcome : Outcome) (job : Job)
      (hjob : w.jobs.current key = some job) (hopen : job.unfinished)
      (hdone : outcome = .complete → job.done) :
      Effect d w (.change (.finishJob key outcome)) ()
        { w.putJob key (some (job.finished outcome w.clock)) with
          completed :=
            if outcome = .complete then (key, job.toJobSpec) :: w.completed else w.completed }
  | observeJob (key : Key) (active : Nat) (job : Job)
      (hjob : w.jobs.current key = some job) (hopen : job.unfinished) :
      Effect d w (.change (.observeJob key active)) ()
        (w.putJob key (some
          { job with active := active, startTime := some (job.startTime.getD w.clock) }))
  | requestDeletion (key : Key) (job : Job) (hjob : w.jobs.current key = some job) :
      Effect d w (.change (.deleteJob key)) () (w.putJob key (some { job with deleting := true }))
  | removeJob (key : Key) (job : Job) (hjob : w.jobs.current key = some job) :
      Effect d w (.change (.removeJob key)) () (w.putJob key none)
  | createPod (key jobKey : Key) (job : Job) (hjob : w.jobs.current jobKey = some job)
      (habsent : w.pods.current key = none) (hopen : job.unfinished) (hlive : ¬ job.deleting) :
      Effect d w (.change (.createPod key jobKey)) ()
        { w with pods := w.pods.put key (some (job.newPod jobKey)) }
  | finishPod (key : Key) (exitCode : Nat) (pod : Pod) (hpod : w.pods.current key = some pod) :
      Effect d w (.change (.finishPod key exitCode)) ()
        { w with pods := w.pods.put key (some { pod with exitCode := some exitCode }) }
  | removePod (key : Key) :
      Effect d w (.change (.removePod key)) () { w with pods := w.pods.put key none }
  | tick : Effect d w (.change .tick) () { w with clock := w.clock + 1 }
  | applyConfigMap (key : Key) (controller : Uid) (spec : ConfigMapSpec)
      (hfree : ∀ m, w.configMaps.current key = some m →
        m.controller = none ∨ m.controller = some controller) :
      Effect d w (.applyConfigMap key controller spec) accepted
        { w with configMaps :=
            w.configMaps.put key (some { spec with controller := some controller }) }
  | launchJob (key : Key) (controller : Option Uid) (spec : JobSpec)
      (habsent : w.jobs.current key = none) :
      Effect d w (.applyJob key controller spec) accepted
        { w.putJob key (some { spec with uid := w.next, controller := controller }) with
          next := w.next + 1 }
  | reapplyJob (key : Key) (controller : Option Uid) (spec : JobSpec) (job : Job)
      (hjob : w.jobs.current key = some job)
      (hfree : controller = none ∨ job.controller = none ∨ job.controller = controller)
      (htask : job.task = spec.task) :
      Effect d w (.applyJob key controller spec) accepted
        (w.putJob key (some
          { job with toJobSpec := spec, controller := controller.or job.controller }))
  | createJob (key : Key) (controller : Uid) (spec : JobSpec)
      (habsent : w.jobs.current key = none) :
      Effect d w (.createJob key controller spec) (.ok w.next : Except ApiError Uid)
        { w.putJob key (some { spec with uid := w.next, controller := some controller }) with
          next := w.next + 1
          created := controller :: w.created }
  | deleteConfigMap (key : Key) :
      Effect d w (.deleteConfigMap key) accepted { w with configMaps := w.configMaps.put key none }
  | markJob (key : Key) (job : Job) (hjob : w.jobs.current key = some job) :
      Effect d w (.deleteJob key true) accepted (w.putJob key (some { job with deleting := true }))
  | dropJob (key : Key) (job : Job) (hjob : w.jobs.current key = some job) :
      Effect d w (.deleteJob key false) accepted ((w.putJob key none).orphanPods job.uid)
  | deletePod (key : Key) :
      Effect d w (.deletePod key) accepted { w with pods := w.pods.put key none }
  | patchBackendFinalizers (key : Key) (finalizers : List String) (b : StorageBackend)
      (hb : w.backends.current key = some b) :
      Effect d w (.patchBackendFinalizers key finalizers) accepted
        (w.setBackend key { b with finalizers })
  | patchBackendStatus (key : Key) (read : StorageBackend) (status : BackendStatus)
      (b : StorageBackend) (hb : w.backends.current key = some b)
      (hversion : b.resourceVersion = read.resourceVersion) :
      Effect d w (.patchBackendStatus key read status) accepted (w.setBackend key { b with status })
  | updateProfileFinalizers (key : Key) (read : FlowProfile) (finalizers : List String)
      (p : FlowProfile) (hp : w.profiles.current key = some p)
      (hversion : p.resourceVersion = read.resourceVersion) :
      Effect d w (.updateProfileFinalizers key read finalizers) accepted
        (w.setProfile key { p with finalizers })
  | patchProfileFinalizers (key : Key) (finalizers : List String) (p : FlowProfile)
      (hp : w.profiles.current key = some p) :
      Effect d w (.patchProfileFinalizers key finalizers) accepted
        (w.setProfile key { p with finalizers })
  | patchProfileStatus (key : Key) (read : FlowProfile) (status : ProfileStatus)
      (p : FlowProfile) (hp : w.profiles.current key = some p)
      (hversion : p.resourceVersion = read.resourceVersion) :
      Effect d w (.patchProfileStatus key read status) accepted (w.setProfile key { p with status })
  | patchRunStatus (key : Key) (original status : RunStatus) (run : IngestRun)
      (hrun : w.runs.current key = some run) :
      Effect d w (.patchRunStatus key original status) accepted
        { w with
          runs := w.runs.put key (some
            { run with status := RunStatus.merge original status run.status }) }

variable {d : Site} {w w' : World} {ch : Choice}

variable {job : Job}

theorem carryOut_databases {age : Nat} {inUse : Bool}
    (h : w.carryOut d job age inUse = some w') : ∃ databases, w' = { w with databases } := by
  unfold World.carryOut at h
  split at h
  · exact ⟨_, (Option.some.inj h).symm⟩
  · exact ⟨_, (Option.some.inj h).symm⟩
  · exact ⟨_, (Option.some.inj h).symm⟩
  · exact ⟨_, (Option.some.inj h).symm⟩
  · split at h
    · cases h
    · obtain ⟨db, -, rfl⟩ := Option.map_eq_some_iff.mp h
      exact ⟨_, rfl⟩
  · obtain ⟨db, -, rfl⟩ := Option.map_eq_some_iff.mp h
    exact ⟨_, rfl⟩

theorem change_effect {x : Change} (h : w.change d x = some w') : Effect d w (.change x) () w' := by
  cases x <;> simp only [World.change] at h
  case setTamoss key tamoss =>
    cases h
    exact .setTamoss key tamoss
  case createBackend key spec =>
    split at h
    · cases h
    · rename_i habsent
      cases h
      exact .createBackend key spec (by simpa using habsent)
  case editBackend key spec =>
    split at h
    · cases h
    · rename_i b hb
      split at h
      · cases h
      · rename_i hfixed
        cases h
        exact .editBackend key spec b hb (not_not.mp hfixed)
  case deleteBackend key =>
    split at h
    · cases h
    · rename_i b hb
      cases h
      exact .deleteBackend key b hb
  case createProfile key spec =>
    split at h
    · cases h
    · rename_i habsent
      cases h
      exact .createProfile key spec (by simpa using habsent)
  case deleteProfile key =>
    split at h
    · cases h
    · rename_i p hp
      cases h
      exact .deleteProfile key p hp
  case createRun key spec =>
    split at h
    · cases h
    · rename_i habsent
      cases h
      exact .createRun key spec (by simpa using habsent)
  case cancelRun key =>
    split at h
    · cases h
    · rename_i run hrun
      cases h
      exact .cancelRun key run hrun
  case deleteRun key =>
    split at h
    · cases h
      exact .deleteRun key
    · cases h
  case runJob key age inUse =>
    split at h
    · cases h
    · rename_i job hjob
      split at h
      · rename_i hopen
        obtain ⟨w₁, hw₁, rfl⟩ := Option.map_eq_some_iff.mp h
        obtain ⟨databases, rfl⟩ := carryOut_databases hw₁
        exact .runJob key age inUse job databases hjob hopen hw₁
      · cases h
  case finishJob key outcome =>
    split at h
    · cases h
    · rename_i job hjob
      split at h
      · rename_i hopen
        cases h
        exact .finishJob key outcome job hjob hopen.1 hopen.2
      · cases h
  case observeJob key active =>
    split at h
    · cases h
    · rename_i job hjob
      split at h
      · rename_i hopen
        cases h
        exact .observeJob key active job hjob hopen
      · cases h
  case deleteJob key =>
    split at h
    · cases h
    · rename_i job hjob
      cases h
      exact .requestDeletion key job hjob
  case removeJob key =>
    split at h
    · rename_i hjob
      obtain ⟨job, hjob⟩ := Option.isSome_iff_exists.mp hjob
      cases h
      exact .removeJob key job hjob
    · cases h
  case createPod key jobKey =>
    split at h
    · cases h
    · rename_i job hjob
      split at h
      · cases h
      · rename_i hfree
        cases h
        simp only [not_or, not_not] at hfree
        exact .createPod key jobKey job hjob (by simpa using hfree.1) hfree.2.1 hfree.2.2
  case finishPod key exitCode =>
    split at h
    · cases h
    · rename_i pod hpod
      cases h
      exact .finishPod key exitCode pod hpod
  case removePod key =>
    split at h
    · cases h
      exact .removePod key
    · cases h
  case tick =>
    cases h
    exact .tick

variable {c : Call}

theorem respond_effect (hc : ∀ x, c ≠ .change x) :
    Effect d w c (w.respond ch c).1 (w.respond ch c).2 := by
  cases c with
  | change x => exact absurd rfl (hc x)
  | applyConfigMap key controller spec =>
    simp only [World.respond, World.applyConfigMap]
    split
    · rename_i habsent
      exact .applyConfigMap key controller spec (by simp [habsent])
    · rename_i m hm
      split
      · rename_i hfree
        refine .applyConfigMap key controller spec fun m' hm' => ?_
        obtain rfl := Option.some.inj (hm.symm.trans hm')
        exact hfree
      · exact .none _ _ trivial
  | applyJob key controller spec =>
    simp only [World.respond, World.applyJob]
    split
    · rename_i habsent
      exact .launchJob key controller spec habsent
    · rename_i job hjob
      split
      · exact .none _ _ trivial
      · rename_i hfree
        split
        · exact .none _ _ trivial
        · rename_i htask
          exact .reapplyJob key controller spec job hjob (not_not.mp hfree) (not_not.mp htask)
  | createJob key controller spec =>
    simp only [World.respond, World.createJob]
    split
    · exact .none _ _ trivial
    · rename_i habsent
      exact .createJob key controller spec habsent
  | deleteJob key foreground =>
    simp only [World.respond, World.deleteJob]
    split
    · exact .none _ _ trivial
    · rename_i job hjob
      cases foreground with
      | true => exact .markJob key job hjob
      | false => exact .dropJob key job hjob
  | deleteConfigMap key =>
    simp only [World.respond, unguarded]
    split
    · exact .none _ _ trivial
    · exact .deleteConfigMap key
  | deletePod key =>
    simp only [World.respond, unguarded]
    split
    · exact .none _ _ trivial
    · exact .deletePod key
  | patchBackendFinalizers key finalizers =>
    simp only [World.respond, unguarded]
    split
    · exact .none _ _ trivial
    · rename_i b hb
      exact .patchBackendFinalizers key finalizers b hb
  | patchBackendStatus key read status =>
    simp only [World.respond, guarded]
    split
    · exact .none _ _ trivial
    · rename_i b hb
      split
      · exact .patchBackendStatus key read status b hb ‹_›
      · exact .none _ _ trivial
  | updateProfileFinalizers key read finalizers =>
    simp only [World.respond, guarded]
    split
    · exact .none _ _ trivial
    · rename_i p hp
      split
      · exact .updateProfileFinalizers key read finalizers p hp ‹_›
      · exact .none _ _ trivial
  | patchProfileFinalizers key finalizers =>
    simp only [World.respond, unguarded]
    split
    · exact .none _ _ trivial
    · rename_i p hp
      exact .patchProfileFinalizers key finalizers p hp
  | patchProfileStatus key read status =>
    simp only [World.respond, guarded]
    split
    · exact .none _ _ trivial
    · rename_i p hp
      split
      · exact .patchProfileStatus key read status p hp ‹_›
      · exact .none _ _ trivial
  | patchRunStatus key original status =>
    simp only [World.respond, unguarded]
    split
    · exact .none _ _ trivial
    · rename_i run hrun
      exact .patchRunStatus key original status run hrun
  | _ => exact .none _ _ trivial

variable {r : c.Resp}

theorem failure_idle {e : ApiError} (h : c.failure e = some r) : c.Idle r := by
  cases c <;> first | exact trivial | (cases h; exact trivial) | cases h

def World.answer (ch : Choice) (c : Call) (w : World) : Option (c.Resp × World) :=
  match ch.fault with
  | none => some (w.respond ch c)
  | some e =>
    match e with
    | .other _ => (c.failure e).map fun r => (r, w)
    | _ => none

theorem answer_of_perform (h : w.perform d ch c = some (r, w')) (hc : ∀ x, c ≠ .change x) :
    w.answer ch c = some (r, w') := by
  cases c with
  | change x => exact absurd rfl (hc x)
  | _ => exact h

theorem answer_cases (h : w.answer ch c = some (r, w')) :
    w.respond ch c = (r, w') ∨ w' = w ∧ ∃ e, c.failure (.other e) = some r := by
  unfold World.answer at h
  split at h
  · exact .inl (Option.some.inj h)
  · split at h
    · obtain ⟨r', hr', heq⟩ := Option.map_eq_some_iff.mp h
      cases heq
      exact .inr ⟨rfl, _, hr'⟩
    · cases h

/-- **What a call can do.** -/
theorem perform_effect (h : w.perform d ch c = some (r, w')) : Effect d w c r w' := by
  by_cases hchange : ∃ x, c = .change x
  · obtain ⟨x, rfl⟩ := hchange
    obtain ⟨w₁, hw₁, heq⟩ := Option.map_eq_some_iff.mp h
    cases heq
    exact change_effect hw₁
  · have hc : ∀ x, c ≠ .change x := not_exists.mp hchange
    rcases answer_cases (answer_of_perform h hc) with hr | ⟨rfl, e, he⟩
    · have heffect : Effect d w c (w.respond ch c).1 (w.respond ch c).2 := respond_effect hc
      rw [hr] at heffect
      exact heffect
    · exact .none _ _ (failure_idle he)

theorem perform_answer (h : w.perform d ch c = some (r, w')) (hc : ∀ x, c ≠ .change x) :
    w.respond ch c = (r, w') ∨ ∃ e, c.failure (.other e) = some r :=
  (answer_cases (answer_of_perform h hc)).imp_right And.right

theorem eq_some_of_found {α : Type} {s : Option α} {a : α} (h : found s = .ok a) : s = some a := by
  cases s with
  | none => cases h
  | some b => exact congrArg some (Except.ok.inj h)

theorem Fresh.ok {α : Type} {s : Option α} {a : α} (h : Fresh s (.ok a)) : s = some a :=
  eq_some_of_found h.symm

theorem Fresh.notFound {α : Type} {s : Option α} (h : Fresh s (.error .notFound)) : s = none := by
  cases s with
  | none => rfl
  | some a => exact absurd h nofun

theorem Fresh.told {α : Type} {s s' : Option α} {answer : Except ApiError α}
    (h : Fresh s answer) (htold : told answer = some s') : s = s' := by
  cases answer with
  | ok a =>
    cases htold
    exact Fresh.ok h
  | error e =>
    cases e with
    | notFound =>
      cases htold
      exact Fresh.notFound h
    | _ => cases htold

variable {key : Key}

theorem getRun_had {run : IngestRun}
    (h : w.perform d ch (.getRun key) = some (.ok run, w')) : w.runs.Had key run := by
  rcases perform_answer h (by intro x hx; cases hx) with hanswer | ⟨e, hfailure⟩
  · have hfound : found ((w.runs.object key).lagging (ch.age key)) = .ok run :=
      (Prod.mk.inj hanswer).1
    exact Versioned.had_of_lagging (eq_some_of_found hfound)
  · cases hfailure

theorem Effect.next_le (h : Effect d w c r w') : w.next ≤ w'.next := by
  cases h <;> first | exact Nat.le_refl _ | exact Nat.le_succ _

inductive RunStep (w w' : World) : Call → Key → Option IngestRun → Prop
  | create (key : Key) (spec : RunSpec) (habsent : w.runs.current key = none)
      (hnext : w'.next = w.next + 1) :
      RunStep w w' (.change (.createRun key spec)) key (some { uid := w.next, spec := spec })
  | cancel (key : Key) (run : IngestRun) (hrun : w.runs.current key = some run) :
      RunStep w w' (.change (.cancelRun key)) key
        (some { run with generation := run.generation + 1, spec.desiredState := .cancelled })
  | delete (key : Key) : RunStep w w' (.change (.deleteRun key)) key none
  | patch (key : Key) (original status : RunStatus) (run : IngestRun)
      (hrun : w.runs.current key = some run) :
      RunStep w w' (.patchRunStatus key original status) key
        (some { run with status := RunStatus.merge original status run.status })

theorem Effect.runs (h : Effect d w c r w') :
    w'.runs = w.runs ∨ ∃ key s, RunStep w w' c key s ∧ w'.runs = w.runs.put key s ∧
      w'.jobs = w.jobs ∧ w'.pods = w.pods ∧ w'.created = w.created := by
  cases h with
  | createRun key spec habsent =>
    exact .inr ⟨key, _, .create key spec habsent rfl, rfl, rfl, rfl, rfl⟩
  | cancelRun key run hrun => exact .inr ⟨key, _, .cancel key run hrun, rfl, rfl, rfl, rfl⟩
  | deleteRun key => exact .inr ⟨key, _, .delete key, rfl, rfl, rfl, rfl⟩
  | patchRunStatus key original status run hrun =>
    exact .inr ⟨key, _, .patch key original status run hrun, rfl, rfl, rfl, rfl⟩
  | _ => exact .inl rfl

inductive JobStep (w : World) (key : Key) : (c : Call) → Option Job → Option Job → Prop
  | launch (c : Call) (job : Job) (hnew : job.uid = w.next)
      (hcall : c = .applyJob key job.controller job.toJobSpec ∨
        ∃ controller, job.controller = some controller ∧
          c = .createJob key controller job.toJobSpec)
      (hjob : job = { job.toJobSpec with uid := job.uid, controller := job.controller }) :
      JobStep w key c none (some job)
  | keep (c : Call) (job job' : Job) (huid : job'.uid = job.uid)
      (hcontroller : job.controller = none ∨ job'.controller = job.controller)
      (htask : job'.task = job.task) : JobStep w key c (some job) (some job')
  | remove (c : Call) (job : Job)
      (hcall : c = .change (.removeJob key) ∨ c = .deleteJob key false) :
      JobStep w key c (some job) none

theorem Effect.jobs (h : Effect d w c r w') :
    w'.jobs = w.jobs ∨ ∃ key s, JobStep w key c (w.jobs.current key) s ∧
      w'.jobs = w.jobs.put key s ∧ w'.runs = w.runs := by
  cases h with
  | runJob key _ _ job _ hjob =>
    refine .inr ⟨key, _, ?_, rfl, rfl⟩
    rw [hjob]
    exact .keep _ job _ rfl (.inr rfl) rfl
  | finishJob key _ job hjob =>
    refine .inr ⟨key, _, ?_, rfl, rfl⟩
    rw [hjob]
    exact .keep _ job _ rfl (.inr rfl) rfl
  | observeJob key _ job hjob =>
    refine .inr ⟨key, _, ?_, rfl, rfl⟩
    rw [hjob]
    exact .keep _ job _ rfl (.inr rfl) rfl
  | requestDeletion key job hjob =>
    refine .inr ⟨key, _, ?_, rfl, rfl⟩
    rw [hjob]
    exact .keep _ job _ rfl (.inr rfl) rfl
  | markJob key job hjob =>
    refine .inr ⟨key, _, ?_, rfl, rfl⟩
    rw [hjob]
    exact .keep _ job _ rfl (.inr rfl) rfl
  | reapplyJob key controller spec job hjob hfree htask =>
    refine .inr ⟨key, _, ?_, rfl, rfl⟩
    rw [hjob]
    refine .keep _ job _ rfl ?_ htask.symm
    -- a controller reference that is there is kept
    rcases hfree with rfl | hnone | hsame
    · exact .inr rfl
    · exact .inl hnone
    · exact .inr (by cases controller <;> simp_all)
  | removeJob key job hjob =>
    refine .inr ⟨key, _, ?_, rfl, rfl⟩
    rw [hjob]
    exact .remove _ job (.inl rfl)
  | dropJob key job hjob =>
    refine .inr ⟨key, _, ?_, rfl, rfl⟩
    rw [hjob]
    exact .remove _ job (.inr rfl)
  | launchJob key controller spec habsent =>
    refine .inr ⟨key, _, ?_, rfl, rfl⟩
    rw [habsent]
    exact .launch _ _ rfl (.inl rfl) rfl
  | createJob key controller spec habsent =>
    refine .inr ⟨key, _, ?_, rfl, rfl⟩
    rw [habsent]
    exact .launch _ _ rfl (.inr ⟨controller, rfl, rfl⟩) rfl
  | _ => exact .inl rfl

inductive JobFrom (w : World) (key : Key) : Call → Job → Prop
  | kept (c : Call) (job job' : Job) (hjob : w.jobs.current key = some job)
      (hspec : job'.toJobSpec = job.toJobSpec) (huid : job'.uid = job.uid)
      (hcontroller : job'.controller = job.controller) (hdone : job'.done = job.done)
      (hended : job'.outcome = job.outcome ∨
        job.outcome = none ∧ (job'.succeeded = true → job.done = true)) :
      JobFrom w key c job'
  | run (age : Nat) (inUse : Bool) (job : Job) (hjob : w.jobs.current key = some job)
      (hopen : job.unfinished) :
      JobFrom w key (.change (.runJob key age inUse)) { job with done := true }
  | launch (controller : Option Uid) (spec : JobSpec) (habsent : w.jobs.current key = none) :
      JobFrom w key (.applyJob key controller spec)
        { spec with uid := w.next, controller := controller }
  | reapply (controller : Option Uid) (spec : JobSpec) (job : Job)
      (hjob : w.jobs.current key = some job)
      (hfree : controller = none ∨ job.controller = none ∨ job.controller = controller)
      (htask : job.task = spec.task) :
      JobFrom w key (.applyJob key controller spec)
        { job with toJobSpec := spec, controller := controller.or job.controller }
  | create (controller : Uid) (spec : JobSpec) (habsent : w.jobs.current key = none) :
      JobFrom w key (.createJob key controller spec)
        { spec with uid := w.next, controller := some controller }

theorem JobFrom.same (h : w.jobs.current key = some job) :
    JobFrom w key c job := .kept c job job h rfl rfl rfl rfl (.inl rfl)

theorem Job.finished_ended {outcome : Outcome} {now : Nat} (hopen : job.unfinished)
    (hdone : outcome = .complete → job.done) : job.outcome = none ∧
      ((job.finished outcome now).succeeded = true → job.done = true) := by
  refine ⟨by simpa [Job.unfinished] using hopen, fun h => hdone ?_⟩
  simpa [Job.succeeded, Job.finished] using h

/-- **Where the Jobs after a call come from.** -/
theorem Effect.job_from (h : Effect d w c r w')
    (hjob : w'.jobs.current key = some job) : JobFrom w key c job := by
  -- a call changes the Job under one key
  have hput : ∀ {k : Key} {s : Option Job}, (w.jobs.put k s).current key = some job →
      (s = some job → k = key → JobFrom w key c job) → JobFrom w key c job := by
    intro k s hcurrent hnew
    rw [Directory.current_put] at hcurrent
    split at hcurrent
    · rename_i hk
      exact hnew hcurrent hk.symm
    · exact .same hcurrent
  cases h with
  | runJob k age inUse before databases hbefore hopen hdone =>
    refine hput hjob ?_
    rintro ⟨⟩ rfl
    exact .run age inUse before hbefore hopen
  | finishJob k outcome before hbefore hopen hdone =>
    refine hput hjob ?_
    rintro ⟨⟩ rfl
    exact .kept _ before _ hbefore rfl rfl rfl rfl (.inr (Job.finished_ended hopen hdone))
  | observeJob k active before hbefore hopen =>
    refine hput hjob ?_
    rintro ⟨⟩ rfl
    exact .kept _ before _ hbefore rfl rfl rfl rfl (.inl rfl)
  | requestDeletion k before hbefore =>
    refine hput hjob ?_
    rintro ⟨⟩ rfl
    exact .kept _ before _ hbefore rfl rfl rfl rfl (.inl rfl)
  | markJob k before hbefore =>
    refine hput hjob ?_
    rintro ⟨⟩ rfl
    exact .kept _ before _ hbefore rfl rfl rfl rfl (.inl rfl)
  | removeJob k before hbefore => exact hput hjob nofun
  | dropJob k before hbefore => exact hput hjob nofun
  | launchJob k controller spec habsent =>
    refine hput hjob ?_
    rintro ⟨⟩ rfl
    exact .launch controller spec habsent
  | reapplyJob k controller spec before hbefore hfree htask =>
    refine hput hjob ?_
    rintro ⟨⟩ rfl
    exact .reapply controller spec before hbefore hfree htask
  | createJob k controller spec habsent =>
    refine hput hjob ?_
    rintro ⟨⟩ rfl
    exact .create controller spec habsent
  | _ => exact .same hjob

inductive PodStep (w : World) : Call → Key → Option Pod → Prop
  | create (key jobKey : Key) (job : Job) (hjob : w.jobs.current jobKey = some job)
      (habsent : w.pods.current key = none) (hopen : job.unfinished) (hlive : ¬ job.deleting) :
      PodStep w (.change (.createPod key jobKey)) key (some (job.newPod jobKey))
  | finish (key : Key) (exitCode : Nat) (pod : Pod) (hpod : w.pods.current key = some pod) :
      PodStep w (.change (.finishPod key exitCode)) key
        (some { pod with exitCode := some exitCode })
  | remove (key : Key) : PodStep w (.change (.removePod key)) key none
  | delete (key : Key) : PodStep w (.deletePod key) key none

theorem Effect.pods (h : Effect d w c r w') : w'.pods = w.pods ∨
      (∃ key s, PodStep w c key s ∧ w'.pods = w.pods.put key s ∧ w'.jobs = w.jobs) ∨
      ∃ key, c = .deleteJob key false := by
  cases h with
  | createPod key jobKey job hjob habsent hopen hlive =>
    exact .inr (.inl ⟨key, _, .create key jobKey job hjob habsent hopen hlive, rfl, rfl⟩)
  | finishPod key exitCode pod hpod =>
    exact .inr (.inl ⟨key, _, .finish key exitCode pod hpod, rfl, rfl⟩)
  | removePod key => exact .inr (.inl ⟨key, _, .remove key, rfl, rfl⟩)
  | deletePod key => exact .inr (.inl ⟨key, _, .delete key, rfl, rfl⟩)
  | dropJob key => exact .inr (.inr ⟨key, rfl⟩)
  | _ => exact .inl rfl

inductive BackendStep (w : World) : Call → Key → Option StorageBackend → Prop
  | create (key : Key) (spec : BackendSpec) (habsent : w.backends.current key = none) :
      BackendStep w (.change (.createBackend key spec)) key
        (some { uid := w.next, resourceVersion := w.next, spec := spec })
  | edit (key : Key) (spec : BackendSpec) (b : StorageBackend)
      (hb : w.backends.current key = some b) (hfixed : b.spec.fixed = spec.fixed) :
      BackendStep w (.change (.editBackend key spec)) key (some
        { b with resourceVersion := w.next, generation := b.generation + 1, spec := spec })
  | delete (key : Key) (b : StorageBackend) (hb : w.backends.current key = some b) :
      BackendStep w (.change (.deleteBackend key)) key
        (if b.finalizers = [] then none
        else some { b with resourceVersion := w.next, deleting := true })
  | finalizers (key : Key) (finalizers : List String) (b : StorageBackend)
      (hb : w.backends.current key = some b) :
      BackendStep w (.patchBackendFinalizers key finalizers) key
        (if b.deleting ∧ finalizers = [] then none
        else some { b with finalizers, resourceVersion := w.next })
  | status (key : Key) (read : StorageBackend) (status : BackendStatus) (b : StorageBackend)
      (hb : w.backends.current key = some b) (hversion : b.resourceVersion = read.resourceVersion) :
      BackendStep w (.patchBackendStatus key read status) key
        (if b.deleting ∧ b.finalizers = [] then none
        else some { b with status, resourceVersion := w.next })

structure SameElsewhere (w w' : World) : Prop where
  tamosses : w'.tamosses = w.tamosses
  configMaps : w'.configMaps = w.configMaps
  jobs : w'.jobs = w.jobs
  databases : w'.databases = w.databases

theorem Effect.backends (h : Effect d w c r w') :
    w'.backends = w.backends ∨ ∃ key s, BackendStep w c key s ∧
      w'.backends = w.backends.put key s ∧ w'.next = w.next + 1 ∧ SameElsewhere w w' := by
  cases h with
  | createBackend key spec habsent =>
    exact .inr ⟨key, _, .create key spec habsent, rfl, rfl, rfl, rfl, rfl, rfl⟩
  | editBackend key spec b hb hfixed =>
    exact .inr ⟨key, _, .edit key spec b hb hfixed, rfl, rfl, rfl, rfl, rfl, rfl⟩
  | deleteBackend key b hb => exact .inr ⟨key, _, .delete key b hb, rfl, rfl, rfl, rfl, rfl, rfl⟩
  | patchBackendFinalizers key finalizers b hb =>
    exact .inr ⟨key, _, .finalizers key finalizers b hb, rfl, rfl, rfl, rfl, rfl, rfl⟩
  | patchBackendStatus key read status b hb hversion =>
    exact .inr ⟨key, _, .status key read status b hb hversion, rfl, rfl, rfl, rfl, rfl, rfl⟩
  | _ => exact .inl rfl

theorem BackendStep.version {s : Option StorageBackend}
    (h : BackendStep w c key s) {b' : StorageBackend} (hs : s = some b') :
    b'.resourceVersion = w.next ∧
      ((∃ spec, c = .change (.createBackend key spec) ∧ b'.spec = spec ∧ b'.uid = w.next ∧
          b'.deleting = false ∧ b'.status = {}) ∨
        ∃ b, w.backends.current key = some b ∧ b'.uid = b.uid ∧ b'.spec.fixed = b.spec.fixed ∧
          (b.deleting = true → b'.deleting = true)) := by
  cases h with
  | create _ spec habsent =>
    cases hs
    exact ⟨rfl, .inl ⟨spec, rfl, rfl, rfl, rfl, rfl⟩⟩
  | edit _ spec b hb hfixed =>
    cases hs
    exact ⟨rfl, .inr ⟨b, hb, rfl, hfixed.symm, id⟩⟩
  | delete _ b hb =>
    split at hs
    · cases hs
    · cases hs
      exact ⟨rfl, .inr ⟨b, hb, rfl, rfl, fun _ => rfl⟩⟩
  | finalizers _ finalizers b hb =>
    split at hs
    · cases hs
    · cases hs
      exact ⟨rfl, .inr ⟨b, hb, rfl, rfl, id⟩⟩
  | status _ read status b hb hversion =>
    split at hs
    · cases hs
    · cases hs
      exact ⟨rfl, .inr ⟨b, hb, rfl, rfl, id⟩⟩

theorem Effect.tamosses (h : Effect d w c r w') :
    w'.tamosses = w.tamosses ∨ ∃ key tamoss, c = .change (.setTamoss key tamoss) := by
  cases h with
  | setTamoss key tamoss => exact .inr ⟨key, tamoss, rfl⟩
  | _ => exact .inl rfl

inductive MapStep (w : World) : Call → Key → Option ConfigMap → Prop
  | apply (key : Key) (controller : Uid) (spec : ConfigMapSpec)
      (hfree : ∀ m, w.configMaps.current key = some m →
        m.controller = none ∨ m.controller = some controller) :
      MapStep w (.applyConfigMap key controller spec) key
        (some { spec with controller := some controller })
  | delete (key : Key) : MapStep w (.deleteConfigMap key) key none

theorem Effect.maps (h : Effect d w c r w') : w'.configMaps = w.configMaps ∨
      ∃ key s, MapStep w c key s ∧ w' = { w with configMaps := w.configMaps.put key s } := by
  cases h with
  | applyConfigMap key controller spec hfree =>
    exact .inr ⟨key, _, .apply key controller spec hfree, rfl⟩
  | deleteConfigMap key => exact .inr ⟨key, _, .delete key, rfl⟩
  | _ => exact .inl rfl

theorem Effect.databases (h : Effect d w c r w') :
    (w'.databases = w.databases ∧ ∀ key age inUse, c ≠ .change (.runJob key age inUse)) ∨
      ∃ key age inUse job databases, c = .change (.runJob key age inUse) ∧ w.jobs.current key = some job ∧ job.unfinished ∧
        w.carryOut d job age inUse = some { w with databases } ∧
        w' = { w.putJob key (some { job with done := true }) with databases } := by
  cases h with
  | runJob key age inUse job databases hjob hopen hdone =>
    exact .inr ⟨key, age, inUse, job, databases, rfl, hjob, hopen, hdone, rfl⟩
  | none _ _ hidle =>
    refine .inl ⟨rfl, fun key age inUse hc => ?_⟩
    subst hc
    exact hidle
  | _ =>
    refine .inl ⟨rfl, ?_⟩
    intro key age inUse hc
    cases hc

end Tamoss.Jobs
