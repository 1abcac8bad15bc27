/-
  **A deregistered `StorageBackend` stays deregistered.**
-/
import Tamoss.Jobs.BackendRegistered

namespace Tamoss.Jobs

open Lib Operator

def World.hosts (d : Site) (w : World) (key : Key) (tamossRef : String) : Bool :=
  trimmed tamossRef ≠ "" &&
    match w.tamosses.current ⟨key.namespaceName, tamossRef⟩ with
    | none => false
    | some stored =>
      match resolveTamoss d.installation stored with
      | .error _ => false
      | .ok t =>
        match w.configMaps.current (schemaStateKey t), d.installation.selectRelease t with
        | some state, .ok release => schemaStateMatchesTarget state release.schema
        | _, _ => false

def World.schemaKeys (d : Site) (w : World) : List Key :=
  (w.tamosses.list fun _ => 0).filterMap fun x =>
    match resolveTamoss d.installation x.2 with
    | .ok t => some (schemaStateKey t)
    | .error _ => none

def World.Answers (d : Site) (w : World) (k : Key) (answer : Except ApiError ConfigMap) : Prop :=
  Fresh (w.configMaps.current k) answer ∧
    (k ∈ w.schemaKeys d → answer = found (w.configMaps.current k))

instance World.Answers.decidable (d : Site) (w : World) (k : Key)
    (answer : Except ApiError ConfigMap) : Decidable (w.Answers d k answer) :=
  inferInstanceAs (Decidable (_ ∧ _))

/-- No registration Job of the backend can write any more, and no row is of its making. -/
structure Clean (w : World) (key : Key) (u : Uid) : Prop where
  jobs : ∀ job, w.jobs.current (storageBackendResourceKey key "db-register") = some job →
    job.unfinished = false
  rows : ∀ conn, ∀ stored ∈ (w.databases conn).backends.rows, stored.writer ≠ some u

def BackendJob (d : Site) (w : World) (k : Key) (job : Job) : Prop :=
  ∃ key b, w.backends.Had key b ∧ (b.resolved d key).isHibernateDestination = false ∧
    (k = storageBackendResourceKey key "db-register" ∧ Registers d w key b job ∧
        job.controller = some b.uid ∨
      k = storageBackendResourceKey key "db-deregister" ∧ Deregisters d w key b job)

def BackendRow (d : Site) (w : World) (conn : Connection) (stored : StoredRow) : Prop :=
  ∃ key b, w.backends.Had key b ∧ (b.resolved d key).isHibernateDestination = false ∧
    stored.writer = some b.uid ∧ w.connection d key b = some conn ∧
    stored.row.id = (b.resolved d key).id

def Unheld (w : World) (key : Key) : Prop :=
  ∀ b, w.backends.current key = some b → storageBackendFinalizer ∉ b.finalizers

structure Cleared (d : Site) (w : World) : Prop extends Backends w where
  hosted : ∀ key b, w.backends.Had key b → w.hosts d key b.spec.tamossRef = true
  jobs : ∀ k job, w.jobs.current k = some job → BackendJob d w k job
  finished : ∀ k job, w.jobs.current k = some job → job.succeeded = true → job.done = true
  rows : ∀ conn, ∀ stored ∈ (w.databases conn).backends.rows, BackendRow d w conn stored
  /-- from the launch of the deregistration Job on no registration Job is at work -/
  quiet : ∀ key job job',
    w.jobs.current (storageBackendResourceKey key "db-deregister") = some job →
    w.jobs.current (storageBackendResourceKey key "db-register") = some job' →
    job'.unfinished = false
  erased : ∀ key b job, w.backends.Had key b →
    w.jobs.current (storageBackendResourceKey key "db-deregister") = some job →
    job.done = true → Clean w key b.uid
  gone : ∀ key b, w.backends.Had key b → storageBackendFinalizer ∈ b.finalizers →
    Unheld w key → Clean w key b.uid

structure CleanupWatch (d : Site) (key : Key) (m : BackendMemo) (w : World) : Prop where
  had : ∀ b, m.backend = some b → w.backends.Had key b
  tamoss : ∀ b stored, m.backend = some b → m.tamoss = some stored →
    w.tamosses.current ⟨key.namespaceName, b.spec.tamossRef⟩ = stored
  unlaunched : ∀ b, m.backend = some b → b.deleting = false →
    w.jobs.current (storageBackendResourceKey key "db-deregister") = none
  held : ∀ b, m.backend = some b → b.deleting = false → storageBackendFinalizer ∈ b.finalizers →
    ¬ Unheld w key
  asked : ∀ k answer, m.asked = some (k, answer) → k ∈ w.schemaKeys d →
    answer = found (w.configMaps.current k)
  cleared : ∀ b job, m.backend = some b → b.deleting = true → m.cleanup = some (some job) →
    job.succeeded = true → Clean w key b.uid

def CleanupWatched (d : Site) (x : Request) (m : BackendMemo) (w : World) : Prop :=
  ∀ key, x = .storageBackend key → CleanupWatch d key m w

abbrev OnCleanup (d : Site) (m : BackendMemo) (w : World) : Prop :=
  ∀ x, m.request = some x → CleanupWatched d x m w

def CleanupOrderly (d : Site) (w : World) : (c : Call) → c.Resp → Prop
  | .change (.setTamoss ..), _ => False
  | .change (.createBackend key spec), _ =>
    w.hosts d key spec.tamossRef = true ∧ ∀ x ∈ w.backends.versions, x.1 ≠ key
  | .applyJob k _ _, _ => ∀ key ∈ w.backends.keys,
      k = storageBackendResourceKey key "db-deregister" → ∀ job,
        w.jobs.current (storageBackendResourceKey key "db-register") = some job →
          job.unfinished = false
  | .getConfigMap k, r => w.Answers d k r
  | c, r => w.Current c r

variable {d : Site} {key : Key} {m : BackendMemo} {w w' : World} {c : Call} {r : c.Resp}

variable {tamossRef : String}

theorem hosts_spec (h : w.hosts d key tamossRef = true) :
    trimmed tamossRef ≠ "" ∧ ∃ stored t state release,
      w.tamosses.current ⟨key.namespaceName, tamossRef⟩ = some stored ∧
      resolveTamoss d.installation stored = .ok t ∧
      w.configMaps.current (schemaStateKey t) = some state ∧
      d.installation.selectRelease t = .ok release ∧
      schemaStateMatchesTarget state release.schema = true := by
  simp only [World.hosts, Bool.and_eq_true, decide_eq_true_eq] at h
  obtain ⟨hname, h⟩ := h
  refine ⟨hname, ?_⟩
  split at h
  · cases h
  · rename_i stored hstored
    split at h
    · cases h
    · rename_i t ht
      split at h
      · rename_i state release hstate hrelease
        exact ⟨stored, t, state, release, hstored, ht, hstate, hrelease, h⟩
      · cases h

variable {k : Key}

theorem mem_schemaKeys {stored t : Instance} (hstored : w.tamosses.current k = some stored)
    (ht : resolveTamoss d.installation stored = .ok t) : schemaStateKey t ∈ w.schemaKeys d := by
  refine List.mem_filterMap.mpr ⟨(k, stored), Directory.mem_list_current.mpr hstored, ?_⟩
  simp only [ht]

theorem schemaKeys_ne (h : k ∈ w.schemaKeys d) {suffix : String}
    (hsuffix : EndsApart suffix "schema-state") : k ≠ storageBackendResourceKey key suffix := by
  obtain ⟨x, -, hx⟩ := List.mem_filterMap.mp h
  split at hx
  · cases hx
    exact fun heq => appendResourceSuffix_ne hsuffix (Key.mk.inj heq).2.symm
  · cases hx

theorem schemaKeys_congr (h : w'.tamosses = w.tamosses) : w'.schemaKeys d = w.schemaKeys d := by
  simp only [World.schemaKeys, h]

theorem hosts_congr (htamosses : w'.tamosses = w.tamosses)
    (hmaps : ∀ k ∈ w.schemaKeys d, w'.configMaps.current k = w.configMaps.current k)
    (h : w.hosts d key tamossRef = true) : w'.hosts d key tamossRef = true := by
  obtain ⟨hname, stored, t, state, release, hstored, ht, hstate, hrelease, hmatch⟩ := hosts_spec h
  have hkey := mem_schemaKeys hstored ht
  simp only [World.hosts, htamosses, hstored, ht, hmaps _ hkey, hstate, hrelease, hmatch, hname,
    ne_eq, not_false_eq_true, decide_true, Bool.and_self]

theorem CleanupOrderly.tamosses (h : CleanupOrderly d w c r) (heffect : Effect d w c r w') :
    w'.tamosses = w.tamosses := by
  rcases heffect.tamosses with hsame | ⟨k, tamoss, rfl⟩
  · exact hsame
  · exact h.elim

theorem CleanupOrderly.new (h : CleanupOrderly d w c r) {spec : BackendSpec}
    (hc : c = .change (.createBackend key spec)) (b : StorageBackend) : ¬ w.backends.Had key b := by
  subst hc
  intro hb
  exact h.2 (key, b) (Directory.mem_versions.mpr hb) rfl

theorem schema_step (heffect : Effect d w c r w') (hreq : backendReq d c m) :
    ∀ k ∈ w.schemaKeys d, w'.configMaps.current k = w.configMaps.current k := by
  intro k hk
  rcases heffect.maps with hsame | ⟨k₀, s, hstep, rfl⟩
  · rw [hsame]
  · refine Directory.current_put_of_ne ?_
    have hchild : ∃ key, k₀ = bucketKey key ∨
        k₀ = stateKey key := by
      cases hstep with
      | apply =>
        obtain ⟨key, _, -, -, -, hcase⟩ := hreq
        exact ⟨key, hcase.imp_right And.left⟩
      | delete =>
        obtain ⟨key, _, -, -, hcase⟩ := hreq
        exact ⟨key, hcase⟩
    obtain ⟨key, rfl | rfl⟩ := hchild
    · exact schemaKeys_ne hk (by decide)
    · exact schemaKeys_ne hk (by decide)

variable {stored : StoredRow}

theorem mem_register {db : Database} {row : Row} {writer : Option Uid}
    (h : stored ∈ (db.register row writer).backends.rows) :
    (∃ before ∈ db.backends.rows, stored.writer = before.writer ∧
        stored.row.id = before.row.id) ∨ stored = ⟨row, writer⟩ := by
  rcases Table.mem_upsert.mp h with ⟨hmem, -⟩ | hnew
  · obtain ⟨before, hbefore, rfl⟩ := List.mem_map.mp hmem
    refine .inl ⟨before, hbefore, ?_⟩
    split <;> exact ⟨rfl, rfl⟩
  · exact .inr hnew

variable {conn : Connection}

/-- **Where the rows after a step come from**: they were there, or a registration Job that is
    not finished has written them. -/
theorem row_origin (h : ∀ k job, w.jobs.current k = some job → BackendJob d w k job)
    (heffect : Effect d w c r w') (hstored : stored ∈ (w'.databases conn).backends.rows) :
    (∃ before ∈ (w.databases conn).backends.rows, stored.writer = before.writer ∧
        stored.row.id = before.row.id) ∨
      ∃ key b job, w.backends.Had key b ∧ (b.resolved d key).isHibernateDestination = false ∧
        w.jobs.current (registerKey key) = some job ∧
        job.unfinished = true ∧ stored.writer = some b.uid ∧ w.connection d key b = some conn ∧
        stored.row.id = (b.resolved d key).id := by
  rcases heffect.databases with ⟨hsame, -⟩ |
    ⟨k, age, inUse, job, databases, -, hjob, hopen, hrun, rfl⟩
  · rw [hsame] at hstored
    exact .inl ⟨stored, hstored, rfl, rfl⟩
  · obtain ⟨key, b, hb, hmedia, ⟨rfl, ⟨image, conn₀, row, htask, hconn, hid, -⟩, hcontroller⟩ |
      ⟨-, -, image, conn₀, htask, -⟩⟩ := h k job hjob
    · change stored ∈ (databases conn).backends.rows at hstored
      rw [carryOut_register hrun htask] at hstored
      dsimp only at hstored
      split at hstored
      · rename_i hsame
        subst hsame
        rcases mem_register hstored with hold | rfl
        · exact .inl hold
        · exact .inr ⟨key, b, job, hb, hmedia, hjob, hopen, hcontroller, hconn, hid⟩
      · exact .inl ⟨stored, hstored, rfl, rfl⟩
    · change stored ∈ (databases conn).backends.rows at hstored
      rw [carryOut_deregister hrun htask] at hstored
      dsimp only at hstored
      split at hstored
      · rename_i hsame
        subst hsame
        exact .inl ⟨stored, (Table.mem_erase.mp hstored).1, rfl, rfl⟩
      · exact .inl ⟨stored, hstored, rfl, rfl⟩

variable {b : StorageBackend} {job : Job}

theorem Cleared.row_erased (h : Cleared d w) {age : Nat} {inUse : Bool}
    {databases : Connection → Database} (hjob : w.jobs.current (deregisterKey key) = some job)
    (hrun : w.carryOut d job age inUse = some { w with databases })
    (hb : w.backends.Had key b) (conn : Connection) :
    ∀ stored ∈ (databases conn).backends.rows, stored.writer ≠ some b.uid := by
  intro stored hstored hwriter
  obtain ⟨key₀, b₀, hb₀, -, ⟨hk, -⟩ | ⟨hk, -, image, conn₀, htask, hconn₀⟩⟩ := h.jobs _ job hjob
  · exact absurd hk.symm (storageBackendResourceKey_ne (by decide))
  obtain rfl := storageBackendResourceKey_inj hk
  -- the row would be where the Job deletes
  have hplace : ∀ stored ∈ (w.databases conn).backends.rows, stored.writer = some b.uid →
      conn = conn₀ ∧ stored.row.id = (b₀.resolved d key).id := by
    intro stored hstored hwriter
    obtain ⟨key₁, b₁, hb₁, -, hwriter₁, hconn₁, hid₁⟩ := h.rows conn stored hstored
    obtain rfl := h.apart key₁ key b₁ b hb₁ hb (Option.some.inj (hwriter₁.symm.trans hwriter))
    have hfixed := h.fixed hb₁ hb₀
    refine ⟨?_, hid₁.trans (resolved_id_of_fixed hfixed)⟩
    exact Option.some.inj (hconn₁.symm.trans ((connection_of_fixed hfixed).trans hconn₀))
  rw [carryOut_deregister hrun htask] at hstored
  dsimp only at hstored
  split at hstored
  · rename_i hsame
    subst hsame
    obtain ⟨hmem, hne⟩ := Table.mem_erase.mp hstored
    exact hne (hplace stored hmem hwriter).2
  · exact absurd (hplace stored hstored hwriter).1 ‹_›

theorem Reads.cleanupWatch (h : Reads key b m)
    (hworker : OnCleanup d m w) : CleanupWatch d key m w :=
  hworker _ h.request key rfl

variable {controller : Option Uid} {spec : JobSpec}

theorem launched_cleanup (hworker : OnCleanup d m w)
    (hreq : backendReq d (.applyJob k controller spec) m) :
    ∃ key b, Reads key b m ∧ w.backends.Had key b ∧
      (b.resolved d key).isHibernateDestination = false ∧
      (k = registerKey key ∧ b.deleting = false ∧
          storageBackendFinalizer ∈ b.finalizers ∧ controller = some b.uid ∧
          (∀ job : Job, job.toJobSpec = spec → Registers d w key b job) ∨
        k = deregisterKey key ∧ b.deleting = true ∧
          ∀ job : Job, job.toJobSpec = spec → Deregisters d w key b job) := by
  obtain ⟨key, b, t, hreads, ⟨stored, hstored, ht⟩, hmedia, hcase⟩ := hreq
  have hwatch := hreads.cleanupWatch hworker
  have hconn : w.connection d key b = some (dbConnection t) :=
    connection_of_resolved (hwatch.tamoss b (some stored) hreads.backend hstored) ht
  refine ⟨key, b, hreads, hwatch.had b hreads.backend, hmedia, ?_⟩
  rcases hcase with ⟨hk, hcontroller, hlive, hheld, rfl, -⟩ | ⟨hk, -, hdeleting, rfl, -⟩
  · refine .inl ⟨hk, hlive, hheld, hcontroller, fun job hspec => ?_⟩
    exact ⟨_, _, _, congrArg JobSpec.task hspec, hconn, rfl, congrArg JobSpec.desiredHash hspec⟩
  · exact .inr ⟨hk, hdeleting, fun job hspec => ⟨hdeleting, _, _, congrArg JobSpec.task hspec, hconn⟩⟩

theorem finished_kept {job' : Job} (heffect : Effect d w c r w')
    (hjob' : w'.jobs.current k = some job')
    (hended : ∀ job, w.jobs.current k = some job → job.unfinished = false)
    (hlaunch : ∀ controller spec, c ≠ .applyJob k controller spec) (hreq : backendReq d c m) :
    job'.unfinished = false := by
  cases heffect.job_from hjob' with
  | kept _ job _ hjob hspec huid hcontroller hdone houtcome =>
    have hfinished := hended job hjob
    rcases houtcome with hsame | ⟨hopen, -⟩
    · rw [Job.unfinished, hsame]
      exact hfinished
    · simp [Job.unfinished, hopen] at hfinished
  | run age inUse job hjob hopen =>
    have hfinished := hended job hjob
    rw [hopen] at hfinished
    cases hfinished
  | launch controller spec => exact absurd rfl (hlaunch controller spec)
  | reapply controller spec => exact absurd rfl (hlaunch controller spec)
  | create => exact hreq.elim

theorem Clean.step (hworld : Cleared d w) (hb : w.backends.Had key b)
    (h : Clean w key b.uid) (heffect : Effect d w c r w') (hreq : backendReq d c m)
    (hlaunch : ∀ controller spec,
      c ≠ .applyJob (registerKey key) controller spec) : Clean w' key b.uid := by
  refine ⟨fun job' hjob' => finished_kept heffect hjob' h.jobs hlaunch hreq,
    fun conn stored hstored hwriter => ?_⟩
  rcases row_origin hworld.jobs heffect hstored with ⟨before, hbefore, hsame, -⟩ |
    ⟨key₀, b₀, job, hb₀, -, hjob, hopen, hwriter₀, -⟩
  · exact h.rows conn before hbefore (hsame.symm.trans hwriter)
  · obtain rfl := hworld.apart key₀ key b₀ b hb₀ hb (Option.some.inj (hwriter₀.symm.trans hwriter))
    have hfinished := h.jobs job hjob
    rw [hopen] at hfinished
    cases hfinished

theorem Cleared.job_origin (h : Cleared d w) (heffect : Effect d w c r w')
    (hworker : OnCleanup d m w) (hreq : backendReq d c m)
    (hjob : w'.jobs.current k = some job) : BackendJob d w k job := by
  -- a Job that was there keeps its task and its controller
  have hold : ∀ before : Job, w.jobs.current k = some before → job.toJobSpec = before.toJobSpec →
      job.controller = before.controller → BackendJob d w k job := by
    intro before hbefore hspec hcontroller
    obtain ⟨key, b, hb, hmedia, hcase⟩ := h.jobs k before hbefore
    refine ⟨key, b, hb, hmedia, ?_⟩
    rcases hcase with ⟨hk, ⟨image, conn, row, htask, hconn, hid, hhash⟩, hcontrolled⟩ |
      ⟨hk, hdeleting, image, conn, htask, hconn⟩
    · exact .inl ⟨hk, ⟨image, conn, row, (congrArg JobSpec.task hspec).trans htask, hconn, hid,
        (congrArg JobSpec.desiredHash hspec).trans hhash⟩, hcontroller.trans hcontrolled⟩
    · exact .inr ⟨hk, hdeleting, image, conn, (congrArg JobSpec.task hspec).trans htask, hconn⟩
  cases heffect.job_from hjob with
  | kept _ before _ hbefore hspec _ hcontroller => exact hold before hbefore hspec hcontroller
  | run age inUse before hbefore => exact hold before hbefore rfl rfl
  | launch controller spec =>
    obtain ⟨key, b, -, hb, hmedia, ⟨hk, -, -, rfl, hmade⟩ | ⟨hk, -, hmade⟩⟩ :=
      launched_cleanup hworker hreq
    · exact ⟨key, b, hb, hmedia, .inl ⟨hk, hmade _ rfl, rfl⟩⟩
    · exact ⟨key, b, hb, hmedia, .inr ⟨hk, hmade _ rfl⟩⟩
  | reapply controller spec =>
    obtain ⟨key, b, -, hb, hmedia, ⟨hk, -, -, rfl, hmade⟩ | ⟨hk, -, hmade⟩⟩ :=
      launched_cleanup hworker hreq
    · exact ⟨key, b, hb, hmedia, .inl ⟨hk, hmade _ rfl, rfl⟩⟩
    · exact ⟨key, b, hb, hmedia, .inr ⟨hk, hmade _ rfl⟩⟩
  | create => exact hreq.elim

theorem BackendJob.step (h : BackendJob d w k job)
    (heffect : Effect d w c r w') (htamosses : w'.tamosses = w.tamosses) :
    BackendJob d w' k job := by
  obtain ⟨key, b, hb, hmedia, hcase⟩ := h
  exact ⟨key, b, heffect.backends_had hb, hmedia, hcase.imp
    (fun ⟨hk, hregisters, hcontroller⟩ => ⟨hk, registers_congr htamosses hregisters, hcontroller⟩)
    (fun ⟨hk, hderegisters⟩ => ⟨hk, deregisters_congr htamosses hderegisters⟩)⟩

theorem register_launch (hworker : OnCleanup d m w) (hreq : backendReq d
      (.applyJob (registerKey key) controller spec) m) :
    ¬ Unheld w key ∧ w.jobs.current (deregisterKey key) = none := by
  obtain ⟨key', b, hreads, -, -, ⟨hk, hlive, hheld, -⟩ | ⟨hk, -⟩⟩ := launched_cleanup hworker hreq
  · obtain rfl := storageBackendResourceKey_inj hk
    have hwatch := hreads.cleanupWatch hworker
    exact ⟨hwatch.held b hreads.backend hlive hheld, hwatch.unlaunched b hreads.backend hlive⟩
  · exact absurd hk (storageBackendResourceKey_ne (by decide))

theorem Cleared.quiet_step (h : Cleared d w) (heffect : Effect d w c r w')
    (hworker : OnCleanup d m w) (hreq : backendReq d c m)
    (hconduct : CleanupOrderly d w c r) {job job' : Job}
    (hjob : w'.jobs.current (deregisterKey key) = some job)
    (hjob' : w'.jobs.current (registerKey key) = some job') : job'.unfinished = false := by
  have hnolaunch : (∃ job, w.jobs.current (deregisterKey key) = some job) →
      ∀ controller spec,
        c ≠ .applyJob (registerKey key) controller spec := by
    rintro ⟨before, hbefore⟩ controller spec rfl
    rw [(register_launch hworker hreq).2] at hbefore
    cases hbefore
  have hbefore : ∀ before,
      w.jobs.current (deregisterKey key) = some before →
      job'.unfinished = false := fun before hbefore =>
    finished_kept heffect hjob' (fun other hother => h.quiet key before other hbefore hother)
      (hnolaunch ⟨before, hbefore⟩) hreq
  cases heffect.job_from hjob with
  | kept _ before _ hold => exact hbefore before hold
  | run age inUse before hold => exact hbefore before hold
  | reapply controller spec before hold => exact hbefore before hold
  | launch controller spec =>
    -- it is launched now, and the registration Jobs have been seen to be finished
    obtain ⟨key', b, -, hb, -, ⟨hk, -⟩ | ⟨hk, -⟩⟩ := launched_cleanup hworker hreq
    · exact absurd hk.symm (storageBackendResourceKey_ne (by decide))
    · obtain rfl := storageBackendResourceKey_inj hk
      refine finished_kept heffect hjob'
        (hconduct key (Directory.mem_keys_of_had hb) rfl) (fun controller' spec' hcall => ?_) hreq
      injection hcall with hcall
      exact storageBackendResourceKey_ne (by decide) hcall.symm
  | create => exact hreq.elim

theorem Cleared.no_launch (hworker : OnCleanup d m w) (hreq : backendReq d c m) (h : Unheld w key ∨
      ∃ job, w.jobs.current (deregisterKey key) = some job)
    (controller : Option Uid) (spec : JobSpec) :
    c ≠ .applyJob (registerKey key) controller spec := by
  rintro rfl
  obtain ⟨hheld, hnone⟩ := register_launch hworker hreq
  rcases h with hunheld | ⟨job, hjob⟩
  · exact hheld hunheld
  · rw [hnone] at hjob
    cases hjob

theorem Cleared.erased_step (h : Cleared d w) (heffect : Effect d w c r w')
    (hworker : OnCleanup d m w) (hreq : backendReq d c m) (hb : w.backends.Had key b)
    (hjob : w'.jobs.current (deregisterKey key) = some job)
    (hdone : job.done = true) : Clean w' key b.uid := by
  have hbefore : ∀ before : Job,
      w.jobs.current (deregisterKey key) = some before →
      before.done = true → Clean w' key b.uid := fun before hbefore hdone =>
    (h.erased key b before hb hbefore hdone).step h hb heffect hreq
      (Cleared.no_launch hworker hreq (.inr ⟨before, hbefore⟩))
  cases heffect.job_from hjob with
  | kept _ before _ hold _ _ _ hsame => exact hbefore before hold (hsame ▸ hdone)
  | reapply controller spec before hold => exact hbefore before hold hdone
  | launch => cases hdone
  | create => exact hreq.elim
  | run age inUse before hold hopen =>
    cases heffect with
    | none _ _ hidle => exact hidle.elim
    | runJob _ _ _ before' databases hold' _ hrun =>
      obtain rfl := Option.some.inj (hold.symm.trans hold')
      refine ⟨fun job' hjob' => ?_, h.row_erased hold hrun hb⟩
      have hother : registerKey key ≠
          deregisterKey key := storageBackendResourceKey_ne (by decide)
      change (w.jobs.put _ _).current _ = some job' at hjob'
      rw [Directory.current_put_of_ne hother] at hjob'
      exact h.quiet key before job' hold hjob'

theorem Cleared.released (h : Cleared d w) (hwatch : CleanupWatch d key m w)
    (hb : m.backend = some b) (hdeleting : b.deleting = true)
    (hreleased : Released d b (b.resolved d key) m) : Clean w key b.uid := by
  have hhad := hwatch.had b hb
  obtain ⟨hname, stored, t, state, release, hstored, ht, hstate, hrelease, hmatch⟩ :=
    hosts_spec (h.hosted key b hhad)
  rcases hreleased with hhibernate | hblank | hnone | ⟨t', answer, ⟨stored', hstored', ht'⟩, hasked, hno⟩ |
    ⟨job, hjob, hsucceeded, -⟩
  · -- a destination of hibernations has neither Jobs nor rows
    refine ⟨fun job hjob => ?_, fun conn stored hrow hwriter => ?_⟩
    · obtain ⟨key', b', hb', hmedia, ⟨hk, -⟩ | ⟨hk, -⟩⟩ := h.jobs _ job hjob
      · obtain rfl := storageBackendResourceKey_inj hk
        rw [media_of_fixed (h.fixed hb' hhad), hhibernate] at hmedia
        cases hmedia
      · exact absurd hk (storageBackendResourceKey_ne (by decide))
    · obtain ⟨key', b', hb', hmedia, hwriter', -⟩ := h.rows conn stored hrow
      obtain rfl := h.apart key' key b' b hb' hhad (Option.some.inj (hwriter'.symm.trans hwriter))
      rw [media_of_fixed (h.fixed hb' hhad), hhibernate] at hmedia
      cases hmedia
  · exact absurd hblank hname
  · have hgone := hwatch.tamoss b none hb hnone
    rw [hstored] at hgone
    cases hgone
  · -- the schema version was read, and it is in place
    have hsame := hwatch.tamoss b (some stored') hb hstored'
    rw [hstored] at hsame
    cases hsame
    rw [ht] at ht'
    cases ht'
    have hanswer := hwatch.asked _ answer hasked (mem_schemaKeys hstored ht)
    rw [hstate] at hanswer
    have hmismatch := hno state hanswer release hrelease
    rw [hmatch] at hmismatch
    cases hmismatch
  · exact hwatch.cleared b job hb hdeleting hjob hsucceeded

theorem BackendStep.unheld {s : Option StorageBackend} (h : BackendStep w c key s)
    (hpatch : ∀ finalizers, c ≠ .patchBackendFinalizers key finalizers)
    (hunheld : ∀ b, s = some b → storageBackendFinalizer ∉ b.finalizers) : Unheld w key := by
  intro b' hb'
  cases h with
  | create _ spec habsent =>
    rw [habsent] at hb'
    cases hb'
  | edit _ spec b hb hfixed =>
    have hnew := hunheld _ rfl
    obtain rfl := Option.some.inj (hb.symm.trans hb')
    exact hnew
  | delete _ b hb =>
    obtain rfl := Option.some.inj (hb.symm.trans hb')
    split at hunheld
    · rename_i hempty
      rw [hempty]
      exact List.not_mem_nil
    · have hnew := hunheld _ rfl
      exact hnew
  | finalizers _ finalizers => exact absurd rfl (hpatch finalizers)
  | status _ read status b hb =>
    obtain rfl := Option.some.inj (hb.symm.trans hb')
    split at hunheld
    · rename_i hempty
      rw [hempty.2]
      exact List.not_mem_nil
    · have hnew := hunheld _ rfl
      exact hnew

theorem Cleared.gone_step (h : Cleared d w) (heffect : Effect d w c r w')
    (hworker : OnCleanup d m w) (hreq : backendReq d c m) (hb : w'.backends.Had key b)
    (hheld : storageBackendFinalizer ∈ b.finalizers) (hunheld : Unheld w' key) :
    Clean w' key b.uid := by
  have hold : ∀ b, w.backends.Had key b → storageBackendFinalizer ∈ b.finalizers →
      Unheld w key → Clean w' key b.uid := fun b hb hheld hunheld =>
    (h.gone key b hb hheld hunheld).step h hb heffect hreq
      (Cleared.no_launch hworker hreq (.inl hunheld))
  rcases heffect.backends with hsame | ⟨k₀, s, hstep, hput, -⟩
  · unfold Unheld at hunheld
    rw [hsame] at hb hunheld
    exact hold b hb hheld hunheld
  by_cases hk : key = k₀
  · subst hk
    unfold Unheld at hunheld
    rw [hput, Directory.current_put_self] at hunheld
    rw [hput, Directory.had_put] at hb
    -- the version is not the new one, as that has no finalizer
    have hhad : w.backends.Had key b := by
      rcases hb with ⟨-, hs⟩ | hb
      · exact absurd hheld (hunheld b hs)
      · exact hb
    by_cases hpatch : ∃ finalizers, c = .patchBackendFinalizers key finalizers
    · obtain ⟨finalizers, rfl⟩ := hpatch
      cases hstep with
      | finalizers _ _ b₀ hb₀ =>
        obtain ⟨read, hreads, ⟨hlive, rfl⟩ | ⟨hdeleting, hreleased⟩⟩ := hreq
        · -- the finalizer is added
          rw [if_neg (by simp)] at hunheld
          exact absurd (List.mem_append_right _ List.mem_cons_self) (hunheld _ rfl)
        · have hwatch := hreads.cleanupWatch hworker
          have hclean := h.released hwatch hreads.backend hdeleting hreleased
          rw [(h.same key read b (hwatch.had read hreads.backend) hhad).1] at hclean
          refine hclean.step h hhad heffect ⟨read, hreads, .inr ⟨hdeleting, hreleased⟩⟩ ?_
          intro controller spec hcall
          cases hcall
    · exact hold b hhad hheld (hstep.unheld (fun fs hcall => hpatch ⟨fs, hcall⟩) hunheld)
  · unfold Unheld at hunheld
    rw [hput, Directory.current_put_of_ne hk] at hunheld
    rw [hput, Directory.had_put] at hb
    rcases hb with ⟨hk', -⟩ | hb
    · exact absurd hk' hk
    · exact hold b hb hheld hunheld

theorem Cleared.step (h : Cleared d w) (heffect : Effect d w c r w')
    (hworker : OnCleanup d m w) (hreq : backendReq d c m)
    (hconduct : CleanupOrderly d w c r) : Cleared d w' := by
  have htamosses := hconduct.tamosses heffect
  have hmaps := schema_step heffect hreq
  have hbackends := h.toBackends.step heffect fun _ _ hc b => hconduct.new hc b
  refine
    { hbackends with
      hosted := fun key b hb => hosts_congr htamosses hmaps ?_
      jobs := fun k job hjob => (h.job_origin heffect hworker hreq hjob).step heffect htamosses
      finished := fun k job hjob hsucceeded => finished_step h.finished heffect hjob hsucceeded
      rows := fun conn stored hstored => ?_
      quiet := fun key job job' hjob hjob' =>
        h.quiet_step heffect hworker hreq hconduct hjob hjob'
      erased := fun key b job hb hjob hdone => ?_
      gone := fun key b hb hheld hunheld =>
        h.gone_step heffect hworker hreq hb hheld hunheld }
  · rcases heffect.backends with hsame | ⟨k₀, s, hstep, hput, -⟩
    · exact h.hosted key b (hsame ▸ hb)
    · rw [hput, Directory.had_put] at hb
      rcases hb with ⟨rfl, hs⟩ | hb
      · rcases (hstep.version hs).2 with ⟨spec, rfl, rfl, -⟩ | ⟨b₀, hb₀, -, hfixed, -⟩
        · exact hconduct.1
        · rw [tamossRef_of_fixed hfixed]
          exact h.hosted key b₀ (Directory.had_of_current hb₀)
      · exact h.hosted key b hb
  · rcases row_origin h.jobs heffect hstored with ⟨before, hbefore, hwriter, hid⟩ |
      ⟨key, b, job, hb, hmedia, -, -, hwriter, hconn, hid⟩
    · obtain ⟨key, b, hb, hmedia, hwriter', hconn, hid'⟩ := h.rows conn before hbefore
      exact ⟨key, b, heffect.backends_had hb, hmedia, hwriter.trans hwriter',
        (connection_congr htamosses key b).trans hconn, hid.trans hid'⟩
    · exact ⟨key, b, heffect.backends_had hb, hmedia, hwriter,
        (connection_congr htamosses key b).trans hconn, hid⟩
  · -- a deregistration Job belongs to a backend that was there before
    obtain ⟨key', b₀, hb₀, -, ⟨hk, -⟩ | ⟨hk, -⟩⟩ := h.job_origin heffect hworker hreq hjob
    · exact absurd hk.symm (storageBackendResourceKey_ne (by decide))
    obtain rfl := storageBackendResourceKey_inj hk
    rw [(hbackends.same key b b₀ hb (heffect.backends_had hb₀)).1]
    exact h.erased_step heffect hworker hreq hb₀ hjob hdone

def Call.cleans : Call → Bool
  | .applyJob .. | .patchBackendFinalizers .. => true
  | _ => false

theorem CleanupWatch.step {m' : BackendMemo} (h : CleanupWatch d key m' w)
    (hworld : Cleared d w) (heffect : Effect d w c r w')
    (hworker : OnCleanup d m w) (hreq : backendReq d c m) (hconduct : CleanupOrderly d w c r)
    (hother : c.cleans = true → m.request ≠ some (.storageBackend key)) :
    CleanupWatch d key m' w' := by
  have htamosses := hconduct.tamosses heffect
  -- Jobs under the names of the backend are launched by its worker
  have hlaunch : ∀ suffix controller spec, suffix = "db-register" ∨ suffix = "db-deregister" →
      c ≠ .applyJob (storageBackendResourceKey key suffix) controller spec := by
    rintro suffix controller spec hsuffix rfl
    obtain ⟨key', b, hreads, -, -, hcase⟩ := launched_cleanup hworker hreq
    have hkey : key = key' := by
      rcases hcase with ⟨hk, -⟩ | ⟨hk, -⟩ <;> rcases hsuffix with rfl | rfl
      · exact storageBackendResourceKey_inj hk
      · exact absurd hk (storageBackendResourceKey_ne (by decide))
      · exact absurd hk (storageBackendResourceKey_ne (by decide))
      · exact storageBackendResourceKey_inj hk
    subst hkey
    exact hother rfl hreads.request
  refine ⟨fun b hb => heffect.backends_had (h.had b hb), ?_, fun b hb hlive => ?_,
    fun b hb hlive hheld hunheld => ?_, fun k answer hasked hk => ?_,
    fun b job hb hdeleting hjob hsucceeded => ?_⟩
  · rw [htamosses]
    exact h.tamoss
  · cases hjob : w'.jobs.current (deregisterKey key) with
    | none => rfl
    | some job =>
      have hnone := h.unlaunched b hb hlive
      cases heffect.job_from hjob with
      | kept _ before _ hold =>
        rw [hnone] at hold
        cases hold
      | run age inUse before hold =>
        rw [hnone] at hold
        cases hold
      | launch controller spec => exact absurd rfl (hlaunch _ controller spec (.inr rfl))
      | reapply controller spec => exact absurd rfl (hlaunch _ controller spec (.inr rfl))
      | create => exact hreq.elim
  · refine h.held b hb hlive hheld fun b' hb' => ?_
    rcases heffect.backends with hsame | ⟨k₀, s, hstep, hput, -⟩
    · exact hunheld b' (hsame ▸ hb')
    by_cases hk : key = k₀
    · subst hk
      unfold Unheld at hunheld
      rw [hput, Directory.current_put_self] at hunheld
      refine hstep.unheld (fun finalizers hcall => ?_) hunheld b' hb'
      subst hcall
      obtain ⟨read, hreads, -⟩ := hreq
      exact hother rfl hreads.request
    · refine hunheld b' ?_
      rw [hput, Directory.current_put_of_ne hk]
      exact hb'
  · rw [schemaKeys_congr htamosses] at hk
    rw [schema_step heffect hreq k hk]
    exact h.asked k answer hasked hk
  · exact (h.cleared b job hb hdeleting hjob hsucceeded).step hworld (h.had b hb) heffect hreq
      fun controller spec => hlaunch _ controller spec (.inl rfl)

theorem CleanupWatch.begin (hbackend : m.backend = none) (hasked : m.asked = none) :
    CleanupWatch d key m w := by
  have hno : ∀ b, m.backend ≠ some b := by
    intro b
    rw [hbackend]
    exact nofun
  refine ⟨fun b hb => absurd hb (hno b), fun b _ hb => absurd hb (hno b),
    fun b hb => absurd hb (hno b), fun b hb => absurd hb (hno b), fun k answer h => ?_,
    fun b _ hb => absurd hb (hno b)⟩
  rw [hasked] at h
  cases h

theorem CleanupWatch.read (hworld : Cleared d w) (hcurrent : w.backends.current key = some b)
    (hm : m = { request := some (.storageBackend key) }) :
    CleanupWatch d key { m with backend := some b } w := by
  subst hm
  refine ⟨fun b' h => ?_, fun _ _ _ h => ?_, fun b' h hlive => ?_, fun b' h _ hheld hunheld => ?_,
    fun _ _ h => ?_, fun _ _ _ _ h => ?_⟩
  · cases h
    exact Directory.had_of_current hcurrent
  · cases h
  · cases h
    cases hjob : w.jobs.current (deregisterKey key) with
    | none => rfl
    | some job =>
      -- there is one only if the backend is being deleted
      obtain ⟨key', b₀, hb₀, -, ⟨hk, -⟩ | ⟨hk, hdeleting, -⟩⟩ := hworld.jobs _ job hjob
      · exact absurd hk.symm (storageBackendResourceKey_ne (by decide))
      · obtain rfl := storageBackendResourceKey_inj hk
        have hgone := hworld.final key b₀ b hb₀ hdeleting hcurrent
        rw [hlive] at hgone
        cases hgone
  · cases h
    exact hunheld b hcurrent hheld
  · cases h
  · cases h

theorem CleanupWatch.of_state (h : CleanupWatch d key m w) (state : Option (Option ConfigMap)) :
    CleanupWatch d key { m with state } w :=
  ⟨h.had, h.tamoss, h.unlaunched, h.held, h.asked, h.cleared⟩

theorem CleanupWatch.forget_jobs (h : CleanupWatch d key m w) :
    CleanupWatch d key { m with job := none, cleanup := none } w := by
  refine ⟨h.had, h.tamoss, h.unlaunched, h.held, h.asked, fun _ _ _ _ hjob => ?_⟩
  cases hjob

theorem CleanupWatched.note (hworld : Cleared d w) (heffect : Effect d w c r w')
    (hworker : OnCleanup d m w) (hreq : backendReq d c m) (hconduct : CleanupOrderly d w c r) :
    ∀ x, ((backendAccount d).note c r m).request = some x →
      CleanupWatched d x ((backendAccount d).note c r m) w' := by
  have hstep : c.cleans = false → ∀ x, m.request = some x → CleanupWatched d x m w' :=
    fun hown x hx key hkey => (hworker x hx key hkey).step hworld heffect hworker hreq hconduct
      fun htrue => absurd htrue (by simp [hown])
  cases c with
  | begin request =>
    obtain ⟨rfl, -⟩ := hreq
    intro x _ key _
    exact CleanupWatch.begin rfl rfl
  | getBackend k =>
    cases r with
    | error e => exact hstep rfl
    | ok b =>
      intro x hx key hkey
      have hm : m = { request := some (.storageBackend k) } := hreq
      have hrequest : m.request = some (.storageBackend key) := hkey ▸ hx
      cases heffect
      rw [hm] at hrequest
      cases hrequest
      exact CleanupWatch.read hworld (Fresh.ok hconduct) hm
  | getTamoss k =>
    intro x hx key hkey
    have hwatch := hworker x hx key hkey
    cases heffect
    obtain ⟨key', b, hreads, rfl⟩ := hreq
    obtain rfl := hreads.same (hkey ▸ hx)
    refine ⟨hwatch.had, fun b' stored hb' htold => ?_, hwatch.unlaunched, hwatch.held, hwatch.asked,
      hwatch.cleared⟩
    obtain rfl := Option.some.inj (hreads.backend.symm.trans hb')
    exact Fresh.told hconduct htold
  | getConfigMap k =>
    intro x hx key hkey
    have hwatch := hworker x hx key hkey
    cases heffect
    refine ⟨hwatch.had, hwatch.tamoss, hwatch.unlaunched, hwatch.held,
      fun k' answer hasked hk' => ?_, hwatch.cleared⟩
    cases hasked
    exact hconduct.2 hk'
  | getJob k =>
    intro x hx key hkey
    have hwatch := hworker x hx key hkey
    cases heffect
    refine ⟨hwatch.had, hwatch.tamoss, hwatch.unlaunched, hwatch.held, hwatch.asked,
      fun b job hb hdeleting hjob hsucceeded => ?_⟩
    change (if m.child "db-deregister" = some k then told r else m.cleanup) = some (some job) at hjob
    split at hjob
    · rename_i hchild
      have hrequest : m.request = some (.storageBackend key) := hkey ▸ hx
      simp only [BackendMemo.child, hrequest, Option.some.injEq] at hchild
      subst hchild
      have hcurrent := Fresh.told hconduct hjob
      exact hworld.erased key b job (hwatch.had b hb) hcurrent
        (hworld.finished _ job hcurrent hsucceeded)
    · exact hwatch.cleared b job hb hdeleting hjob hsucceeded
  | applyConfigMap k controller spec =>
    cases r with
    | error e => exact hstep rfl
    | ok a =>
      intro x hx key hkey
      exact (hstep rfl x hx key hkey).of_state _
  | deleteConfigMap k =>
    intro x hx key hkey
    exact (hstep rfl x hx key hkey).of_state none
  | applyJob k controller spec =>
    intro x hx key hkey
    have hwatch := hworker x hx key hkey
    obtain ⟨key', b, hreads, -, -, hcase⟩ := launched_cleanup hworker hreq
    obtain rfl := hreads.same (hkey ▸ hx)
    refine ⟨fun b hb => heffect.backends_had (hwatch.had b hb), ?_, fun b' hb' hlive => ?_, ?_, ?_,
      fun _ _ _ _ hjob => ?_⟩
    · cases heffect <;> exact hwatch.tamoss
    · -- what is launched for a backend that is not being deleted is a registration Job
      obtain rfl := Option.some.inj (hreads.backend.symm.trans hb')
      have hnone := hwatch.unlaunched b hb' hlive
      rcases hcase with ⟨rfl, -⟩ | ⟨-, hdeleting, -⟩
      · have hother : deregisterKey key' ≠
            registerKey key' := storageBackendResourceKey_ne (by decide)
        cases heffect with
        | none => exact hnone
        | launchJob => exact (Directory.current_put_of_ne hother).trans hnone
        | reapplyJob => exact (Directory.current_put_of_ne hother).trans hnone
      · rw [hlive] at hdeleting
        cases hdeleting
    · cases heffect <;> exact hwatch.held
    · cases heffect <;> exact hwatch.asked
    · cases hjob
  | deleteJob k foreground =>
    cases foreground with
    | true => exact hstep rfl
    | false =>
      intro x hx key hkey
      exact (hstep rfl x hx key hkey).forget_jobs
  | patchBackendFinalizers k finalizers =>
    intro x hx key hkey
    have hwatch := hworker x hx key hkey
    have hclean : ∀ b, w.backends.Had key b → Clean w key b.uid → Clean w' key b.uid :=
      fun b hb hclean => hclean.step hworld hb heffect hreq (by
        intro controller spec hcall
        cases hcall)
    obtain ⟨b, hreads, hcase⟩ := hreq
    obtain rfl := hreads.same (hkey ▸ hx)
    refine ⟨fun b hb => heffect.backends_had (hwatch.had b hb), ?_, ?_,
      fun b' hb' hlive hheld hunheld => ?_, ?_, fun b' job hb' hdeleting hjob hsucceeded => ?_⟩
    · cases heffect <;> exact hwatch.tamoss
    · cases heffect <;> exact hwatch.unlaunched
    · obtain rfl := Option.some.inj (hreads.backend.symm.trans hb')
      rcases hcase with ⟨-, rfl⟩ | ⟨hdeleting, -⟩
      · cases heffect with
        | none => exact hwatch.held b hb' hlive hheld hunheld
        | patchBackendFinalizers _ _ b₀ hb₀ =>
          refine hunheld _ (Directory.current_put_self.trans (if_neg (by simp))) ?_
          exact List.mem_append_right _ List.mem_cons_self
      · rw [hlive] at hdeleting
        cases hdeleting
    · cases heffect <;> exact hwatch.asked
    · exact hclean b' (hwatch.had b' hb') (hwatch.cleared b' job hb' hdeleting hjob hsucceeded)
  | _ => exact hstep rfl

def cleanupOrderly (d : Site) : (operator d).Conduct where
  starts := storageOperations
  calls c r w := CleanupOrderly d w c r

def clearedKnowledge (d : Site) : (operator d).Knowledge BackendMemo where
  world := Cleared d
  request := BackendMemo.request
  worker := CleanupWatched d

theorem NoBackends.cleared (h : NoBackends w)
    (hrows : ∀ conn, (w.databases conn).backends.rows = []) : Cleared d w := by
  have hnone : ∀ key b, ¬ w.backends.Had key b := by
    intro key b hb
    rw [h.backends] at hb
    exact absurd hb List.not_mem_nil
  have hnojob : ∀ k job, w.jobs.current k ≠ some job := by
    intro k job hjob
    rw [h.jobs k] at hjob
    cases hjob
  refine
    { Backends.initial h.backends with
      hosted := fun key b hb => absurd hb (hnone key b)
      jobs := fun k job hjob => absurd hjob (hnojob k job)
      finished := fun k job hjob => absurd hjob (hnojob k job)
      rows := fun conn stored hstored => ?_
      quiet := fun key job _ hjob => absurd hjob (hnojob _ job)
      erased := fun key b _ hb => absurd hb (hnone key b)
      gone := fun key b hb => absurd hb (hnone key b) }
  rw [hrows conn] at hstored
  exact absurd hstored List.not_mem_nil

/-- **Deregistered for good.**  In every run in which the deletion of backends is handled in
    order, from a world without backends, Jobs and rows: once the finalizer of a backend has
    been removed, a row with its id is one that another backend has written. -/
theorem deregistered_for_good {w₀ : World} (hw₀ : NoBackends w₀)
    (hrows : ∀ conn, (w₀.databases conn).backends.rows = []) {c : (operator d).machine.Config}
    (hc : (operator d).Reachable (cleanupOrderly d) w₀ c) {key : Key}
    (hb : c.shared.world.backends.Had key b)
    (hheld : storageBackendFinalizer ∈ b.finalizers)
    (hremoved : ∀ b', c.shared.world.backends.current key = some b' →
      storageBackendFinalizer ∉ b'.finalizers)
    (hstored : (c.shared.world.databases conn).backends.get (b.resolved d key).id = some stored) :
    ∃ key' b', key' ≠ key ∧ c.shared.world.backends.Had key' b' ∧
      stored.writer = some b'.uid ∧ (b'.resolved d key').id = (b.resolved d key).id := by
  have hknown : Service.Known (backendAccount d) {} (clearedKnowledge d) c := by
    refine hc.known (hw₀.cleared hrows) (backendAccount_attested rfl)
      (fun _ hop => storageOperations_keep hop) (fun _ _ _ _ _ _ _ _ _ => trivial) ?_
    intro ch q w r w' m hworld hworker hreq hperform hconduct
    have heffect := perform_effect hperform
    refine ⟨hworld.step heffect hworker hreq hconduct,
      CleanupWatched.note hworld heffect hworker hreq hconduct, ?_⟩
    intro x m' _ hother _ hx key hkey
    exact (hx key hkey).step hworld heffect hworker hreq hconduct fun _ => hkey ▸ hother
  have hworld : Cleared d c.shared.world := hknown.world
  obtain ⟨hmem, hid⟩ := Table.get_eq_some.mp hstored
  obtain ⟨key', b', hb', -, hwriter, -, hid'⟩ := hworld.rows conn stored hmem
  refine ⟨key', b', ?_, hb', hwriter, hid'.symm.trans hid⟩
  rintro rfl
  have hclean := hworld.gone key' b hb hheld hremoved
  exact hclean.rows conn stored hmem
    (hwriter.trans (congrArg some (hworld.same key' b' b hb' hb).1))

instance (d : Site) : DecidablePred (cleanupOrderly d).starts :=
  inferInstanceAs (DecidablePred storageOperations)

instance CleanupOrderly.decidable (w : World) (c : Call) (r : c.Resp) :
    Decidable (CleanupOrderly d w c r) := by
  rcases c with _ | _
  case change x =>
    rcases x with _ | _
    case setTamoss => exact .isFalse id
    case createBackend key spec =>
      exact inferInstanceAs (Decidable (_ = true ∧ ∀ x ∈ w.backends.versions, _))
    all_goals exact .isTrue trivial
  case applyJob k controller spec =>
    exact inferInstanceAs (Decidable (∀ key ∈ w.backends.keys, _ → ∀ job, _ = some job → _))
  case getConfigMap k => exact World.Answers.decidable d w k r
  all_goals exact World.Current.decidable w _ r

instance (d : Site) (c : Call) (r : c.Resp) (w : (operator d).World) :
    Decidable ((cleanupOrderly d).calls c r w) :=
  CleanupOrderly.decidable w c r

def mediaReleased (w : World) (name : String) : Bool :=
  (w.backends.current (mediaKey name)).isNone && w.backends.versions.any fun x =>
    x.1 == mediaKey name && storageBackendFinalizer ∈ x.2.finalizers

theorem mediaReleased_spec {w : World} {name : String} (h : mediaReleased w name = true) :
    w.backends.current (mediaKey name) = none ∧ ∃ b, w.backends.Had (mediaKey name) b ∧
      storageBackendFinalizer ∈ b.finalizers := by
  simp only [mediaReleased, Bool.and_eq_true, Option.isNone_iff_eq_none, List.any_eq_true,
    beq_iff_eq, decide_eq_true_eq] at h
  obtain ⟨hnone, ⟨k, b⟩, hmem, rfl, hheld⟩ := h
  exact ⟨hnone, b, Directory.mem_versions.mp hmem, hheld⟩

theorem deregistered_for_good_shared : ∃ c b stored key' b',
    (operator plainSite).Reachable (cleanupOrderly plainSite) mediaWorld c ∧
      c.shared.world.backends.Had (mediaKey "a") b ∧ storageBackendFinalizer ∈ b.finalizers ∧
      c.shared.world.backends.current (mediaKey "a") = none ∧
      (c.shared.world.databases (dbConnection demo)).backends.get
        (b.resolved plainSite (mediaKey "a")).id = some stored ∧
      key' ≠ mediaKey "a" ∧ c.shared.world.backends.Had key' b' ∧ stored.writer = some b'.uid := by
  obtain ⟨c, hc, hP⟩ : ∃ c, (operator plainSite).Reachable (cleanupOrderly plainSite) mediaWorld c ∧
      (mediaReleased c.shared.world "a" && c.shared.world.backends.versions.all fun x =>
        ((c.shared.world.databases (dbConnection demo)).backends.get
          (x.2.resolved plainSite x.1).id).isSome) = true :=
    Service.Reachable.of_run (mediaReady "a" "shared" ++ mediaGone "a" 16 ++
      mediaReady "b" "shared") (by decide +kernel)
  obtain ⟨hreleased, hrow⟩ := Bool.and_eq_true_iff.mp hP
  obtain ⟨hnone, b, hb, hheld⟩ := mediaReleased_spec hreleased
  obtain ⟨stored, hstored⟩ := Option.isSome_iff_exists.mp
    (List.all_eq_true.mp hrow (mediaKey "a", b) (Directory.mem_versions.mpr hb))
  have hremoved : ∀ b', c.shared.world.backends.current (mediaKey "a") = some b' →
      storageBackendFinalizer ∉ b'.finalizers := by
    intro b' hb'
    rw [hnone] at hb'
    cases hb'
  obtain ⟨key', b', hkey, hb', hwriter, -⟩ := deregistered_for_good mediaWorld_noBackends
    (fun _ => rfl) hc hb hheld hremoved hstored
  exact ⟨c, b, stored, key', b', hc, hb, hheld, hnone, hstored, hkey, hb', hwriter⟩

/-- A registration Job is launched before its backend is deleted, and runs after the
    deregistration Job has completed and the finalizer was removed.  There has been no other
    backend. -/
theorem row_after_deregistration : ∃ c, (operator plainSite).Reachable (.free _) mediaWorld c ∧
    mediaReleased c.shared.world "a" = true ∧
      c.shared.world.backends.versions.all (fun x => x.1 == mediaKey "a") = true ∧
      mediaRows c.shared.world = [("a", "a", true)] :=
  Service.Reachable.of_run (mediaLaunched "a" "a" ++ mediaGone "a" 16 ++
    happens (.runJob (registerKey (mediaKey "a")) 0 false))
    (by decide +kernel)

end Tamoss.Jobs
