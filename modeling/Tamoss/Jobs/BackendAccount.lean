/-
  **What the `StorageBackend` reconciler goes by.**
-/
import Tamoss.Jobs.Effects

namespace Tamoss.Jobs

open Lib Operator

abbrev registerKey (key : Key) : Key := storageBackendResourceKey key "db-register"

abbrev deregisterKey (key : Key) : Key := storageBackendResourceKey key "db-deregister"

abbrev stateKey (key : Key) : Key := storageBackendResourceKey key "db-state"

abbrev bucketKey (key : Key) : Key := storageBackendResourceKey key "bucket-state"

/-- What a worker on a `StorageBackend` remembers. -/
structure BackendMemo where
  request : Option Request := none
  backend : Option StorageBackend := none
  tamoss : Option (Option Instance) := none
  asked : Option (Key × Except ApiError ConfigMap) := none
  state : Option (Option ConfigMap) := none
  job : Option (Option Job) := none
  cleanup : Option (Option Job) := none

def BackendMemo.child (m : BackendMemo) (suffix : String) : Option Key :=
  match m.request with
  | some (.storageBackend key) => some (storageBackendResourceKey key suffix)
  | _ => none

def backendNote : (c : Call) → c.Resp → BackendMemo → BackendMemo
  | .begin request, _, m => { m with request := some request }
  | .getBackend _, .ok b, m => { m with backend := some b }
  | .getTamoss _, answer, m => { m with tamoss := told answer }
  | .getConfigMap key, answer, m =>
    { m with
      asked := some (key, answer)
      state := if m.child "db-state" = some key then told answer else m.state }
  | .getJob key, answer, m =>
    { m with
      job := if m.child "db-register" = some key then told answer else m.job
      cleanup := if m.child "db-deregister" = some key then told answer else m.cleanup }
  | .applyConfigMap key controller spec, .ok _, m =>
    { m with
      state :=
        if m.child "db-state" = some key then
          some (some { spec with controller := some controller })
        else m.state }
  | .deleteConfigMap _, _, m => { m with state := none }
  | .applyJob .., _, m => { m with job := none, cleanup := none }
  | .deleteJob _ false, _, m => { m with job := none, cleanup := none }
  | _, _, m => m

structure Reads (key : Key) (b : StorageBackend) (m : BackendMemo) : Prop where
  request : m.request = some (.storageBackend key)
  backend : m.backend = some b

def Resolves (d : Site) (m : BackendMemo) (t : Instance) : Prop :=
  ∃ stored, m.tamoss = some (some stored) ∧ resolveTamoss d.installation stored = .ok t

def Recorded (m : BackendMemo) (s : BackendSpec) : Prop :=
  ∃ state, m.state = some state ∧ databaseRegistered state s = true

def Released (d : Site) (b : StorageBackend) (s : BackendSpec) (m : BackendMemo) : Prop :=
  s.isHibernateDestination = true ∨ trimmed b.spec.tamossRef = "" ∨ m.tamoss = some none ∨
    (∃ t answer, Resolves d m t ∧ m.asked = some (schemaStateKey t, answer) ∧
      ∀ state, answer = .ok state → ∀ release, d.installation.selectRelease t = .ok release →
        schemaStateMatchesTarget state release.schema = false) ∨
    ∃ job, m.cleanup = some (some job) ∧ job.succeeded = true ∧
      job.desiredHash = deregistrationHash s

def backendReq (d : Site) : Call → BackendMemo → Prop
  | .begin request, m => m = {} ∧ ∃ key, request = .storageBackend key
  | .getBackend key, m => m = { request := some (.storageBackend key) }
  | .getTamoss tamossKey, m =>
    ∃ key b, Reads key b m ∧ tamossKey = ⟨key.namespaceName, b.spec.tamossRef⟩
  | .applyConfigMap mapKey controller spec, m =>
    ∃ key b, Reads key b m ∧ b.deleting = false ∧ controller = b.uid ∧
      (mapKey = storageBackendResourceKey key "bucket-state" ∨
        mapKey = storageBackendResourceKey key "db-state" ∧
          spec = databaseState key b (b.resolved d key) ∧
          (∃ state, m.state = some state ∧
            databaseRegistered state (b.resolved d key) = false) ∧
          ∃ job, m.job = some (some job) ∧ job.succeeded = true ∧
            job.desiredHash = registrationHash (b.resolved d key).row)
  | .deleteConfigMap mapKey, m =>
    ∃ key b, Reads key b m ∧ b.deleting = true ∧
      (mapKey = storageBackendResourceKey key "bucket-state" ∨
        mapKey = storageBackendResourceKey key "db-state")
  | .applyJob jobKey controller spec, m =>
    ∃ key b t, Reads key b m ∧ Resolves d m t ∧
      (b.resolved d key).isHibernateDestination = false ∧
      (jobKey = storageBackendResourceKey key "db-register" ∧ controller = some b.uid ∧
          b.deleting = false ∧ storageBackendFinalizer ∈ b.finalizers ∧
          spec = registrationJob key t (b.resolved d key) ∧ m.job = some none ∧
          (∃ state, m.state = some state ∧
            databaseRegistered state (b.resolved d key) = false) ∨
        jobKey = storageBackendResourceKey key "db-deregister" ∧ controller = none ∧
          b.deleting = true ∧ spec = deregistrationJob key t (b.resolved d key) ∧
          m.cleanup = some none)
  | .deleteJob jobKey foreground, m =>
    ∃ key b, Reads key b m ∧
      (foreground = true ∧ b.deleting = true ∨
        foreground = false ∧ b.deleting = false ∧
          jobKey = storageBackendResourceKey key "db-register" ∨
        foreground = false ∧ b.deleting = true ∧
          jobKey = storageBackendResourceKey key "db-deregister")
  | .deletePod _, m => ∃ key b, Reads key b m ∧ b.deleting = true
  | .patchBackendFinalizers key finalizers, m =>
    ∃ b, Reads key b m ∧
      (b.deleting = false ∧ finalizers = b.finalizers ++ [storageBackendFinalizer] ∨
        b.deleting = true ∧ Released d b (b.resolved d key) m)
  | .patchBackendStatus key read status, m =>
    Reads key read m ∧ read.deleting = false ∧ ∃ report,
      status = backendStatus read (read.resolved d key) report ∧
        (report.ready = true → (read.resolved d key).isHibernateDestination = true ∨
          Recorded m (read.resolved d key))
  | .createJob .., _ | .updateProfileFinalizers .., _ | .patchProfileFinalizers .., _
  | .patchProfileStatus .., _ | .patchRunStatus .., _ => False
  | _, _ => True

def backendAccount (d : Site) : Account Call Call.Resp BackendMemo where
  note := backendNote
  Req := backendReq d

variable {d : Site} {key : Key} {b : StorageBackend} {m : BackendMemo}

theorem Reads.child (h : Reads key b m) (suffix : String) :
    m.child suffix = some (storageBackendResourceKey key suffix) := by
  simp only [BackendMemo.child, h.request]

variable {r : BackendReport}

theorem updateStorageBackendStatus_keeps (hm : Reads key b m) (hlive : b.deleting = false)
    (hready : r.ready = true →
      (b.resolved d key).isHibernateDestination = true ∨ Recorded m (b.resolved d key)) :
    Keeps (backendAccount d) (updateStorageBackendStatus key b (b.resolved d key) r) m := by
  unfold updateStorageBackendStatus
  split
  · exact Keeps.done
  · exact Keeps.ask ⟨hm, hlive, r, rfl, hready⟩ fun _ => Keeps.done

theorem reportProgress_keeps (hm : Reads key b m) (hlive : b.deleting = false)
    (hready : r.ready = false) :
    Keeps (backendAccount d) (updateStorageBackendStatus key b (b.resolved d key) r) m :=
  updateStorageBackendStatus_keeps hm hlive fun h => by rw [hready] at h; cases h

theorem resolveStorageBackendSpec_keeps (hm : Reads key b m) (hlive : b.deleting = false)
    {next : BackendSpec → Reconcile} (hnext : Keeps (backendAccount d) (next (b.resolved d key)) m) :
    Keeps (backendAccount d) (resolveStorageBackendSpec d key b next) m := by
  unfold resolveStorageBackendSpec checkStorageBackendSpec
  split
  · exact reportProgress_keeps hm hlive rfl
  · split
    · exact reportProgress_keeps hm hlive rfl
    · split
      · exact reportProgress_keeps hm hlive rfl
      · exact hnext

theorem loadStorageBackendTamoss_keeps (hm : Reads key b m) (hlive : b.deleting = false)
    {next : Instance → Reconcile}
    (hnext : ∀ t m, Reads key b m → Resolves d m t → Keeps (backendAccount d) (next t) m) :
    Keeps (backendAccount d) (loadStorageBackendTamoss d key b (b.resolved d key) next) m := by
  refine Keeps.ask ⟨key, b, hm, rfl⟩ fun answer => ?_
  have hm' : Reads key b { m with tamoss := told answer } := ⟨hm.request, hm.backend⟩
  refine Keeps.onFound (fun _ => reportProgress_keeps hm' hlive rfl) fun t hanswer => ?_
  subst hanswer
  dsimp only
  split
  · exact reportProgress_keeps hm' hlive rfl
  · rename_i t' hresolved
    exact hnext t' _ hm' ⟨t, rfl, hresolved⟩

variable {next : Reconcile} {t : Instance}

theorem reconcileStorageBackendCredentials_keeps (hm : Reads key b m) (hlive : b.deleting = false)
    (hnext : Keeps (backendAccount d) next m) : Keeps (backendAccount d)
      (reconcileStorageBackendCredentials key b t (b.resolved d key) next) m := by
  refine Keeps.ask trivial fun answer => ?_
  split
  · exact hnext
  · exact Keeps.ask trivial fun _ => Keeps.onOk fun _ _ => reportProgress_keeps hm hlive rfl

theorem recordBucketState_keeps (hm : Reads key b m) (hlive : b.deleting = false)
    (ht : Resolves d m t)
    (hnext : ∀ m, Reads key b m → Resolves d m t → Keeps (backendAccount d) next m) :
    Keeps (backendAccount d) (recordBucketState key b t (b.resolved d key) next) m := by
  refine Keeps.ask ⟨key, b, hm, hlive, rfl, .inl rfl⟩ fun r => Keeps.onOk fun a hr => ?_
  subst hr
  exact hnext _ ⟨hm.request, hm.backend⟩ ht

theorem reconcileBucketState_keeps (hm : Reads key b m) (hlive : b.deleting = false)
    (ht : Resolves d m t)
    (hnext : ∀ m, Reads key b m → Resolves d m t → Keeps (backendAccount d) next m)
    (state : Option ConfigMap) :
    Keeps (backendAccount d) (reconcileBucketState key b t (b.resolved d key) next state) m := by
  unfold reconcileBucketState
  split
  · exact hnext m hm ht
  · split
    · exact recordBucketState_keeps hm hlive ht hnext
    · refine Keeps.ask trivial fun e => ?_
      split
      · exact recordBucketState_keeps hm hlive ht hnext
      · exact reportProgress_keeps hm hlive rfl

theorem reconcileStorageBackendBucket_keeps (hm : Reads key b m) (hlive : b.deleting = false)
    (ht : Resolves d m t)
    (hnext : ∀ m, Reads key b m → Resolves d m t → Keeps (backendAccount d) next m) :
    Keeps (backendAccount d) (reconcileStorageBackendBucket key b t (b.resolved d key) next) m := by
  refine Keeps.ask trivial fun answer => ?_
  have hm' : Reads key b (backendNote (.getConfigMap (bucketKey key))
      answer m) := ⟨hm.request, hm.backend⟩
  exact Keeps.onFound (fun _ => reconcileBucketState_keeps hm' hlive ht hnext none)
    fun state _ => reconcileBucketState_keeps hm' hlive ht hnext (some state)

theorem schemaStateReady_keeps (hm : Reads key b m) (ht : Resolves d m t) {p q : Reconcile}
    (hready : ∀ m, Reads key b m → Resolves d m t → Keeps (backendAccount d) p m)
    (hunready : ∀ m answer, Reads key b m → Resolves d m t →
      m.asked = some (schemaStateKey t, answer) →
      (∀ state, answer = .ok state → ∀ release, d.installation.selectRelease t = .ok release →
        schemaStateMatchesTarget state release.schema = false) →
      Keeps (backendAccount d) q m) :
    Keeps (backendAccount d) (schemaStateReady d t fun ready => if ready then p else q) m := by
  refine Keeps.ask trivial fun answer => ?_
  have hm' : Reads key b (backendNote (.getConfigMap (schemaStateKey t)) answer m) :=
    ⟨hm.request, hm.backend⟩
  cases answer with
  | error e =>
    simp only [Bool.false_eq_true, ↓reduceIte]
    exact hunready _ (.error e) hm' ht rfl nofun
  | ok state =>
    dsimp only
    split
    · rename_i e hselect
      simp only [Bool.false_eq_true, ↓reduceIte]
      refine hunready _ (.ok state) hm' ht rfl fun _ _ release hrelease => ?_
      rw [hselect] at hrelease
      cases hrelease
    · rename_i release hselect
      cases hmatch : schemaStateMatchesTarget state release.schema with
      | true =>
        simp only [↓reduceIte]
        exact hready _ hm' ht
      | false =>
        simp only [Bool.false_eq_true, ↓reduceIte]
        refine hunready _ (.ok state) hm' ht rfl fun state' hstate release' hrelease => ?_
        cases hstate
        rw [hselect] at hrelease
        cases hrelease
        exact hmatch

theorem reportRegistration_keeps (hm : Reads key b m) (hlive : b.deleting = false)
    {reason message : String} :
    Keeps (backendAccount d) (reportRegistration key b (b.resolved d key) reason message) m :=
  reportProgress_keeps hm hlive rfl

theorem reconcileStorageBackendJob_keeps (hm : Reads key b m) (hlive : b.deleting = false)
    (hheld : storageBackendFinalizer ∈ b.finalizers)
    (hmedia : (b.resolved d key).isHibernateDestination = false) (ht : Resolves d m t)
    (hnext : ∀ m, Reads key b m → Recorded m (b.resolved d key) → Keeps (backendAccount d) next m)
    (hstate : ∃ state, m.state = some state ∧
      databaseRegistered state (b.resolved d key) = false)
    {job : Option Job} (hjob : m.job = some job) : Keeps (backendAccount d)
      (reconcileStorageBackendJob key b t (b.resolved d key) next job) m := by
  have hforget : Reads key b { m with job := none, cleanup := none } :=
    ⟨hm.request, hm.backend⟩
  cases job with
  | none =>
    refine Keeps.ask ⟨key, b, t, hm, ht, hmedia, .inl ⟨rfl, rfl, hlive, hheld, rfl, hjob, hstate⟩⟩
      fun r => Keeps.onOk fun _ _ => ?_
    exact reportRegistration_keeps hforget hlive
  | some job =>
    have hdelete : backendReq d
        (.deleteJob (registerKey key) false) m :=
      ⟨key, b, hm, .inr (.inl ⟨rfl, hlive, rfl⟩)⟩
    unfold reconcileStorageBackendJob
    dsimp only
    split
    · exact Keeps.ask hdelete fun _ => Keeps.afterDelete (reportRegistration_keeps hforget hlive)
    · rename_i hfresh
      split
      · exact Keeps.ask hdelete fun _ =>
          Keeps.afterDelete (reportRegistration_keeps hforget hlive)
      · split
        · exact reportRegistration_keeps hm hlive
        · rename_i hsucceeded
          have hsucceeded : job.succeeded = true := by simpa using hsucceeded
          have hhash : job.desiredHash = registrationHash (b.resolved d key).row :=
            not_not.mp fun hne => hfresh ⟨hne, hsucceeded⟩
          refine Keeps.ask ⟨key, b, hm, hlive, rfl,
            .inr ⟨rfl, rfl, hstate, job, hjob, hsucceeded, hhash⟩⟩ fun r => Keeps.onOk fun a hr => ?_
          subst hr
          refine hnext _ ⟨hm.request, hm.backend⟩ ⟨_, if_pos (hm.child "db-state"), ?_⟩
          simp [databaseRegistered, databaseState, valueOf, List.lookup_cons]

theorem reconcileRegistrationState_keeps (hm : Reads key b m) (hlive : b.deleting = false)
    (hheld : storageBackendFinalizer ∈ b.finalizers)
    (hmedia : (b.resolved d key).isHibernateDestination = false) (ht : Resolves d m t)
    (hnext : ∀ m, Reads key b m → Recorded m (b.resolved d key) → Keeps (backendAccount d) next m)
    {state : Option ConfigMap} (hstate : m.state = some state) : Keeps (backendAccount d)
      (reconcileRegistrationState key b t (b.resolved d key) next state) m := by
  unfold reconcileRegistrationState
  split
  · exact hnext m hm ⟨state, hstate, ‹_›⟩
  · rename_i hopen
    refine Keeps.ask trivial fun answer => ?_
    have hm' : Reads key b (backendNote
        (.getJob (registerKey key)) answer m) :=
      ⟨hm.request, hm.backend⟩
    have hjob : ∀ job, told answer = some job → (backendNote
        (.getJob (registerKey key)) answer m).job = some job := by
      intro job htold
      exact (if_pos (hm.child "db-register")).trans htold
    have hopen' : ∃ state, m.state = some state ∧
        databaseRegistered state (b.resolved d key) = false := ⟨state, hstate, by simpa using hopen⟩
    refine Keeps.onFound (fun hnone => ?_) fun job hsome => ?_
    · exact reconcileStorageBackendJob_keeps hm' hlive hheld hmedia ht hnext hopen'
        (hjob none (by rw [hnone]; rfl))
    · exact reconcileStorageBackendJob_keeps hm' hlive hheld hmedia ht hnext hopen'
        (hjob (some job) (by rw [hsome]; rfl))

theorem reconcileStorageBackendDatabase_keeps (hm : Reads key b m) (hlive : b.deleting = false)
    (hheld : storageBackendFinalizer ∈ b.finalizers)
    (hmedia : (b.resolved d key).isHibernateDestination = false) (ht : Resolves d m t)
    (hnext : ∀ m, Reads key b m → Recorded m (b.resolved d key) →
      Keeps (backendAccount d) next m) : Keeps (backendAccount d)
      (reconcileStorageBackendDatabase key b t (b.resolved d key) next) m := by
  refine Keeps.ask trivial fun answer => ?_
  have hm' : Reads key b (backendNote
      (.getConfigMap (stateKey key)) answer m) :=
    ⟨hm.request, hm.backend⟩
  have hstate : ∀ state, told answer = some state → (backendNote
      (.getConfigMap (stateKey key)) answer m).state = some state := by
    intro state htold
    exact (if_pos (hm.child "db-state")).trans htold
  refine Keeps.onFound (fun hnone => ?_) fun state hsome => ?_
  · exact reconcileRegistrationState_keeps hm' hlive hheld hmedia ht hnext
      (hstate none (by rw [hnone]; rfl))
  · exact reconcileRegistrationState_keeps hm' hlive hheld hmedia ht hnext
      (hstate (some state) (by rw [hsome]; rfl))

theorem reconcileStorageBackendStages_keeps (hm : Reads key b m) (hlive : b.deleting = false)
    (hheld : storageBackendFinalizer ∈ b.finalizers) :
    Keeps (backendAccount d) (reconcileStorageBackendStages d key b) m := by
  refine resolveStorageBackendSpec_keeps hm hlive ?_
  refine loadStorageBackendTamoss_keeps hm hlive fun t m hm ht => ?_
  refine reconcileStorageBackendCredentials_keeps hm hlive ?_
  refine reconcileStorageBackendBucket_keeps hm hlive ht fun m hm ht => ?_
  split
  · rename_i hhibernate
    exact updateStorageBackendStatus_keeps hm hlive fun _ => .inl hhibernate
  · rename_i hmedia
    refine schemaStateReady_keeps hm ht (fun m hm ht => ?_) fun m answer hm ht _ _ =>
      reportProgress_keeps hm hlive rfl
    refine reconcileStorageBackendDatabase_keeps hm hlive hheld (by simpa using hmedia) ht
      fun m hm hrecorded => ?_
    refine Keeps.ask trivial fun _ => Keeps.onOk fun _ _ => ?_
    exact updateStorageBackendStatus_keeps hm hlive fun _ => .inr hrecorded

structure Finalizing (d : Site) (key : Key) (b : StorageBackend) (m : BackendMemo) : Prop where
  reads : Reads key b m
  deleting : b.deleting = true

structure Releasing (d : Site) (key : Key) (b : StorageBackend) (m : BackendMemo) : Prop
    extends Finalizing d key b m where
  released : Released d b (b.resolved d key) m

theorem removeStorageBackendFinalizer_keeps (hm : Releasing d key b m) :
    Keeps (backendAccount d) (removeStorageBackendFinalizer key b) m :=
  Keeps.ask ⟨b, hm.reads, .inr ⟨hm.deleting, hm.released⟩⟩ fun _ => Keeps.done

theorem deleteStorageBackendCleanupObjects_keeps
    (hnext : ∀ m, Releasing d key b m → Keeps (backendAccount d) next m)
    (hm : Releasing d key b m) :
    Keeps (backendAccount d) (deleteStorageBackendCleanupObjects key next) m := by
  refine Keeps.ask trivial fun answer => Keeps.onOk fun jobs _ => ?_
  refine Keeps.deleteJobs (I := Releasing d key b) (fun _ _ m hm => ⟨key, b, hm.reads, .inl ⟨rfl, hm.deleting⟩⟩)
    (fun _ _ _ hm => hm) (fun m hm => ?_) hm
  refine Keeps.ask ⟨key, b, hm.reads, hm.deleting, .inl rfl⟩ fun _ => Keeps.afterDelete ?_
  have hm₁ : Releasing d key b { m with state := none } :=
    ⟨⟨⟨hm.reads.request, hm.reads.backend⟩, hm.deleting⟩, hm.released⟩
  refine Keeps.ask ⟨key, b, hm₁.reads, hm.deleting, .inr rfl⟩ fun _ => Keeps.afterDelete ?_
  refine Keeps.ask trivial fun _ => Keeps.onOk fun pods _ => ?_
  exact Keeps.deletePods (I := Releasing d key b) (fun _ _ m hm => ⟨key, b, hm.reads, hm.deleting⟩)
    (fun _ _ _ hm => hm) hnext hm₁

variable {tamoss : Option Instance}

theorem releaseStorageBackend_keeps (hm : Releasing d key b m) :
    Keeps (backendAccount d) (releaseStorageBackend key b (b.resolved d key) tamoss) m := by
  refine deleteStorageBackendCleanupObjects_keeps (fun m hm => ?_) hm
  cases tamoss with
  | none => exact removeStorageBackendFinalizer_keeps hm
  | some t =>
    dsimp only
    split
    · exact Keeps.ask trivial fun _ => Keeps.onOk fun _ _ => removeStorageBackendFinalizer_keeps hm
    · exact removeStorageBackendFinalizer_keeps hm

theorem reconcileStorageBackendDatabaseDeletion_keeps (hm : Finalizing d key b m)
    (hmedia : (b.resolved d key).isHibernateDestination = false) (ht : Resolves d m t)
    (hnext : ∀ m, Releasing d key b m → Keeps (backendAccount d) next m) : Keeps (backendAccount d)
      (reconcileStorageBackendDatabaseDeletion key t (b.resolved d key) next) m := by
  refine Keeps.ask trivial fun answer => ?_
  have hm' : Finalizing d key b (backendNote
      (.getJob (deregisterKey key)) answer m) :=
    ⟨⟨hm.reads.request, hm.reads.backend⟩, hm.deleting⟩
  have hcleanup : ∀ job, told answer = some job → (backendNote
      (.getJob (deregisterKey key)) answer m).cleanup = some job := by
    intro job htold
    exact (if_pos (hm.reads.child "db-deregister")).trans htold
  refine Keeps.onFound (fun hnone => ?_) fun job hsome => ?_
  · refine Keeps.ask ⟨key, b, t, hm'.reads, ht, hmedia, .inr ⟨rfl, rfl, hm.deleting, rfl, ?_⟩⟩
      fun _ => Keeps.done
    exact hcleanup none (by rw [hnone]; rfl)
  · unfold reconcileStorageBackendCleanupJob
    dsimp only
    split
    · exact Keeps.ask ⟨key, b, hm'.reads, .inr (.inr ⟨rfl, hm.deleting, rfl⟩)⟩ fun _ => Keeps.done
    · rename_i hfresh
      split
      · exact Keeps.done
      · rename_i hsucceeded
        have hsucceeded : job.succeeded = true := by simpa using hsucceeded
        refine hnext _ ⟨hm', .inr (.inr (.inr (.inr ⟨job, hcleanup (some job) (by rw [hsome]; rfl),
          hsucceeded, not_not.mp fun hne => hfresh (.inl ⟨hne, hsucceeded⟩)⟩)))⟩

def TamossTold (d : Site) (b : StorageBackend) (m : BackendMemo) : Option Instance → Prop
  | none => trimmed b.spec.tamossRef = "" ∨ m.tamoss = some none
  | some t => Resolves d m t

theorem deregisterStorageBackend_keeps (hm : Finalizing d key b m) (ht : TamossTold d b m tamoss) :
    Keeps (backendAccount d) (deregisterStorageBackend d key b (b.resolved d key) tamoss) m := by
  unfold deregisterStorageBackend
  cases tamoss with
  | none => exact releaseStorageBackend_keeps ⟨hm, .inr (ht.imp_right .inl)⟩
  | some t =>
    dsimp only
    split
    · rename_i hhibernate
      exact releaseStorageBackend_keeps ⟨hm, .inl hhibernate⟩
    · rename_i hmedia
      refine schemaStateReady_keeps hm.reads ht (fun m hm' ht => ?_) fun m answer hm' ht hasked hno => ?_
      · exact reconcileStorageBackendDatabaseDeletion_keeps ⟨hm', hm.deleting⟩ (by simpa using hmedia)
          ht fun m hm => releaseStorageBackend_keeps hm
      · exact releaseStorageBackend_keeps ⟨⟨hm', hm.deleting⟩,
          .inr (.inr (.inr (.inl ⟨t, answer, ht, hasked, hno⟩)))⟩

variable {required : Bool} {s : BackendSpec}

theorem dropStorageBackendBucket_keeps (hnext : Keeps (backendAccount d) next m) :
    Keeps (backendAccount d) (dropStorageBackendBucket s required next) m := by
  unfold dropStorageBackendBucket
  split
  · refine Keeps.ask trivial fun e => ?_
    split
    · exact hnext
    · exact Keeps.done
  · exact hnext

theorem storageBackendBucketDeletionRequired_keeps (hm : Finalizing d key b m)
    {next : Bool → Reconcile}
    (hnext : ∀ required m, Finalizing d key b m → Keeps (backendAccount d) (next required) m) :
    Keeps (backendAccount d) (storageBackendBucketDeletionRequired key s next) m := by
  unfold storageBackendBucketDeletionRequired
  split
  · exact hnext false m hm
  · refine Keeps.ask trivial fun answer => ?_
    have hm' : Finalizing d key b (backendNote
        (.getConfigMap (bucketKey key)) answer m) :=
      ⟨⟨hm.reads.request, hm.reads.backend⟩, hm.deleting⟩
    exact Keeps.onFound (fun _ => hnext false _ hm') fun state _ => hnext _ _ hm'

theorem storageBackendTamoss_keeps (hm : Finalizing d key b m) {next : Option Instance → Reconcile}
    (hnext : ∀ tamoss m, Finalizing d key b m → TamossTold d b m tamoss →
      Keeps (backendAccount d) (next tamoss) m) :
    Keeps (backendAccount d) (storageBackendTamoss d key (b.resolved d key) next) m := by
  unfold storageBackendTamoss
  split
  · exact hnext none m hm (.inl ‹_›)
  · refine Keeps.ask ⟨key, b, hm.reads, rfl⟩ fun answer => ?_
    have hm' : Finalizing d key b { m with tamoss := told answer } :=
      ⟨⟨hm.reads.request, hm.reads.backend⟩, hm.deleting⟩
    refine Keeps.onFound (fun hnone => ?_) fun t hanswer => ?_
    · subst hnone
      exact hnext none _ hm' (.inr rfl)
    · subst hanswer
      dsimp only
      split
      · exact Keeps.done
      · exact hnext _ _ hm' ⟨t, rfl, ‹_›⟩

theorem finalizeWithTamoss_keeps (hm : Finalizing d key b m) (ht : TamossTold d b m tamoss) :
    Keeps (backendAccount d) (finalizeWithTamoss d key b (b.resolved d key) required tamoss) m := by
  have hrest : ∀ m, Finalizing d key b m → TamossTold d b m tamoss →
      Keeps (backendAccount d) (dropStorageBackendBucket (b.resolved d key) required
        (deregisterStorageBackend d key b (b.resolved d key) tamoss)) m := fun m hm ht =>
    dropStorageBackendBucket_keeps (deregisterStorageBackend_keeps hm ht)
  cases tamoss with
  | none => exact hrest m hm ht
  | some t =>
    unfold finalizeWithTamoss
    dsimp only
    split
    · exact schemaStateReady_keeps hm.reads ht (fun m hm' ht => hrest m ⟨hm', hm.deleting⟩ ht)
        fun _ _ _ _ _ _ => Keeps.done
    · exact hrest m hm ht

theorem finalizeStorageBackend_keeps (hm : Finalizing d key b m) :
    Keeps (backendAccount d) (finalizeStorageBackend d key b) m := by
  unfold finalizeStorageBackend
  split
  · exact Keeps.done
  · refine storageBackendBucketDeletionRequired_keeps hm fun required m hm => ?_
    exact storageBackendTamoss_keeps hm fun tamoss m hm ht => finalizeWithTamoss_keeps hm ht

/-- **The reconciler keeps to its account.** -/
theorem reconcileStorageBackend_keeps :
    Keeps (backendAccount d) (reconcileStorageBackend d key) {} := by
  refine Keeps.ask ⟨rfl, key, rfl⟩ fun _ => Keeps.ask rfl fun answer => ?_
  refine Keeps.onFound (fun _ => Keeps.done) fun b hanswer => ?_
  subst hanswer
  have hm : Reads key b { request := some (.storageBackend key), backend := some b } := ⟨rfl, rfl⟩
  dsimp only
  split
  · exact Keeps.done
  · split
    · exact finalizeStorageBackend_keeps ⟨hm, ‹_›⟩
    · rename_i hlive
      have hlive : b.deleting = false := by simpa using hlive
      split
      · exact Keeps.ask ⟨b, hm, .inl ⟨hlive, rfl⟩⟩ fun _ => Keeps.done
      · exact reconcileStorageBackendStages_keeps hm hlive (not_not.mp ‹_›)

end Tamoss.Jobs
