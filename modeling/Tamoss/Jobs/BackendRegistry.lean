/-
  **What is recorded of a `StorageBackend`, and its row.**

  `db-state` (`storagebackend_database.go`) records that a spec was registered; the row is written
  by a Job (`storagebackend_database_scripts.go`) that may also take the default flag from other
  rows.  `Registry` is what holds of backends, Jobs and rows in every orderly run, and `Held` says
  who has the default.
-/
import Tamoss.Jobs.BackendWorld

namespace Tamoss.Jobs

open Lib Operator

/-- A backend that is not being deleted declares the default and has it. -/
def Held (d : Site) (w : World) (c : Connection) : Prop :=
  ∃ key b stored, w.backends.current key = some b ∧ b.deleting = false ∧
    b.spec.defaultStorage = true ∧ w.connection d key b = some c ∧
    (w.databases c).backends.get (b.resolved d key).id = some stored ∧
    stored.row.defaultStorage = true

/-- The database has the row as it is declared, but for the default flag, which another
    registration may have taken.  If `strict`, some backend has the default if this row
    declares it. -/
def Shows (d : Site) (strict : Prop) (w : World) (c : Connection) (row : Row) : Prop :=
  (∃ stored, (w.databases c).backends.get row.id = some stored ∧
    (stored.row = row ∨ stored.row = { row with defaultStorage := false })) ∧
  (strict → row.defaultStorage = true → Held d w c)

def World.registered (d : Site) (w : World) (key : Key) (b : StorageBackend) : Bool :=
  databaseRegistered (w.configMaps.current (storageBackendResourceKey key "db-state"))
    (b.resolved d key)

def Registers (d : Site) (w : World) (key : Key) (b : StorageBackend) (job : Job) : Prop :=
  ∃ image c row, job.task = .register image c row ∧ w.connection d key b = some c ∧
    row.id = (b.resolved d key).id ∧ job.desiredHash = registrationHash row

def Deregisters (d : Site) (w : World) (key : Key) (b : StorageBackend) (job : Job) : Prop :=
  b.deleting = true ∧ ∃ image c, job.task = .deregister image c (b.resolved d key).id ∧
    w.connection d key b = some c

structure Settled (d : Site) (strict : Prop) (w : World) (key : Key) (b : StorageBackend) :
    Prop where
  recorded : w.registered d key b = true →
    (∃ c, w.connection d key b = some c ∧ Shows d strict w c (b.resolved d key).row) ∧
      ∀ job, w.jobs.current (storageBackendResourceKey key "db-register") = some job →
        job.desiredHash = registrationHash (b.resolved d key).row
  carried : ∀ job image c row,
    w.jobs.current (storageBackendResourceKey key "db-register") = some job → job.done = true →
      job.task = .register image c row → (strict → row = (b.resolved d key).row) →
        Shows d strict w c row
  ready : b.status.ready = true → b.status.observedGeneration = b.generation →
    w.registered d key b = true
  observed : b.status.observedGeneration ≤ b.generation

structure Registry (d : Site) (strict : Prop) (w : World) : Prop extends Backends w where
  distinct : ∀ key key' a b, w.backends.Had key a → w.backends.Had key' b →
    (a.resolved d key).id = (b.resolved d key').id → key = key'
  media : ∀ key b, w.backends.Had key b → (b.resolved d key).isHibernateDestination = false
  jobs : ∀ k job, w.jobs.current k = some job → ∃ key b, w.backends.Had key b ∧
    (k = storageBackendResourceKey key "db-register" ∧ Registers d w key b job ∨
      k = storageBackendResourceKey key "db-deregister" ∧ Deregisters d w key b job)
  finished : ∀ k job, w.jobs.current k = some job → job.succeeded = true → job.done = true
  states : ∀ key m, w.configMaps.current (storageBackendResourceKey key "db-state") = some m →
    ∃ b, w.backends.Had key b
  live : ∀ key b, w.backends.current key = some b → b.deleting = false →
    Settled d strict w key b

structure BackendWatch (d : Site) (strict : Prop) (key : Key) (m : BackendMemo) (w : World) :
    Prop where
  had : ∀ b, m.backend = some b → w.backends.Had key b
  since : ∀ b b', m.backend = some b → w.backends.current key = some b' →
    w.registered d key b' = true → w.registered d key b = true
  same : strict → ∀ b b', m.backend = some b → b.deleting = false →
    w.backends.current key = some b' → w.registered d key b = false →
    (b'.resolved d key).row = (b.resolved d key).row
  tamoss : ∀ b t, m.backend = some b → m.tamoss = some (some t) →
    w.tamosses.current ⟨key.namespaceName, b.spec.tamossRef⟩ = some t
  state : ∀ state, m.state = some state →
    w.configMaps.current (storageBackendResourceKey key "db-state") = state
  absent : m.job = some none →
    w.jobs.current (storageBackendResourceKey key "db-register") = none
  succeeded : ∀ b job, m.backend = some b → b.deleting = false → m.job = some (some job) →
    job.succeeded = true → job.desiredHash = registrationHash (b.resolved d key).row →
    w.registered d key b = false →
    (∀ job', w.jobs.current (storageBackendResourceKey key "db-register") = some job' →
        job'.desiredHash = registrationHash (b.resolved d key).row) ∧
      ∀ b', w.backends.current key = some b' → b'.deleting = false →
        ∃ c, w.connection d key b = some c ∧ Shows d strict w c (b.resolved d key).row

/-- The backend declares the default and has it, and another one that is not being deleted
    declares it as well. -/
def World.sharesDefault (d : Site) (w : World) (key : Key) (b : StorageBackend) : Bool :=
  b.spec.defaultStorage &&
    ((w.connection d key b).any fun c =>
      ((w.databases c).backends.get (b.resolved d key).id).any fun stored =>
        stored.row.defaultStorage) &&
    (w.backends.list fun _ => 0).any fun x =>
      x.1 ≠ key && !x.2.deleting && x.2.spec.defaultStorage

/-- A registration is carried out while its backend is not being deleted and still declares the
    row, or while no other backend declares the default. -/
def Timely (d : Site) (w : World) (job : Job) : Prop :=
  match job.task with
  | .register _ _ row =>
    (∃ x ∈ w.backends.list fun _ => 0, x.2.deleting = false ∧ (x.2.resolved d x.1).row = row) ∨
      ∀ x ∈ w.backends.list fun _ => 0, x.2.deleting = false → x.2.spec.defaultStorage = true →
        (x.2.resolved d x.1).id = row.id
  | _ => True

/-- The backends are for media, and their instances stay as they are.  A backend is created
    under a name and with an id that no other backend has had; an edit does not lead to a spec
    whose registration is recorded, unless the present one is recorded as well; reads through
    the cache are up to date.  If `strict`, a spec is edited only once its registration is
    recorded, the backend that has the default neither gives it up nor is deleted while another
    one declares it, and registrations are timely. -/
def Orderly (d : Site) (strict : Prop) (w : World) : (c : Call) → c.Resp → Prop
  | .change (.setTamoss ..), _ => False
  | .change (.createBackend key spec), _ =>
    (spec.applyDefaults d key).isHibernateDestination = false ∧
      ∀ x ∈ w.backends.versions,
        x.1 ≠ key ∧ (x.2.resolved d x.1).id ≠ (spec.applyDefaults d key).id
  | .change (.editBackend key spec), _ => ∀ b, w.backends.current key = some b →
      (strict ∨ databaseRegistered
        (w.configMaps.current (storageBackendResourceKey key "db-state"))
        (spec.applyDefaults d key) = true →
      w.registered d key b = true) ∧
      (strict → spec.defaultStorage = false → w.sharesDefault d key b = false)
  | .change (.deleteBackend key), _ =>
    strict → ∀ b, w.backends.current key = some b → w.sharesDefault d key b = false
  | .change (.runJob key _ _), _ =>
    strict → ∀ job, w.jobs.current key = some job → Timely d w job
  | c, r => w.Current c r

variable {d : Site} {strict : Prop} {key : Key} {m : BackendMemo} {w w' : World}

variable {job : Job}

theorem Registry.registration (h : Registry d strict w)
    (hjob : w.jobs.current (registerKey key) = some job) :
    ∃ b, w.backends.Had key b ∧ Registers d w key b job := by
  obtain ⟨key', b, hb, ⟨hk, hregisters⟩ | ⟨hk, -⟩⟩ := h.jobs _ job hjob
  · obtain rfl := storageBackendResourceKey_inj hk
    exact ⟨b, hb, hregisters⟩
  · exact absurd hk (storageBackendResourceKey_ne (by decide))

variable {b : StorageBackend}

theorem Registry.registers (h : Registry d strict w) (hb : w.backends.Had key b)
    (hjob : w.jobs.current (registerKey key) = some job) : Registers d w key b job := by
  obtain ⟨b₀, hb₀, image, c, row, htask, hc, hid, hhash⟩ := h.registration hjob
  have hfixed := h.fixed hb₀ hb
  exact ⟨image, c, row, htask, (connection_of_fixed hfixed).symm.trans hc,
    hid.trans (resolved_id_of_fixed hfixed), hhash⟩

variable {databases : Connection → Database}

theorem shows_register_of_ne {row row₀ : Row} {writer : Option Uid} {db : Database}
    (h : ∃ stored, db.backends.get row.id = some stored ∧
      (stored.row = row ∨ stored.row = { row with defaultStorage := false }))
    (hne : row.id ≠ row₀.id) :
    ∃ stored, (db.register row₀ writer).backends.get row.id = some stored ∧
      (stored.row = row ∨ stored.row = { row with defaultStorage := false }) := by
  obtain ⟨stored, hget, hrow⟩ := h
  rw [get_register_of_ne _ _ hne, hget]
  cases row₀.defaultStorage with
  | false => exact ⟨stored, by simp, hrow⟩
  | true =>
    refine ⟨stored.demote, by simp, .inr ?_⟩
    rcases hrow with rfl | hrow
    · rfl
    · rw [StoredRow.demote, hrow]

theorem World.sharesDefault_eq_true {c : Connection} {stored : StoredRow}
    (hdeclared : b.spec.defaultStorage = true) (hconn : w.connection d key b = some c)
    (hget : (w.databases c).backends.get (b.resolved d key).id = some stored)
    (hdefault : stored.row.defaultStorage = true) {key' : Key} {b' : StorageBackend}
    (hb' : w.backends.current key' = some b') (hlive' : b'.deleting = false)
    (hdeclared' : b'.spec.defaultStorage = true) (hne : key' ≠ key) :
    w.sharesDefault d key b = true := by
  have hother : ((w.backends.list fun _ => 0).any fun x =>
      x.1 ≠ key && !x.2.deleting && x.2.spec.defaultStorage) = true :=
    List.any_eq_true.mpr ⟨(key', b'), Directory.mem_list_current.mpr hb',
      by simp [hne, hlive', hdeclared']⟩
  simp only [World.sharesDefault, hdeclared, hconn, hget, Option.any_some, hdefault, hother,
    Bool.and_self]

theorem Held.congr {conn : Connection} (h : Held d w conn) (hbackends : w'.backends = w.backends)
    (htamosses : w'.tamosses = w.tamosses) (hdatabases : w'.databases = w.databases) :
    Held d w' conn := by
  obtain ⟨key, b, stored, hb, hlive, hdeclared, hconn, hrow⟩ := h
  refine ⟨key, b, stored, hbackends ▸ hb, hlive, hdeclared,
    (connection_congr htamosses key b).trans hconn, ?_⟩
  rw [hdatabases]
  exact hrow

/-- **The default stays with some backend while backends are edited and deleted**, as long as
    one that is not being deleted declares it. -/
theorem Held.backend_step {c : Call} {r : c.Resp} {conn : Connection} {k₀ : Key}
    {s : Option StorageBackend} (h : Held d w conn) (hconduct : Orderly d True w c r)
    (hstep : BackendStep w c k₀ s) (hput : w'.backends = w.backends.put k₀ s)
    (helse : SameElsewhere w w') (hb : w'.backends.current key = some b)
    (hlive : b.deleting = false) (hdeclared : b.spec.defaultStorage = true) : Held d w' conn := by
  obtain ⟨keyₕ, bₕ, stored, hbₕ, hliveₕ, hdeclaredₕ, hconn, hget, hdefault⟩ := h
  -- the holder is kept if it is still there and still declares the default
  have hkeep : ∀ b', w'.backends.current keyₕ = some b' → b'.deleting = false →
      b'.spec.defaultStorage = true → b'.spec.fixed = bₕ.spec.fixed → Held d w' conn := by
    intro b' hb' hlive' hdeclared' hfixed
    refine ⟨keyₕ, b', stored, hb', hlive', hdeclared', ?_, ?_, hdefault⟩
    · rw [connection_congr helse.tamosses, connection_of_fixed hfixed]
      exact hconn
    · rw [helse.databases, resolved_id_of_fixed hfixed]
      exact hget
  by_cases hk : keyₕ = k₀
  · subst hk
    rw [hput] at hb hkeep
    simp only [Directory.current_put_self] at hkeep
    -- the backend that declares the default is another one, or the holder itself
    have hother : key ≠ keyₕ → w.sharesDefault d keyₕ bₕ = true := fun hne =>
      World.sharesDefault_eq_true hdeclaredₕ hconn hget hdefault
        ((Directory.current_put_of_ne hne).symm.trans hb) hlive hdeclared hne
    cases hstep with
    | create _ spec habsent =>
      rw [habsent] at hbₕ
      cases hbₕ
    | edit _ spec b₀ hb₀ hfixed =>
      obtain rfl := Option.some.inj (hbₕ.symm.trans hb₀)
      refine hkeep _ rfl hliveₕ ?_ hfixed.symm
      by_cases hne : key = keyₕ
      · subst hne
        rw [Directory.current_put_self] at hb
        cases hb
        exact hdeclared
      · cases hspec : spec.defaultStorage with
        | true => rfl
        | false =>
          have hshares := (hconduct bₕ hbₕ).2 trivial hspec
          rw [hother hne] at hshares
          cases hshares
    | delete _ b₀ hb₀ =>
      obtain rfl := Option.some.inj (hbₕ.symm.trans hb₀)
      by_cases hne : key = keyₕ
      · subst hne
        rw [Directory.current_put_self] at hb
        split at hb
        · cases hb
        · cases hb
          cases hlive
      · have hshares := hconduct trivial bₕ hbₕ
        rw [hother hne] at hshares
        cases hshares
    | finalizers _ finalizers b₀ hb₀ =>
      obtain rfl := Option.some.inj (hbₕ.symm.trans hb₀)
      exact hkeep _ (if_neg fun hgone => by simp [hliveₕ] at hgone) hliveₕ hdeclaredₕ rfl
    | status _ read status b₀ hb₀ =>
      obtain rfl := Option.some.inj (hbₕ.symm.trans hb₀)
      exact hkeep _ (if_neg fun hgone => by simp [hliveₕ] at hgone) hliveₕ hdeclaredₕ rfl
  · refine hkeep bₕ ?_ hliveₕ hdeclaredₕ rfl
    rw [hput, Directory.current_put_of_ne hk]
    exact hbₕ

variable {inUse : Bool} {age : Nat} {row : Row} {k₀ : Key} {job₀ : Job}

theorem Held.register {conn : Connection} {writer : Option Uid}
    (hb : w.backends.current key = some b) (hlive : b.deleting = false)
    (hdeclared : b.spec.defaultStorage = true) (hconn : w.connection d key b = some conn)
    (hid : row.id = (b.resolved d key).id) (hdefault : row.defaultStorage = true)
    (hrows : databases conn = (w.databases conn).register row writer) :
    Held d { w with databases } conn := by
  refine ⟨key, b, ⟨row, writer⟩, hb, hlive, hdeclared, hconn, ?_, hdefault⟩
  dsimp only
  rw [hrows, ← hid]
  exact get_register_self _ _ _

/-- A timely registration gives the default to a backend that declares it, or leaves the rows of
    all that declare it alone. -/
theorem Registry.timely_default (h : Registry d strict w) {image : String} {conn : Connection}
    (hjob₀ : w.jobs.current k₀ = some job₀) (htask : job₀.task = .register image conn row)
    (htimely : Timely d w job₀) (hb : w.backends.current key = some b) (hlive : b.deleting = false)
    (hdeclared : b.spec.defaultStorage = true)
    (hjobs : ∀ job, w.jobs.current (registerKey key) = some job →
      job.desiredHash = registrationHash (b.resolved d key).row) :
    (∃ key' b', w.backends.current key' = some b' ∧ b'.deleting = false ∧
      b'.spec.defaultStorage = true ∧ (b'.resolved d key').id = row.id ∧
      row.defaultStorage = true) ∨
    (row.defaultStorage = false ∧ ∀ key' b', w.backends.current key' = some b' →
      b'.deleting = false → b'.spec.defaultStorage = true →
      (b'.resolved d key').id ≠ row.id) := by
  simp only [Timely, htask] at htimely
  rcases htimely with ⟨x, hx, hlivex, hrowx⟩ | halone
  · have hbx := Directory.mem_list_current.mp hx
    have hflag : x.2.spec.defaultStorage = row.defaultStorage :=
      congrArg Row.defaultStorage hrowx
    cases hdefault : row.defaultStorage with
    | true =>
      exact .inl ⟨x.1, x.2, hbx, hlivex, hflag.trans hdefault, congrArg Row.id hrowx, rfl⟩
    | false =>
      refine .inr ⟨rfl, fun key' b' hb' _ hdeclared' hid' => ?_⟩
      obtain rfl := h.distinct x.1 key' x.2 b' (Directory.had_of_current hbx)
        (Directory.had_of_current hb') ((congrArg Row.id hrowx).trans hid'.symm)
      obtain rfl := Option.some.inj (hbx.symm.trans hb')
      exact absurd ((hflag.trans hdefault).symm.trans hdeclared') Bool.false_ne_true
  · have hown := halone (key, b) (Directory.mem_list_current.mpr hb) hlive hdeclared
    refine .inl ⟨key, b, hb, hlive, hdeclared, hown, ?_⟩
    -- the Job is that of the backend, and registers its spec
    obtain ⟨key₀, b₀, hb₀, ⟨rfl, _, _, row₀, htask₀, -, hid₀, hhash⟩ |
      ⟨-, -, _, _, htask₀, -⟩⟩ := h.jobs k₀ job₀ hjob₀
    · cases htask.symm.trans htask₀
      obtain rfl := h.distinct key key₀ b b₀ (Directory.had_of_current hb) hb₀ (hown.trans hid₀)
      obtain rfl : row = (b.resolved d key).row :=
        registrationHash_injective (hhash.symm.trans (hjobs job₀ hjob₀))
      exact hdeclared
    · cases htask.symm.trans htask₀

/-- **A Job leaves the default with some backend**, as long as one that is not being deleted
    declares it and its own registration, if there is one, is of that spec. -/
theorem Held.run (h : Registry d strict w) {conn : Connection} (hheld : Held d w conn)
    (hjob₀ : w.jobs.current k₀ = some job₀)
    (hrun : w.carryOut d job₀ age inUse = some { w with databases }) (htimely : Timely d w job₀)
    (hb : w.backends.current key = some b) (hlive : b.deleting = false)
    (hdeclared : b.spec.defaultStorage = true)
    (hjobs : ∀ job, w.jobs.current (registerKey key) = some job →
      job.desiredHash = registrationHash (b.resolved d key).row) :
    Held d { w with databases } conn := by
  obtain ⟨keyₕ, bₕ, stored, hbₕ, hliveₕ, hdeclaredₕ, hconnₕ, hget, hdefault⟩ := hheld
  have hhadₕ := Directory.had_of_current hbₕ
  -- the holder is kept if its row is left as it is
  have hkeep : (databases conn).backends.get (bₕ.resolved d keyₕ).id = some stored →
      Held d { w with databases } conn := fun hget' =>
    ⟨keyₕ, bₕ, stored, hbₕ, hliveₕ, hdeclaredₕ, hconnₕ, hget', hdefault⟩
  obtain ⟨key₀, b₀, hb₀, ⟨-, image, conn₀, row₀, htask, hconn₀, hid₀, -⟩ |
    ⟨-, hdeleting, image, conn₀, htask, hconn₀⟩⟩ := h.jobs k₀ job₀ hjob₀
  · have hrows := carryOut_register hrun htask
    by_cases hcc : conn = conn₀
    · subst hcc
      have hrow : databases conn = (w.databases conn).register row₀ job₀.controller := by
        rw [hrows]
        exact if_pos rfl
      rcases h.timely_default hjob₀ htask htimely hb hlive hdeclared hjobs with
        ⟨key', b', hb', hlive', hdeclared', hid', hdefault'⟩ | ⟨hplain, hothers⟩
      · have hhad' := Directory.had_of_current hb'
        obtain rfl := h.distinct key' key₀ b' b₀ hhad' hb₀ (hid'.trans hid₀)
        exact Held.register hb' hlive' hdeclared'
          ((connection_of_fixed (h.fixed hhad' hb₀)).trans hconn₀) hid'.symm hdefault' hrow
      · apply hkeep
        rw [hrow, get_register_of_ne _ _ (hothers keyₕ bₕ hbₕ hliveₕ hdeclaredₕ), hget]
        simp [hplain]
    · apply hkeep
      rw [hrows]
      dsimp only
      rw [if_neg hcc]
      exact hget
  · have hne : (bₕ.resolved d keyₕ).id ≠ (b₀.resolved d key₀).id := by
      intro heq
      obtain rfl := h.distinct keyₕ key₀ bₕ b₀ hhadₕ hb₀ heq
      have hgone := h.final keyₕ b₀ bₕ hb₀ hdeleting hbₕ
      rw [hliveₕ] at hgone
      cases hgone
    apply hkeep
    rw [carryOut_deregister hrun htask]
    dsimp only
    split
    · rename_i hcc
      subst hcc
      rw [get_deregister_of_ne _ hne]
      exact hget
    · exact hget

/-- **A Job leaves the rows of the other backends alone**, and its own row is the one it
    registers. -/
theorem Registry.run_shows (h : Registry d strict w)
    (hjob₀ : w.jobs.current k₀ = some job₀)
    (hrun : w.carryOut d job₀ age inUse = some { w with databases })
    (htimely : strict → Timely d w job₀)
    (hb : w.backends.current key = some b) (hlive : b.deleting = false) {c : Connection}
    (hc : w.connection d key b = some c) (hid : row.id = (b.resolved d key).id)
    (hrow : strict → row = (b.resolved d key).row)
    (hjobs : ∀ job, w.jobs.current (registerKey key) = some job →
      job.desiredHash = registrationHash row)
    (hshows : Shows d strict w c row) : Shows d strict { w with databases } c row := by
  have hhad := Directory.had_of_current hb
  refine ⟨?_, fun hs hdefault => ?_⟩
  · obtain ⟨key₀, b₀, hb₀, ⟨hk, image, c₀, row₀, htask, hc₀, hid₀, hhash⟩ |
      ⟨hk, hdeleting, image, c₀, htask, hc₀⟩⟩ := h.jobs k₀ job₀ hjob₀
    · rw [carryOut_register hrun htask]
      by_cases hkey : key = key₀
      · subst hkey
        subst hk
        obtain rfl : row₀ = row := registrationHash_injective (hhash.symm.trans (hjobs job₀ hjob₀))
        have hcc : c₀ = c := Option.some.inj
          (hc₀.symm.trans ((connection_of_fixed (h.fixed hb₀ hhad)).trans hc))
        subst hcc
        refine ⟨⟨row₀, job₀.controller⟩, ?_, .inl rfl⟩
        simp only [if_true]
        exact get_register_self _ _ _
      · have hne : row.id ≠ row₀.id := fun heq => hkey
          (h.distinct key key₀ b b₀ hhad hb₀ (hid.symm.trans (heq.trans hid₀)))
        dsimp only
        split
        · rename_i hcc
          subst hcc
          exact shows_register_of_ne hshows.1 hne
        · exact hshows.1
    · have hkey : key ≠ key₀ := by
        rintro rfl
        have hgone := h.final key b₀ b hb₀ hdeleting hb
        rw [hlive] at hgone
        cases hgone
      have hne : row.id ≠ (b₀.resolved d key₀).id := fun heq => hkey
        (h.distinct key key₀ b b₀ hhad hb₀ (hid.symm.trans heq))
      rw [carryOut_deregister hrun htask]
      obtain ⟨stored, hget, hstored⟩ := hshows.1
      refine ⟨stored, ?_, hstored⟩
      dsimp only
      split
      · rename_i hcc
        subst hcc
        rw [get_deregister_of_ne _ hne]
        exact hget
      · exact hget
  · obtain rfl := hrow hs
    exact (hshows.2 hs hdefault).run h hjob₀ hrun (htimely hs) hb hlive hdefault hjobs

theorem Registry.run_registers {image : String} {c : Connection}
    (hrun : w.carryOut d job age inUse = some { w with databases })
    (htask : job.task = .register image c row) (hb : w.backends.current key = some b)
    (hlive : b.deleting = false) (hc : w.connection d key b = some c)
    (hrow : strict → row = (b.resolved d key).row) :
    Shows d strict { w with databases } c row := by
  have hrows : databases c = (w.databases c).register row job.controller := by
    rw [carryOut_register hrun htask]
    exact if_pos rfl
  refine ⟨⟨⟨row, job.controller⟩, ?_, .inl rfl⟩, fun hs hdefault => ?_⟩
  · dsimp only
    rw [hrows]
    exact get_register_self _ _ _
  · obtain rfl := hrow hs
    exact Held.register hb hlive hdefault hc rfl hdefault hrows

def BackendWatched (d : Site) (strict : Prop) (x : Request) (m : BackendMemo) (w : World) : Prop :=
  ∀ key, x = .storageBackend key → BackendWatch d strict key m w

abbrev OnBackend (d : Site) (strict : Prop) (m : BackendMemo) (w : World) : Prop :=
  ∀ x, m.request = some x → BackendWatched d strict x m w

theorem Reads.watch (h : Reads key b m) (hworker : OnBackend d strict m w) :
    BackendWatch d strict key m w := hworker _ h.request key rfl

section Step

variable {c : Call} {r : c.Resp}

theorem Orderly.new (h : Orderly d strict w c r) {spec : BackendSpec}
    (hc : c = .change (.createBackend key spec)) (b : StorageBackend) : ¬ w.backends.Had key b := by
  subst hc
  intro hb
  exact (h.2 (key, b) (Directory.mem_versions.mpr hb)).1 rfl

theorem Orderly.strictly (h : Orderly d strict w c r) (hs : strict) : Orderly d True w c r := by
  rwa [← eq_true hs]

theorem Orderly.tamosses (h : Orderly d strict w c r) (heffect : Effect d w c r w') :
    w'.tamosses = w.tamosses := by
  rcases heffect.tamosses with hsame | ⟨k, tamoss, rfl⟩
  · exact hsame
  · exact h.elim

variable {b : StorageBackend} {job : Job}

theorem registers_congr (h : w'.tamosses = w.tamosses)
    (hjob : Registers d w key b job) : Registers d w' key b job := by
  obtain ⟨image, conn, row, htask, hconn, hrest⟩ := hjob
  exact ⟨image, conn, row, htask, (connection_congr h key b).trans hconn, hrest⟩

theorem deregisters_congr (h : w'.tamosses = w.tamosses)
    (hjob : Deregisters d w key b job) : Deregisters d w' key b job := by
  obtain ⟨hdeleting, image, conn, htask, hconn⟩ := hjob
  exact ⟨hdeleting, image, conn, htask, (connection_congr h key b).trans hconn⟩

variable {k : Key}

theorem launched_job (hworker : OnBackend d strict m w) {controller : Option Uid} {spec : JobSpec}
    (hreq : backendReq d (.applyJob k controller spec) m) :
    ∃ key b, Reads key b m ∧ w.backends.Had key b ∧
      (k = registerKey key ∧ b.deleting = false ∧
          m.job = some none ∧ (∃ state, m.state = some state ∧
            databaseRegistered state (b.resolved d key) = false) ∧
          (∀ job : Job, job.toJobSpec = spec → Registers d w key b job) ∨
        k = deregisterKey key ∧
          ∀ job : Job, job.toJobSpec = spec → Deregisters d w key b job) := by
  obtain ⟨key, b, t, hreads, ⟨stored, hstored, ht⟩, -, hcase⟩ := hreq
  have hwatch := hreads.watch hworker
  have hconn : w.connection d key b = some (dbConnection t) :=
    connection_of_resolved (hwatch.tamoss b stored hreads.backend hstored) ht
  refine ⟨key, b, hreads, hwatch.had b hreads.backend, ?_⟩
  rcases hcase with ⟨hk, -, hlive, -, rfl, hjob, hstate⟩ | ⟨hk, -, hdeleting, rfl, -⟩
  · refine .inl ⟨hk, hlive, hjob, hstate, fun job hspec => ?_⟩
    exact ⟨_, _, _, congrArg JobSpec.task hspec, hconn, rfl, congrArg JobSpec.desiredHash hspec⟩
  · refine .inr ⟨hk, fun job hspec => ⟨hdeleting, _, _, congrArg JobSpec.task hspec, hconn⟩⟩

theorem Registry.jobs_step (h : Registry d strict w) (heffect : Effect d w c r w')
    (hworker : OnBackend d strict m w) (hreq : backendReq d c m)
    (htamosses : w'.tamosses = w.tamosses)
    (hjob : w'.jobs.current k = some job) : ∃ key b, w'.backends.Had key b ∧
      (k = registerKey key ∧ Registers d w' key b job ∨
        k = deregisterKey key ∧ Deregisters d w' key b job) := by
  -- a Job that was there keeps its task and its digest
  have hold : ∀ before : Job, w.jobs.current k = some before → job.toJobSpec = before.toJobSpec →
      ∃ key b, w.backends.Had key b ∧
        (k = registerKey key ∧ Registers d w key b job ∨
          k = deregisterKey key ∧ Deregisters d w key b job) := by
    intro before hbefore hspec
    obtain ⟨key, b, hb, hcase⟩ := h.jobs k before hbefore
    refine ⟨key, b, hb, ?_⟩
    rcases hcase with ⟨hk, image, conn, row, htask, hrest⟩ | ⟨hk, hdeleting, image, conn, htask, hrest⟩
    · refine .inl ⟨hk, image, conn, row, (congrArg JobSpec.task hspec).trans htask, hrest.1, hrest.2.1,
        (congrArg JobSpec.desiredHash hspec).trans hrest.2.2⟩
    · exact .inr ⟨hk, hdeleting, image, conn, (congrArg JobSpec.task hspec).trans htask, hrest⟩
  have horigin : ∃ key b, w.backends.Had key b ∧
      (k = registerKey key ∧ Registers d w key b job ∨
        k = deregisterKey key ∧ Deregisters d w key b job) := by
    cases heffect.job_from hjob with
    | kept _ before _ hbefore hspec => exact hold before hbefore hspec
    | run age inUse before hbefore => exact hold before hbefore rfl
    | launch controller spec =>
      obtain ⟨key, b, -, hb, ⟨hk, -, -, -, hjob⟩ | ⟨hk, hjob⟩⟩ := launched_job hworker hreq
      · exact ⟨key, b, hb, .inl ⟨hk, hjob _ rfl⟩⟩
      · exact ⟨key, b, hb, .inr ⟨hk, hjob _ rfl⟩⟩
    | reapply controller spec =>
      obtain ⟨key, b, -, hb, ⟨hk, -, -, -, hjob⟩ | ⟨hk, hjob⟩⟩ := launched_job hworker hreq
      · exact ⟨key, b, hb, .inl ⟨hk, hjob _ rfl⟩⟩
      · exact ⟨key, b, hb, .inr ⟨hk, hjob _ rfl⟩⟩
    | create => exact hreq.elim
  obtain ⟨key, b, hb, hcase⟩ := horigin
  exact ⟨key, b, heffect.backends_had hb, hcase.imp
    (fun ⟨hk, hregisters⟩ => ⟨hk, registers_congr htamosses hregisters⟩)
    (fun ⟨hk, hderegisters⟩ => ⟨hk, deregisters_congr htamosses hderegisters⟩)⟩

theorem finished_step (h : ∀ k job, w.jobs.current k = some job → job.succeeded = true →
    job.done = true) (heffect : Effect d w c r w')
    (hjob : w'.jobs.current k = some job) (hsucceeded : job.succeeded = true) :
    job.done = true := by
  cases heffect.job_from hjob with
  | kept _ before _ hbefore hspec huid hcontroller hdone hended =>
    rw [hdone]
    rcases hended with hsame | ⟨-, hended⟩
    · refine h k before hbefore ?_
      rw [Job.succeeded, ← hsame]
      exact hsucceeded
    · exact hended hsucceeded
  | run => rfl
  | launch => cases hsucceeded
  | reapply controller spec before hbefore => exact h k before hbefore hsucceeded
  | create => cases hsucceeded

theorem Settled.mono (h : Settled d strict w key b) (htamosses : w'.tamosses = w.tamosses)
    (hstate : w'.configMaps.current (stateKey key) = w.configMaps.current (stateKey key))
    (hjobs : ∀ job', w'.jobs.current (registerKey key) = some job' →
      ∃ job, w.jobs.current (registerKey key) = some job ∧
        job'.toJobSpec = job.toJobSpec ∧ job'.done = job.done)
    (hdatabases : w'.databases = w.databases)
    (hheld : strict → b.spec.defaultStorage = true → ∀ conn, Held d w conn → Held d w' conn) :
    Settled d strict w' key b := by
  have hregistered : w'.registered d key b = w.registered d key b := by
    simp only [World.registered, hstate]
  have hshows : ∀ conn row, (strict → row = (b.resolved d key).row) → Shows d strict w conn row →
      Shows d strict w' conn row := by
    intro conn row hrow hshows
    refine ⟨hdatabases ▸ hshows.1, fun hs hdefault => ?_⟩
    have hdeclared : b.spec.defaultStorage = true :=
      (congrArg Row.defaultStorage (hrow hs)).symm.trans hdefault
    exact hheld hs hdeclared conn (hshows.2 hs hdefault)
  refine ⟨fun hrecorded => ?_, fun job' image conn row hjob' hdone htask hrow => ?_, ?_, h.observed⟩
  · rw [hregistered] at hrecorded
    obtain ⟨⟨conn, hconn, hrow⟩, hhash⟩ := h.recorded hrecorded
    refine ⟨⟨conn, (connection_congr htamosses key b).trans hconn,
      hshows conn _ (fun _ => rfl) hrow⟩, fun job' hjob' => ?_⟩
    obtain ⟨job, hjob, hspec, -⟩ := hjobs job' hjob'
    exact (congrArg JobSpec.desiredHash hspec).trans (hhash job hjob)
  · obtain ⟨job, hjob, hspec, hsame⟩ := hjobs job' hjob'
    exact hshows conn row hrow (h.carried job image conn row hjob (hsame ▸ hdone)
      ((congrArg JobSpec.task hspec).symm.trans htask) hrow)
  · rw [hregistered]
    exact h.ready

theorem Settled.of_spec {b b' : StorageBackend} (h : Settled d strict w key b)
    (hspec : b'.spec = b.spec) (hstatus : b'.status = b.status)
    (hgeneration : b'.generation = b.generation) : Settled d strict w key b' := by
  cases b
  cases b'
  subst hspec
  subst hstatus
  subst hgeneration
  exact ⟨h.recorded, h.carried, h.ready, h.observed⟩

theorem Settled.run (hworld : Registry d strict w) {k₀ : Key} {job₀ : Job} {age : Nat}
    {inUse : Bool} {databases : Connection → Database} (hjob₀ : w.jobs.current k₀ = some job₀)
    (hrun : w.carryOut d job₀ age inUse = some { w with databases })
    (htimely : strict → Timely d w job₀)
    (hb : w.backends.current key = some b) (hlive : b.deleting = false) :
    Settled d strict { w.putJob k₀ (some { job₀ with done := true }) with databases } key b := by
  have h := hworld.live key b hb hlive
  have hhad := Directory.had_of_current hb
  -- the Jobs after the run
  have hjobs : ∀ job', (w.jobs.put k₀ (some { job₀ with done := true })).current
      (registerKey key) = some job' →
      ∃ job, w.jobs.current (registerKey key) = some job ∧
        job'.toJobSpec = job.toJobSpec ∧ (job'.done = job.done ∨ job = job₀) := by
    intro job' hjob'
    rw [Directory.current_put] at hjob'
    split at hjob'
    · rename_i hk
      subst hk
      cases hjob'
      exact ⟨job₀, hjob₀, rfl, .inr rfl⟩
    · exact ⟨job', hjob', rfl, .inl rfl⟩
  refine ⟨fun hrecorded => ?_, fun job' image conn row hjob' hdone htask hrow => ?_, h.ready,
    h.observed⟩
  · obtain ⟨⟨conn, hconn, hshows⟩, hhash⟩ := h.recorded hrecorded
    refine ⟨⟨conn, hconn, ?_⟩, fun job' hjob' => ?_⟩
    · exact hworld.run_shows hjob₀ hrun htimely hb hlive hconn rfl (fun _ => rfl) hhash hshows
    · obtain ⟨job, hjob, hspec, -⟩ := hjobs job' hjob'
      exact (congrArg JobSpec.desiredHash hspec).trans (hhash job hjob)
  · obtain ⟨job, hjob, hspec, hcase⟩ := hjobs job' hjob'
    have htask₀ : job.task = .register image conn row := (congrArg JobSpec.task hspec).symm.trans htask
    obtain ⟨image', conn', row', htask', hconn', hid', hhash'⟩ := hworld.registers hhad hjob
    rw [htask₀] at htask'
    cases htask'
    by_cases hsame : job = job₀
    · subst hsame
      have hshows : Shows d strict { w with databases } conn row :=
        Registry.run_registers hrun htask₀ hb hlive hconn' hrow
      exact hshows
    · have hdone₀ : job.done = true := by
        rcases hcase with hcase | hcase
        · exact hcase ▸ hdone
        · exact absurd hcase hsame
      refine hworld.run_shows hjob₀ hrun htimely hb hlive hconn' hid' hrow (fun other hother => ?_)
        (h.carried job image conn row hjob hdone₀ htask₀ hrow)
      obtain rfl := Option.some.inj (hjob.symm.trans hother)
      exact hhash'

variable (key) in
theorem state_step (heffect : Effect d w c r w') (hreq : backendReq d c m) :
    w'.configMaps.current (stateKey key) = w.configMaps.current (stateKey key) ∨
      ∃ b s, Reads key b m ∧ MapStep w c (stateKey key) s ∧
        w' = { w with
          configMaps := w.configMaps.put (stateKey key) s } := by
  rcases heffect.maps with hsame | ⟨k, s, hstep, rfl⟩
  · exact .inl (by rw [hsame])
  · by_cases hk : stateKey key = k
    · subst hk
      have hreads : ∃ key' b, Reads key' b m ∧
          (stateKey key = bucketKey key' ∨
            stateKey key = stateKey key') := by
        cases hstep with
        | apply =>
          obtain ⟨key', b, hreads, -, -, hcase⟩ := hreq
          exact ⟨key', b, hreads, hcase.imp_right And.left⟩
        | delete =>
          obtain ⟨key', b, hreads, -, hcase⟩ := hreq
          exact ⟨key', b, hreads, hcase⟩
      obtain ⟨key', b, hreads, hk | hk⟩ := hreads
      · exact absurd hk (storageBackendResourceKey_ne (by decide))
      · obtain rfl := storageBackendResourceKey_inj hk
        exact .inr ⟨b, s, hreads, hstep, rfl⟩
    · exact .inl (Directory.current_put_of_ne hk)

theorem registration_step (hworker : OnBackend d strict m w)
    (heffect : Effect d w c r w') (hreq : backendReq d c m) {job' : Job}
    (hjob' : w'.jobs.current (registerKey key) = some job') :
    (∃ job, w.jobs.current (registerKey key) = some job ∧
        job'.toJobSpec = job.toJobSpec ∧
        (job'.done = job.done ∨ ∃ age inUse,
          c = .change (.runJob (registerKey key) age inUse))) ∨
      (∃ b controller spec, Reads key b m ∧ b.deleting = false ∧
        (∃ state, m.state = some state ∧ databaseRegistered state (b.resolved d key) = false) ∧
        c = .applyJob (registerKey key) controller spec ∧
        job'.done = false) := by
  cases heffect.job_from hjob' with
  | kept _ job _ hjob hspec _ _ hdone => exact .inl ⟨job, hjob, hspec, .inl hdone⟩
  | run age inUse job hjob => exact .inl ⟨job, hjob, rfl, .inr ⟨age, inUse, rfl⟩⟩
  | launch controller spec habsent =>
    obtain ⟨key', b, hreads, -, ⟨hk, hlive, -, hstate, -⟩ | ⟨hk, -⟩⟩ := launched_job hworker hreq
    · obtain rfl := storageBackendResourceKey_inj hk
      exact .inr ⟨b, controller, spec, hreads, hlive, hstate, rfl, rfl⟩
    · exact absurd hk (storageBackendResourceKey_ne (by decide))
  | reapply controller spec job hjob =>
    obtain ⟨key', b, hreads, -, ⟨hk, -, hnone, -⟩ | ⟨hk, -⟩⟩ := launched_job hworker hreq
    · -- the worker has seen that there is none
      obtain rfl := storageBackendResourceKey_inj hk
      have habsent := (hreads.watch hworker).absent hnone
      rw [hjob] at habsent
      cases habsent
    · exact absurd hk (storageBackendResourceKey_ne (by decide))
  | create => exact hreq.elim

variable {s : Option StorageBackend}

theorem Registry.live_new (h : Registry d strict w)
    (hworker : OnBackend d strict m w) (hreq : backendReq d c m)
    (hconduct : Orderly d strict w c r) (hstep : BackendStep w c key s)
    {b' : StorageBackend} (hs : s = some b') (hlive : b'.deleting = false) :
    Settled d strict w key b' := by
  cases hstep with
  | create _ spec habsent =>
    cases hs
    have hnew : ∀ b, ¬ w.backends.Had key b := hconduct.new rfl
    have hunrecorded : ∀ b, w.registered d key b = false := by
      intro b
      unfold World.registered
      cases hstate : w.configMaps.current (stateKey key) with
      | none => rfl
      | some map =>
        obtain ⟨b₀, hb₀⟩ := h.states key map hstate
        exact absurd hb₀ (hnew b₀)
    refine ⟨fun hrecorded => ?_, fun job _ _ _ hjob => ?_, fun hready => ?_, Nat.zero_le _⟩
    · rw [hunrecorded] at hrecorded
      cases hrecorded
    · obtain ⟨b₀, hb₀, -⟩ := h.registration hjob
      exact absurd hb₀ (hnew b₀)
    · cases hready
  | edit _ spec b hb hfixed =>
    cases hs
    have hbefore := h.live key b hb hlive
    have hedit := (hconduct b hb).1
    refine ⟨fun hrecorded => ?_, fun job image conn row hjob hdone htask hrow => ?_,
      fun _ hobserved => ?_, Nat.le_succ_of_le hbefore.observed⟩
    · -- the registration fits the present spec as well, so that the row is the same
      have hregistered := hedit (.inr hrecorded)
      have hsame : (b.resolved d key).row = (spec.applyDefaults d key).row :=
        row_eq_of_registered hregistered hrecorded
      obtain ⟨⟨conn, hconn, hshows⟩, hhash⟩ := hbefore.recorded hregistered
      refine ⟨⟨conn, ?_, ?_⟩, fun job hjob => ?_⟩
      · exact (connection_of_fixed hfixed.symm).trans hconn
      · rw [hsame] at hshows
        exact hshows
      · rw [hsame] at hhash
        exact hhash job hjob
    · refine hbefore.carried job image conn row hjob hdone htask fun hs => ?_
      obtain ⟨_, _, row', htask', -, -, hhash'⟩ :=
        h.registers (Directory.had_of_current hb) hjob
      rw [htask] at htask'
      cases htask'
      exact registrationHash_injective
        (hhash'.symm.trans ((hbefore.recorded (hedit (.inl hs))).2 job hjob))
    · exact absurd hobserved (Nat.ne_of_lt (Nat.lt_succ_of_le hbefore.observed))
  | delete _ b hb =>
    split at hs
    · cases hs
    · cases hs
      cases hlive
  | finalizers _ finalizers b hb =>
    split at hs
    · cases hs
    · cases hs
      exact (h.live key b hb hlive).of_spec rfl rfl rfl
  | status _ read status b hb hversion =>
    split at hs
    · cases hs
    · cases hs
      obtain ⟨hreads, -, report, rfl, hready⟩ := hreq
      have hwatch := hreads.watch hworker
      have hhad := hwatch.had read hreads.backend
      -- the status was computed from what is stored
      obtain rfl := h.read_current hhad hb hversion
      have hbefore := h.live key b hb hlive
      refine ⟨hbefore.recorded, hbefore.carried, fun hclaimed _ => ?_, Nat.le_refl _⟩
      rcases hready hclaimed with hhibernate | ⟨state, hstate, hregistered⟩
      · rw [h.media key b hhad] at hhibernate
        cases hhibernate
      · unfold World.registered
        rw [hwatch.state state hstate]
        exact hregistered

theorem BackendWatch.unrecorded (h : BackendWatch d strict key m w)
    (hstate : ∃ state, m.state = some state ∧
      databaseRegistered state (b.resolved d key) = false) : w.registered d key b = false := by
  obtain ⟨state, hm, hunrecorded⟩ := hstate
  unfold World.registered
  rw [h.state state hm]
  exact hunrecorded

theorem Registry.live_state (h : Registry d strict w)
    (hworker : OnBackend d strict m w) (hreq : backendReq d c m)
    {read : StorageBackend} (hreads : Reads key read m) {s : Option ConfigMap}
    (hstep : MapStep w c (stateKey key) s)
    (hb : w.backends.current key = some b) (hlive : b.deleting = false) : Settled d strict { w with
      configMaps := w.configMaps.put (stateKey key) s } key b := by
  have hwatch := hreads.watch hworker
  have hbefore := h.live key b hb hlive
  -- the worker that is meant is the one on this backend
  have hsame : ∀ key' read', Reads key' read' m → key' = key ∧ read' = read := by
    intro key' read' hreads'
    have hkey := hreads'.request.symm.trans hreads.request
    have hread := hreads'.backend.symm.trans hreads.backend
    cases hkey
    cases hread
    exact ⟨rfl, rfl⟩
  cases hstep with
  | apply _ controller spec =>
    obtain ⟨key', read', hreads', hreadlive, -, hbucket | ⟨-, rfl, hstate, job, hjob, hsucceeded,
      hhash⟩⟩ := hreq
    · exact absurd hbucket (storageBackendResourceKey_ne (by decide))
    obtain ⟨rfl, rfl⟩ := hsame key' read' hreads'
    have hunrecorded := hwatch.unrecorded hstate
    obtain ⟨hjobs, hrows⟩ :=
      hwatch.succeeded read' job hreads.backend hreadlive hjob hsucceeded hhash hunrecorded
    refine ⟨fun hrecorded => ?_, hbefore.carried, fun hready hobserved => ?_, hbefore.observed⟩
    · -- the record fits the spec that was read, and so its row is that of the spec
      unfold World.registered at hrecorded
      rw [Directory.current_put_self] at hrecorded
      have hrow : (b.resolved d key').row = (read'.resolved d key').row :=
        row_eq_of_registered hrecorded databaseState_registered
      obtain ⟨conn, hconn, hshows⟩ := hrows b hb hlive
      have hfixed := h.fixed (hwatch.had read' hreads.backend) (Directory.had_of_current hb)
      rw [hrow]
      exact ⟨⟨conn, (connection_of_fixed hfixed).symm.trans hconn, hshows⟩, hjobs⟩
    · -- the backend cannot have been ready, as its registration was not recorded
      have hrecorded := hwatch.since read' b hreads.backend hb (hbefore.ready hready hobserved)
      rw [hunrecorded] at hrecorded
      cases hrecorded
  | delete =>
    obtain ⟨key', read', hreads', hdeleting, -⟩ := hreq
    obtain ⟨rfl, rfl⟩ := hsame key' read' hreads'
    have hgone := h.final key' read' b (hwatch.had read' hreads.backend) hdeleting hb
    rw [hlive] at hgone
    cases hgone

theorem Registry.live_launch (h : Registry d strict w) (hwatch : BackendWatch d strict key m w)
    {read : StorageBackend} (hread : m.backend = some read)
    (hunrecorded : w.registered d key read = false) (hstate : w'.configMaps.current (stateKey key) =
      w.configMaps.current (stateKey key))
    (hjobs : ∀ job, w'.jobs.current (registerKey key) = some job →
      job.done = false) (hb : w.backends.current key = some b) (hlive : b.deleting = false) :
    Settled d strict w' key b := by
  have hbefore := h.live key b hb hlive
  have hregistered : w'.registered d key b = w.registered d key b := by
    simp only [World.registered, hstate]
  have hnot : w.registered d key b ≠ true := by
    intro hrecorded
    have hfits := hwatch.since read b hread hb hrecorded
    rw [hunrecorded] at hfits
    cases hfits
  refine ⟨fun hrecorded => ?_, fun job _ _ _ hjob hdone => ?_, fun hready hobserved => ?_,
    hbefore.observed⟩
  · exact absurd (hregistered ▸ hrecorded) hnot
  · rw [hjobs job hjob] at hdone
    cases hdone
  · exact absurd (hbefore.ready hready hobserved) hnot

theorem Registry.live_step (h : Registry d strict w) (heffect : Effect d w c r w')
    (hworker : OnBackend d strict m w) (hreq : backendReq d c m) (hconduct : Orderly d strict w c r)
    (hb : w'.backends.current key = some b) (hlive : b.deleting = false) :
    Settled d strict w' key b := by
  have htamosses := hconduct.tamosses heffect
  rcases heffect.backends with hsame | ⟨k₀, s, hstep, hput, -, helse⟩
  · rw [hsame] at hb
    have hbefore := h.live key b hb hlive
    rcases heffect.databases with ⟨hdatabases, hnorun⟩ |
      ⟨k₀, age, inUse, job, databases, rfl, hjob, -, hrun, rfl⟩
    · rcases state_step key heffect hreq with hstate | ⟨read, s, hreads, hmap, rfl⟩
      · by_cases hlaunch : ∃ job, w'.jobs.current (registerKey key) =
            some job ∧ job.done = false ∧ ∃ read, Reads key read m ∧ ∃ state,
              m.state = some state ∧ databaseRegistered state (read.resolved d key) = false
        · obtain ⟨job, hjob, hopen, read, hreads, hunrecorded⟩ := hlaunch
          have hwatch := hreads.watch hworker
          refine h.live_launch hwatch hreads.backend (hwatch.unrecorded hunrecorded) hstate
            (fun job' hjob' => ?_) hb hlive
          obtain rfl := Option.some.inj (hjob.symm.trans hjob')
          exact hopen
        · refine hbefore.mono htamosses hstate (fun job' hjob' => ?_) hdatabases
            fun _ _ conn hheld => hheld.congr hsame htamosses hdatabases
          rcases registration_step hworker heffect hreq hjob' with
            ⟨job, hjob, hspec, hdone | ⟨age, inUse, hrun⟩⟩ | ⟨read, _, _, hreads, -, hstate', -, hopen⟩
          · exact ⟨job, hjob, hspec, hdone⟩
          · exact absurd hrun (hnorun _ age inUse)
          · exact absurd ⟨job', hjob', hopen, read, hreads, hstate'⟩ hlaunch
      · exact h.live_state hworker hreq hreads hmap hb hlive
    · exact Settled.run h hjob hrun (fun hs => hconduct hs job hjob) hb hlive
  · have hcurrent := hb
    rw [hput, Directory.current_put] at hb
    have hold : Settled d strict w key b → Settled d strict w' key b := fun hsettled =>
      hsettled.mono htamosses (by rw [helse.configMaps])
        (fun job' hjob' => ⟨job', helse.jobs ▸ hjob', rfl, rfl⟩) helse.databases
        fun hs hdeclared conn hheld => hheld.backend_step (hconduct.strictly hs) hstep hput helse
          hcurrent hlive hdeclared
    split at hb
    · rename_i hk
      subst hk
      exact hold (h.live_new hworker hreq hconduct hstep hb hlive)
    · exact hold (h.live key b hb hlive)

theorem Registry.step (h : Registry d strict w) (heffect : Effect d w c r w')
    (hworker : OnBackend d strict m w) (hreq : backendReq d c m)
    (hconduct : Orderly d strict w c r) : Registry d strict w' := by
  have htamosses := hconduct.tamosses heffect
  -- a version is created with an id of its own, or has the fixed fields of an older one
  have horigin : ∀ k a, w'.backends.Had k a →
      (c = .change (.createBackend k a.spec)) ∨
        ∃ b, w.backends.Had k b ∧ a.spec.fixed = b.spec.fixed := by
    intro k a ha
    rcases heffect.backends with hsame | ⟨k₀, s, hstep, hput, -⟩
    · exact .inr ⟨a, hsame ▸ ha, rfl⟩
    · rw [hput, Directory.had_put] at ha
      rcases ha with ⟨rfl, hs⟩ | ha
      · rcases (hstep.version hs).2 with ⟨spec, hcall, rfl, -⟩ | ⟨b, hb, -, hfixed, -⟩
        · exact .inl hcall
        · exact .inr ⟨b, Directory.had_of_current hb, hfixed⟩
      · exact .inr ⟨a, ha, rfl⟩
  -- the id of a new backend is not that of an old one
  have hnewID : ∀ (k : Key) (a : StorageBackend) k' b, c = .change (.createBackend k a.spec) → w.backends.Had k' b →
      (a.resolved d k).id ≠ (b.resolved d k').id := by
    intro k a k' b hc hb heq
    subst hc
    exact (hconduct.2 (k', b) (Directory.mem_versions.mpr hb)).2 heq.symm
  refine
    { h.toBackends.step heffect fun _ _ hc b => hconduct.new hc b with
      distinct := fun key key' a b ha hb hid => ?_
      media := fun key b hb => ?_
      jobs := fun k job hjob => h.jobs_step heffect hworker hreq htamosses hjob
      finished := fun k job hjob hsucceeded => finished_step h.finished heffect hjob hsucceeded
      states := fun key map hmap => ?_
      live := fun key b hb hlive => h.live_step heffect hworker hreq hconduct hb hlive }
  · rcases horigin key a ha with hnew | ⟨a₀, ha₀, hfa⟩ <;>
      rcases horigin key' b hb with hnew' | ⟨b₀, hb₀, hfb⟩
    · have heq := hnew.symm.trans hnew'
      injection heq with heq
      injection heq
    · exact absurd (hid.trans (resolved_id_of_fixed hfb)) (hnewID key a key' b₀ hnew hb₀)
    · exact absurd (hid.symm.trans (resolved_id_of_fixed hfa)) (hnewID key' b key a₀ hnew' ha₀)
    · exact h.distinct key key' a₀ b₀ ha₀ hb₀
        ((resolved_id_of_fixed hfa).symm.trans (hid.trans (resolved_id_of_fixed hfb)))
  · rcases horigin key b hb with hnew | ⟨b₀, hb₀, hfixed⟩
    · subst hnew
      exact hconduct.1
    · rw [media_of_fixed hfixed]
      exact h.media key b₀ hb₀
  · rcases state_step key heffect hreq with hstate | ⟨b, s, hreads, -, rfl⟩
    · rw [hstate] at hmap
      obtain ⟨b, hb⟩ := h.states key map hmap
      exact ⟨b, heffect.backends_had hb⟩
    · exact ⟨b, (hreads.watch hworker).had b hreads.backend⟩

def Call.records : Call → Bool
  | .applyConfigMap .. | .deleteConfigMap _ | .applyJob .. => true
  | _ => false

theorem BackendWatch.mono (h : BackendWatch d strict key m w)
    (hbackends : w'.backends = w.backends) (htamosses : w'.tamosses = w.tamosses)
    (hstate : w'.configMaps.current (stateKey key) = w.configMaps.current (stateKey key))
    (hjobs : ∀ job', w'.jobs.current (registerKey key) = some job' →
      ∃ job, w.jobs.current (registerKey key) = some job ∧
        job'.toJobSpec = job.toJobSpec)
    (hshows : ∀ b b' conn, m.backend = some b → b.deleting = false →
      w.registered d key b = false → w.backends.current key = some b' → b'.deleting = false →
      w.connection d key b = some conn →
      (∀ job, w.jobs.current (registerKey key) = some job →
        job.desiredHash = registrationHash (b.resolved d key).row) →
      Shows d strict w conn (b.resolved d key).row →
      Shows d strict w' conn (b.resolved d key).row) : BackendWatch d strict key m w' := by
  have hregistered : ∀ b, w'.registered d key b = w.registered d key b := by
    intro b
    simp only [World.registered, hstate]
  refine ⟨?_, ?_, ?_, ?_, ?_, fun hnone => ?_, fun b job hb hlive hjob hsucceeded hhash hopen => ?_⟩
  · rw [hbackends]
    exact h.had
  · simp only [hbackends, hregistered]
    exact h.since
  · simp only [hbackends, hregistered]
    exact h.same
  · rw [htamosses]
    exact h.tamoss
  · rw [hstate]
    exact h.state
  · cases hcurrent : w'.jobs.current (registerKey key) with
    | none => rfl
    | some job' =>
      obtain ⟨job, hjob, -⟩ := hjobs job' hcurrent
      rw [h.absent hnone] at hjob
      cases hjob
  · rw [hregistered] at hopen
    obtain ⟨hhashes, hrows⟩ := h.succeeded b job hb hlive hjob hsucceeded hhash hopen
    refine ⟨fun job' hjob' => ?_, fun b' hb' hlive' => ?_⟩
    · obtain ⟨job₀, hjob₀, hspec⟩ := hjobs job' hjob'
      exact (congrArg JobSpec.desiredHash hspec).trans (hhashes job₀ hjob₀)
    · rw [hbackends] at hb'
      obtain ⟨conn, hconn, hrow⟩ := hrows b' hb' hlive'
      exact ⟨conn, (connection_congr htamosses key b).trans hconn,
        hshows b b' conn hb hlive hopen hb' hlive' hconn hhashes hrow⟩

theorem Shows.backend_step {k₀ : Key} {conn : Connection} {row : Row} {b' : StorageBackend}
    (h : Shows d strict w conn row)
    (hconduct : Orderly d strict w c r) (hstep : BackendStep w c k₀ s)
    (hput : w'.backends = w.backends.put k₀ s) (helse : SameElsewhere w w')
    (hb' : w'.backends.current key = some b') (hlive' : b'.deleting = false)
    (hrow : strict → (b'.resolved d key).row = row) : Shows d strict w' conn row := by
  refine ⟨helse.databases ▸ h.1, fun hs hdefault => ?_⟩
  have hdeclared : b'.spec.defaultStorage = true :=
    (congrArg Row.defaultStorage (hrow hs)).trans hdefault
  exact (h.2 hs hdefault).backend_step (hconduct.strictly hs) hstep hput helse hb' hlive' hdeclared

theorem BackendWatch.backend_step (h : BackendWatch d strict key m w)
    (hconduct : Orderly d strict w c r) (hstep : BackendStep w c key s)
    (hput : w'.backends = w.backends.put key s) (helse : SameElsewhere w w') :
    BackendWatch d strict key m w' := by
  have hregistered : ∀ b, w'.registered d key b = w.registered d key b := by
    intro b
    simp only [World.registered, helse.configMaps]
  -- the stored backend was there before, and has its spec unless somebody has edited it
  have hbefore : ∀ b b', m.backend = some b → w'.backends.current key = some b' →
      ∃ b₀, w.backends.current key = some b₀ ∧ (b'.deleting = false → b₀.deleting = false) ∧
        (b'.spec = b₀.spec ∨ (strict ∨ w.registered d key b' = true →
          w.registered d key b₀ = true)) := by
    intro b b' hb hb'
    rw [hput, Directory.current_put_self] at hb'
    cases hstep with
    | create _ spec habsent => exact absurd (h.had b hb) (hconduct.new rfl b)
    | edit _ spec b₀ hb₀ hfixed =>
      cases hb'
      exact ⟨b₀, hb₀, id, .inr (hconduct b₀ hb₀).1⟩
    | delete _ b₀ hb₀ =>
      split at hb'
      · cases hb'
      · cases hb'
        exact ⟨b₀, hb₀, nofun, .inl rfl⟩
    | finalizers _ finalizers b₀ hb₀ =>
      split at hb'
      · cases hb'
      · cases hb'
        exact ⟨b₀, hb₀, id, .inl rfl⟩
    | status _ read status b₀ hb₀ hversion =>
      split at hb'
      · cases hb'
      · cases hb'
        exact ⟨b₀, hb₀, id, .inl rfl⟩
  have hspec : ∀ {a b : StorageBackend}, a.spec = b.spec → a.resolved d key = b.resolved d key :=
    fun hab => by simp only [StorageBackend.resolved, hab]
  have hsame : strict → ∀ b b', m.backend = some b → b.deleting = false →
      w'.backends.current key = some b' → w.registered d key b = false →
      (b'.resolved d key).row = (b.resolved d key).row := by
    intro hs b b' hb hlive hb' hopen
    obtain ⟨b₀, hb₀, -, hsame | hedit⟩ := hbefore b b' hb hb'
    · rw [hspec hsame]
      exact h.same hs b b₀ hb hlive hb₀ hopen
    · -- a spec that is not recorded is not edited
      have hrecorded := h.since b b₀ hb hb₀ (hedit (.inl hs))
      rw [hopen] at hrecorded
      cases hrecorded
  refine ⟨fun b hb => ?_, fun b b' hb hb' hrecorded => ?_,
    fun hs b b' hb hlive hb' hopen => ?_, ?_, ?_, ?_,
    fun b job hb hlive hjob hsucceeded hhash hopen => ?_⟩
  · rw [hput]
    exact (h.had b hb).put
  · rw [hregistered] at hrecorded ⊢
    obtain ⟨b₀, hb₀, -, hsame | hedit⟩ := hbefore b b' hb hb'
    · refine h.since b b₀ hb hb₀ ?_
      rwa [World.registered, ← hspec hsame]
    · exact h.since b b₀ hb hb₀ (hedit (.inr hrecorded))
  · exact hsame hs b b' hb hlive hb' (hregistered b ▸ hopen)
  · rw [helse.tamosses]
    exact h.tamoss
  · rw [helse.configMaps]
    exact h.state
  · rw [helse.jobs]
    exact h.absent
  · rw [hregistered] at hopen
    obtain ⟨hhashes, hrows⟩ := h.succeeded b job hb hlive hjob hsucceeded hhash hopen
    rw [helse.jobs, connection_congr helse.tamosses]
    refine ⟨hhashes, fun b' hb' hlive' => ?_⟩
    obtain ⟨b₀, hb₀, hlive₀, -⟩ := hbefore b b' hb hb'
    obtain ⟨conn, hconn, hshows⟩ := hrows b₀ hb₀ (hlive₀ hlive')
    exact ⟨conn, hconn, hshows.backend_step hconduct hstep hput helse hb' hlive'
      fun hs => hsame hs b b' hb hlive hb' hopen⟩

theorem BackendWatch.step {m' : BackendMemo} (h : BackendWatch d strict key m' w)
    (hworld : Registry d strict w) (heffect : Effect d w c r w')
    (hworker : OnBackend d strict m w) (hreq : backendReq d c m) (hconduct : Orderly d strict w c r)
    (hother : c.records = true → m.request ≠ some (.storageBackend key)) :
    BackendWatch d strict key m' w' := by
  have htamosses := hconduct.tamosses heffect
  have hstate : w'.configMaps.current (stateKey key) =
      w.configMaps.current (stateKey key) := by
    rcases state_step key heffect hreq with hsame | ⟨b, s, hreads, hstep, -⟩
    · exact hsame
    · refine absurd hreads.request (hother ?_)
      cases hstep with
      | apply => rfl
      | delete => rfl
  have hjobs : ∀ job', w'.jobs.current (registerKey key) = some job' →
      ∃ job, w.jobs.current (registerKey key) = some job ∧
        job'.toJobSpec = job.toJobSpec := by
    intro job' hjob'
    rcases registration_step hworker heffect hreq hjob' with
      ⟨job, hjob, hspec, -⟩ | ⟨b, controller, spec, hreads, -, -, rfl, -⟩
    · exact ⟨job, hjob, hspec⟩
    · exact absurd hreads.request (hother rfl)
  rcases heffect.backends with hsame | ⟨k₀, s, hstep, hput, -, helse⟩
  · refine h.mono hsame htamosses hstate hjobs
      fun b b' conn hb hlive hopen hb' hlive' hconn hhashes hshows => ?_
    rcases heffect.databases with ⟨hdatabases, -⟩ |
      ⟨k₀, age, inUse, job, databases, rfl, hjob, -, hrun, rfl⟩
    · exact ⟨hdatabases ▸ hshows.1, fun hs hdefault =>
        (hshows.2 hs hdefault).congr hsame htamosses hdatabases⟩
    · have hfixed := hworld.fixed (h.had b hb) (Directory.had_of_current hb')
      exact hworld.run_shows hjob hrun (fun hs => hconduct hs job hjob) hb' hlive'
        ((connection_of_fixed hfixed).symm.trans hconn) (resolved_id_of_fixed hfixed)
        (fun hs => (h.same hs b b' hb hlive hb' hopen).symm) hhashes hshows
  · by_cases hk : key = k₀
    · subst hk
      exact h.backend_step hconduct hstep hput helse
    · have hcurrent : w'.backends.current key = w.backends.current key := by
        rw [hput, Directory.current_put_of_ne hk]
      have hregistered : ∀ b, w'.registered d key b = w.registered d key b := by
        intro b
        simp only [World.registered, helse.configMaps]
      refine ⟨fun b hb => heffect.backends_had (h.had b hb), ?_, ?_, ?_, ?_, ?_, ?_⟩
      · simp only [hcurrent, hregistered]
        exact h.since
      · simp only [hcurrent, hregistered]
        exact h.same
      · rw [helse.tamosses]
        exact h.tamoss
      · rw [helse.configMaps]
        exact h.state
      · rw [helse.jobs]
        exact h.absent
      · simp only [hcurrent, hregistered, helse.jobs, connection_congr helse.tamosses]
        intro b job hb hlive hjob hsucceeded hhash hopen
        obtain ⟨hhashes, hrows⟩ := h.succeeded b job hb hlive hjob hsucceeded hhash hopen
        refine ⟨hhashes, fun b' hb' hlive' => ?_⟩
        obtain ⟨conn, hconn, hshows⟩ := hrows b' hb' hlive'
        exact ⟨conn, hconn, hshows.backend_step hconduct hstep hput helse
          (hcurrent.trans hb') hlive' fun hs => h.same hs b b' hb hlive hb' hopen⟩

theorem BackendWatch.job_read (h : BackendWatch d strict key m w) (hworld : Registry d strict w)
    {b b' : StorageBackend} (hb : m.backend = some b) (hlive : b.deleting = false)
    (hjob : w.jobs.current (registerKey key) = some job) (hsucceeded : job.succeeded = true)
    (hhash : job.desiredHash = registrationHash (b.resolved d key).row)
    (hopen : w.registered d key b = false) (hb' : w.backends.current key = some b')
    (hlive' : b'.deleting = false) : ∃ conn, w.connection d key b = some conn ∧
      Shows d strict w conn (b.resolved d key).row := by
  obtain ⟨image, conn, row, htask, hconn, -, hrow⟩ := hworld.registers (h.had b hb) hjob
  obtain rfl : row = (b.resolved d key).row := registrationHash_injective (hrow.symm.trans hhash)
  refine ⟨conn, hconn, (hworld.live key b' hb' hlive').carried job image conn _ hjob
    (hworld.finished _ job hjob hsucceeded) htask fun hs => ?_⟩
  exact (h.same hs b b' hb hlive hb' hopen).symm

theorem BackendWatch.record (h : BackendWatch d strict key m w) {map : ConfigMap}
    (hfits : ∀ b, m.backend = some b → databaseRegistered (some map) (b.resolved d key) = true) :
    BackendWatch d strict key { m with state := some (some map) }
      { w with configMaps :=
        w.configMaps.put (stateKey key) (some map) } := by
  have hrecorded : ∀ b, m.backend = some b → World.registered d
      { w with configMaps :=
        w.configMaps.put (stateKey key) (some map) } key b = true := by
    intro b hb
    unfold World.registered
    rw [Directory.current_put_self]
    exact hfits b hb
  refine ⟨h.had, fun b b' hb _ _ => hrecorded b hb, fun _ b b' hb _ _ hopen => ?_, h.tamoss,
    fun state hstate => ?_, h.absent, fun b job hb _ _ _ _ hopen => ?_⟩
  · rw [hrecorded b hb] at hopen
    cases hopen
  · cases hstate
    exact Directory.current_put_self
  · rw [hrecorded b hb] at hopen
    cases hopen

theorem BackendWatch.other_map (h : BackendWatch d strict key m w)
    (hk : stateKey key ≠ k) (s : Option ConfigMap) :
    BackendWatch d strict key m { w with configMaps := w.configMaps.put k s } :=
  h.mono rfl rfl (Directory.current_put_of_ne hk) (fun job' hjob' => ⟨job', hjob', rfl⟩)
    fun _ _ _ _ _ _ _ _ _ _ hshows => hshows

theorem BackendWatch.unrecord (h : BackendWatch d strict key m w)
    (hdeleting : ∀ b, m.backend = some b → b.deleting = true) :
    BackendWatch d strict key { m with state := none }
      { w with configMaps :=
        w.configMaps.put (stateKey key) none } := by
  refine ⟨h.had, fun b b' hb hb' hrecorded => ?_, fun _ b b' hb hlive => ?_, h.tamoss,
    fun state hstate => ?_, h.absent, fun b job hb hlive => ?_⟩
  · unfold World.registered at hrecorded
    rw [Directory.current_put_self] at hrecorded
    cases hrecorded
  · rw [hdeleting b hb] at hlive
    cases hlive
  · cases hstate
  · rw [hdeleting b hb] at hlive
    cases hlive

theorem BackendWatch.forget_jobs (h : BackendWatch d strict key m w)
    (hbackends : w'.backends = w.backends) (htamosses : w'.tamosses = w.tamosses)
    (hmaps : w'.configMaps = w.configMaps) :
    BackendWatch d strict key { m with job := none, cleanup := none } w' := by
  have hregistered : ∀ b, w'.registered d key b = w.registered d key b := by
    intro b
    simp only [World.registered, hmaps]
  refine ⟨?_, ?_, ?_, ?_, ?_, fun hnone => ?_, fun b job _ _ hjob => ?_⟩
  · rw [hbackends]
    exact h.had
  · simp only [hbackends, hregistered]
    exact h.since
  · simp only [hbackends, hregistered]
    exact h.same
  · rw [htamosses]
    exact h.tamoss
  · rw [hmaps]
    exact h.state
  · cases hnone
  · cases hjob

theorem BackendWatch.begin (hm : m.backend = none ∧ m.state = none ∧ m.job = none) :
    BackendWatch d strict key m w := by
  obtain ⟨hbackend, hstate, hjob⟩ := hm
  have hno : ∀ b, m.backend ≠ some b := by
    intro b
    rw [hbackend]
    exact nofun
  refine ⟨fun b hb => absurd hb (hno b), fun b _ hb => absurd hb (hno b),
    fun _ b _ hb => absurd hb (hno b), fun b _ hb => absurd hb (hno b), fun state h => ?_,
    fun h => ?_, fun b _ hb => absurd hb (hno b)⟩
  · rw [hstate] at h
    cases h
  · rw [hjob] at h
    cases h

theorem BackendWatch.read (hcurrent : w.backends.current key = some b)
    (hm : m = { request := some (.storageBackend key) }) :
    BackendWatch d strict key { m with backend := some b } w := by
  subst hm
  refine ⟨fun b' h => ?_, fun b' b'' h hb'' hrecorded => ?_, fun _ b' b'' h _ hb'' _ => ?_,
    fun _ _ _ h => ?_, fun _ h => ?_, fun h => ?_, fun _ _ _ _ h => ?_⟩
  · cases h
    exact Directory.had_of_current hcurrent
  · cases h
    obtain rfl := Option.some.inj (hcurrent.symm.trans hb'')
    exact hrecorded
  · cases h
    obtain rfl := Option.some.inj (hcurrent.symm.trans hb'')
    rfl
  · cases h
  · cases h
  · cases h
  · cases h

theorem Reads.same {key' : Key} (h : Reads key' b m)
    (hrequest : m.request = some (.storageBackend key)) : key' = key := by
  cases h.request.symm.trans hrequest
  rfl

theorem BackendWatched.note (hworld : Registry d strict w) (heffect : Effect d w c r w')
    (hworker : OnBackend d strict m w) (hreq : backendReq d c m)
    (hconduct : Orderly d strict w c r) : ∀ x, ((backendAccount d).note c r m).request = some x →
      BackendWatched d strict x ((backendAccount d).note c r m) w' := by
  have hstep : c.records = false → ∀ x, m.request = some x → BackendWatched d strict x m w' :=
    fun hown x hx key hkey => (hworker x hx key hkey).step hworld heffect hworker hreq hconduct
      fun htrue => absurd htrue (by simp [hown])
  cases c with
  | begin request =>
    obtain ⟨rfl, -⟩ := hreq
    intro x _ key _
    exact BackendWatch.begin ⟨rfl, rfl, rfl⟩
  | getBackend k =>
    cases r with
    | error e => exact hstep rfl
    | ok b =>
      intro x hx key hkey
      have hm : m = { request := some (.storageBackend k) } := hreq
      have hrequest : m.request = some (.storageBackend key) := hkey ▸ hx
      cases heffect
      rw [hm] at hrequest
      cases hrequest
      exact BackendWatch.read (Fresh.ok hconduct) hm
  | getTamoss k =>
    intro x hx key hkey
    have hwatch := hworker x hx key hkey
    cases heffect
    obtain ⟨key', b, hreads, rfl⟩ := hreq
    obtain rfl := hreads.same (hkey ▸ hx)
    refine ⟨hwatch.had, hwatch.since, hwatch.same, fun b' t hb' htold => ?_, hwatch.state,
      hwatch.absent, hwatch.succeeded⟩
    obtain rfl := Option.some.inj (hreads.backend.symm.trans hb')
    exact Fresh.told hconduct htold
  | getConfigMap k =>
    intro x hx key hkey
    have hwatch := hworker x hx key hkey
    cases heffect
    refine ⟨hwatch.had, hwatch.since, hwatch.same, hwatch.tamoss, fun state hstate => ?_,
      hwatch.absent, hwatch.succeeded⟩
    change (if m.child "db-state" = some k then told r else m.state) = some state at hstate
    split at hstate
    · rename_i hchild
      have hrequest : m.request = some (.storageBackend key) := hkey ▸ hx
      simp only [BackendMemo.child, hrequest, Option.some.injEq] at hchild
      subst hchild
      exact Fresh.told hconduct hstate
    · exact hwatch.state state hstate
  | getJob k =>
    intro x hx key hkey
    have hwatch := hworker x hx key hkey
    cases heffect
    have hrequest : m.request = some (.storageBackend key) := hkey ▸ hx
    -- what the answer says of the registration Job
    have hread : ∀ job, (if m.child "db-register" = some k then told r else m.job) = some job →
        m.job = some job ∨
          w.jobs.current (registerKey key) = job := by
      intro job hjob
      split at hjob
      · rename_i hchild
        simp only [BackendMemo.child, hrequest, Option.some.injEq] at hchild
        subst hchild
        exact .inr (Fresh.told hconduct hjob)
      · exact .inl hjob
    refine ⟨hwatch.had, hwatch.since, hwatch.same, hwatch.tamoss, hwatch.state,
      fun hnone => ?_, fun b job hb hlive hjob hsucceeded hhash hopen => ?_⟩
    · exact (hread none hnone).elim hwatch.absent id
    · rcases hread (some job) hjob with hold | hcurrent
      · exact hwatch.succeeded b job hb hlive hold hsucceeded hhash hopen
      · refine ⟨fun job' hjob' => ?_, fun b' hb' hlive' => ?_⟩
        · obtain rfl := Option.some.inj (hcurrent.symm.trans hjob')
          exact hhash
        · exact hwatch.job_read hworld hb hlive hcurrent hsucceeded hhash hopen hb' hlive'
  | applyConfigMap k controller spec =>
    intro x hx key hkey
    cases r with
    | error e =>
      cases heffect
      exact hworker x hx key hkey
    | ok a =>
      have hwatch := hworker x hx key hkey
      obtain ⟨key', read, hreads, -, rfl, hcase⟩ := hreq
      obtain rfl := hreads.same (hkey ▸ hx)
      cases heffect with
      | none _ _ hidle => exact hidle.elim
      | applyConfigMap =>
        simp only [backendAccount, backendNote, hreads.child "db-state", Option.some.injEq]
        rcases hcase with rfl | ⟨rfl, rfl, -⟩
        · have hother : stateKey key' ≠
              bucketKey key' :=
            storageBackendResourceKey_ne (by decide)
          rw [if_neg hother]
          exact hwatch.other_map hother _
        · rw [if_pos rfl]
          refine hwatch.record fun b hb => ?_
          obtain rfl := Option.some.inj (hreads.backend.symm.trans hb)
          exact databaseState_registered
  | deleteConfigMap k =>
    intro x hx key hkey
    have hwatch := hworker x hx key hkey
    obtain ⟨key', read, hreads, hdeleting, hcase⟩ := hreq
    obtain rfl := hreads.same (hkey ▸ hx)
    have hforget : ∀ {w}, BackendWatch d strict key' m w →
        BackendWatch d strict key' { m with state := none } w := by
      intro w h
      refine ⟨h.had, h.since, h.same, h.tamoss, fun state hstate => ?_, h.absent, h.succeeded⟩
      cases hstate
    cases heffect with
    | none => exact hforget hwatch
    | deleteConfigMap =>
      rcases hcase with rfl | rfl
      · exact hforget (hwatch.other_map (storageBackendResourceKey_ne (by decide)) none)
      · refine hwatch.unrecord fun b hb => ?_
        obtain rfl := Option.some.inj (hreads.backend.symm.trans hb)
        exact hdeleting
  | applyJob k controller spec =>
    intro x hx key hkey
    have hwatch := hworker x hx key hkey
    cases heffect <;> exact hwatch.forget_jobs rfl rfl rfl
  | deleteJob k foreground =>
    cases foreground with
    | true => exact hstep rfl
    | false =>
      intro x hx key hkey
      have hwatch := hworker x hx key hkey
      cases heffect <;> exact hwatch.forget_jobs rfl rfl rfl
  | _ => exact hstep rfl

end Step

end Tamoss.Jobs
