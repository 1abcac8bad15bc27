/-
  **`StorageBackend`s, their rows and their registration.**
-/
import Tamoss.Jobs.Names
import Tamoss.Jobs.BackendAccount

namespace Tamoss.Jobs

open Lib Operator

variable {d : Site} {key : Key} {w w' : World}

theorem get_clearDefault (t : Table String StoredRow fun r => r.row.id) (isDefault : Bool)
    (id k : String) : (clearDefault t isDefault id).get k =
      (t.get k).map fun r => if isDefault ∧ r.row.id ≠ id then r.demote else r := by
  have hid : ∀ r : StoredRow, (if isDefault ∧ r.row.id ≠ id then r.demote else r).row.id = r.row.id := by
    intro r
    split <;> rfl
  cases hget : t.get k with
  | none =>
    rw [Table.get_eq_none] at hget
    refine Table.get_eq_none.mpr fun r' hr' => ?_
    obtain ⟨r, hr, rfl⟩ := List.mem_map.mp hr'
    exact fun hk => hget r hr ((hid r).symm.trans hk)
  | some r =>
    obtain ⟨hr, hk⟩ := Table.get_eq_some.mp hget
    exact Table.get_eq_some.mpr ⟨List.mem_map.mpr ⟨r, hr, rfl⟩, (hid r).trans hk⟩

theorem get_register_self (db : Database) (row : Row) (writer : Option Uid) :
    (db.register row writer).backends.get row.id = some ⟨row, writer⟩ :=
  Table.get_upsert_self _ (⟨row, writer⟩ : StoredRow)

theorem get_register_of_ne (db : Database) {row : Row} (writer : Option Uid) {id : String}
    (h : id ≠ row.id) : (db.register row writer).backends.get id =
      (db.backends.get id).map fun r => if row.defaultStorage then r.demote else r := by
  have hkept := Table.get_upsert_of_ne (clearDefault db.backends row.defaultStorage row.id)
    (r := ⟨row, writer⟩) h
  rw [Database.register, hkept, get_clearDefault]
  cases hget : db.backends.get id with
  | none => rfl
  | some r =>
    have hr : r.row.id ≠ row.id := (Table.get_eq_some.mp hget).2 ▸ h
    simp [hr]

theorem get_deregister_of_ne (db : Database) {id id' : String} (h : id' ≠ id) :
    (db.deregister id).backends.get id' = db.backends.get id' := Table.get_erase_of_ne _ h

section CarryOut

variable {job : Job} {age : Nat} {inUse : Bool} {databases : Connection → Database}
  {image : String} {c : Connection}

theorem carryOut_register (h : w.carryOut d job age inUse = some { w with databases }) {row : Row}
    (htask : job.task = .register image c row) : databases = fun x =>
      if x = c then (w.databases c).register row job.controller else w.databases x := by
  simp only [World.carryOut, htask, World.setDatabase, Option.some.injEq] at h
  exact (congrArg World.databases h).symm

theorem carryOut_deregister (h : w.carryOut d job age inUse = some { w with databases })
    {id : String} (htask : job.task = .deregister image c id) : databases = fun x =>
      if x = c then (w.databases c).deregister id else w.databases x := by
  simp only [World.carryOut, htask, World.setDatabase, Option.some.injEq] at h
  exact (congrArg World.databases h).symm

end CarryOut

def Database.OneDefault (db : Database) : Prop :=
  ∀ r ∈ db.backends.rows, ∀ r' ∈ db.backends.rows, r.row.defaultStorage = true →
    r'.row.defaultStorage = true → r = r'

variable {db : Database}

theorem Database.OneDefault.deregister (h : db.OneDefault) (id : String) :
    (db.deregister id).OneDefault := by
  intro r hr r' hr' hdefault hdefault'
  exact h r (Table.mem_erase.mp hr).1 r' (Table.mem_erase.mp hr').1 hdefault hdefault'

theorem Database.OneDefault.register (h : db.OneDefault) (row : Row)
    (writer : Option Uid) : (db.register row writer).OneDefault := by
  -- a row that was there and is the default was so before, and the new row is not
  have hold : ∀ r, r ∈ (clearDefault db.backends row.defaultStorage row.id).rows →
      r.row.id ≠ row.id → r.row.defaultStorage = true →
      r ∈ db.backends.rows ∧ row.defaultStorage = false := by
    intro r hr hne hdefault
    obtain ⟨r₀, hr₀, heq⟩ := List.mem_map.mp hr
    split at heq
    · subst heq
      cases hdefault
    · rename_i hkeep
      subst heq
      refine ⟨hr₀, ?_⟩
      cases hflag : row.defaultStorage with
      | false => rfl
      | true => exact absurd ⟨hflag, hne⟩ hkeep
  intro r hr r' hr' hdefault hdefault'
  rcases Table.mem_upsert.mp hr with ⟨hmem, hne⟩ | rfl <;>
    rcases Table.mem_upsert.mp hr' with ⟨hmem', hne'⟩ | rfl
  · exact h r (hold r hmem hne hdefault).1 r' (hold r' hmem' hne' hdefault').1 hdefault hdefault'
  · have hplain := (hold r hmem hne hdefault).2
    exact absurd (hplain.symm.trans hdefault') Bool.false_ne_true
  · have hplain := (hold r' hmem' hne' hdefault').2
    exact absurd (hplain.symm.trans hdefault) Bool.false_ne_true
  · rfl

variable {a b : StorageBackend}

theorem resolved_id_of_fixed (h : a.spec.fixed = b.spec.fixed) :
    (a.resolved d key).id = (b.resolved d key).id := by
  have hid : a.spec.id = b.spec.id := congrArg Prod.fst h
  simp only [StorageBackend.resolved, BackendSpec.applyDefaults, hid]

theorem media_of_fixed (h : a.spec.fixed = b.spec.fixed) :
    (a.resolved d key).isHibernateDestination = (b.resolved d key).isHibernateDestination := by
  have husage : a.spec.usage = b.spec.usage := congrArg (fun x => x.2.2.2.2) h
  have hresolved : (a.resolved d key).usage = (b.resolved d key).usage := by
    simp only [StorageBackend.resolved, BackendSpec.applyDefaults,
      StorageBackendSpec.applyDefaults, husage]
  unfold StorageBackendSpec.isHibernateDestination
  rw [hresolved]

theorem tamossRef_of_fixed (h : a.spec.fixed = b.spec.fixed) :
    a.spec.tamossRef = b.spec.tamossRef := congrArg (fun x => x.2.2.2.1) h

def World.connection (d : Site) (w : World) (key : Key) (b : StorageBackend) : Option Connection :=
  match w.tamosses.current ⟨key.namespaceName, b.spec.tamossRef⟩ with
  | none => none
  | some t =>
    match resolveTamoss d.installation t with
    | .error _ => none
    | .ok t => some (dbConnection t)

theorem connection_of_fixed (h : a.spec.fixed = b.spec.fixed) :
    w.connection d key a = w.connection d key b := by
  simp only [World.connection, tamossRef_of_fixed h]

theorem connection_congr (h : w'.tamosses = w.tamosses) (key : Key) (b : StorageBackend) :
    w'.connection d key b = w.connection d key b := by
  simp only [World.connection, h]

theorem connection_of_resolved {b : StorageBackend} {stored t : Instance}
    (hstored : w.tamosses.current ⟨key.namespaceName, b.spec.tamossRef⟩ = some stored)
    (ht : resolveTamoss d.installation stored = .ok t) :
    w.connection d key b = some (dbConnection t) := by
  simp only [World.connection, hstored, ht]

variable {state : Option ConfigMap} {s : BackendSpec}

theorem hash_of_registered (h : databaseRegistered state s = true) :
    ∃ m, state = some m ∧ m.desiredHash = registrationHash s.row := by
  cases state with
  | none => cases h
  | some m =>
    simp only [databaseRegistered, Bool.and_eq_true, decide_eq_true_eq] at h
    exact ⟨m, rfl, h.2⟩

theorem row_eq_of_registered {s s' : BackendSpec}
    (h : databaseRegistered state s = true) (h' : databaseRegistered state s' = true) :
    s.row = s'.row := by
  obtain ⟨m, hm, hhash⟩ := hash_of_registered h
  obtain ⟨m', hm', hhash'⟩ := hash_of_registered h'
  cases hm.symm.trans hm'
  exact registrationHash_injective (hhash.symm.trans hhash')

theorem databaseState_registered {b : StorageBackend} {controller : Option Uid} :
    databaseRegistered (some { databaseState key b s with controller }) s = true := by
  simp [databaseRegistered, databaseState, valueOf, List.lookup_cons]

structure Backends (w : World) : Prop where
  dated : ∀ key, (w.backends.object key).Dated w.next
  below : ∀ key b, w.backends.Had key b → b.uid < w.next
  same : ∀ key a b, w.backends.Had key a → w.backends.Had key b →
    a.uid = b.uid ∧ a.spec.fixed = b.spec.fixed
  apart : ∀ key key' a b, w.backends.Had key a → w.backends.Had key' b → a.uid = b.uid → key = key'
  final : ∀ key a b, w.backends.Had key a → a.deleting = true → w.backends.current key = some b →
    b.deleting = true

theorem Backends.fixed (h : Backends w) (ha : w.backends.Had key a)
    (hb : w.backends.Had key b) : a.spec.fixed = b.spec.fixed := (h.same key a b ha hb).2

theorem Backends.read_current (h : Backends w) {read b : StorageBackend}
    (hread : w.backends.Had key read) (hb : w.backends.current key = some b)
    (hversion : b.resourceVersion = read.resourceVersion) : b = read :=
  (h.dated key).read_current hread hb hversion

theorem Effect.backends_had {c : Call} {r : c.Resp} (h : Effect d w c r w') {b : StorageBackend}
    (hb : w.backends.Had key b) : w'.backends.Had key b := by
  rcases h.backends with hsame | ⟨k, s, -, hput, -⟩
  · rwa [hsame]
  · rw [hput]
    exact hb.put

theorem Backends.steady (h : Backends w) :
    w.backends.Steady StorageBackend.uid (fun b => b.spec.fixed) StorageBackend.deleting w.next :=
  ⟨h.dated, h.below, h.same, h.apart, h.final⟩

theorem Backends.of_steady (h : w.backends.Steady StorageBackend.uid (fun b => b.spec.fixed)
    StorageBackend.deleting w.next) : Backends w :=
  ⟨h.dated, h.below, h.same, h.apart, h.final⟩

theorem Backends.step (h : Backends w) {c : Call} {r : c.Resp} (heffect : Effect d w c r w')
    (hnew : ∀ key spec, c = .change (.createBackend key spec) → ∀ b, ¬ w.backends.Had key b) :
    Backends w' := by
  apply Backends.of_steady
  rcases heffect.backends with hsame | ⟨k, s, hstep, hput, hnext, -⟩
  · rw [hsame]
    exact h.steady.mono heffect.next_le
  · rw [hput, hnext]
    refine h.steady.put fun b hb => ?_
    obtain ⟨hversion, ⟨spec, hcall, -, huid, -⟩ | hold⟩ := hstep.version hb
    · exact ⟨hversion, .inl ⟨huid, hnew k spec hcall⟩⟩
    · exact ⟨hversion, .inr hold⟩

theorem Backends.initial (h : w.backends = {}) : Backends w := by
  apply Backends.of_steady
  rw [h]
  exact Directory.Steady.empty

end Tamoss.Jobs
