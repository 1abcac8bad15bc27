/-
  **Workers that take requests from a queue.**
-/
import Tamoss.Lib.Account

namespace Lib

variable {C : Type} {R : C → Type} {μ : Type}

/-- What a list of answered calls leaves in the memory, the last call being the head. -/
def Account.recall (𝒜 : Account C R μ) (m : μ) : List (Σ c, R c) → μ
  | [] => m
  | a :: l => 𝒜.note a.1 a.2 (𝒜.recall m l)

/-- What is left of a program after some answers, the latest of them first. -/
inductive Prog.Left {α : Type} (p₀ : Prog C R α) : List (Σ c, R c) → Prog C R α → Prop
  | start : Left p₀ [] p₀
  | answer {l : List (Σ c, R c)} {q : C} {k : R q → Prog C R α} (r : R q) :
      Left p₀ l (.call q k) → Left p₀ (⟨q, r⟩ :: l) (k r)

/-- Operations and their programs, the requests their calls take from the queue, and what
    a call does to the world; `none` when it is blocked. -/
structure Service (C : Type) (R : C → Type) where
  Op : Type
  World : Type
  Request : Type
  Choice : Type
  program : Op → Prog C R Unit
  claim : C → Option Request
  perform : Choice → (c : C) → World → Option (R c × World)

namespace Service

variable (V : Service C R)

structure State where
  world : V.World
  queue : V.Request → Option Nat

/-- The request of the call, if it takes one, is free. -/
def Admits (q : C) (queue : V.Request → Option Nat) : Prop :=
  ∀ x ∈ V.claim q, queue x = none

instance (q : C) (queue : V.Request → Option Nat) : Decidable (V.Admits q queue) :=
  match h : V.claim q with
  | none => .isTrue (by simp [Admits, h])
  | some x =>
    match hx : queue x with
    | none => .isTrue (by simp [Admits, h, hx])
    | some _ => .isFalse (by simp [Admits, h, hx])

variable [DecidableEq V.Request]

/-- The queue after worker `i` has made the call. -/
def taken (i : Nat) (q : C) (queue : V.Request → Option Nat) : V.Request → Option Nat :=
  fun x => if V.claim q = some x then some i else queue x

/-- The workers of a service as interleaved threads. -/
def machine : Machine Nat C R where
  Op := V.Op
  Shared := V.State
  Local := List (Σ c, R c)
  Choice := V.Choice
  program := V.program
  idle := []
  enter _ _ s := s
  exec i ch q s l :=
    if V.Admits q s.queue then
      (V.perform ch q s.world).map fun a => (a.1, ⟨a.2, V.taken i q s.queue⟩, ⟨q, a.1⟩ :: l)
    else none
  leave i s := { s with queue := fun x => if s.queue x = some i then none else s.queue x }

/-- Which operations may start, and which calls may take effect: judged by the answer and by the
    world before the call. -/
structure Conduct where
  starts : V.Op → Prop := fun _ => True
  calls : (c : C) → R c → V.World → Prop := fun _ _ _ => True

def Conduct.discipline {V : Service C R} [DecidableEq V.Request] (D : V.Conduct) :
    V.machine.Discipline :=
  ⟨D.starts, fun _ q r s _ => D.calls q r s.world⟩

/-- The configurations of the runs that respect `D`, from `w₀` with nobody at work. -/
def Reachable (D : V.Conduct) (w₀ : V.World) (c : V.machine.Config) : Prop :=
  V.machine.Reachable D.discipline ⟨w₀, fun _ => none⟩ c

/-- No restriction. -/
def Conduct.free : V.Conduct := {}

instance : DecidablePred (Conduct.free V).starts := fun _ => .isTrue trivial

instance (q : C) (r : R q) (w : V.World) : Decidable ((Conduct.free V).calls q r w) :=
  .isTrue trivial

section Run

variable {V}
variable (D : V.Conduct) [hs : DecidablePred D.starts] [∀ q r w, Decidable (D.calls q r w)]

def Conduct.test (c : V.machine.Config) : V.machine.Action → Bool
  | .start _ op => @decide (D.starts op) (hs op)
  | .call i ch =>
    match c.threads i with
    | some ⟨_, .call q _⟩ =>
      match V.perform ch q c.shared.world with
      | some (r, _) => decide (D.calls q r c.shared.world)
      | none => true
    | _ => true
  | .leave _ => true

variable {D}

theorem Conduct.permits_of_test {c : V.machine.Config} {a : V.machine.Action}
    (h : D.test c a = true) : D.discipline.Permits c a := by
  cases a with
  | start i op => exact @of_decide_eq_true (D.starts op) (hs op) h
  | call i ch =>
    intro l q k r s l' hth hex
    simp only [machine] at hex
    split at hex
    · obtain ⟨a, ha, heq⟩ := Option.map_eq_some_iff.mp hex
      cases heq
      simp only [test, hth, ha, decide_eq_true_eq] at h
      exact h
    · cases hex
  | leave i => trivial

/-- Nobody is at work. -/
def start (w₀ : V.World) : V.machine.Config := .initial ⟨w₀, fun _ => none⟩

theorem Reachable.of_run {w₀ : V.World} (as : List V.machine.Action)
    {P : V.machine.Config → Prop} [DecidablePred P]
    (h : (V.machine.run D.test (start w₀) as).any (fun c => decide (P c)) = true) :
    ∃ c, V.Reachable D w₀ c ∧ P c := by
  obtain ⟨c, hc, hP⟩ := Machine.exists_of_any h
  exact ⟨c, Machine.Reachable.of_run_permits Conduct.permits_of_test .init hc, hP⟩

end Run

/-- Facts about the world, and about what a worker on a request has been told; a memory says which
    request that is. -/
structure Knowledge (V : Service C R) (μ : Type) where
  world : V.World → Prop
  request : μ → Option V.Request
  worker : V.Request → μ → V.World → Prop

variable {V} {𝒜 : Account C R μ} {m₀ : μ} {K : V.Knowledge μ}

/-- The memory is right about the request that was taken. -/
structure Attested (𝒜 : Account C R μ) (m₀ : μ) (K : V.Knowledge μ) : Prop where
  start : K.request m₀ = none
  note : ∀ q r m, 𝒜.Req q m → K.request (𝒜.note q r m) = (V.claim q).or (K.request m)

/-- What is known of a worker: what it still has to do keeps to the account, it has the
    request it has taken, and what it was told about it can be relied on. -/
structure Knows (𝒜 : Account C R μ) (m₀ : μ) (K : V.Knowledge μ) (i : Nat)
    (l : List (Σ c, R c)) (p : Prog C R Unit) (s : V.State) : Prop where
  minds : p.Minds 𝒜 (fun _ _ => True) (𝒜.recall m₀ l)
  owns : ∀ x, K.request (𝒜.recall m₀ l) = some x → s.queue x = some i
  worker : ∀ x, K.request (𝒜.recall m₀ l) = some x → K.worker x (𝒜.recall m₀ l) s.world

/-- What is known of a configuration. -/
structure Known (𝒜 : Account C R μ) (m₀ : μ) (K : V.Knowledge μ) (c : V.machine.Config) :
    Prop where
  world : K.world c.shared.world
  workers : ∀ i l p, c.threads i = some ⟨l, p⟩ → V.Knows 𝒜 m₀ K i l p c.shared

/-- What a call does to the facts: it keeps those about the world, gives the worker its
    new ones, and leaves the workers on other requests theirs. -/
structure Kept (𝒜 : Account C R μ) (K : V.Knowledge μ) (q : C) (r : R q) (m : μ)
    (w' w : V.World) : Prop where
  world : K.world w'
  worker : ∀ x, K.request (𝒜.note q r m) = some x → K.worker x (𝒜.note q r m) w'
  others : ∀ x m', K.request m' = some x → K.request m ≠ some x → V.claim q ≠ some x →
    K.worker x m' w → K.worker x m' w'

variable {c : V.machine.Config} {l : List (Σ c, R c)}

theorem Known.call (h : Known 𝒜 m₀ K c) (hatt : Attested 𝒜 m₀ K)
    {i : Nat} {q : C} {k : R q → Prog C R Unit} {r : R q} {w' : V.World}
    (hth : c.threads i = some ⟨l, .call q k⟩) (hfree : V.Admits q c.shared.queue)
    (hgiven : 𝒜.Given q r (𝒜.recall m₀ l))
    (hkept : Kept 𝒜 K q r (𝒜.recall m₀ l) w' c.shared.world) :
    Known 𝒜 m₀ K (⟨⟨w', V.taken i q c.shared.queue⟩,
      Function.update c.threads i (some ⟨⟨q, r⟩ :: l, k r⟩)⟩ : V.machine.Config) := by
  have htaken : ∀ x j, c.shared.queue x = some j → V.taken i q c.shared.queue x = some j := by
    intro x j hx
    unfold taken
    split
    · rename_i hq
      rw [hfree x hq] at hx
      cases hx
    · exact hx
  have hi := h.workers i l _ hth
  refine ⟨hkept.world, fun j l' p hj => ?_⟩
  change Function.update c.threads i _ j = some ⟨l', p⟩ at hj
  by_cases hji : j = i
  · subst hji
    rw [Function.update_self] at hj
    cases hj
    refine ⟨hi.minds.2 r hgiven, fun x hx => ?_, fun x hx => hkept.worker x hx⟩
    change K.request (𝒜.note q r (𝒜.recall m₀ l)) = some x at hx
    rw [hatt.note q r _ hi.minds.1] at hx
    cases hq : V.claim q with
    | none =>
      rw [hq, Option.none_or] at hx
      exact htaken x j (hi.owns x hx)
    | some y =>
      rw [hq, Option.some_or] at hx
      exact if_pos (hq.trans hx)
  · rw [Function.update_of_ne hji] at hj
    have hj' := h.workers j l' p hj
    refine ⟨hj'.minds, fun x hx => htaken x j (hj'.owns x hx), fun x hx => ?_⟩
    -- the other worker has the request, so it is neither free nor ours
    refine hkept.others x _ hx (fun hxm => ?_) (fun hxq => ?_) (hj'.worker x hx)
    · exact hji (Option.some.inj ((hj'.owns x hx).symm.trans (hi.owns x hxm)))
    · exact absurd ((hj'.owns x hx).symm.trans (hfree x hxq)) (by simp)

theorem Reachable.known {D : V.Conduct} {w₀ : V.World} (hinit : K.world w₀) (hatt : Attested 𝒜 m₀ K)
    (hstart : ∀ op, D.starts op → (V.program op).Minds 𝒜 (fun _ _ => True) m₀)
    (hgiven : ∀ ch q w r w' m, K.world w → V.perform ch q w = some (r, w') → D.calls q r w →
      𝒜.Given q r m)
    (hcall : ∀ ch q w r w' m, K.world w → (∀ x, K.request m = some x → K.worker x m w) →
      𝒜.Req q m → V.perform ch q w = some (r, w') → D.calls q r w → Kept 𝒜 K q r m w' w)
    (hc : V.Reachable D w₀ c) : Known 𝒜 m₀ K c := by
  induction hc with
  | init => exact ⟨hinit, fun i l p h => by cases h⟩
  | @step c c' a hc hstep hperm ih =>
    cases Machine.stepped hstep with
    | start i op _ =>
      refine ⟨ih.world, fun j l p hj => ?_⟩
      change Function.update c.threads i _ j = some ⟨l, p⟩ at hj
      by_cases hji : j = i
      · subst hji
        rw [Function.update_self] at hj
        cases hj
        have hno : ∀ x, K.request m₀ ≠ some x := by
          intro x
          rw [hatt.start]
          exact nofun
        exact ⟨hstart op hperm, fun x hx => absurd hx (hno x), fun x hx => absurd hx (hno x)⟩
      · rw [Function.update_of_ne hji] at hj
        exact ih.workers j l p hj
    | call i ch l q k r s l' hth hex =>
      have hcalls := hperm l q k r s l' hth hex
      simp only [machine] at hex
      split at hex
      · rename_i hfree
        obtain ⟨a, ha, heq⟩ := Option.map_eq_some_iff.mp hex
        cases heq
        have hi := ih.workers i l _ hth
        exact ih.call hatt hth hfree (hgiven ch q _ a.1 a.2 _ ih.world ha hcalls)
          (hcall ch q _ a.1 a.2 _ ih.world hi.worker hi.minds.1 ha hcalls)
      · cases hex
    | leave i =>
      refine ⟨ih.world, fun j l p hj => ?_⟩
      change Function.update c.threads i none j = some ⟨l, p⟩ at hj
      by_cases hji : j = i
      · subst hji
        rw [Function.update_self] at hj
        cases hj
      · rw [Function.update_of_ne hji] at hj
        have hj' := ih.workers j l p hj
        refine ⟨hj'.minds, fun x hx => ?_, hj'.worker⟩
        have hne : c.shared.queue x ≠ some i := by
          rw [hj'.owns x hx]
          exact fun heq => hji (Option.some.inj heq)
        change (if c.shared.queue x = some i then none else c.shared.queue x) = some j
        rw [if_neg hne]
        exact hj'.owns x hx

/-- Every worker is at some point of the program of an operation that may start, and keeps to
    the account of that operation. -/
theorem Reachable.minds {D : V.Conduct} {w₀ : V.World} {𝒜 : V.Op → Account C R μ}
    (hstart : ∀ op, D.starts op → (V.program op).Minds (𝒜 op) (fun _ _ => True) m₀)
    (hgiven : ∀ op ch q w r w' m, V.perform ch q w = some (r, w') → (𝒜 op).Given q r m)
    (hc : V.Reachable D w₀ c) {i : Nat} {p : Prog C R Unit} (hth : c.threads i = some ⟨l, p⟩) :
    ∃ op, D.starts op ∧ (V.program op).Left l p ∧
      p.Minds (𝒜 op) (fun _ _ => True) ((𝒜 op).recall m₀ l) := by
  induction hc generalizing i l p with
  | init => cases hth
  | step a hc hstep hperm ih =>
    cases Machine.stepped hstep with
    | start j op _ =>
      by_cases hij : i = j
      · subst hij
        cases (Function.update_self ..).symm.trans hth
        exact ⟨op, hperm, .start, hstart op hperm⟩
      · exact ih ((Function.update_of_ne hij _ _).symm.trans hth)
    | call j ch l₀ q k r s l' hq hex =>
      by_cases hij : i = j
      · subst hij
        cases (Function.update_self ..).symm.trans hth
        obtain ⟨op, hop, hleft, hminds⟩ := ih hq
        simp only [machine] at hex
        split at hex
        · obtain ⟨answer, hanswer, heq⟩ := Option.map_eq_some_iff.mp hex
          cases heq
          exact ⟨op, hop, .answer _ hleft, hminds.2 _ (hgiven op ch q _ _ _ _ hanswer)⟩
        · cases hex
      · exact ih ((Function.update_of_ne hij _ _).symm.trans hth)
    | leave j =>
      by_cases hij : i = j
      · subst hij
        cases (Function.update_self ..).symm.trans hth
      · exact ih ((Function.update_of_ne hij _ _).symm.trans hth)

end Service

end Lib
