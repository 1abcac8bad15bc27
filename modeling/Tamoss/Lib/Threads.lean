/-
  **Interleaved threads and a rely–guarantee rule.**

  A `Machine` reads programs (`Lib.Prog`) over a shared state: any number of threads run
  concurrently, a thread's next call takes effect atomically, and a thread may vanish at any
  moment (it finished, failed or crashed).
-/
import Tamoss.Lib.Program
import Mathlib.Logic.Function.Basic

namespace Lib

structure Machine (ι C : Type) (R : C → Type) where
  Op : Type
  Shared : Type
  Local : Type
  Choice : Type
  program : Op → Prog C R Unit
  idle : Local
  enter : ι → Op → Shared → Shared
  /-- one call: `none` when it is blocked -/
  exec : ι → Choice → (c : C) → Shared → Local → Option (R c × Shared × Local)
  leave : ι → Shared → Shared

namespace Machine

theorem exists_of_any {α : Type} {o : Option α} {P : α → Prop} [DecidablePred P]
    (h : o.any (fun a => decide (P a)) = true) : ∃ a, o = some a ∧ P a := by
  obtain ⟨a, ha, hP⟩ := Option.any_eq_true .. |>.mp h
  exact ⟨a, ha, of_decide_eq_true hP⟩

abbrev Always {α : Sort _} {β : Sort _} : α → β → Prop := fun _ _ => True

variable {ι C : Type} {R : C → Type} (M : Machine ι C R)

/-- A running thread: its private state and what it still has to do. -/
structure Thread where
  loc : M.Local
  prog : Prog C R Unit

/-- The shared state and the running threads. -/
structure Config where
  shared : M.Shared
  threads : ι → Option M.Thread

/-- One scheduling decision. -/
inductive Action where
  | start (i : ι) (op : M.Op)
  | call (i : ι) (ch : M.Choice)
  | leave (i : ι)

/-- Nothing is running. -/
def Config.initial {M : Machine ι C R} (s : M.Shared) : M.Config :=
  ⟨s, fun _ => none⟩

/-- The effect of one scheduling decision, `none` when it is not possible. -/
def step [DecidableEq ι] (c : M.Config) : M.Action → Option M.Config
  | .start i op =>
      match c.threads i with
      | some _ => none
      | none => some
          ⟨M.enter i op c.shared,
            Function.update c.threads i (some ⟨M.idle, M.program op⟩)⟩
  | .call i ch =>
      match c.threads i with
      | some ⟨l, .call q k⟩ =>
          match M.exec i ch q c.shared l with
          | some (r, s, l') => some ⟨s, Function.update c.threads i (some ⟨l', k r⟩)⟩
          | none => none
      | _ => none
  | .leave i =>
      match c.threads i with
      | some _ => some ⟨M.leave i c.shared, Function.update c.threads i none⟩
      | none => none

/-- What an action makes of a configuration. -/
inductive Stepped [DecidableEq ι] (c : M.Config) : M.Action → M.Config → Prop
  | start (i : ι) (op : M.Op) (hnone : c.threads i = none) :
      Stepped c (.start i op)
        ⟨M.enter i op c.shared, Function.update c.threads i (some ⟨M.idle, M.program op⟩)⟩
  | call (i : ι) (ch : M.Choice) (l : M.Local) (q : C) (k : R q → Prog C R Unit) (r : R q)
      (s : M.Shared) (l' : M.Local) (hth : c.threads i = some ⟨l, .call q k⟩)
      (hex : M.exec i ch q c.shared l = some (r, s, l')) :
      Stepped c (.call i ch) ⟨s, Function.update c.threads i (some ⟨l', k r⟩)⟩
  | leave (i : ι) : Stepped c (.leave i) ⟨M.leave i c.shared, Function.update c.threads i none⟩

variable {M} in
theorem stepped [DecidableEq ι] {c c' : M.Config} {a : M.Action} (h : M.step c a = some c') :
    M.Stepped c a c' := by
  cases a with
  | start i op =>
    simp only [Machine.step] at h
    split at h
    · cases h
    · rename_i hnone
      cases h
      exact .start i op hnone
  | call i ch =>
    simp only [Machine.step] at h
    split at h
    · rename_i l q k hth
      split at h
      · rename_i r s l' hex
        cases h
        exact .call i ch l q k r s l' hth hex
      · cases h
    · cases h
  | leave i =>
    simp only [Machine.step] at h
    split at h
    · cases h
      exact .leave i
    · cases h

/-- Which operations may start, and which calls may take effect (judged by the
    answer and by the state before the call). -/
structure Discipline where
  starts : M.Op → Prop
  calls : ι → (c : C) → R c → M.Shared → M.Local → Prop

/-- Every operation may start and every call may take effect. -/
def Discipline.free : M.Discipline := ⟨fun _ => True, fun _ _ _ _ _ => True⟩

def Discipline.Permits {M : Machine ι C R} (D : M.Discipline) (c : M.Config) :
    M.Action → Prop
  | .start _ op => D.starts op
  | .call i ch => ∀ l q k r s l', c.threads i = some ⟨l, .call q k⟩ →
      M.exec i ch q c.shared l = some (r, s, l') → D.calls i q r c.shared l
  | .leave _ => True

/-- The configurations of the runs that respect `D`, from `s₀` with no thread. -/
inductive Reachable [DecidableEq ι] (D : M.Discipline) (s₀ : M.Shared) :
    M.Config → Prop
  | init : Reachable D s₀ (.initial s₀)
  | step {c c' : M.Config} (a : M.Action) :
      Reachable D s₀ c → M.step c a = some c' → D.Permits c a → Reachable D s₀ c'

theorem Reachable.mono [DecidableEq ι] {M : Machine ι C R} {D D' : M.Discipline}
    {s₀ : M.Shared} {c : M.Config} (hstarts : ∀ op, D.starts op → D'.starts op)
    (hcalls : ∀ i q r s l, D.calls i q r s l → D'.calls i q r s l)
    (h : M.Reachable D s₀ c) : M.Reachable D' s₀ c := by
  induction h with
  | init => exact .init
  | step a _ hstep hperm ih =>
    refine .step a ih hstep ?_
    cases a with
    | start i op => exact hstarts op hperm
    | call i ch => exact fun l q k r s l' hth he => hcalls i q r _ l (hperm l q k r s l' hth he)
    | leave i => trivial

/-- The runs in which every call is made in a state satisfying `φ`. -/
def Discipline.assuming {M : Machine ι C R} (D : M.Discipline)
    (φ : ι → C → M.Shared → M.Local → Prop) : M.Discipline where
  starts := D.starts
  calls i q r s l := D.calls i q r s l ∧ φ i q s l

theorem Reachable.assuming [DecidableEq ι] {M : Machine ι C R} {D : M.Discipline}
    {s₀ : M.Shared} {φ : ι → C → M.Shared → M.Local → Prop}
    (hφ : ∀ c, M.Reachable D s₀ c → ∀ i l q k, c.threads i = some ⟨l, .call q k⟩ →
      φ i q c.shared l) {c : M.Config} (h : M.Reachable D s₀ c) :
    M.Reachable (D.assuming φ) s₀ c := by
  induction h with
  | init => exact .init
  | @step c _ a hc hstep hperm ih =>
    refine .step a ih hstep ?_
    cases a with
    | start i op => exact hperm
    | call i ch =>
      intro l q k r s l' hth he
      exact ⟨hperm l q k r s l' hth he, hφ c hc i l q k hth⟩
    | leave i => trivial

def tests (starts : M.Op → Bool) (calls : ι → C → M.Shared → M.Local → Bool)
    (c : M.Config) : M.Action → Bool
  | .start _ op => starts op
  | .call i _ =>
      match c.threads i with
      | some ⟨l, .call q _⟩ => calls i q c.shared l
      | _ => true
  | .leave _ => true

/-- Perform a list of actions, as long as each is possible and passes the test. -/
def run [DecidableEq ι] (test : M.Config → M.Action → Bool) (c : M.Config) :
    List M.Action → Option M.Config
  | [] => some c
  | a :: as =>
      if test c a then
        match M.step c a with
        | some c' => run test c' as
        | none => none
      else none

section Run

variable {M} {D : M.Discipline} {starts : M.Op → Bool}
variable {calls : ι → C → M.Shared → M.Local → Bool}

theorem Discipline.permits_of_tests (hs : ∀ op, starts op = true → D.starts op)
    (hc : ∀ i q r s l, calls i q s l = true → D.calls i q r s l) {c : M.Config}
    {a : M.Action} (h : M.tests starts calls c a = true) : D.Permits c a := by
  cases a with
  | start i op => exact hs op h
  | call i ch =>
    intro l q k r s l' hth _
    simp only [tests, hth] at h
    exact hc i q r _ l h
  | leave i => trivial

variable {as : List M.Action} {c c' : M.Config} {s₀ : M.Shared}

theorem Reachable.of_run_permits [DecidableEq ι] {test : M.Config → M.Action → Bool}
    (ht : ∀ {c a}, test c a = true → D.Permits c a) (h₀ : M.Reachable D s₀ c)
    (h : M.run test c as = some c') : M.Reachable D s₀ c' := by
  induction as generalizing c with
  | nil => exact Option.some.inj h ▸ h₀
  | cons a as ih =>
    rw [run] at h
    split at h
    · rename_i hok
      split at h
      · rename_i c₁ hstep
        exact ih (.step a h₀ hstep (ht hok)) h
      · cases h
    · cases h

theorem Reachable.of_run [DecidableEq ι] (hs : ∀ op, starts op = true → D.starts op)
    (hc : ∀ i q r s l, calls i q s l = true → D.calls i q r s l) (h₀ : M.Reachable D s₀ c)
    (h : M.run (M.tests starts calls) c as = some c') : M.Reachable D s₀ c' :=
  .of_run_permits (D.permits_of_tests hs hc) h₀ h

end Run

/-! ### The rely–guarantee rule -/

/-- What the threads of a machine agree on: the discipline they follow, the invariant
    they all keep, what each may assume of the moves of the others, and what each call
    requires when it is issued. -/
structure Protocol where
  discipline : M.Discipline
  Inv : M.Shared → Prop
  Rely : ι → M.Shared → M.Shared → Prop
  Req : ι → C → M.Shared → M.Local → Prop := fun _ _ _ _ => True
  rely_refl : ∀ i s, Rely i s s
  rely_trans : ∀ i s t u, Rely i s t → Rely i t u → Rely i s u

section RelyGuarantee

variable {M} {α β : Type} (P : M.Protocol)

/-- From shared state `s` and private state `l`, whatever the other threads do
    (as far as `Rely` lets them), every call of the program is issued as required, keeps
    `Inv` and the others' rely if the discipline permits it, and a result satisfies `Q`. -/
def Safe (i : ι) (Q : α → M.Shared → M.Local → Prop) :
    Prog C R α → M.Shared → M.Local → Prop
  | .pure a, s, l => ∀ s', P.Rely i s s' → P.Inv s' → Q a s' l
  | .call c k, s, l => ∀ s', P.Rely i s s' → P.Inv s' → P.Req i c s' l ∧
      ∀ ch r s'' l', M.exec i ch c s' l = some (r, s'', l') →
        P.discipline.calls i c r s' l →
        P.Inv s'' ∧ (∀ j, j ≠ i → P.Rely j s' s'') ∧ Safe i Q (k r) s'' l'

variable {P}

variable {l : M.Local} {Q : α → M.Shared → M.Local → Prop} {p : Prog C R α} {i : ι}

theorem Safe.of_rely {s t : M.Shared} (h : Safe P i Q p s l) (hst : P.Rely i s t) :
    Safe P i Q p t l := by
  cases p with
  | pure a => exact fun s' hr hi => h s' (P.rely_trans _ _ _ _ hst hr) hi
  | call c k => exact fun s' hr hi => h s' (P.rely_trans _ _ _ _ hst hr) hi

variable {s : M.Shared}

theorem Safe.of_forall_rely
    (h : ∀ s', P.Rely i s s' → P.Inv s' → Safe P i Q p s' l) : Safe P i Q p s l := by
  cases p with
  | pure a => exact fun s' hr hi => h s' hr hi s' (P.rely_refl i s') hi
  | call c k => exact fun s' hr hi => h s' hr hi s' (P.rely_refl i s') hi

theorem Safe.bind {Q : β → M.Shared → M.Local → Prop} {f : α → Prog C R β}
    (h : Safe P i (fun a s l => Safe P i Q (f a) s l) p s l) : Safe P i Q (p.bind f) s l := by
  induction p generalizing s l with
  | pure a => exact Safe.of_forall_rely h
  | call c k ih =>
    intro s' hr hi
    obtain ⟨hreq, hcall⟩ := h s' hr hi
    refine ⟨hreq, fun ch r s'' l' he hd => ?_⟩
    obtain ⟨h1, h2, h3⟩ := hcall ch r s'' l' he hd
    exact ⟨h1, h2, ih r h3⟩

theorem Safe.mono {Q Q' : α → M.Shared → M.Local → Prop}
    (h : Safe P i Q p s l) (hQ : ∀ a s l, P.Inv s → Q a s l → Q' a s l) : Safe P i Q' p s l := by
  induction p generalizing s l with
  | pure a => exact fun s' hr hi => hQ a s' l hi (h s' hr hi)
  | call c k ih =>
    intro s' hr hi
    obtain ⟨hreq, hcall⟩ := h s' hr hi
    refine ⟨hreq, fun ch r s'' l' he hd => ?_⟩
    obtain ⟨h1, h2, h3⟩ := hcall ch r s'' l' he hd
    exact ⟨h1, h2, ih r h3⟩

variable [DecidableEq ι]

/-- What holds of a configuration of safe threads. -/
structure Config.Ok (P : M.Protocol) (c : M.Config) : Prop where
  inv : P.Inv c.shared
  safe : ∀ i l p, c.threads i = some ⟨l, p⟩ →
    Safe P i (fun _ _ _ => True) p c.shared l

variable {c : M.Config}

theorem Config.Ok.update (h : c.Ok P) (i : ι)
    (t : Option M.Thread) (hinv : P.Inv s) (hrely : ∀ j, j ≠ i → P.Rely j c.shared s)
    (ht : ∀ l p, t = some ⟨l, p⟩ → Safe P i (fun _ _ _ => True) p s l) :
    Config.Ok P ⟨s, Function.update c.threads i t⟩ := by
  refine ⟨hinv, fun j l p hj => ?_⟩
  change Function.update c.threads i t j = some ⟨l, p⟩ at hj
  by_cases hji : j = i
  · subst hji
    rw [Function.update_self] at hj
    exact ht l p hj
  · rw [Function.update_of_ne hji] at hj
    exact (h.safe j l p hj).of_rely (hrely j hji)

/-- **Soundness.** If every operation the discipline lets start is safe, the
    invariant holds in every reachable configuration. -/
theorem Reachable.ok (hstart : ∀ i op s, P.Inv s → P.discipline.starts op →
      P.Inv (M.enter i op s) ∧ (∀ j, j ≠ i → P.Rely j s (M.enter i op s)) ∧
        Safe P i (fun _ _ _ => True) (M.program op) (M.enter i op s) M.idle)
    (hleave : ∀ i s, P.Inv s →
      P.Inv (M.leave i s) ∧ ∀ j, j ≠ i → P.Rely j s (M.leave i s))
    {s₀ : M.Shared} (hinit : P.Inv s₀) (hc : M.Reachable P.discipline s₀ c) : c.Ok P := by
  induction hc with
  | init => exact ⟨hinit, fun i l p h => by simp [Config.initial] at h⟩
  | @step c c' a hc hstep hperm ih =>
    cases stepped hstep with
    | start i op _ =>
      obtain ⟨h1, h2, h3⟩ := hstart i op c.shared ih.inv hperm
      refine ih.update i _ h1 h2 fun l p hlp => ?_
      cases hlp
      exact h3
    | call i ch l q k r s l' hth hex =>
      obtain ⟨h1, h2, h3⟩ := (ih.safe i l (.call q k) hth c.shared (P.rely_refl _ _)
        ih.inv).2 ch r s l' hex (hperm l q k r s l' hth hex)
      refine ih.update i _ h1 h2 fun l p hlp => ?_
      cases hlp
      exact h3
    | leave i =>
      obtain ⟨h1, h2⟩ := hleave i c.shared ih.inv
      exact ih.update i _ h1 h2 fun l p hlp => by cases hlp

omit [DecidableEq ι] in
theorem Config.Ok.req (h : c.Ok P) {q : C}
    {k : R q → Prog C R Unit} (hth : c.threads i = some ⟨l, .call q k⟩) : P.Req i q c.shared l :=
  (h.safe i l (.call q k) hth c.shared (P.rely_refl _ _) h.inv).1

omit [DecidableEq ι] in
theorem Config.Ok.rely (h : c.Ok P) {q : C}
    {k : R q → Prog C R Unit} (hth : c.threads i = some ⟨l, .call q k⟩) {ch : M.Choice}
    {r : R q} {l' : M.Local} (hex : M.exec i ch q c.shared l = some (r, s, l'))
    (hcalls : P.discipline.calls i q r c.shared l) : ∀ j, j ≠ i → P.Rely j c.shared s :=
  ((h.safe i l (.call q k) hth c.shared (P.rely_refl _ _) h.inv).2 ch r s l' hex hcalls).2.1

end RelyGuarantee

end Machine

end Lib
