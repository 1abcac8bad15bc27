/-
  **Programs that act on what they have been told.**
-/
import Tamoss.Lib.Threads

namespace Lib

/-- How a program keeps account of the answers to its calls: what an answer adds to the
    memory, what a call requires of it, and which answers are considered at all. -/
structure Account (C : Type) (R : C → Type) (μ : Type) where
  note : (c : C) → R c → μ → μ
  Req : C → μ → Prop
  Given : (c : C) → R c → μ → Prop := fun _ _ _ => True

variable {C : Type} {R : C → Type} {μ ε α β : Type}

/-- Every call is made as the account requires, and the result satisfies `Q`. -/
def Prog.Minds (𝒜 : Account C R μ) (Q : α → μ → Prop) : Prog C R α → μ → Prop
  | .pure a, m => Q a m
  | .call c k, m => 𝒜.Req c m ∧ ∀ r, 𝒜.Given c r m → (k r).Minds 𝒜 Q (𝒜.note c r m)

variable {p : Prog C R α}

theorem Prog.Minds.bind {𝒜 : Account C R μ} {Q : β → μ → Prop}
    {f : α → Prog C R β} {m : μ} (h : p.Minds 𝒜 (fun a m => (f a).Minds 𝒜 Q m) m) :
    (p.bind f).Minds 𝒜 Q m := by
  induction p generalizing m with
  | pure a => exact h
  | call c k ih => exact ⟨h.1, fun r hr => ih r (h.2 r hr)⟩

theorem Prog.Minds.mono {𝒜 : Account C R μ} {Q Q' : α → μ → Prop} {m : μ}
    (h : p.Minds 𝒜 Q m) (hQ : ∀ a m, Q a m → Q' a m) : p.Minds 𝒜 Q' m := by
  induction p generalizing m with
  | pure a => exact hQ a m h
  | call c k ih => exact ⟨h.1, fun r hr => ih r (h.2 r hr)⟩

namespace Account

variable (𝒜 : Account C R μ)

/-- What holds of the memory when a program that may raise an exception is done. -/
def Outcome (Q : α → μ → Prop) (E : ε → μ → Prop) : Except ε α → μ → Prop
  | .ok a, m => Q a m
  | .error e, m => E e m

/-- Started with a memory in `A`, the program makes its calls as required and ends in `Q`
    with a result, or in `E` with an exception. -/
def Minds (A : μ → Prop) (p : ExceptT ε (Prog C R) α) (Q : α → μ → Prop)
    (E : ε → μ → Prop) : Prop :=
  ∀ m, A m → (ExceptT.run p).Minds 𝒜 (Outcome Q E) m

namespace Minds

variable {𝒜} {A A' : μ → Prop} {Q Q' : α → μ → Prop} {S : β → μ → Prop} {E E' : ε → μ → Prop}

theorem pure {a : α} (h : ∀ m, A m → Q a m) :
    𝒜.Minds A (Pure.pure a : ExceptT ε (Prog C R) α) Q E :=
  fun m hA => h m hA

theorem throw {e : ε} (h : ∀ m, A m → E e m) :
    𝒜.Minds A (MonadExcept.throw e : ExceptT ε (Prog C R) α) Q E :=
  fun m hA => h m hA

variable {p : ExceptT ε (Prog C R) α}

theorem conseq (h : 𝒜.Minds A p Q E) (hA : ∀ m, A' m → A m)
    (hQ : ∀ a m, Q a m → Q' a m) (hE : ∀ e m, E e m → E' e m) : 𝒜.Minds A' p Q' E' := by
  intro m hm
  refine (h m (hA m hm)).mono fun r m' hr => ?_
  cases r with
  | ok a => exact hQ a m' hr
  | error e => exact hE e m' hr

theorem pre (h : 𝒜.Minds A p Q E) (hA : ∀ m, A' m → A m) : 𝒜.Minds A' p Q E :=
  h.conseq hA (fun _ _ h => h) fun _ _ h => h

theorem post (h : 𝒜.Minds A p Q E) (hQ : ∀ a m, Q a m → Q' a m) : 𝒜.Minds A p Q' E :=
  h.conseq (fun _ h => h) hQ fun _ _ h => h

variable {φ : Prop}

theorem assume (hφ : ∀ m, A m → φ) (h : φ → 𝒜.Minds A p Q E) : 𝒜.Minds A p Q E :=
  fun m hA => h (hφ m hA) m hA

theorem bind {k : α → ExceptT ε (Prog C R) β}
    (hp : 𝒜.Minds A p Q E) (hk : ∀ a, 𝒜.Minds (Q a) (k a) S E) : 𝒜.Minds A (p >>= k) S E := by
  intro m hA
  refine Prog.Minds.bind ((hp m hA).mono fun r m' hr => ?_)
  cases r with
  | ok a => exact hk a m' hr
  | error e => exact hr

theorem tryCatch {k : ε → ExceptT ε (Prog C R) α}
    (hp : 𝒜.Minds A p Q E) (hk : ∀ e, 𝒜.Minds (E e) (k e) Q E') :
    𝒜.Minds A (MonadExcept.tryCatch p k) Q E' := by
  intro m hA
  refine Prog.Minds.bind ((hp m hA).mono fun r m' hr => ?_)
  cases r with
  | ok a => exact hr
  | error e => exact hk e m' hr

theorem call {c : C} (hreq : ∀ m, A m → 𝒜.Req c m) {Q : R c → μ → Prop}
    (hQ : ∀ m r, A m → 𝒜.Given c r m → Q r (𝒜.note c r m)) :
    𝒜.Minds A (ExceptT.lift (Prog.perform c) : ExceptT ε (Prog C R) (R c)) Q E :=
  fun m hA => ⟨hreq m hA, fun r hr => hQ m r hA hr⟩

theorem ask {c : C} {k : R c → ExceptT ε (Prog C R) β} (hreq : ∀ m, A m → 𝒜.Req c m)
    (hk : ∀ r, 𝒜.Minds (fun _ => True) (k r) S E) :
    𝒜.Minds A (ExceptT.lift (Prog.perform c) >>= k) S E :=
  bind (call hreq fun _ _ _ _ => trivial) hk

theorem except {x : Except ε α} (hok : ∀ a, x = .ok a → ∀ m, A m → Q a m)
    (herr : ∀ e, x = .error e → ∀ m, A m → E e m) :
    𝒜.Minds A (liftM x : ExceptT ε (Prog C R) α) Q E := by
  cases x with
  | ok a => exact pure (hok a rfl)
  | error e => exact throw (herr e rfl)

theorem ite [Decidable φ] {p q : ExceptT ε (Prog C R) α}
    (hp : φ → 𝒜.Minds A p Q E) (hq : ¬ φ → 𝒜.Minds A q Q E) :
    𝒜.Minds A (if φ then p else q) Q E := by
  split
  · exact hp ‹_›
  · exact hq ‹_›

theorem throwIf {γ : Type} [Decidable φ] {e : ε} {k : γ → ExceptT ε (Prog C R) α}
    {q : ExceptT ε (Prog C R) α} (he : ∀ m, A m → E e m) (hq : ¬ φ → 𝒜.Minds A q Q E) :
    𝒜.Minds A (if φ then MonadExcept.throw e >>= k else q) Q E :=
  ite (fun _ => fun m hm => he m hm) hq

theorem of_only {P : C → Prop} (hreq : ∀ c m, P c → A m → 𝒜.Req c m)
    (hnote : ∀ c r m, P c → A m → 𝒜.Given c r m → A (𝒜.note c r m)) (hp : Only P p) :
    𝒜.Minds A p (fun _ => A) (fun _ => A) := by
  intro m hm
  have hprog : ∀ {β : Type} (q : Prog C R β) (m : μ), q.Only P → A m →
      q.Minds 𝒜 (fun _ => A) m := by
    intro β q
    induction q with
    | pure b => exact fun m _ hm => hm
    | call c k ih =>
      intro m hq hm
      exact ⟨hreq c m hq.1 hm, fun r hr => ih r _ (hq.2 r) (hnote c r m hq.1 hm hr)⟩
  refine (hprog _ m hp hm).mono fun r m' hr => ?_
  cases r with
  | ok a => exact hr
  | error e => exact hr

theorem forM {γ : Type} {xs : List γ} {f : γ → ExceptT ε (Prog C R) PUnit}
    (h : ∀ x ∈ xs, 𝒜.Minds A (f x) (fun _ => A) E) : 𝒜.Minds A (xs.forM f) (fun _ => A) E := by
  induction xs with
  | nil => exact pure fun _ hm => hm
  | cons x xs ih =>
    exact bind (h x List.mem_cons_self) fun _ => ih fun y hy => h y (List.mem_cons_of_mem x hy)

end Minds

end Account

namespace Machine

variable {ι : Type} {M : Machine ι C R} [DecidableEq ι] {D : M.Discipline} {s₀ : M.Shared}

/-- What every configuration of a run satisfies: something of the shared state, and something of
    each thread's private state against it. -/
structure Invariant (M : Machine ι C R) where
  shared : M.Shared → Prop
  thread : ι → M.Local → M.Shared → Prop := fun _ _ _ => True

structure Config.Satisfies (I : Invariant M) (c : M.Config) : Prop where
  shared : I.shared c.shared
  thread : ∀ i l p, c.threads i = some ⟨l, p⟩ → I.thread i l c.shared

/-- Nobody else's part of the invariant is affected by a move of thread `i`. -/
def Invariant.Spares (I : Invariant M) (i : ι) (s s' : M.Shared) : Prop :=
  ∀ j l, j ≠ i → I.thread j l s → I.thread j l s'

variable {I : Invariant M} {c : M.Config}

theorem Config.Satisfies.update (h : c.Satisfies I) (i : ι)
    {s : M.Shared} (t : Option M.Thread) (hs : I.shared s) (hspares : I.Spares i c.shared s)
    (ht : ∀ l p, t = some ⟨l, p⟩ → I.thread i l s) :
    Config.Satisfies I ⟨s, Function.update c.threads i t⟩ := by
  refine ⟨hs, fun j l p hj => ?_⟩
  change Function.update c.threads i t j = some ⟨l, p⟩ at hj
  by_cases hji : j = i
  · subst hji
    rw [Function.update_self] at hj
    exact ht l p hj
  · rw [Function.update_of_ne hji] at hj
    exact hspares j l hji (h.thread j l p hj)

theorem Reachable.invariant (hinit : I.shared s₀)
    (hstart : ∀ i op s, I.shared s → D.starts op → I.shared (M.enter i op s) ∧
      I.Spares i s (M.enter i op s) ∧ I.thread i M.idle (M.enter i op s))
    (hcall : ∀ i ch q s l r s' l', I.shared s → I.thread i l s →
      M.exec i ch q s l = some (r, s', l') → D.calls i q r s l →
      I.shared s' ∧ I.Spares i s s' ∧ I.thread i l' s')
    (hleave : ∀ i s, I.shared s → I.shared (M.leave i s) ∧ I.Spares i s (M.leave i s))
    (hc : M.Reachable D s₀ c) : c.Satisfies I := by
  induction hc with
  | init => exact ⟨hinit, fun i l p h => by cases h⟩
  | @step c c' a hc hstep hperm ih =>
    cases stepped hstep with
    | start i op _ =>
      obtain ⟨h1, h2, h3⟩ := hstart i op c.shared ih.shared hperm
      refine ih.update i _ h1 h2 fun l p hlp => ?_
      cases hlp
      exact h3
    | call i ch l q k r s l' hth hex =>
      obtain ⟨h1, h2, h3⟩ := hcall i ch q c.shared l r s l' ih.shared
        (ih.thread i l _ hth) hex (hperm l q k r s l' hth hex)
      refine ih.update i _ h1 h2 fun l p hlp => ?_
      cases hlp
      exact h3
    | leave i =>
      obtain ⟨h1, h2⟩ := hleave i c.shared ih.shared
      exact ih.update i _ h1 h2 fun l p hlp => by cases hlp

end Machine

end Lib
