/-
  **Hoare triples for programs with exceptions, under interference.**
-/
import Tamoss.Lib.Threads

namespace Lib.Machine

variable {ι C : Type} {R : C → Type} {M : Machine ι C R} {ε α β : Type}

/-- A predicate on the shared state and a thread's private state. -/
abbrev Assertion (M : Machine ι C R) := M.Shared → M.Local → Prop

/-- The assertion survives whatever the other threads do. -/
def Stable (P : M.Protocol) (i : ι) (A : M.Assertion) : Prop :=
  ∀ s s' l, A s l → P.Rely i s s' → P.Inv s' → A s' l

/-- The outcome of a program that may raise an exception. -/
def Outcome (Q : α → M.Assertion) (E : ε → M.Local → Prop) :
    Except ε α → M.Shared → M.Local → Prop
  | .ok a, s, l => Q a s l
  | .error e, _, l => E e l

/-- Started in `A`, the program is safe and ends in `Q` or raises into `E`. -/
def Triple (P : M.Protocol) (i : ι) (A : M.Assertion) (p : ExceptT ε (Prog C R) α)
    (Q : α → M.Assertion) (E : ε → M.Local → Prop) : Prop :=
  ∀ s l, P.Inv s → A s l → Safe P i (Outcome Q E) p s l

variable {P : M.Protocol} {i : ι} {A A' : M.Assertion}
variable {Q Q' : α → M.Assertion} {E E' : ε → M.Local → Prop}

theorem Stable.local (B : M.Local → Prop) : Stable P i (fun _ l => B l) :=
  fun _ _ _ h _ _ => h

namespace Triple

theorem pure (hst : Stable P i A) {a : α} (h : ∀ s l, P.Inv s → A s l → Q a s l) :
    Triple P i A (Pure.pure a : ExceptT ε (Prog C R) α) Q E :=
  fun s l _ hA s' hr hi => h s' l hi (hst s s' l hA hr hi)

theorem throw {e : ε} (h : ∀ s l, A s l → E e l) :
    Triple P i A (MonadExcept.throw e : ExceptT ε (Prog C R) α) Q E :=
  fun s l _ hA _ _ _ => h s l hA

theorem except (hst : Stable P i A) (x : Except ε α)
    (hok : ∀ a, x = .ok a → ∀ s l, P.Inv s → A s l → Q a s l)
    (herr : ∀ e, x = .error e → ∀ s l, A s l → E e l) :
    Triple P i A (liftM x : ExceptT ε (Prog C R) α) Q E := by
  cases x with
  | ok a => exact fun s l _ hA s' hr hi => hok a rfl s' l hi (hst s s' l hA hr hi)
  | error e => exact fun s l _ hA _ _ _ => herr e rfl s l hA

variable {p : ExceptT ε (Prog C R) α}

theorem conseq (hp : Triple P i A' p Q' E') (hA : ∀ s l, P.Inv s → A s l → A' s l)
    (hQ : ∀ a s l, P.Inv s → Q' a s l → Q a s l) (hE : ∀ e l, E' e l → E e l) :
    Triple P i A p Q E := by
  intro s l hi h
  refine Safe.mono (hp s l hi (hA s l hi h)) ?_
  intro r s' l' hi' hr
  cases r with
  | ok a => exact hQ a s' l' hi' hr
  | error e => exact hE e l' hr

theorem pre (hp : Triple P i A' p Q E)
    (hA : ∀ s l, P.Inv s → A s l → A' s l) : Triple P i A p Q E :=
  hp.conseq hA (fun _ _ _ _ h => h) (fun _ _ h => h)

theorem post (hp : Triple P i A p Q' E)
    (hQ : ∀ a s l, P.Inv s → Q' a s l → Q a s l) : Triple P i A p Q E :=
  hp.conseq (fun _ _ _ h => h) hQ (fun _ _ h => h)

theorem assume {φ : Prop} (hp : φ → Triple P i A p Q E) : Triple P i (fun s l => φ ∧ A s l) p Q E :=
  fun s l hi h => hp h.1 s l hi h.2

theorem exists_pre {γ : Type} {A : γ → M.Assertion}
    (hp : ∀ x, Triple P i (A x) p Q E) : Triple P i (fun s l => ∃ x, A x s l) p Q E :=
  fun s l hi ⟨x, h⟩ => hp x s l hi h

variable {B : β → M.Assertion}

theorem bind {f : α → ExceptT ε (Prog C R) β} (hp : Triple P i A p Q E)
    (hf : ∀ a, Triple P i (Q a) (f a) B E) : Triple P i A (p >>= f) B E := by
  intro s l hi hA
  refine Safe.bind (Safe.mono (hp s l hi hA) ?_)
  intro r s' l' hi' hr
  cases r with
  | ok a => exact hf a s' l' hi' hr
  | error e => exact fun _ _ _ => hr

theorem tryCatch {h : ε → ExceptT ε (Prog C R) α}
    (hst : ∀ a, Stable P i (Q a)) (hp : Triple P i A p Q E)
    (hh : ∀ e, Triple P i (fun _ l => E e l) (h e) Q E') :
    Triple P i A (MonadExcept.tryCatch p h) Q E' := by
  intro s l hi hA
  refine Safe.bind (Safe.mono (hp s l hi hA) ?_)
  intro r s' l' hi' hr
  cases r with
  | ok a => exact fun t ht hti => hst a s' t l' hr ht hti
  | error e => exact hh e s' l' hi' hr

theorem attempt {h : Except ε α → ExceptT ε (Prog C R) β} (hp : Triple P i A p Q E)
    (hok : ∀ a, Triple P i (Q a) (h (.ok a)) B E')
    (herr : ∀ e, Triple P i (fun _ l => E e l) (h (.error e)) B E') :
    Triple P i A (ExceptT.mk ((ExceptT.run p).bind fun r => ExceptT.run (h r))) B E' := by
  intro s l hi hA
  refine Safe.bind (Safe.mono (hp s l hi hA) ?_)
  intro r s' l' hi' hr
  cases r with
  | ok a => exact hok a s' l' hi' hr
  | error e => exact herr e s' l' hi' hr

theorem throwIf {φ : Prop} [Decidable φ] {e : ε} {k : PUnit → ExceptT ε (Prog C R) α}
    (hE : ∀ s l, A s l → E e l) (hk : ¬ φ → Triple P i A (k ⟨⟩) Q E) :
    Triple P i A (if φ then MonadExcept.throw e >>= k else k ⟨⟩) Q E := by
  split
  · exact bind (throw hE) fun a => (fun s l _ h => h.elim :
      Triple P i (fun _ _ => False) (k a) Q E)
  · rename_i hφ
    exact hk hφ

theorem call {c : C} {Q : R c → M.Assertion} (hst : Stable P i A)
    (hstQ : ∀ r, Stable P i (Q r)) (hreq : ∀ s l, P.Inv s → A s l → P.Req i c s l)
    (h : ∀ s l, P.Inv s → A s l → ∀ ch r s' l', M.exec i ch c s l = some (r, s', l') →
      P.discipline.calls i c r s l →
      P.Inv s' ∧ (∀ j, j ≠ i → P.Rely j s s') ∧ Q r s' l') :
    Triple P i A (ExceptT.lift (Prog.perform c) : ExceptT ε (Prog C R) (R c)) Q E := by
  intro s l _ hA s' hr hi
  refine ⟨hreq s' l hi (hst s s' l hA hr hi), fun ch r s'' l' he hd => ?_⟩
  obtain ⟨h1, h2, h3⟩ := h s' l hi (hst s s' l hA hr hi) ch r s'' l' he hd
  exact ⟨h1, h2, fun t ht hti => hstQ r s'' t l' h3 ht hti⟩

variable {C' : C → Prop}

theorem of_only (hst : Stable P i A) (hE : ∀ e s l, A s l → E e l) (hcall : ∀ c, C' c → Triple P i A
      (ExceptT.lift (Prog.perform c) : ExceptT ε (Prog C R) (R c)) (fun _ => A) E)
    (hp : Only C' p) : Triple P i A p (fun _ => A) E := by
  suffices h : ∀ q : Prog C R (Except ε α), q.Only C' →
      Triple P i A (ExceptT.mk q) (fun _ => A) E from h p hp
  intro q
  induction q with
  | pure r =>
    intro _
    cases r with
    | ok a => exact Triple.pure hst fun _ _ _ h => h
    | error e => exact Triple.throw fun s l h => hE e s l h
  | call c k ih => exact fun hq => Triple.bind (hcall c hq.1) fun r => ih r (hq.2 r)

variable {φ : α → Prop}

theorem of_under {Ans : (c : C) → R c → Prop} (hst : Stable P i A) (hE : ∀ e s l, A s l → E e l)
    (hcall : ∀ c, C' c → Triple P i A (ExceptT.lift (Prog.perform c) : ExceptT ε (Prog C R) (R c))
      (fun r s l => Ans c r ∧ A s l) E) (hp : Under C' Ans φ p) :
    Triple P i A p (fun a s l => φ a ∧ A s l) E := by
  suffices h : ∀ q : Prog C R (Except ε α), q.Under C' Ans (fun r => ∀ a, r = .ok a → φ a) →
      Triple P i A (ExceptT.mk q) (fun a s l => φ a ∧ A s l) E from h p hp
  intro q
  induction q with
  | pure r =>
    intro hr
    cases r with
    | ok a => exact Triple.pure hst fun _ _ _ h => ⟨hr a rfl, h⟩
    | error e => exact Triple.throw fun s l h => hE e s l h
  | call c k ih =>
    exact fun hq => Triple.bind (hcall c hq.1) fun r => Triple.assume fun hr => ih r (hq.2 r hr)

theorem yields (hφ : Yields φ p)
    (hp : Triple P i A p Q E) : Triple P i A p (fun a s l => φ a ∧ Q a s l) E := by
  suffices h : ∀ (q : Prog C R (Except ε α)) s l, q.Yields (fun r => ∀ a, r = .ok a → φ a) →
      Safe P i (Outcome Q E) q s l → Safe P i (Outcome (fun a s l => φ a ∧ Q a s l) E) q s l from
    fun s l hi hA => h p s l hφ (hp s l hi hA)
  intro q
  induction q with
  | pure r =>
    intro s l hr hs s' hrely hi
    cases r with
    | ok a => exact ⟨hr a rfl, hs s' hrely hi⟩
    | error e => exact hs s' hrely hi
  | call c k ih =>
    intro s l hr hs s' hrely hi
    obtain ⟨hreq, hcall⟩ := hs s' hrely hi
    refine ⟨hreq, fun ch r s'' l' he hd => ?_⟩
    obtain ⟨h1, h2, h3⟩ := hcall ch r s'' l' he hd
    exact ⟨h1, h2, ih r s'' l' (hr r) h3⟩

theorem forM {xs : List α} {f : α → ExceptT ε (Prog C R) PUnit}
    {I : List α → M.Assertion} (hst : ∀ done, Stable P i (I done))
    (hf : ∀ done x rest, xs = done ++ x :: rest →
      Triple P i (I done) (f x) (fun _ => I (done ++ [x])) E) :
    Triple P i (I []) (xs.forM f) (fun _ => I xs) E := by
  suffices h : ∀ rest done, xs = done ++ rest →
      Triple P i (I done) (rest.forM f) (fun _ => I xs) E from h xs [] rfl
  intro rest
  induction rest with
  | nil =>
    intro done hd
    rw [List.append_nil] at hd
    exact Triple.pure (hst done) fun s l _ h => hd ▸ h
  | cons x rest ih =>
    intro done hd
    exact Triple.bind (hf done x rest hd) fun _ => ih (done ++ [x]) (by simp [hd])

end Triple

end Lib.Machine
