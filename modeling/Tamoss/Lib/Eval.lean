/-
  **Programs run by themselves, and pairs of outcomes.**
-/
import Tamoss.Lib.Program

namespace Lib

section Eval

variable {C S : Type} {R : C → Type} {ε α β : Type}

/-- Run a program; `none` when a call is blocked. -/
def Prog.eval (step : (c : C) → S → Option (R c × S)) : Prog C R α → S → Option (α × S)
  | .pure a, s => some (a, s)
  | .call c k, s => (step c s).bind fun x => (k x.1).eval step x.2

theorem Prog.eval_bind (step : (c : C) → S → Option (R c × S)) (p : Prog C R α)
    (f : α → Prog C R β) (s : S) :
    (p.bind f).eval step s = (p.eval step s).bind fun x => (f x.1).eval step x.2 := by
  induction p generalizing s with
  | pure a => rfl
  | call c k ih =>
    simp only [Prog.call_bind, Prog.eval, Option.bind_assoc]
    exact congrArg _ (funext fun x => ih x.1 x.2)

/-- Run from any state in `P`, the program ends, with an outcome and a state in `Q`. -/
def Runs (step : (c : C) → S → Option (R c × S)) (P : S → Prop)
    (p : ExceptT ε (Prog C R) α) (Q : Except ε α → S → Prop) : Prop :=
  ∀ s, P s → ∃ r s', (ExceptT.run p).eval step s = some (r, s') ∧ Q r s'

/-- The same, and it ends without an exception. -/
def Returns (step : (c : C) → S → Option (R c × S)) (P : S → Prop)
    (p : ExceptT ε (Prog C R) α) (A : α → S → Prop) : Prop :=
  Runs step P p fun r s => ∃ a, r = .ok a ∧ A a s

variable {step : (c : C) → S → Option (R c × S)} {P : S → Prop}

namespace Runs

variable {Q : Except ε α → S → Prop}

theorem pure {a : α} (h : ∀ s, P s → Q (.ok a) s) :
    Runs step P (Pure.pure a : ExceptT ε (Prog C R) α) Q :=
  fun s hs => ⟨.ok a, s, rfl, h s hs⟩

theorem throw {e : ε} (h : ∀ s, P s → Q (.error e) s) :
    Runs step P (MonadExcept.throw e : ExceptT ε (Prog C R) α) Q :=
  fun s hs => ⟨.error e, s, rfl, h s hs⟩

theorem call {c : C} {Q : Except ε (R c) → S → Prop}
    (h : ∀ s, P s → ∃ r s', step c s = some (r, s') ∧ Q (.ok r) s') :
    Runs step P (ExceptT.lift (Prog.perform c) : ExceptT ε (Prog C R) (R c)) Q := by
  intro s hs
  obtain ⟨r, s', hstep, hQ⟩ := h s hs
  refine ⟨.ok r, s', ?_, hQ⟩
  show (step c s).bind _ = _
  rw [hstep]
  rfl

variable {p : ExceptT ε (Prog C R) α}

theorem post {Q' : Except ε α → S → Prop}
    (h : Runs step P p Q') (hQ : ∀ r s, Q' r s → Q r s) : Runs step P p Q := by
  intro s hs
  obtain ⟨r, s', heval, hr⟩ := h s hs
  exact ⟨r, s', heval, hQ r s' hr⟩

theorem assume {φ : Prop} (h : φ → Runs step P p Q) :
    Runs step (fun s => φ ∧ P s) p Q := fun s hs => h hs.1 s hs.2

variable {B : Except ε β → S → Prop}

theorem attempt {h : Except ε α → ExceptT ε (Prog C R) β} (hp : Runs step P p Q)
    (hh : ∀ r, Runs step (Q r) (h r) B) :
    Runs step P (ExceptT.mk ((ExceptT.run p).bind fun r => ExceptT.run (h r))) B := by
  intro s hs
  obtain ⟨r, s₁, heval, hr⟩ := hp s hs
  obtain ⟨r', s₂, heval', hB⟩ := hh r s₁ hr
  refine ⟨r', s₂, ?_, hB⟩
  refine (Prog.eval_bind step (ExceptT.run p) _ s).trans ?_
  rw [heval]
  exact heval'

theorem bind {k : α → ExceptT ε (Prog C R) β} (hp : Runs step P p Q)
    (hk : ∀ a, Runs step (Q (.ok a)) (k a) B) (he : ∀ e s, Q (.error e) s → B (.error e) s) :
    Runs step P (p >>= k) B := by
  refine attempt hp (h := fun r => match r with | .ok a => k a | .error e => MonadExcept.throw e)
    fun r => ?_
  cases r with
  | ok a => exact hk a
  | error e => exact throw (he e)

theorem tryCatch {h : ε → ExceptT ε (Prog C R) α}
    {B : Except ε α → S → Prop} (hp : Runs step P p Q) (hok : ∀ a s, Q (.ok a) s → B (.ok a) s)
    (hh : ∀ e, Runs step (Q (.error e)) (h e) B) : Runs step P (MonadExcept.tryCatch p h) B := by
  refine attempt hp (h := fun r => match r with | .ok a => Pure.pure a | .error e => h e)
    fun r => ?_
  cases r with
  | ok a => exact pure (hok a)
  | error e => exact hh e

end Runs

namespace Returns

variable {A : α → S → Prop}

variable {k : α → ExceptT ε (Prog C R) β} {p : ExceptT ε (Prog C R) α} {B : Except ε β → S → Prop}

theorem bind (hp : Returns step P p A)
    (hk : ∀ a, Runs step (A a) (k a) B) : Runs step P (p >>= k) B :=
  Runs.bind hp (fun a s ⟨_, ha, hA⟩ => by cases ha; exact hk a s hA) fun e s ⟨_, he, _⟩ => by
    cases he

variable {a : α}

theorem bind_value {P' : S → Prop}
    (hp : Returns step P p fun x s => x = a ∧ P' s) (hk : Runs step P' (k a) B) :
    Runs step P (p >>= k) B :=
  bind hp fun _ s ⟨hx, hs⟩ => by subst hx; exact hk s hs

theorem pure (h : ∀ s, P s → A a s) : Returns step P (Pure.pure a : ExceptT ε (Prog C R) α) A :=
  Runs.pure fun s hs => ⟨a, rfl, h s hs⟩

theorem call {c : C} {A : R c → S → Prop}
    (h : ∀ s, P s → ∃ r s', step c s = some (r, s') ∧ A r s') :
    Returns step P (ExceptT.lift (Prog.perform c) : ExceptT ε (Prog C R) (R c)) A :=
  Runs.call fun s hs => (h s hs).imp fun r ⟨s', hstep, hA⟩ => ⟨s', hstep, r, rfl, hA⟩

theorem except {x : Except ε α} (hx : x = .ok a) (h : ∀ s, P s → A a s) :
    Returns step P (liftM x : ExceptT ε (Prog C R) α) A := by
  subst hx
  exact fun s hs => ⟨.ok a, s, rfl, a, rfl, h s hs⟩

theorem forM {xs : List α} {f : α → ExceptT ε (Prog C R) PUnit} {I : List α → S → Prop}
    (hf : ∀ done x rest, xs = done ++ x :: rest →
      Returns step (I done) (f x) fun _ => I (done ++ [x])) :
    Returns step (I []) (xs.forM f) fun _ => I xs := by
  suffices h : ∀ rest done, xs = done ++ rest →
      Returns step (I done) (rest.forM f) fun _ => I xs from h xs [] rfl
  intro rest
  induction rest with
  | nil =>
    intro done hd
    rw [List.append_nil] at hd
    exact pure fun s hs => hd ▸ hs
  | cons x rest ih =>
    intro done hd
    exact bind (hf done x rest hd) fun _ => ih (done ++ [x]) (by simp [hd])

end Returns

end Eval

section Rel

variable {ε α β γ δ : Type}

/-- Both raise the same exception, or both succeed with related results. -/
def Rel (R : α → β → Prop) : Except ε α → Except ε β → Prop
  | .ok a, .ok b => R a b
  | .error e, .error e' => e = e'
  | _, _ => False

namespace Rel

variable {R : α → β → Prop} {Q : γ → δ → Prop}

variable {x : Except ε α} {y : Except ε β}

theorem bind {f : α → Except ε γ} {g : β → Except ε δ}
    (h : Rel R x y) (hf : ∀ a b, R a b → Rel Q (f a) (g b)) : Rel Q (x >>= f) (y >>= g) := by
  cases x <;> cases y
  · exact h
  · exact h.elim
  · exact h.elim
  · exact hf _ _ h

theorem refl {R : α → α → Prop} (h : ∀ a, x = .ok a → R a a) : Rel R x x := by
  cases x with
  | ok a => exact h a rfl
  | error e => rfl

theorem of_eq {x y : Except ε α} (h : x = y) : Rel Eq x y := h ▸ refl fun _ _ => rfl

theorem and_left {φ : α → Prop} (h : Rel R x y)
    (hφ : ∀ a, x = .ok a → φ a) : Rel (fun a b => R a b ∧ φ a) x y := by
  cases x <;> cases y
  · exact h
  · exact h.elim
  · exact h.elim
  · exact ⟨h, hφ _ rfl⟩

end Rel

end Rel

end Lib
