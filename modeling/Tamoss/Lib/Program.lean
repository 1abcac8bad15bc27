/-
  **Programs as trees of calls.**

  A service talks to the outside (a database, an API server) only through calls whose answers it
  cannot predict.
-/
import Mathlib.Logic.Basic

namespace Lib

/-- A program issuing calls `c : C`, each answered by a value of `R c`. -/
inductive Prog (C : Type) (R : C → Type) (α : Type) : Type where
  | pure (a : α)
  | call (c : C) (k : R c → Prog C R α)

theorem bind_eq_ok {ε α β : Type} {x : Except ε α} {f : α → Except ε β} {b : β}
    (h : x >>= f = .ok b) : ∃ a, x = .ok a ∧ f a = .ok b := by
  cases x with
  | error e => cases h
  | ok a => exact ⟨a, rfl, h⟩

theorem mapM_eq_ok {ε α β : Type} {f : α → Except ε β} {xs : List α} {ys : List β}
    (h : xs.mapM f = .ok ys) : (∀ y ∈ ys, ∃ x ∈ xs, f x = .ok y) ∧ (xs ≠ [] → ys ≠ []) := by
  induction xs generalizing ys with
  | nil =>
    cases h
    simp
  | cons x xs ih =>
    rw [List.mapM_cons] at h
    obtain ⟨y, hy, h⟩ := bind_eq_ok h
    obtain ⟨rest, hrest, h⟩ := bind_eq_ok h
    obtain rfl := Except.ok.inj h
    refine ⟨fun z hz => ?_, fun _ => List.cons_ne_nil y rest⟩
    rcases List.mem_cons.mp hz with rfl | hz
    · exact ⟨x, List.mem_cons_self, hy⟩
    · obtain ⟨x', hx', hz'⟩ := (ih hrest).1 z hz
      exact ⟨x', List.mem_cons_of_mem x hx', hz'⟩

@[simp] theorem ok_bind {ε α β : Type} (a : α) (f : α → Except ε β) :
    (Except.ok a >>= f) = f a := rfl

namespace Prog

variable {C : Type} {R : C → Type} {α β : Type}

/-- Sequencing: run `p`, then continue with its result. -/
def bind : Prog C R α → (α → Prog C R β) → Prog C R β
  | .pure a, f => f a
  | .call c k, f => .call c (fun r => (k r).bind f)

instance : Monad (Prog C R) where
  pure := Prog.pure
  bind := Prog.bind

/-- The program that issues one call and returns its answer. -/
def perform (c : C) : Prog C R (R c) := .call c .pure

@[simp] theorem pure_bind (a : α) (f : α → Prog C R β) : (Prog.pure a).bind f = f a := rfl

@[simp] theorem call_bind (c : C) (k : R c → Prog C R α) (f : α → Prog C R β) :
    (Prog.call c k).bind f = .call c (fun r => (k r).bind f) := rfl

@[simp] theorem bind_eq (p : Prog C R α) (f : α → Prog C R β) : (p >>= f) = p.bind f := rfl

@[simp] theorem pure_eq (a : α) : (Pure.pure a : Prog C R α) = .pure a := rfl

/-- Every call the program can make satisfies `P`. -/
def Only (P : C → Prop) : Prog C R α → Prop
  | .pure _ => True
  | .call c k => P c ∧ ∀ r, (k r).Only P

variable {p : Prog C R α} {f : α → Prog C R β}

theorem Only.bind {P : C → Prop} (hp : p.Only P) (hf : ∀ a, (f a).Only P) : (p.bind f).Only P := by
  induction p with
  | pure a => exact hf a
  | call c k ih => exact ⟨hp.1, fun r => ih r (hp.2 r)⟩

theorem only_true (p : Prog C R α) : p.Only fun _ => True := by
  induction p with
  | pure a => trivial
  | call c k ih => exact ⟨trivial, ih⟩

theorem Only.mono {P Q : C → Prop} (h : ∀ c, P c → Q c) (hp : p.Only P) : p.Only Q := by
  induction p with
  | pure a => trivial
  | call c k ih => exact ⟨h c hp.1, fun r => ih r (hp.2 r)⟩

/-- Every result of the program satisfies `Q`, whatever the answers to its calls. -/
def Yields (Q : α → Prop) : Prog C R α → Prop
  | .pure a => Q a
  | .call _ k => ∀ r, (k r).Yields Q

theorem yields_bind {Q : β → Prop} (h : ∀ a, (f a).Yields Q) : (p.bind f).Yields Q := by
  induction p with
  | pure a => exact h a
  | call c k ih => exact fun r => ih r

/-- As long as the answers satisfy `A`, every call satisfies `P` and the result `Q`. -/
def Under (P : C → Prop) (A : (c : C) → R c → Prop) (Q : α → Prop) : Prog C R α → Prop
  | .pure a => Q a
  | .call c k => P c ∧ ∀ r, A c r → (k r).Under P A Q

theorem Under.bind {P : C → Prop} {A : (c : C) → R c → Prop} {Q : α → Prop} {Q' : β → Prop}
    (hp : p.Under P A Q) (hf : ∀ a, Q a → (f a).Under P A Q') : (p.bind f).Under P A Q' := by
  induction p with
  | pure a => exact hf a hp
  | call c k ih => exact ⟨hp.1, fun r hr => ih r (hp.2 r hr)⟩

theorem Under.mono {P : C → Prop} {A : (c : C) → R c → Prop} {Q Q' : α → Prop}
    (hp : p.Under P A Q) (hQ : ∀ a, Q a → Q' a) : p.Under P A Q' := by
  induction p with
  | pure a => exact hQ a hp
  | call c k ih => exact ⟨hp.1, fun r hr => ih r (hp.2 r hr)⟩

end Prog

/-! ### Programs with exceptions -/

section Except

variable {C : Type} {R : C → Type} {ε α β : Type} {P Q : C → Prop}

/-- Every call the program can make satisfies `P`. -/
def Only (P : C → Prop) (p : ExceptT ε (Prog C R) α) : Prop := (ExceptT.run p).Only P

@[simp] theorem only_pure (a : α) : Only P (pure a : ExceptT ε (Prog C R) α) := trivial

@[simp] theorem only_throw (e : ε) : Only P (throw e : ExceptT ε (Prog C R) α) := trivial

@[simp] theorem only_throw_bind (e : ε) (k : α → ExceptT ε (Prog C R) β) :
    Only P ((throw e : ExceptT ε (Prog C R) α) >>= k) := trivial

@[simp] theorem only_pure_bind (a : α) (k : α → ExceptT ε (Prog C R) β) :
    Only P ((pure a : ExceptT ε (Prog C R) α) >>= k) ↔ Only P (k a) := Iff.rfl

variable {p : ExceptT ε (Prog C R) α} {k : α → ExceptT ε (Prog C R) β}

theorem Only.bind (hp : Only P p) (hk : ∀ a, Only P (k a)) : Only P (p >>= k) := by
  refine Prog.Only.bind hp fun r => ?_
  cases r with
  | ok a => exact hk a
  | error e => trivial

theorem only_throwIf {φ : Prop} [Decidable φ] {e : ε} {k : PUnit → ExceptT ε (Prog C R) β}
    (hk : Only P (k ⟨⟩)) : Only P (if φ then throw e >>= k else k ⟨⟩) := by
  split
  · trivial
  · exact hk

theorem Only.mono (h : ∀ c, P c → Q c) (hp : Only P p) : Only Q p := Prog.Only.mono h hp

theorem Only.tryCatch {k : ε → ExceptT ε (Prog C R) α}
    (hp : Only P p) (hk : ∀ e, Only P (k e)) : Only P (MonadExcept.tryCatch p k) := by
  refine Prog.Only.bind hp fun r => ?_
  cases r with
  | ok a => trivial
  | error e => exact hk e

theorem only_except (x : Except ε α) : Only P (liftM x : ExceptT ε (Prog C R) α) := by
  cases x <;> trivial

theorem Only.forM {xs : List α} {f : α → ExceptT ε (Prog C R) PUnit}
    (h : ∀ x ∈ xs, Only P (f x)) : Only P (xs.forM f) := by
  induction xs with
  | nil => trivial
  | cons x xs ih =>
    exact Only.bind (h x (by simp)) fun _ => ih fun y hy => h y (by simp [hy])

/-- Every result of the program satisfies `Q`; exceptions do not count. -/
def Yields (Q : α → Prop) (p : ExceptT ε (Prog C R) α) : Prop :=
  (ExceptT.run p).Yields fun r => ∀ a, r = .ok a → Q a

theorem yields_pure {Q : α → Prop} {a : α} (h : Q a) :
    Yields Q (pure a : ExceptT ε (Prog C R) α) := by
  rintro b ⟨⟩
  exact h

@[simp] theorem yields_throw {Q : α → Prop} (e : ε) :
    Yields Q (throw e : ExceptT ε (Prog C R) α) := by
  rintro b ⟨⟩

theorem yields_bind {Q : β → Prop} (h : ∀ a, Yields Q (k a)) : Yields Q (p >>= k) := by
  refine Prog.yields_bind fun r => ?_
  cases r with
  | ok a => exact h a
  | error e => rintro b ⟨⟩

def Under (P : C → Prop) (A : (c : C) → R c → Prop) (Q : α → Prop)
    (p : ExceptT ε (Prog C R) α) : Prop :=
  (ExceptT.run p).Under P A fun r => ∀ a, r = .ok a → Q a

namespace Under

variable {A : (c : C) → R c → Prop} {Q : α → Prop} {Q' : β → Prop}

theorem pure {a : α} (h : Q a) : Under P A Q (Pure.pure a : ExceptT ε (Prog C R) α) := by
  rintro b ⟨⟩
  exact h

theorem throw (e : ε) : Under P A Q (MonadExcept.throw e : ExceptT ε (Prog C R) α) := by
  rintro b ⟨⟩

theorem call {c : C} (h : P c) :
    Under P A (A c) (ExceptT.lift (Prog.perform c) : ExceptT ε (Prog C R) (R c)) :=
  ⟨h, fun r hr => by rintro _ ⟨⟩; exact hr⟩

variable {p : ExceptT ε (Prog C R) α}

theorem attempt {h : Except ε α → ExceptT ε (Prog C R) β}
    (hp : Under P A Q p) (hok : ∀ a, Q a → Under P A Q' (h (.ok a)))
    (herr : ∀ e, Under P A Q' (h (.error e))) :
    Under P A Q' (ExceptT.mk ((ExceptT.run p).bind fun r => ExceptT.run (h r))) := by
  refine Prog.Under.bind hp fun r hr => ?_
  cases r with
  | ok a => exact hok a (hr a rfl)
  | error e => exact herr e

theorem bind {k : α → ExceptT ε (Prog C R) β}
    (hp : Under P A Q p) (hk : ∀ a, Q a → Under P A Q' (k a)) : Under P A Q' (p >>= k) :=
  attempt hp (h := fun r => match r with | .ok a => k a | .error e => MonadExcept.throw e) hk
    fun e => throw e

theorem tryCatch {k : ε → ExceptT ε (Prog C R) α}
    (hp : Under P A Q p) (hk : ∀ e, Under P A Q (k e)) : Under P A Q (MonadExcept.tryCatch p k) :=
  attempt hp (h := fun r => match r with | .ok a => Pure.pure a | .error e => k e)
    (fun _ ha => pure ha) hk

theorem except {x : Except ε α} (h : ∀ a, x = .ok a → Q a) :
    Under P A Q (liftM x : ExceptT ε (Prog C R) α) := by
  cases x with
  | ok a => exact pure (h a rfl)
  | error e => exact throw e

theorem throwIf {φ : Prop} [Decidable φ] {e : ε} {k : PUnit → ExceptT ε (Prog C R) β}
    (hk : ¬ φ → Under P A Q' (k ⟨⟩)) :
    Under P A Q' (if φ then MonadExcept.throw e >>= k else k ⟨⟩) := by
  split
  · exact throw e
  · rename_i hφ
    exact hk hφ

theorem forM {xs : List α} {f : α → ExceptT ε (Prog C R) PUnit}
    (h : ∀ x ∈ xs, Under P A (fun _ => True) (f x)) : Under P A (fun _ => True) (xs.forM f) := by
  induction xs with
  | nil => exact pure trivial
  | cons x xs ih =>
    exact bind (h x List.mem_cons_self) fun _ _ => ih fun y hy => h y (List.mem_cons_of_mem x hy)

theorem of_only (h : Only P p) : Under P A (fun _ => True) p := by
  suffices hq : ∀ q : Prog C R (Except ε α), q.Only P →
      q.Under P A fun r => ∀ a, r = .ok a → True from hq p h
  intro q
  induction q with
  | pure r => exact fun _ _ _ => trivial
  | call c k ih => exact fun hq => ⟨hq.1, fun r _ => ih r (hq.2 r)⟩

theorem mono {Q₁ : α → Prop} (h : Under P A Q p) (hQ : ∀ a, Q a → Q₁ a) : Under P A Q₁ p :=
  Prog.Under.mono h fun _ hr a ha => hQ a (hr a ha)

end Under

end Except

end Lib
