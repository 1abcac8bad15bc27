/-
  **Sorting by a key, and by two keys.**
-/
import Mathlib.Data.List.Sort

namespace Lib

variable {α κ μ : Type}

/-- An element with key `x` may stand before one with key `y`. -/
def inOrder (lt : κ → κ → Bool) (reverse : Bool) (x y : κ) : Bool :=
  if reverse then !lt x y else !lt y x

def sortBy (lt : κ → κ → Bool) (key : α → κ) (reverse : Bool) (xs : List α) : List α :=
  xs.insertionSort fun a b => inOrder lt reverse (key a) (key b) = true

section Stable

variable {r q : α → α → Prop} [DecidableRel r]

/-- First in the order `r`, and in the order `q` among equals. -/
def Refined (r q : α → α → Prop) (a b : α) : Prop :=
  r a b ∧ (r b a → q a b)

variable {xs : List α}

theorem orderedInsert_refined (htotal : ∀ a b, r a b ∨ r b a)
    (htrans : ∀ a b c, r a b → r b c → r a c) {a : α}
    (hxs : xs.Pairwise (Refined r q)) (ha : ∀ b ∈ xs, q a b) :
    (xs.orderedInsert r a).Pairwise (Refined r q) := by
  induction xs with
  | nil => simp
  | cons b xs ih =>
    obtain ⟨hb, hrest⟩ := List.pairwise_cons.mp hxs
    by_cases hab : r a b
    · rw [List.orderedInsert_cons_of_le r xs hab]
      apply List.pairwise_cons.mpr
      constructor
      · intro c hc
        rcases List.mem_cons.mp hc with rfl | hmem
        · exact ⟨hab, fun _ => ha c hc⟩
        · exact ⟨htrans a b c hab (hb c hmem).1, fun _ => ha c hc⟩
      · exact hxs
    · rw [List.orderedInsert_of_not_le r xs hab]
      apply List.pairwise_cons.mpr
      constructor
      · intro c hc
        rcases (List.mem_orderedInsert r).mp hc with rfl | hmem
        · exact ⟨(htotal c b).resolve_left hab, fun h => absurd h hab⟩
        · exact hb c hmem
      · exact ih hrest fun c hc => ha c (List.mem_cons_of_mem b hc)

theorem insertionSort_refined (htotal : ∀ a b, r a b ∨ r b a)
    (htrans : ∀ a b c, r a b → r b c → r a c) (hxs : xs.Pairwise q) :
    (xs.insertionSort r).Pairwise (Refined r q) := by
  induction xs with
  | nil => simp
  | cons a xs ih =>
    obtain ⟨ha, hrest⟩ := List.pairwise_cons.mp hxs
    rw [List.insertionSort_cons]
    apply orderedInsert_refined htotal htrans (ih hrest)
    intro b hb
    exact ha b ((List.mem_insertionSort r).mp hb)

end Stable

def Compares {ο : Type} [LinearOrder ο] (lt : κ → κ → Bool) (f : κ → ο) : Prop :=
  ∀ x y, lt x y = true ↔ f x < f y

section Compare

variable {ο : Type} [LinearOrder ο] {lt : κ → κ → Bool} {f : κ → ο}

theorem Compares.inOrder_iff (h : Compares lt f) (reverse : Bool) (x y : κ) :
    inOrder lt reverse x y = true ↔ if reverse then f y ≤ f x else f x ≤ f y := by
  have hnot : ∀ a b, lt a b = false ↔ f b ≤ f a := by
    intro a b
    rw [← not_lt, ← h a b, Bool.not_eq_true]
  cases reverse with
  | true => simp [inOrder, hnot]
  | false => simp [inOrder, hnot]

theorem Compares.inOrder_total (h : Compares lt f) (reverse : Bool) (x y : κ) :
    inOrder lt reverse x y = true ∨ inOrder lt reverse y x = true := by
  simp only [h.inOrder_iff]
  cases reverse with
  | true => exact le_total (f y) (f x)
  | false => exact le_total (f x) (f y)

theorem Compares.inOrder_trans (h : Compares lt f) (reverse : Bool) (x y z : κ)
    (hxy : inOrder lt reverse x y = true) (hyz : inOrder lt reverse y z = true) :
    inOrder lt reverse x z = true := by
  simp only [h.inOrder_iff] at *
  cases reverse with
  | true => exact le_trans hyz hxy
  | false => exact le_trans hxy hyz

theorem sortBy_refined (h : Compares lt f) (key : α → κ) (reverse : Bool) {q : α → α → Prop}
    {xs : List α} (hxs : xs.Pairwise q) : (sortBy lt key reverse xs).Pairwise
      (Refined (fun a b => inOrder lt reverse (key a) (key b) = true) q) :=
  insertionSort_refined (fun a b => h.inOrder_total reverse (key a) (key b))
    (fun a b c => h.inOrder_trans reverse (key a) (key b) (key c)) hxs

theorem sortBy_sorted (h : Compares lt f) (key : α → κ) (reverse : Bool) (xs : List α) :
    (sortBy lt key reverse xs).Pairwise fun a b => inOrder lt reverse (key a) (key b) = true :=
  (sortBy_refined h key reverse (xs.pairwise_of_forall (R := fun _ _ => True) fun _ _ =>
    trivial)).imp And.left

end Compare

theorem sortBy_pair (lt : κ → κ → Bool) (key : α → κ) (reverse : Bool) (a b : α) :
    sortBy lt key reverse [a, b] =
      if inOrder lt reverse (key a) (key b) = true then [a, b] else [b, a] := by
  simp [sortBy, List.orderedInsert_cons]

theorem sortBy_perm (lt : κ → κ → Bool) (key : α → κ) (reverse : Bool) (xs : List α) :
    (sortBy lt key reverse xs).Perm xs :=
  List.perm_insertionSort _ xs

end Lib
