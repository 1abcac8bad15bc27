/-
  **Locks taken in one order do not deadlock.**
-/
import Mathlib.Logic.Relation

namespace Lib

variable {ι κ : Type} (holder : κ → Option ι) (wants : ι → κ → Prop)

def WaitsFor (i j : ι) : Prop := i ≠ j ∧ ∃ k, wants i k ∧ holder k = some j

/-- Whatever a party has comes before whatever it waits for. -/
def OrderedBy (before : κ → κ → Prop) : Prop :=
  ∀ j k k', holder k = some j → wants j k' → holder k' ≠ some j → before k k'

variable {holder wants} {before : κ → κ → Prop}

theorem OrderedBy.chain (hord : OrderedBy holder wants before)
    (htrans : ∀ a b c, before a b → before b c → before a c) {i j : ι}
    (h : Relation.TransGen (WaitsFor holder wants) i j) :
    ∃ k k', wants i k ∧ holder k ≠ some i ∧ holder k' = some j ∧ (k = k' ∨ before k k') := by
  induction h with
  | single hij =>
    obtain ⟨hne, k, hwants, hholder⟩ := hij
    refine ⟨k, k, hwants, ?_, hholder, .inl rfl⟩
    rw [hholder]
    exact fun h => hne (Option.some.inj h).symm
  | tail _ hjm ih =>
    obtain ⟨k, k', hwants, hfree, hheld, hle⟩ := ih
    obtain ⟨hne, k'', hwants', hheld'⟩ := hjm
    have hup : before k' k'' := by
      apply hord _ _ _ hheld hwants'
      rw [hheld']
      exact fun h => hne (Option.some.inj h).symm
    refine ⟨k, k'', hwants, hfree, hheld', .inr ?_⟩
    rcases hle with rfl | hlt
    · exact hup
    · exact htrans _ _ _ hlt hup

theorem OrderedBy.acyclic (hord : OrderedBy holder wants before)
    (htrans : ∀ a b c, before a b → before b c → before a c) (hirrefl : ∀ a, ¬ before a a)
    (i : ι) : ¬ Relation.TransGen (WaitsFor holder wants) i i := by
  intro h
  obtain ⟨k, k', hwants, hfree, hheld, hle⟩ := hord.chain htrans h
  have hback : before k' k := hord i k' k hheld hwants hfree
  rcases hle with rfl | hlt
  · exact hirrefl _ hback
  · exact hirrefl _ (htrans _ _ _ hlt hback)

end Lib
