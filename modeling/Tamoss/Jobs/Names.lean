/-
  **When the names of children differ.**
-/
import Tamoss.Jobs.Objects

namespace Tamoss.Jobs

open Lib Operator

variable {a b x y : String}

theorem suffix_of_append_eq (h : a ++ x = b ++ y) :
    x.toList <:+ y.toList ∨ y.toList <:+ x.toList := by
  have hlist : a.toList ++ x.toList = b.toList ++ y.toList := by
    rw [← String.toList_append, h, String.toList_append]
  exact List.suffix_or_suffix_of_suffix ⟨a.toList, rfl⟩ ⟨b.toList, hlist.symm⟩

def EndsApart (x y : String) : Prop :=
  x ≠ "" ∧ y ≠ "" ∧ ¬ ("-" ++ x).toList <:+ ("-" ++ y).toList ∧
    ¬ ("-" ++ y).toList <:+ ("-" ++ x).toList

instance (x y : String) : Decidable (EndsApart x y) := inferInstanceAs (Decidable (_ ∧ _))

theorem appendResourceSuffix_inj {a b x : String}
    (h : appendResourceSuffix a x = appendResourceSuffix b x) : a = b := by
  unfold appendResourceSuffix at h
  split at h
  · exact h
  · rw [String.append_left_inj, String.append_left_inj] at h
    exact h

theorem appendResourceSuffix_ne (h : EndsApart x y) :
    appendResourceSuffix a x ≠ appendResourceSuffix b y := by
  obtain ⟨hx, hy, hxy, hyx⟩ := h
  intro heq
  rw [appendResourceSuffix, appendResourceSuffix, if_neg hx, if_neg hy, String.append_assoc,
    String.append_assoc] at heq
  rcases suffix_of_append_eq heq with hend | hend
  · exact hxy hend
  · exact hyx hend

variable {k k' : Key}

theorem storageBackendResourceKey_inj {x : String}
    (h : storageBackendResourceKey k x = storageBackendResourceKey k' x) : k = k' := by
  obtain ⟨hns, hname⟩ := Key.mk.inj h
  cases k
  cases k'
  exact Key.mk.injEq .. ▸ ⟨hns, appendResourceSuffix_inj hname⟩

theorem storageBackendResourceKey_ne {x y : String} (h : EndsApart x y) :
    storageBackendResourceKey k x ≠ storageBackendResourceKey k' y := fun heq =>
  appendResourceSuffix_ne h (Key.mk.inj heq).2

example : EndsApart "db-register" "db-deregister" ∧ ¬ EndsApart "state" "db-state" := by decide

end Tamoss.Jobs
