/-
  **Half-open intervals of integers with optional ends.**
-/
import Mathlib.Data.Option.Basic
import Mathlib.Order.Lattice

namespace Lib

/-- The integer lies between the ends, the second one excluded. -/
def Between (start stop : Option Int) (n : Int) : Prop :=
  (∀ a ∈ start, a ≤ n) ∧ ∀ b ∈ stop, n < b

section

variable {s e s' e' : Option Int}

theorem exists_between_both_iff : (∃ n, Between s e n ∧ Between s' e' n) ↔
      ((∀ a ∈ s, ∀ b ∈ e, a < b) ∧ ∀ a ∈ s', ∀ b ∈ e', a < b) ∧
        (∀ a ∈ s, ∀ b ∈ e', a < b) ∧ ∀ a ∈ s', ∀ b ∈ e, a < b := by
  constructor
  · rintro ⟨n, ⟨hs, he⟩, hs', he'⟩
    exact ⟨⟨fun a ha b hb => (hs a ha).trans_lt (he b hb),
        fun a ha b hb => (hs' a ha).trans_lt (he' b hb)⟩,
      fun a ha b hb => (hs a ha).trans_lt (he' b hb),
      fun a ha b hb => (hs' a ha).trans_lt (he b hb)⟩
  · -- the later start, or a number below both ends where there is none
    intro h
    let low := min (e.getD 0) (e'.getD 0) - 1
    refine ⟨max low (max (s.getD low) (s'.getD low)), ?_⟩
    cases s <;> cases e <;> cases s' <;> cases e' <;> simp [Between, low] at h ⊢ <;> omega

theorem exists_between_iff : (∃ n, Between s e n) ↔ ∀ a ∈ s, ∀ b ∈ e, a < b := by
  have h := @exists_between_both_iff s e s e
  simpa using h

theorem forall_between_iff (h : ∃ n, Between s' e' n) : (∀ n, Between s' e' n → Between s e n) ↔
      (∀ a ∈ s, ∃ b ∈ s', a ≤ b) ∧ ∀ a ∈ e, ∃ b ∈ e', b ≤ a := by
  constructor
  · intro hall
    obtain ⟨n, hn⟩ := h
    constructor
    · intro a ha
      cases s' with
      | none =>
        -- without a start there is an element below every bound
        have hlow := (hall (min n (a - 1)) (by
          refine ⟨by simp, fun b hb => ?_⟩
          have := hn.2 b hb
          omega)).1 a ha
        omega
      | some first =>
        refine ⟨first, rfl, (hall first ⟨by simp, fun b hb => ?_⟩).1 a ha⟩
        exact (hn.1 first rfl).trans_lt (hn.2 b hb)
    · intro a ha
      cases e' with
      | none =>
        have hhigh := (hall (max n a) (by
          refine ⟨fun b hb => ?_, by simp⟩
          have := hn.1 b hb
          omega)).2 a ha
        omega
      | some last =>
        have hin : Between s' (some last) (last - 1) := by
          constructor
          · intro b hb
            have := hn.1 b hb
            have := hn.2 last rfl
            omega
          · simp only [Option.mem_some_iff, forall_eq']
            omega
        have := (hall _ hin).2 a ha
        exact ⟨last, rfl, by omega⟩
  · rintro ⟨hstart, hstop⟩ n ⟨hs, he⟩
    constructor
    · intro a ha
      obtain ⟨b, hb, hle⟩ := hstart a ha
      exact hle.trans (hs b hb)
    · intro a ha
      obtain ⟨b, hb, hle⟩ := hstop a ha
      exact (he b hb).trans_le hle

/-- From the first start to the last end lies what lies between elements of the intervals. -/
theorem span_iff {spans : List (Int × Int)} (hlt : ∀ span ∈ spans, span.1 < span.2) {a b : Int}
    (ha : (spans.map (·.1)).min? = some a) (hb : (spans.map (·.2)).max? = some b) (n : Int) :
    a ≤ n ∧ n < b ↔ ∃ x y, (∃ span ∈ spans, span.1 ≤ x ∧ x < span.2) ∧
      (∃ span ∈ spans, span.1 ≤ y ∧ y < span.2) ∧ x ≤ n ∧ n ≤ y := by
  rw [List.min?_eq_some_iff] at ha
  rw [List.max?_eq_some_iff] at hb
  constructor
  · rintro ⟨han, hnb⟩
    obtain ⟨s, hs, rfl⟩ := List.mem_map.mp ha.1
    obtain ⟨t, ht, rfl⟩ := List.mem_map.mp hb.1
    have := hlt t ht
    exact ⟨s.1, t.2 - 1, ⟨s, hs, le_refl _, hlt s hs⟩, ⟨t, ht, by omega, by omega⟩, han, by omega⟩
  · rintro ⟨x, y, ⟨s, hs, hx, -⟩, ⟨t, ht, -, hy⟩, hxn, hny⟩
    have := ha.2 s.1 (List.mem_map_of_mem hs)
    have := hb.2 t.2 (List.mem_map_of_mem ht)
    omega

end

end Lib
