/-
  **Tables with a primary key.**

  A `Table` is a list of rows in which no two rows have the same key, which is what a primary-
  key constraint enforces: a table with duplicate keys cannot be built.
-/
import Mathlib.Data.List.Nodup

namespace Lib

structure Table (κ ρ : Type) (key : ρ → κ) where
  rows : List ρ
  nodup : (rows.map key).Nodup

namespace Table

variable {κ ρ : Type} {key : ρ → κ}

/-- The table without rows. -/
def empty : Table κ ρ key := ⟨[], List.nodup_nil⟩

def filter (t : Table κ ρ key) (p : ρ → Bool) : Table κ ρ key :=
  ⟨t.rows.filter p, t.nodup.sublist (List.filter_sublist.map key)⟩

@[simp] theorem rows_empty : (empty : Table κ ρ key).rows = [] := rfl

variable {t : Table κ ρ key} {p : ρ → Bool} {r : ρ}

@[simp] theorem mem_filter : r ∈ (t.filter p).rows ↔ r ∈ t.rows ∧ p r = true := List.mem_filter

theorem eq_of_key_eq (t : Table κ ρ key) {x y : ρ} (hx : x ∈ t.rows) (hy : y ∈ t.rows)
    (h : key x = key y) : x = y :=
  List.inj_on_of_nodup_map t.nodup hx hy h

variable [DecidableEq κ]

def get (t : Table κ ρ key) (k : κ) : Option ρ :=
  t.rows.find? (fun r => key r = k)

/-- Insert the row, replacing the one with the same key. -/
def upsert (t : Table κ ρ key) (r : ρ) : Table κ ρ key :=
  ⟨t.rows.filter (fun x => key x ≠ key r) ++ [r], by
    rw [List.map_append, List.nodup_append]
    refine ⟨t.nodup.sublist (List.filter_sublist.map key), by simp, ?_⟩
    intro a ha b hb
    simp only [List.mem_map, List.mem_filter, decide_eq_true_eq] at ha
    obtain ⟨x, ⟨-, hx⟩, rfl⟩ := ha
    simp only [List.map_cons, List.map_nil, List.mem_singleton] at hb
    exact hb ▸ hx⟩

/-- Delete the row with key `k`. -/
def erase (t : Table κ ρ key) (k : κ) : Table κ ρ key :=
  t.filter (fun r => key r ≠ k)

@[simp] theorem mem_upsert {r x : ρ} :
    x ∈ (t.upsert r).rows ↔ (x ∈ t.rows ∧ key x ≠ key r) ∨ x = r := by
  simp [upsert]

variable {k : κ}

@[simp] theorem mem_erase : r ∈ (t.erase k).rows ↔ r ∈ t.rows ∧ key r ≠ k := by
  simp [erase]

theorem get_eq_some : t.get k = some r ↔ r ∈ t.rows ∧ key r = k := by
  constructor
  · intro h
    have h1 := List.mem_of_find?_eq_some h
    have h2 := List.find?_some h
    exact ⟨h1, by simpa using h2⟩
  · rintro ⟨hr, rfl⟩
    cases hg : t.get (key r) with
    | none =>
      have := List.find?_eq_none.mp hg r hr
      simp at this
    | some x =>
      have h1 := List.mem_of_find?_eq_some hg
      have h2 : key x = key r := by simpa using List.find?_some hg
      rw [t.eq_of_key_eq h1 hr h2]

theorem get_eq_none : t.get k = none ↔ ∀ r ∈ t.rows, key r ≠ k := by
  simp [get, List.find?_eq_none]

theorem get_congr {t u : Table κ ρ key}
    (h : ∀ r, key r = k → (r ∈ t.rows ↔ r ∈ u.rows)) : t.get k = u.get k := by
  cases hg : u.get k with
  | none =>
    rw [get_eq_none] at hg ⊢
    exact fun r hr hk => hg r ((h r hk).mp hr) hk
  | some r =>
    rw [get_eq_some] at hg ⊢
    exact ⟨(h r hg.2).mpr hg.1, hg.2⟩

theorem get_filter (h : ∀ r, key r = k → p r = true) : (t.filter p).get k = t.get k :=
  get_congr fun r hr => by simp [h r hr]

theorem get_of_filter (h : (t.filter p).get k = some r) : t.get k = some r := by
  rw [get_eq_some] at h ⊢
  exact ⟨(mem_filter.mp h.1).1, h.2⟩

@[simp] theorem get_upsert_self (t : Table κ ρ key) (r : ρ) : (t.upsert r).get (key r) = some r :=
  get_eq_some.mpr ⟨by simp, rfl⟩

theorem get_upsert_of_ne (t : Table κ ρ key) (h : k ≠ key r) : (t.upsert r).get k = t.get k := by
  refine get_congr fun x hx => ?_
  subst hx
  simp only [mem_upsert, h, ne_eq, not_false_eq_true, and_true, or_iff_left_iff_imp]
  rintro rfl
  exact absurd rfl h

@[simp] theorem get_erase_self (t : Table κ ρ key) (k : κ) : (t.erase k).get k = none :=
  get_eq_none.mpr fun _ hr => (mem_erase.mp hr).2

theorem get_erase_of_ne (t : Table κ ρ key) {k k' : κ} (h : k ≠ k') :
    (t.erase k').get k = t.get k := by
  refine get_congr fun x hx => ?_
  subst hx
  simp [h]

theorem get_upsert (t : Table κ ρ key) (r : ρ) (k : κ) :
    (t.upsert r).get k = if key r = k then some r else t.get k := by
  split
  · rename_i h
    rw [← h, get_upsert_self]
  · rename_i h
    exact get_upsert_of_ne t (Ne.symm h)

theorem get_foldl_upsert (rs : List ρ) (t : Table κ ρ key) (k : κ) :
    (rs.foldl upsert t).get k = (rs.reverse.find? fun r => key r = k).or (t.get k) := by
  induction rs generalizing t with
  | nil => simp
  | cons r rs ih =>
    rw [List.foldl_cons, ih, get_upsert, List.reverse_cons, List.find?_append, Option.or_assoc]
    by_cases h : key r = k <;> simp [h]

variable {rs : List ρ}

theorem mem_foldl_upsert {x : ρ} (h : x ∈ (rs.foldl upsert t).rows) : x ∈ rs ∨ x ∈ t.rows := by
  induction rs generalizing t with
  | nil => exact .inr h
  | cons r rs ih =>
    rcases ih h with h | h
    · exact .inl (List.mem_cons_of_mem _ h)
    · rcases mem_upsert.mp h with h | rfl
      · exact .inr h.1
      · exact .inl List.mem_cons_self

theorem get_foldl_upsert_rows (u t : Table κ ρ key) (k : κ) :
    (u.rows.foldl upsert t).get k = (u.get k).or (t.get k) := by
  rw [get_foldl_upsert]
  congr 1
  cases hg : u.get k with
  | none =>
    refine List.find?_eq_none.mpr fun r hr => ?_
    simpa using get_eq_none.mp hg r (List.mem_reverse.mp hr)
  | some r =>
    cases hf : u.rows.reverse.find? fun r => key r = k with
    | none =>
      obtain ⟨hr, hk⟩ := get_eq_some.mp hg
      exact absurd hk (by simpa using List.find?_eq_none.mp hf r (List.mem_reverse.mpr hr))
    | some x =>
      have hx := List.mem_reverse.mp (List.mem_of_find?_eq_some hf)
      rw [← hg]
      exact (get_eq_some.mpr ⟨hx, by simpa using List.find?_some hf⟩).symm

theorem rows_foldl_upsert
    (hnew : ∀ x ∈ t.rows, ∀ r ∈ rs, key x ≠ key r) (hrs : rs.Pairwise fun r r' => key r ≠ key r') :
    (rs.foldl upsert t).rows = t.rows ++ rs := by
  induction rs generalizing t with
  | nil => simp
  | cons r rs ih =>
    have hr : (t.upsert r).rows = t.rows ++ [r] :=
      congrArg (· ++ [r]) (List.filter_eq_self.mpr fun x hx => by
        simpa using hnew x hx r List.mem_cons_self)
    obtain ⟨hhead, htail⟩ := List.pairwise_cons.mp hrs
    rw [List.foldl_cons, ih ?_ htail, hr, List.append_assoc]
    · rfl
    · intro x hx y hy
      rcases mem_upsert.mp hx with hx | rfl
      · exact hnew x hx.1 y (List.mem_cons_of_mem r hy)
      · exact hhead y hy

end Table

/-- A dictionary: a table of pairs, by their first component. -/
abbrev Dict (κ ν : Type) := Table κ (κ × ν) Prod.fst

theorem lookup_map {α κ ν : Type} [DecidableEq κ] [BEq κ] [LawfulBEq κ] (rows : List α)
    (key : α → κ) (f : α → ν) (k : κ) :
    (rows.map fun r => (key r, f r)).lookup k = (rows.find? fun r => key r = k).map f := by
  induction rows with
  | nil => rfl
  | cons r rows ih =>
    rw [List.map_cons, List.lookup_cons, List.find?_cons]
    by_cases h : key r = k
    · simp [h]
    · have hne : (k == key r) = false := by simpa using Ne.symm h
      simp [h, hne, ih]

end Lib
