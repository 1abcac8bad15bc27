/-
  **Walking a graph.**
-/
import Mathlib.Data.List.Dedup
import Mathlib.Logic.Relation

namespace Lib

section Fresh

variable {ν : Type} [DecidableEq ν]

/-- The first occurrences of the elements that have not been queued. -/
def fresh (queued : List ν) : List ν → List ν
  | [] => []
  | v :: vs => if v ∈ queued then fresh queued vs else v :: fresh (queued ++ [v]) vs

variable {queued vs : List ν}

theorem mem_fresh {v : ν} : v ∈ fresh queued vs ↔ v ∈ vs ∧ v ∉ queued := by
  induction vs generalizing queued with
  | nil => simp [fresh]
  | cons u vs ih =>
    rw [fresh]
    by_cases hu : u ∈ queued
    · rw [if_pos hu, ih, List.mem_cons]
      constructor
      · rintro ⟨hv, hnew⟩
        exact ⟨.inr hv, hnew⟩
      · rintro ⟨rfl | hv, hnew⟩
        · exact absurd hu hnew
        · exact ⟨hv, hnew⟩
    · rw [if_neg hu, List.mem_cons, ih, List.mem_cons]
      by_cases hvu : v = u
      · subst hvu
        simp [hu]
      · simp [hvu]

theorem nodup_fresh (queued vs : List ν) : (fresh queued vs).Nodup := by
  induction vs generalizing queued with
  | nil => exact List.nodup_nil
  | cons v vs ih =>
    rw [fresh]
    split
    · exact ih queued
    · rw [List.nodup_cons, mem_fresh]
      exact ⟨fun h => h.2 (by simp), ih _⟩

theorem fresh_eq_self (hvs : vs.Nodup) (hnew : ∀ v ∈ vs, v ∉ queued) : fresh queued vs = vs := by
  induction vs generalizing queued with
  | nil => rfl
  | cons v vs ih =>
    obtain ⟨hv, hrest⟩ := List.nodup_cons.mp hvs
    rw [fresh, if_neg (hnew v List.mem_cons_self), ih hrest]
    intro u hu hmem
    rcases List.mem_append.mp hmem with hqueued | huv
    · exact hnew u (List.mem_cons_of_mem v hu) hqueued
    · rw [List.mem_singleton.mp huv] at hu
      exact hv hu

end Fresh

/-- A graph in which finitely many nodes have successors. -/
structure FiniteGraph (ν : Type) where
  next : ν → List ν
  keys : List ν
  next_keys : ∀ v, next v ≠ [] → v ∈ keys

namespace FiniteGraph

variable {ν : Type} (G : FiniteGraph ν)

def Edge (u v : ν) : Prop :=
  v ∈ G.next u

def Reaches : ν → ν → Prop :=
  Relation.ReflTransGen G.Edge

theorem Reaches.closed {G : FiniteGraph ν} {u v : ν} (h : G.Reaches u v) {s : List ν}
    (hs : ∀ u ∈ s, ∀ v ∈ G.next u, v ∈ s) (hu : u ∈ s) : v ∈ s := by
  induction h with
  | refl => exact hu
  | tail _ hedge ih => exact hs _ ih _ hedge

def nodes : List ν :=
  G.keys.flatMap G.next

theorem mem_nodes {u v : ν} (h : v ∈ G.next u) : v ∈ G.nodes :=
  List.mem_flatMap.mpr ⟨u, G.next_keys u (List.ne_nil_of_mem h), h⟩

variable {v : ν}

theorem filter_length_lt {nodes : List ν} {p q : ν → Bool} (hpq : ∀ v, q v = true → p v = true)
    (hv : v ∈ nodes) (hp : p v = true) (hq : q v = false) :
    (nodes.filter q).length < (nodes.filter p).length := by
  have hsub : (nodes.filter q).Sublist (nodes.filter p) := List.monotone_filter_right nodes hpq
  apply Nat.lt_of_le_of_ne hsub.length_le
  intro heq
  have hmem : v ∈ nodes.filter q := by
    rw [hsub.eq_of_length heq]
    exact List.mem_filter.mpr ⟨hv, hp⟩
  rw [(List.mem_filter.mp hmem).2] at hq
  cases hq

variable [DecidableEq ν]

/-- How many of some nodes are not in a set. -/
def outside (nodes seen : List ν) : Nat :=
  (nodes.filter (· ∉ seen)).length

theorem outside_append_le (nodes seen more : List ν) :
    outside nodes (seen ++ more) ≤ outside nodes seen := by
  apply List.Sublist.length_le
  apply List.monotone_filter_right
  intro u hu
  simp only [List.mem_append, not_or, decide_eq_true_eq] at hu ⊢
  exact hu.1

theorem outside_append_lt {nodes seen more : List ν} (hv : v ∈ nodes) (hseen : v ∉ seen)
    (hmore : v ∈ more) : outside nodes (seen ++ more) < outside nodes seen := by
  apply filter_length_lt _ hv
  · simpa using hseen
  · simp [hmore]
  · intro u hu
    simp only [List.mem_append, not_or, decide_eq_true_eq] at hu ⊢
    exact hu.1

/-- The stack, whose top is the head, after a node has been taken from it. -/
def push (v : ν) (rest : List ν) : List ν :=
  (G.next v).reverse ++ rest

/-- The walk with a stack. -/
def visit (pending visited : List ν) : List ν :=
  match pending with
  | [] => visited
  | v :: rest =>
      if v ∈ visited then visit rest visited
      else visit (G.push v rest) (visited ++ [v])
termination_by (outside G.keys visited, pending.length)
decreasing_by
  · exact Prod.Lex.right _ (by simp)
  · rename_i hnew
    by_cases hnext : G.next v = []
    · rcases Nat.lt_or_eq_of_le (outside_append_le G.keys visited [v]) with hlt | heq
      · exact Prod.Lex.left _ _ hlt
      · rw [heq]
        exact Prod.Lex.right _ (by simp [push, hnext])
    · exact Prod.Lex.left _ _ (outside_append_lt (G.next_keys v hnext) hnew (by simp))

theorem subset_visit (pending visited : List ν) :
    ∀ v, v ∈ pending ∨ v ∈ visited → v ∈ G.visit pending visited := by
  induction pending, visited using visit.induct G with
  | case1 visited =>
    intro v hv
    rw [visit]
    simpa using hv
  | case2 visited u rest hseen ih =>
    intro v hv
    rw [visit, if_pos hseen]
    apply ih
    rcases hv with hv | hv
    · rcases List.mem_cons.mp hv with rfl | hv
      · exact .inr hseen
      · exact .inl hv
    · exact .inr hv
  | case3 visited u rest hseen ih =>
    intro v hv
    rw [visit, if_neg hseen]
    apply ih
    rcases hv with hv | hv
    · rcases List.mem_cons.mp hv with rfl | hv
      · exact .inr (by simp)
      · exact .inl (List.mem_append_right _ hv)
    · exact .inr (List.mem_append_left _ hv)

theorem visit_closed (pending visited : List ν) : ∀ u ∈ G.visit pending visited, u ∉ visited →
      ∀ v ∈ G.next u, v ∈ G.visit pending visited := by
  induction pending, visited using visit.induct G with
  | case1 visited =>
    intro u hu hnew
    rw [visit] at hu
    exact absurd hu hnew
  | case2 visited w rest hseen ih =>
    rw [visit, if_pos hseen]
    exact ih
  | case3 visited w rest hseen ih =>
    rw [visit, if_neg hseen]
    intro u hu hnew v hv
    by_cases huw : u = w
    · subst huw
      apply subset_visit
      exact .inl (List.mem_append_left _ (List.mem_reverse.mpr hv))
    · exact ih u hu (by simp [hnew, huw]) v hv

theorem visit_sound (pending visited : List ν) :
    ∀ v ∈ G.visit pending visited, v ∈ visited ∨ ∃ p ∈ pending, G.Reaches p v := by
  induction pending, visited using visit.induct G with
  | case1 visited =>
    intro v hv
    rw [visit] at hv
    exact .inl hv
  | case2 visited w rest hseen ih =>
    rw [visit, if_pos hseen]
    intro v hv
    rcases ih v hv with hvisited | ⟨p, hp, hreach⟩
    · exact .inl hvisited
    · exact .inr ⟨p, List.mem_cons_of_mem w hp, hreach⟩
  | case3 visited w rest hseen ih =>
    rw [visit, if_neg hseen]
    intro v hv
    rcases ih v hv with hvisited | ⟨p, hp, hreach⟩
    · rcases List.mem_append.mp hvisited with hvisited | hw
      · exact .inl hvisited
      · obtain rfl := List.mem_singleton.mp hw
        exact .inr ⟨v, List.mem_cons_self, .refl⟩
    · rcases List.mem_append.mp hp with hnext | hrest
      · exact .inr ⟨w, List.mem_cons_self, .head (List.mem_reverse.mp hnext) hreach⟩
      · exact .inr ⟨p, List.mem_cons_of_mem w hrest, hreach⟩

theorem mem_visit {root v : ν} : v ∈ G.visit [root] [] ↔ G.Reaches root v := by
  constructor
  · intro hv
    rcases G.visit_sound [root] [] v hv with hnil | ⟨p, hp, hreach⟩
    · cases hnil
    · rwa [List.mem_singleton.mp hp] at hreach
  · intro hreach
    apply hreach.closed
    · intro u hu
      exact G.visit_closed [root] [] u hu (by simp)
    · exact G.subset_visit [root] [] root (.inl List.mem_cons_self)

/-- The walk with a queue: the nodes in the order in which they leave it. -/
def load (pending queued : List ν) : List ν :=
  match pending with
  | [] => []
  | v :: rest => v :: load (rest ++ fresh queued (G.next v)) (queued ++ fresh queued (G.next v))
termination_by (outside G.nodes queued, pending.length)
decreasing_by
  cases hfresh : fresh queued (G.next v) with
  | nil =>
    rw [List.append_nil, List.append_nil]
    exact Prod.Lex.right _ (by simp)
  | cons w ws =>
    have hw := mem_fresh.mp (hfresh ▸ List.mem_cons_self : w ∈ fresh queued (G.next v))
    exact Prod.Lex.left _ _ (outside_append_lt (G.mem_nodes hw.1) hw.2 List.mem_cons_self)

theorem subset_load (pending queued : List ν) : ∀ v ∈ pending, v ∈ G.load pending queued := by
  induction pending, queued using load.induct G with
  | case1 queued => simp
  | case2 queued u rest ih =>
    intro v hv
    rw [load]
    rcases List.mem_cons.mp hv with rfl | hv
    · exact List.mem_cons_self
    · exact List.mem_cons_of_mem u (ih v (List.mem_append_left _ hv))

theorem load_closed (pending queued : List ν) :
    ∀ u ∈ G.load pending queued, ∀ v ∈ G.next u, v ∈ G.load pending queued ∨ v ∈ queued := by
  induction pending, queued using load.induct G with
  | case1 queued =>
    intro u hu
    rw [load] at hu
    cases hu
  | case2 queued w rest ih =>
    intro u hu v hv
    rw [load] at hu ⊢
    have hqueue : ∀ x, x ∈ fresh queued (G.next w) → x ∈ w :: G.load
        (rest ++ fresh queued (G.next w)) (queued ++ fresh queued (G.next w)) := fun x hx =>
      List.mem_cons_of_mem w (G.subset_load _ _ x (List.mem_append_right _ hx))
    rcases List.mem_cons.mp hu with rfl | hu
    · by_cases hqueued : v ∈ queued
      · exact .inr hqueued
      · exact .inl (hqueue v (mem_fresh.mpr ⟨hv, hqueued⟩))
    · rcases ih u hu v hv with hload | hqueued
      · exact .inl (List.mem_cons_of_mem w hload)
      · rcases List.mem_append.mp hqueued with hqueued | hfresh
        · exact .inr hqueued
        · exact .inl (hqueue v hfresh)

theorem load_sound (pending queued : List ν) :
    ∀ v ∈ G.load pending queued, ∃ p ∈ pending, G.Reaches p v := by
  induction pending, queued using load.induct G with
  | case1 queued =>
    intro v hv
    rw [load] at hv
    cases hv
  | case2 queued w rest ih =>
    intro v hv
    rw [load] at hv
    rcases List.mem_cons.mp hv with rfl | hv
    · exact ⟨v, List.mem_cons_self, .refl⟩
    · obtain ⟨p, hp, hreach⟩ := ih v hv
      rcases List.mem_append.mp hp with hrest | hfresh
      · exact ⟨p, List.mem_cons_of_mem w hrest, hreach⟩
      · exact ⟨w, List.mem_cons_self, .head (mem_fresh.mp hfresh).1 hreach⟩

theorem mem_load {roots : List ν} : v ∈ G.load roots roots ↔ ∃ root ∈ roots, G.Reaches root v := by
  constructor
  · exact G.load_sound roots roots v
  · rintro ⟨root, hroot, hreach⟩
    apply hreach.closed
    · intro u hu w hw
      rcases G.load_closed roots roots u hu w hw with hload | hqueued
      · exact hload
      · exact G.subset_load roots roots w hqueued
    · exact G.subset_load roots roots root hroot

end FiniteGraph

end Lib
