/-
  **Objects with a history of versions.**
-/
import Mathlib.Data.List.Basic

namespace Lib

/-- Objects that carry the version of the state they are in. -/
class Resource (α : Type) where
  version : α → Nat
  stamp : Nat → α → α
  version_stamp : ∀ n a, version (stamp n a) = n

attribute [simp] Resource.version_stamp

/-- The states an object has been in, the newest first; `none` is a state in which the
    object was not there. -/
structure Versioned (α : Type) where
  states : List (Option α) := []
deriving DecidableEq

namespace Versioned

variable {α : Type} {o : Versioned α} {s : Option α} {a b : α}

def current (o : Versioned α) : Option α := o.states.head?.join

/-- The object as it was a number of states ago: what a cache may still answer. -/
def lagging (o : Versioned α) (age : Nat) : Option α := (o.states.drop age).head?.join

def put (o : Versioned α) (s : Option α) : Versioned α := ⟨s :: o.states⟩

def Had (o : Versioned α) (a : α) : Prop := some a ∈ o.states

/-- Every state and every later one are related. -/
def Evolves (P : α → α → Prop) (o : Versioned α) : Prop :=
  o.states.Pairwise fun newer older => ∀ a b, newer = some a → older = some b → P b a

@[simp] theorem current_put : (o.put s).current = s := rfl

@[simp] theorem lagging_zero : o.lagging 0 = o.current := rfl

@[simp] theorem had_put : (o.put s).Had a ↔ s = some a ∨ o.Had a := by
  simp only [Had, put, List.mem_cons, eq_comm]

theorem had_of_lagging {age : Nat} (h : o.lagging age = some a) : o.Had a := by
  have hhead : (o.states.drop age).head? = some (some a) := Option.join_eq_some_iff.mp h
  exact List.mem_of_mem_drop (List.mem_of_mem_head? hhead)

theorem had_of_current (h : o.current = some a) : o.Had a :=
  had_of_lagging (o.lagging_zero.trans h)

theorem Evolves.put {P : α → α → Prop} (h : o.Evolves P)
    (hs : ∀ a b, s = some a → o.Had b → P b a) : (o.put s).Evolves P := by
  refine List.pairwise_cons.mpr ⟨fun t ht a b ha hb => ?_, h⟩
  subst hb
  exact hs a b ha ht

variable [Resource α]

/-- The versions grow from state to state and stay below the next one to be given. -/
structure Dated (next : Nat) (o : Versioned α) : Prop where
  below : ∀ a, o.Had a → Resource.version a < next
  grows : o.Evolves fun a b => Resource.version a < Resource.version b

theorem Dated.empty {next : Nat} : Dated next (⟨[]⟩ : Versioned α) :=
  ⟨fun _ h => absurd h List.not_mem_nil, List.Pairwise.nil⟩

theorem Dated.mono {m n : Nat} (h : Dated m o) (hmn : m ≤ n) : Dated n o :=
  ⟨fun a ha => Nat.lt_of_lt_of_le (h.below a ha) hmn, h.grows⟩

theorem Dated.put {next : Nat} (h : Dated next o)
    (hs : ∀ a, s = some a → Resource.version a = next) : Dated (next + 1) (o.put s) := by
  constructor
  · intro a ha
    rcases had_put.mp ha with hnew | hold
    · exact (hs a hnew).symm ▸ Nat.lt_succ_self next
    · exact Nat.lt_succ_of_lt (h.below a hold)
  · exact h.grows.put fun a b ha hb => (hs a ha).symm ▸ h.below b hb

theorem Dated.unique {next : Nat} (h : Dated next o) (ha : o.Had a) (hb : o.Had b)
    (hv : Resource.version a = Resource.version b) : a = b := by
  obtain ⟨states⟩ := o
  have hgrows := h.grows
  clear h
  induction states with
  | nil => exact absurd ha List.not_mem_nil
  | cons t older ih =>
    obtain ⟨hhead, htail⟩ := List.pairwise_cons.mp hgrows
    rcases List.mem_cons.mp ha with hat | hat <;> rcases List.mem_cons.mp hb with hbt | hbt
    · exact Option.some.inj (hat.trans hbt.symm)
    · exact absurd hv (Nat.ne_of_gt (hhead (some b) hbt a b hat.symm rfl))
    · exact absurd hv (Nat.ne_of_lt (hhead (some a) hat b a hbt.symm rfl))
    · exact ih hat hbt htail

theorem Dated.read_current {next : Nat} (h : Dated next o) (ha : o.Had a)
    (hc : o.current = some b) (hv : Resource.version b = Resource.version a) : b = a :=
  h.unique (had_of_current hc) ha hv

end Versioned

/-- Objects under their keys; no other key has ever been used. -/
structure Directory (κ α : Type) where
  keys : List κ := []
  object : κ → Versioned α := fun _ => {}
  unused : ∀ k, k ∉ keys → object k = {} := by exact fun _ _ => rfl

namespace Directory

variable {κ α : Type} {d : Directory κ α} {k k' : κ} {s : Option α} {a : α}

def current (d : Directory κ α) (k : κ) : Option α := (d.object k).current

def Had (d : Directory κ α) (k : κ) (a : α) : Prop := (d.object k).Had a

/-- The objects, each as it was a number of states ago. -/
def list (d : Directory κ α) (age : κ → Nat) : List (κ × α) :=
  d.keys.filterMap fun k => ((d.object k).lagging (age k)).map (k, ·)

theorem had_of_current (h : d.current k = some a) : d.Had k a := Versioned.had_of_current h

theorem mem_keys_of_had (h : d.Had k a) : k ∈ d.keys := by
  by_contra hk
  simp [Had, Versioned.Had, d.unused k hk] at h

theorem mem_list_current : (k, a) ∈ d.list (fun _ => 0) ↔ d.current k = some a := by
  constructor
  · intro h
    obtain ⟨k', -, hk'⟩ := List.mem_filterMap.mp h
    obtain ⟨b, hb, heq⟩ := Option.map_eq_some_iff.mp hk'
    cases heq
    exact hb
  · intro h
    refine List.mem_filterMap.mpr ⟨k, mem_keys_of_had (had_of_current h), ?_⟩
    exact Option.map_eq_some_iff.mpr ⟨a, h, rfl⟩

/-- Every state that an object has been in, with its key. -/
def versions (d : Directory κ α) : List (κ × α) :=
  d.keys.flatMap fun k => (d.object k).states.filterMap fun s => s.map (k, ·)

theorem mem_versions : (k, a) ∈ d.versions ↔ d.Had k a := by
  constructor
  · intro h
    obtain ⟨k', -, hk'⟩ := List.mem_flatMap.mp h
    obtain ⟨s, hs, hsa⟩ := List.mem_filterMap.mp hk'
    obtain ⟨b, rfl, heq⟩ := Option.map_eq_some_iff.mp hsa
    cases heq
    exact hs
  · intro h
    refine List.mem_flatMap.mpr ⟨k, mem_keys_of_had h, List.mem_filterMap.mpr ⟨some a, h, rfl⟩⟩

variable [DecidableEq κ]

def put (d : Directory κ α) (k : κ) (s : Option α) : Directory κ α where
  keys := k :: d.keys.filter (· ≠ k)
  object x := if x = k then (d.object x).put s else d.object x
  unused x hx := by
    have hxk : x ≠ k := fun h => hx (h ▸ List.mem_cons_self)
    rw [if_neg hxk]
    refine d.unused x fun hmem => hx (List.mem_cons_of_mem k ?_)
    exact List.mem_filter.mpr ⟨hmem, by simpa using hxk⟩

theorem current_put : (d.put k s).current k' = if k' = k then s else d.current k' := by
  simp only [current, put]
  split <;> rfl

@[simp] theorem current_put_self : (d.put k s).current k = s := by
  rw [current_put, if_pos rfl]

theorem current_put_of_ne (h : k' ≠ k) : (d.put k s).current k' = d.current k' := by
  rw [current_put, if_neg h]

theorem had_put : (d.put k s).Had k' a ↔ (k' = k ∧ s = some a) ∨ d.Had k' a := by
  simp only [Had, put]
  split
  · simp [*]
  · simp [*]

theorem Had.put (h : d.Had k' a) : (d.put k s).Had k' a := had_put.mpr (.inr h)

omit [DecidableEq κ] in
/-- Every object that `f` gives a new state moves to it. -/
def alter (d : Directory κ α) (f : α → Option α) : Directory κ α where
  keys := d.keys
  object x :=
    match (d.current x).bind f with
    | some a => (d.object x).put (some a)
    | none => d.object x
  unused x hx := by
    have hcur : d.current x = none := by
      rw [current, d.unused x hx]
      rfl
    rw [hcur]
    exact d.unused x hx

/-- No key is used for two objects: the states under a key have one UID, which no other key
    has, and agree in what is fixed; and an end is never taken back. -/
structure Steady {β : Type} [Resource α] (uid : α → Nat) (fixed : α → β) (ended : α → Bool)
    (next : Nat) (d : Directory κ α) : Prop where
  dated : ∀ k, (d.object k).Dated next
  below : ∀ k a, d.Had k a → uid a < next
  same : ∀ k a b, d.Had k a → d.Had k b → uid a = uid b ∧ fixed a = fixed b
  apart : ∀ k k' a b, d.Had k a → d.Had k' b → uid a = uid b → k = k'
  final : ∀ k a b, d.Had k a → ended a = true → d.current k = some b → ended b = true

section Steady

variable {β : Type} [Resource α] {uid : α → Nat} {fixed : α → β} {ended : α → Bool}
  {next next' : Nat}

omit [DecidableEq κ] in
theorem Steady.empty : Steady uid fixed ended next ({} : Directory κ α) :=
  ⟨fun _ => Versioned.Dated.empty, fun _ _ h => absurd h List.not_mem_nil,
    fun _ _ _ h => absurd h List.not_mem_nil, fun _ _ _ _ h => absurd h List.not_mem_nil,
    fun _ _ _ h => absurd h List.not_mem_nil⟩

omit [DecidableEq κ] in
theorem Steady.mono (h : d.Steady uid fixed ended next) (hle : next ≤ next') :
    d.Steady uid fixed ended next' :=
  ⟨fun k => (h.dated k).mono hle, fun k a ha => Nat.lt_of_lt_of_le (h.below k a ha) hle, h.same,
    h.apart, h.final⟩

/-- **A new state**: it is the first one under its key, or it is a state of the object that
    is there. -/
theorem Steady.put (h : d.Steady uid fixed ended next)
    (hs : ∀ a, s = some a → Resource.version a = next ∧
      ((uid a = next ∧ ∀ b, ¬ d.Had k b) ∨ ∃ b, d.current k = some b ∧ uid a = uid b ∧
        fixed a = fixed b ∧ (ended b = true → ended a = true))) :
    (d.put k s).Steady uid fixed ended (next + 1) := by
  -- a state is new under its key, or has the UID and the fields of an older one
  have horigin : ∀ x a, (d.put k s).Had x a →
      (uid a = next ∧ x = k ∧ s = some a ∧ ∀ b, ¬ d.Had x b) ∨
        ∃ b, d.Had x b ∧ uid a = uid b ∧ fixed a = fixed b := by
    intro x a ha
    rcases had_put.mp ha with ⟨rfl, hsa⟩ | hold
    · rcases (hs a hsa).2 with ⟨huid, hnone⟩ | ⟨b, hb, huid, hfixed, -⟩
      · exact .inl ⟨huid, rfl, hsa, hnone⟩
      · exact .inr ⟨b, had_of_current hb, huid, hfixed⟩
    · exact .inr ⟨a, hold, rfl, rfl⟩
  have hbelow : ∀ x a, d.Had x a → uid a ≠ next := fun x a ha => Nat.ne_of_lt (h.below x a ha)
  refine ⟨fun x => ?_, fun x a ha => ?_, fun x a b ha hb => ?_, fun x x' a b ha hb hab => ?_,
    fun x a b ha hended hb => ?_⟩
  · simp only [Directory.put]
    split
    · exact (h.dated x).put fun a ha => (hs a ha).1
    · exact (h.dated x).mono (Nat.le_succ next)
  · rcases horigin x a ha with ⟨huid, -⟩ | ⟨b, hb, huid, -⟩
    · exact huid ▸ Nat.lt_succ_self next
    · exact huid ▸ Nat.lt_succ_of_lt (h.below x b hb)
  · rcases horigin x a ha with ⟨-, -, hsa, hnone⟩ | ⟨a₀, ha₀, hua, hfa⟩ <;>
      rcases horigin x b hb with ⟨-, -, hsb, hnone'⟩ | ⟨b₀, hb₀, hub, hfb⟩
    · obtain rfl := Option.some.inj (hsa.symm.trans hsb)
      exact ⟨rfl, rfl⟩
    · exact absurd hb₀ (hnone b₀)
    · exact absurd ha₀ (hnone' a₀)
    · obtain ⟨hu, hf⟩ := h.same x a₀ b₀ ha₀ hb₀
      exact ⟨hua.trans (hu.trans hub.symm), hfa.trans (hf.trans hfb.symm)⟩
  · rcases horigin x a ha with ⟨hua, rfl, -⟩ | ⟨a₀, ha₀, hua, -⟩ <;>
      rcases horigin x' b hb with ⟨hub, rfl, -⟩ | ⟨b₀, hb₀, hub, -⟩
    · rfl
    · exact absurd (hub.symm.trans (hab.symm.trans hua)) (hbelow x' b₀ hb₀)
    · exact absurd (hua.symm.trans (hab.trans hub)) (hbelow x a₀ ha₀)
    · exact h.apart x x' a₀ b₀ ha₀ hb₀ (hua.symm.trans (hab.trans hub))
  · rw [current_put] at hb
    split at hb
    · rename_i hk
      subst hk
      rcases had_put.mp ha with ⟨-, hsa⟩ | hold
      · exact Option.some.inj (hsa.symm.trans hb) ▸ hended
      · rcases (hs b hb).2 with ⟨-, hnone⟩ | ⟨b₀, hb₀, -, -, hkeep⟩
        · exact absurd hold (hnone a)
        · exact hkeep (h.final x a b₀ hold hended hb₀)
    · rcases had_put.mp ha with ⟨hk, -⟩ | hold
      · exact absurd hk ‹_›
      · exact h.final x a b hold hended hb

end Steady

end Directory

end Lib
