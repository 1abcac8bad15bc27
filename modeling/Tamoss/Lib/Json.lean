/-
  **JSON values, and objects as maps from member names to values.**

  A JSON text may name a member twice; `Json` keeps the members of an object in the order of the
  text, and `Json.decoded` is the value a decoder makes of it that keeps the last of two members
  with one name.
-/
import Mathlib.Data.List.Nodup

namespace Lib

inductive Json where
  | null
  | bool (value : Bool)
  | num (spelling : String)
  | str (value : String)
  | arr (items : List Json)
  | obj (members : List (String × Json))

abbrev Members := List (String × Json)

namespace Members

def get (key : String) : Members → Option Json
  | [] => none
  | (k, value) :: rest => if k = key then some value else get key rest

/-- The object without a member. -/
def erase (key : String) : Members → Members
  | [] => []
  | (k, value) :: rest => if k = key then erase key rest else (k, value) :: erase key rest

def set (key : String) (value : Json) (ms : Members) : Members :=
  (key, value) :: erase key ms

def names (ms : Members) : List String := ms.map (·.1)

@[simp] theorem get_nil (key : String) : get key [] = none := rfl

@[simp] theorem get_cons_self (key : String) (value : Json) (ms : Members) :
    get key ((key, value) :: ms) = some value := by simp [get]

variable {key k : String}

theorem get_cons_ne (h : k ≠ key) (value : Json) (ms : Members) :
    get key ((k, value) :: ms) = get key ms := by simp [get, h]

@[simp] theorem get_erase_self (key : String) (ms : Members) : get key (erase key ms) = none := by
  induction ms with
  | nil => rfl
  | cons m ms ih =>
    obtain ⟨k, value⟩ := m
    by_cases h : k = key
    · simp [erase, h, ih]
    · simp [erase, h, get, ih]

theorem get_erase_ne (h : k ≠ key) (ms : Members) : get key (erase k ms) = get key ms := by
  induction ms with
  | nil => rfl
  | cons m ms ih =>
    obtain ⟨name, value⟩ := m
    by_cases hk : name = k
    · subst hk
      simp [erase, get, h, ih]
    · by_cases hn : name = key
      · subst hn
        simp [erase, get, hk]
      · simp [erase, get, hk, hn, ih]

@[simp] theorem get_set_self (key : String) (value : Json) (ms : Members) :
    get key (set key value ms) = some value := by simp [set]

theorem get_set_ne (h : k ≠ key) (value : Json) (ms : Members) :
    get key (set k value ms) = get key ms := by
  rw [set, get_cons_ne h, get_erase_ne h]

@[simp] theorem erase_erase_self (key : String) (ms : Members) :
    erase key (erase key ms) = erase key ms := by
  induction ms with
  | nil => rfl
  | cons m ms ih =>
    obtain ⟨k, value⟩ := m
    by_cases h : k = key
    · simp [erase, h, ih]
    · simp [erase, h, ih]

@[simp] theorem erase_set_self (key : String) (value : Json) (ms : Members) :
    erase key (set key value ms) = erase key ms := by simp [set, erase]

variable {ms : Members}

theorem get_eq_none {key : String} : get key ms = none ↔ key ∉ names ms := by
  induction ms with
  | nil => simp [names]
  | cons m ms ih =>
    obtain ⟨k, value⟩ := m
    by_cases h : k = key
    · simp [get, names, h]
    · have h' : key ≠ k := fun heq => h heq.symm
      simp [get, h, ih, names, h']

theorem mem_names_erase (h : k ∈ names (erase key ms)) : k ∈ names ms ∧ k ≠ key := by
  constructor
  · by_contra hk
    apply get_eq_none.not.mpr (not_not.mpr h)
    by_cases hkey : key = k
    · simp [hkey]
    · rw [get_erase_ne hkey, get_eq_none]
      exact hk
  · intro hkey
    subst hkey
    exact get_eq_none.mp (get_erase_self k ms) h

theorem nodup_erase (key : String) (h : (names ms).Nodup) : (names (erase key ms)).Nodup := by
  induction ms with
  | nil => exact List.nodup_nil
  | cons m ms ih =>
    obtain ⟨k, value⟩ := m
    have hnot : k ∉ names ms := (List.nodup_cons.mp h).1
    have hrest : (names (erase key ms)).Nodup := ih (List.nodup_cons.mp h).2
    by_cases hk : k = key
    · simpa [erase, hk] using hrest
    · simp only [erase, hk, if_false]
      apply List.nodup_cons.mpr
      exact ⟨fun hmem => hnot (mem_names_erase hmem).1, hrest⟩

@[simp] theorem nodup_names_nil : (names []).Nodup := List.nodup_nil

theorem nodup_set (key : String) (value : Json) (h : (names ms).Nodup) :
    (names (set key value ms)).Nodup := by
  apply List.nodup_cons.mpr
  exact ⟨fun hmem => (mem_names_erase hmem).2 rfl, nodup_erase key h⟩

end Members

namespace Json

mutual

/-- The value a decoder makes of a text: of two members with one name, the last. -/
def decoded : Json → Json
  | .arr items => .arr (decodedItems items)
  | .obj members => .obj (decodedMembers [] members)
  | value => value

def decodedItems : List Json → List Json
  | [] => []
  | item :: items => item.decoded :: decodedItems items

/-- Reading members into the map made of the earlier ones. -/
def decodedMembers (read : Members) : List (String × Json) → Members
  | [] => read
  | (key, value) :: rest => decodedMembers (Members.set key value.decoded read) rest

end

theorem nodup_decodedMembers {read : Members} (h : (Members.names read).Nodup)
    (members : List (String × Json)) : (Members.names (decodedMembers read members)).Nodup := by
  induction members generalizing read with
  | nil => simpa [decodedMembers] using h
  | cons m members ih =>
    obtain ⟨key, value⟩ := m
    rw [decodedMembers]
    apply ih
    exact Members.nodup_set key _ h

mutual

def beq : Json → Json → Bool
  | .null, .null => true
  | .bool a, .bool b => a = b
  | .num a, .num b => a = b
  | .str a, .str b => a = b
  | .arr as, .arr bs => beqItems as bs
  | .obj as, .obj bs => beqMembers as bs
  | _, _ => false

def beqItems : List Json → List Json → Bool
  | [], [] => true
  | a :: as, b :: bs => a.beq b && beqItems as bs
  | _, _ => false

def beqMembers : List (String × Json) → List (String × Json) → Bool
  | [], [] => true
  | (k, a) :: as, (l, b) :: bs => decide (k = l) && a.beq b && beqMembers as bs
  | _, _ => false

end

mutual

theorem eq_of_beq : ∀ {a b : Json}, a.beq b = true → a = b
  | .null, b, h => by cases b <;> simp_all [beq]
  | .bool a, b, h => by cases b <;> simp_all [beq]
  | .num a, b, h => by cases b <;> simp_all [beq]
  | .str a, b, h => by cases b <;> simp_all [beq]
  | .arr as, b, h => by
    cases b with
    | arr bs =>
      rw [beq] at h
      rw [eq_of_beqItems h]
    | _ => simp [beq] at h
  | .obj as, b, h => by
    cases b with
    | obj bs =>
      rw [beq] at h
      rw [eq_of_beqMembers h]
    | _ => simp [beq] at h

theorem eq_of_beqItems : ∀ {as bs : List Json}, beqItems as bs = true → as = bs
  | [], bs, h => by cases bs <;> simp_all [beqItems]
  | a :: as, bs, h => by
    cases bs with
    | nil => simp [beqItems] at h
    | cons b bs =>
      simp only [beqItems, Bool.and_eq_true] at h
      rw [eq_of_beq h.1, eq_of_beqItems h.2]

theorem eq_of_beqMembers : ∀ {as bs : List (String × Json)}, beqMembers as bs = true → as = bs
  | [], bs, h => by cases bs <;> simp_all [beqMembers]
  | (k, a) :: as, bs, h => by
    cases bs with
    | nil => simp [beqMembers] at h
    | cons m bs =>
      obtain ⟨l, b⟩ := m
      simp only [beqMembers, Bool.and_eq_true, decide_eq_true_eq] at h
      rw [h.1.1, eq_of_beq h.1.2, eq_of_beqMembers h.2]

end

mutual

theorem beq_self : ∀ a : Json, a.beq a = true
  | .null => rfl
  | .bool a => by simp [beq]
  | .num a => by simp [beq]
  | .str a => by simp [beq]
  | .arr as => by rw [beq, beqItems_self as]
  | .obj as => by rw [beq, beqMembers_self as]

theorem beqItems_self : ∀ as : List Json, beqItems as as = true
  | [] => rfl
  | a :: as => by rw [beqItems, beq_self a, beqItems_self as]; rfl

theorem beqMembers_self : ∀ as : List (String × Json), beqMembers as as = true
  | [] => rfl
  | (k, a) :: as => by simp [beqMembers, beq_self a, beqMembers_self as]

end

instance : DecidableEq Json := fun a b =>
  if h : a.beq b = true then .isTrue (eq_of_beq h)
  else .isFalse fun heq => h (heq ▸ beq_self a)

def text : Option Json → String
  | some (.str value) => value
  | _ => ""

def truth : Option Json → Option Bool
  | some (.bool value) => some value
  | _ => none

/-- The members of a value that is an object. -/
def members : Option Json → Members
  | some (.obj ms) => ms
  | _ => []

end Json

end Lib
