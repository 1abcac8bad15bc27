/-
  **Numerals of fixed width, and the order of texts.**
-/
import Mathlib.Algebra.Order.Group.Nat
import Mathlib.Data.Char

namespace Lib

/-- The first text sorts before the second. -/
def textLt : List Char → List Char → Bool
  | _, [] => false
  | [], _ :: _ => true
  | c :: s, d :: t => c < d || (c == d && textLt s t)

theorem textLt_irrefl (s : List Char) : textLt s s = false := by
  induction s with
  | nil => rfl
  | cons c s ih => simp [textLt, ih]

theorem textLt_cons {c d : Char} {s t : List Char} :
    textLt (c :: s) (d :: t) = true ↔ c < d ∨ c = d ∧ textLt s t = true := by
  simp [textLt]

theorem textLt_append {a b s t : List Char} (h : a.length = b.length) :
    textLt (a ++ s) (b ++ t) = true ↔ textLt a b = true ∨ a = b ∧ textLt s t = true := by
  induction a generalizing b with
  | nil =>
    obtain rfl : b = [] := List.length_eq_zero_iff.mp h.symm
    simp [textLt]
  | cons c a ih =>
    cases b with
    | nil => cases h
    | cons d b =>
      simp only [List.length_cons, Nat.add_right_cancel_iff] at h
      rw [List.cons_append, List.cons_append, textLt_cons, textLt_cons, ih h]
      constructor
      · rintro (hlt | ⟨rfl, hlt | ⟨rfl, hst⟩⟩)
        · exact .inl (.inl hlt)
        · exact .inl (.inr ⟨rfl, hlt⟩)
        · exact .inr ⟨rfl, hst⟩
      · rintro ((hlt | ⟨rfl, hlt⟩) | ⟨heq, hst⟩)
        · exact .inl hlt
        · exact .inr ⟨rfl, .inl hlt⟩
        · obtain ⟨rfl, rfl⟩ := List.cons.inj heq
          exact .inr ⟨rfl, .inr ⟨rfl, hst⟩⟩

theorem textLt_same (c : Char) (s t : List Char) :
    textLt (c :: s) (c :: t) = true ↔ textLt s t = true := by
  rw [textLt_cons]
  simp

/-- The number that digits stand for, the leading one first. -/
def valueOf (base : Nat) (digit : Char → Nat) : List Char → Nat
  | [] => 0
  | c :: s => digit c * base ^ s.length + valueOf base digit s

theorem valueOf_lt {base : Nat} {digit : Char → Nat} {s : List Char}
    (h : ∀ c ∈ s, digit c < base) : valueOf base digit s < base ^ s.length := by
  induction s with
  | nil => exact Nat.one_pos
  | cons c s ih =>
    have hrest := ih fun d hd => h d (List.mem_cons_of_mem c hd)
    have hdigit : (digit c + 1) * base ^ s.length ≤ base * base ^ s.length :=
      Nat.mul_le_mul_right _ (h c List.mem_cons_self)
    rw [Nat.succ_mul] at hdigit
    rw [valueOf, List.length_cons, pow_succ, mul_comm (base ^ s.length)]
    omega

/-- Digits whose characters sort as they do. -/
structure Digits where
  base : Nat
  char : Nat → Char
  lt_iff : ∀ i < base, ∀ j < base, (char i < char j ↔ i < j)

namespace Digits

variable (D : Digits)

def numeral : Nat → Nat → List Char
  | 0, _ => []
  | w + 1, n => D.char (n / D.base ^ w) :: numeral w (n % D.base ^ w)

variable {D}

@[simp] theorem length_numeral (w n : Nat) : (D.numeral w n).length = w := by
  induction w generalizing n with
  | zero => rfl
  | succ w ih => simp [numeral, ih]

theorem char_inj {i j : Nat} (hi : i < D.base) (hj : j < D.base) : D.char i = D.char j ↔ i = j := by
  constructor
  · intro h
    rcases Nat.lt_trichotomy i j with hlt | heq | hlt
    · have hchar := (D.lt_iff i hi j hj).mpr hlt
      rw [h] at hchar
      exact absurd hchar (lt_irrefl _)
    · exact heq
    · have hchar := (D.lt_iff j hj i hi).mpr hlt
      rw [h] at hchar
      exact absurd hchar (lt_irrefl _)
  · rintro rfl
    rfl

theorem lt_iff_leading {b n m : Nat} (hb : 0 < b) :
    n < m ↔ n / b < m / b ∨ n / b = m / b ∧ n % b < m % b := by
  have hn := Nat.div_add_mod n b
  have hm := Nat.div_add_mod m b
  have hnb := Nat.mod_lt n hb
  have hmb := Nat.mod_lt m hb
  constructor
  · intro h
    rcases Nat.lt_trichotomy (n / b) (m / b) with hlt | heq | hlt
    · exact .inl hlt
    · rw [heq] at hn
      exact .inr ⟨heq, by omega⟩
    · have := Nat.div_le_div_right (c := b) h.le
      omega
  · rintro (hlt | ⟨heq, hlt⟩)
    · exact Nat.lt_of_div_lt_div hlt
    · rw [heq] at hn
      omega

variable {w n m : Nat}

theorem leading_lt (hbase : 0 < D.base) (h : n < D.base ^ (w + 1)) : n / D.base ^ w < D.base := by
  rw [Nat.div_lt_iff_lt_mul (Nat.pow_pos hbase), mul_comm, ← pow_succ]
  exact h

theorem base_pos (h : n < D.base ^ (w + 1)) : 0 < D.base := by
  rcases Nat.eq_zero_or_pos D.base with hzero | hpos
  · rw [hzero, pow_succ, Nat.mul_zero] at h
    exact absurd h (Nat.not_lt_zero n)
  · exact hpos

theorem textLt_numeral (hn : n < D.base ^ w) (hm : m < D.base ^ w) :
    textLt (D.numeral w n) (D.numeral w m) = true ↔ n < m := by
  induction w generalizing n m with
  | zero =>
    simp only [pow_zero, Nat.lt_one_iff] at hn hm
    simp [numeral, textLt, hn, hm]
  | succ w ih =>
    have hbase := base_pos hn
    have hpow : 0 < D.base ^ w := Nat.pow_pos hbase
    have hlead : ∀ {k}, k < D.base ^ (w + 1) → k / D.base ^ w < D.base := leading_lt hbase
    rw [numeral, numeral, textLt_cons, D.lt_iff _ (hlead hn) _ (hlead hm),
      char_inj (hlead hn) (hlead hm), ih (Nat.mod_lt _ hpow) (Nat.mod_lt _ hpow),
      ← lt_iff_leading hpow]

theorem numeral_inj (hn : n < D.base ^ w) (hm : m < D.base ^ w) :
    D.numeral w n = D.numeral w m ↔ n = m := by
  constructor
  · intro h
    rcases Nat.lt_trichotomy n m with hlt | heq | hlt
    · have htext := (textLt_numeral hn hm).mpr hlt
      rw [h, textLt_irrefl] at htext
      cases htext
    · exact heq
    · have htext := (textLt_numeral hm hn).mpr hlt
      rw [h, textLt_irrefl] at htext
      cases htext
  · rintro rfl
    rfl

theorem textLt_numeral_append {s t : List Char} (hn : n < D.base ^ w) (hm : m < D.base ^ w) :
    textLt (D.numeral w n ++ s) (D.numeral w m ++ t) = true ↔
      n < m ∨ n = m ∧ textLt s t = true := by
  rw [textLt_append (by simp), textLt_numeral hn hm, numeral_inj hn hm]

theorem mem_numeral (h : n < D.base ^ w) {c : Char} (hc : c ∈ D.numeral w n) :
    ∃ i < D.base, c = D.char i := by
  induction w generalizing n with
  | zero => cases hc
  | succ w ih =>
    have hbase := base_pos h
    rcases List.mem_cons.mp hc with rfl | hc
    · exact ⟨_, leading_lt hbase h, rfl⟩
    · exact ih (Nat.mod_lt _ (Nat.pow_pos hbase)) hc

theorem valueOf_numeral {digit : Char → Nat} (hdigit : ∀ i < D.base, digit (D.char i) = i)
    (h : n < D.base ^ w) : valueOf D.base digit (D.numeral w n) = n := by
  induction w generalizing n with
  | zero =>
    rw [pow_zero, Nat.lt_one_iff] at h
    rw [h]
    rfl
  | succ w ih =>
    have hbase := base_pos h
    rw [numeral, valueOf, length_numeral, hdigit _ (leading_lt hbase h),
      ih (Nat.mod_lt n (Nat.pow_pos hbase)), mul_comm, Nat.div_add_mod]

end Digits

/-- `0` to `9` -/
def decimal : Digits where
  base := 10
  char i := Char.ofNat (48 + i)
  lt_iff := by decide

/-- The number that decimal digits denote. -/
def decimalValue : List Char → Nat := valueOf 10 fun c => c.toNat - 48

theorem decimalValue_numeral {w n : Nat} (h : n < 10 ^ w) :
    decimalValue (decimal.numeral w n) = n :=
  Digits.valueOf_numeral (D := decimal) (by decide) h

/-- `0` to `9` and `a` to `f` -/
def hexadecimal : Digits where
  base := 16
  char i := Char.ofNat (if i < 10 then 48 + i else 87 + i)
  lt_iff := by decide

def hexadecimalValue : List Char → Nat :=
  valueOf 16 fun c => if c.toNat < 58 then c.toNat - 48 else c.toNat - 87

theorem hexadecimalValue_numeral {w n : Nat} (h : n < 16 ^ w) :
    hexadecimalValue (hexadecimal.numeral w n) = n :=
  Digits.valueOf_numeral (D := hexadecimal) (by decide) h

end Lib
