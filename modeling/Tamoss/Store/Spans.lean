/-
  **An implementation of the package.**
-/
import Tamoss.Store.TimeRange

namespace Tamoss

abbrev Bound := Option (Int × Bool)

/-- A range by its bounds. -/
structure Span where
  lower : Bound
  upper : Bound
deriving DecidableEq

namespace Span

def isEmpty (r : Span) : Bool :=
  match r.lower, r.upper with
  | some (a, i), some (b, j) => decide (b < a) || (decide (a = b) && !(i && j))
  | _, _ => false

def maxLower : Bound → Bound → Bound
  | none, y => y
  | x, none => x
  | some (a, i), some (b, j) =>
      if a < b then some (b, j) else if b < a then some (a, i) else some (a, i && j)

def minLower : Bound → Bound → Bound
  | some (a, i), some (b, j) =>
      if a < b then some (a, i) else if b < a then some (b, j) else some (a, i || j)
  | _, _ => none

def flip (bound : Bound) : Bound := bound.map fun b => (-b.1, b.2)

def minUpper (l m : Bound) : Bound := flip (maxLower (flip l) (flip m))

def maxUpper (l m : Bound) : Bound := flip (minLower (flip l) (flip m))

def intersect (r s : Span) : Span := ⟨maxLower r.lower s.lower, minUpper r.upper s.upper⟩

def extend (r s : Span) : Span :=
  if r.isEmpty then s
  else if s.isEmpty then r
  else ⟨minLower r.lower s.lower, maxUpper r.upper s.upper⟩

def After (bound : Bound) (x : ℚ) : Prop :=
  ∀ b, bound = some b → if b.2 then (b.1 : ℚ) ≤ x else b.1 < x

@[simp] theorem after_none (x : ℚ) : After none x := by simp [After]

@[simp] theorem after_some (b : Int × Bool) (x : ℚ) :
    After (some b) x ↔ if b.2 then (b.1 : ℚ) ≤ x else b.1 < x := by simp [After]

@[simp] theorem flip_flip (bound : Bound) : flip (flip bound) = bound := by
  cases bound <;> simp [flip]

theorem After.mono {bound : Bound} {x y : ℚ} (h : After bound x) (hxy : x ≤ y) : After bound y := by
  intro b hb
  have hb := h b hb
  revert hb
  split
  · exact fun hb => hb.trans hxy
  · exact fun hb => hb.trans_le hxy

theorem after_maxLower (l m : Bound) (x : ℚ) : After (maxLower l m) x ↔ After l x ∧ After m x := by
  rcases l with _ | ⟨a, i⟩
  · simp [maxLower]
  · rcases m with _ | ⟨b, j⟩
    · simp [maxLower]
    · rcases lt_trichotomy a b with h | rfl | h
      · have hq : (a : ℚ) < b := by exact_mod_cast h
        simp only [maxLower, if_pos h, after_some]
        cases i <;> cases j <;> simp <;> intro _ <;> linarith
      · simp only [maxLower, lt_irrefl, if_false, after_some]
        cases i <;> cases j <;> simp <;> intro _ <;> linarith
      · have hq : (b : ℚ) < a := by exact_mod_cast h
        simp only [maxLower, if_neg (not_lt.mpr h.le), if_pos h, after_some]
        cases i <;> cases j <;> simp <;> intro _ <;> linarith

theorem after_minLower (l m : Bound) (x : ℚ) : After (minLower l m) x ↔ After l x ∨ After m x := by
  rcases l with _ | ⟨a, i⟩
  · simp [minLower]
  · rcases m with _ | ⟨b, j⟩
    · simp [minLower]
    · rcases lt_trichotomy a b with h | rfl | h
      · have hq : (a : ℚ) < b := by exact_mod_cast h
        simp only [minLower, if_pos h, after_some]
        cases i <;> cases j <;> simp <;> intro _ <;> linarith
      · simp only [minLower, lt_irrefl, if_false, after_some]
        cases i <;> cases j <;> simp <;> intro _ <;> linarith
      · have hq : (b : ℚ) < a := by exact_mod_cast h
        simp only [minLower, if_neg (not_lt.mpr h.le), if_pos h, after_some]
        cases i <;> cases j <;> simp <;> intro _ <;> linarith

theorem eq_of_after {l m : Bound} (h : ∀ x, After l x ↔ After m x) : l = m := by
  have hbelow : ∀ (a : Int) (i : Bool), ¬ After (some (a, i)) ((a : ℚ) - 1) := by
    intro a i
    cases i <;> simp
  have hlt : ∀ {a b : Int} {i j : Bool},
      (∀ x, After (some (a, i)) x ↔ After (some (b, j)) x) → ¬ a < b := by
    intro a b i j h hab
    have hq : (a : ℚ) < b := by exact_mod_cast hab
    have hmid := (h ((a + b) / 2)).mp (by cases i <;> simp <;> linarith)
    cases j <;> simp at hmid <;> linarith
  rcases l with _ | ⟨a, i⟩
  · rcases m with _ | ⟨b, j⟩
    · rfl
    · exact absurd ((h _).mp (after_none _)) (hbelow b j)
  · rcases m with _ | ⟨b, j⟩
    · exact absurd ((h _).mpr (after_none _)) (hbelow a i)
    · obtain rfl : a = b := le_antisymm (not_lt.mp (hlt fun x => (h x).symm)) (not_lt.mp (hlt h))
      have ha := h a
      cases i <;> cases j <;> simp at ha ⊢

end Span

namespace Span

/-- `sec:nsec` -/
def secNsec (n : Nat) : List Char :=
  Nat.toDigits 10 (n / 1000000000) ++ ':' :: Nat.toDigits 10 (n % 1000000000)

def intText : Int → List Char
  | .ofNat n => secNsec n
  | .negSucc n => '-' :: secNsec (n + 1)

def parseNat (digits : List Char) : Option Nat :=
  if digits ≠ [] ∧ digits.all Char.isDigit then some (Nat.ofDigitChars 10 digits 0) else none

/-- Nanoseconds; without a colon the text is one of seconds. -/
def parseSecNsec (text : List Char) : Option Nat :=
  match text.dropWhile (· ≠ ':') with
  | [] => (parseNat text).map (· * 1000000000)
  | _ :: nsec =>
      match parseNat (text.takeWhile (· ≠ ':')), parseNat nsec with
      | some sec, some nsec => some (sec * 1000000000 + nsec)
      | _, _ => none

def parseInt : List Char → Option Int
  | '-' :: text => (parseSecNsec text).map fun n => -n
  | text => (parseSecNsec text).map fun n => n

def lowerText : Bound → List Char
  | none => []
  | some (a, i) => (if i then '[' else '(') :: intText a

def upperText : Bound → List Char
  | none => []
  | some (b, j) => intText b ++ [if j then ']' else ')']

def toText (r : Span) : String := String.ofList (lowerText r.lower ++ '_' :: upperText r.upper)

def parseLower : List Char → Option Bound
  | [] => some none
  | '[' :: digits => (parseInt digits).map fun a => some (a, true)
  | '(' :: digits => (parseInt digits).map fun a => some (a, false)
  | _ => none

def parseUpper (text : List Char) : Option Bound :=
  match text.reverse with
  | [] => some none
  | ']' :: digits => (parseInt digits.reverse).map fun b => some (b, true)
  | ')' :: digits => (parseInt digits.reverse).map fun b => some (b, false)
  | _ => none

def ofString (value : String) : Option Span :=
  match value.toList.dropWhile (· ≠ '_') with
  | [] => none
  | _ :: upper =>
      match parseLower (value.toList.takeWhile (· ≠ '_')), parseUpper upper with
      | some lower, some upper => some ⟨lower, upper⟩
      | _, _ => none

theorem parseNat_toDigits (n : Nat) : parseNat (Nat.toDigits 10 n) = some n := by
  have hall : (Nat.toDigits 10 n).all Char.isDigit = true :=
    List.all_eq_true.mpr fun c hc => Nat.isDigit_of_mem_toDigits (by decide) (by decide) hc
  rw [parseNat, if_pos ⟨Nat.toDigits_ne_nil, hall⟩, Nat.ofDigitChars_ten_toDigits]

theorem isDigit_of_mem {n : Nat} {c : Char} (hc : c ∈ Nat.toDigits 10 n) : c.isDigit = true :=
  Nat.isDigit_of_mem_toDigits (by decide) (by decide) hc

theorem parseSecNsec_secNsec (n : Nat) : parseSecNsec (secNsec n) = some n := by
  have hsec : ∀ c ∈ Nat.toDigits 10 (n / 1000000000), decide (c ≠ ':') = true := by
    intro c hc
    refine decide_eq_true ?_
    rintro rfl
    cases isDigit_of_mem hc
  unfold parseSecNsec secNsec
  rw [List.dropWhile_append_of_pos hsec, List.takeWhile_append_of_pos hsec]
  simp [parseNat_toDigits, Nat.div_add_mod']

theorem mem_secNsec {n : Nat} {c : Char} (hc : c ∈ secNsec n) : c.isDigit = true ∨ c = ':' := by
  rcases List.mem_append.mp hc with h | h
  · exact .inl (isDigit_of_mem h)
  · rcases List.mem_cons.mp h with h | h
    · exact .inr h
    · exact .inl (isDigit_of_mem h)

theorem parseInt_intText (a : Int) : parseInt (intText a) = some a := by
  cases a with
  | ofNat n =>
    have hparse := parseSecNsec_secNsec n
    cases htext : secNsec n with
    | nil => simp [secNsec] at htext
    | cons c cs =>
      have hc : c ≠ '-' := by
        rintro rfl
        have hmem : '-' ∈ secNsec n := by
          rw [htext]
          exact List.mem_cons_self
        rcases mem_secNsec hmem with h | h <;> cases h
      rw [htext] at hparse
      rw [intText, htext, parseInt, hparse]
      · rfl
      · exact fun _ h => hc (List.cons.inj h).1
  | negSucc n =>
    rw [intText, parseInt, parseSecNsec_secNsec]
    rfl

theorem intText_ne (a : Int) {c : Char} (hc : c ∈ intText a) : c ≠ '_' := by
  rintro rfl
  cases a with
  | ofNat n => rcases mem_secNsec hc with h | h <;> cases h
  | negSucc n =>
    rcases List.mem_cons.mp hc with h | h
    · cases h
    · rcases mem_secNsec h with h | h <;> cases h

theorem lowerText_ne (bound : Bound) {c : Char} (hc : c ∈ lowerText bound) : c ≠ '_' := by
  rcases bound with _ | ⟨a, i⟩
  · cases hc
  · rcases List.mem_cons.mp hc with rfl | h
    · cases i <;> decide
    · exact intText_ne a h

theorem parseLower_lowerText (bound : Bound) : parseLower (lowerText bound) = some bound := by
  rcases bound with _ | ⟨a, i⟩
  · rfl
  · cases i <;> simp [lowerText, parseLower, parseInt_intText]

theorem parseUpper_upperText (bound : Bound) : parseUpper (upperText bound) = some bound := by
  rcases bound with _ | ⟨b, j⟩
  · rfl
  · cases j <;> simp [upperText, parseUpper, parseInt_intText]

theorem ofString_toText (r : Span) : ofString (toText r) = some r := by
  have hlower : ∀ c ∈ lowerText r.lower, decide (c ≠ '_') = true :=
    fun c hc => decide_eq_true (lowerText_ne r.lower hc)
  unfold ofString toText
  rw [String.toList_ofList, List.dropWhile_append_of_pos hlower,
    List.takeWhile_append_of_pos hlower]
  simp [parseLower_lowerText, parseUpper_upperText]

end Span

def sampleTimestamp : MediaTimestamp where
  TimeRange := Span
  fromStr := Span.ofString
  str := Span.toText
  make a b i j := ⟨some (a, i), some (b, j)⟩
  start r := r.lower.map (·.1)
  stop r := r.upper.map (·.1)
  includesStart r := (r.lower.map (·.2)).getD false
  includesEnd r := (r.upper.map (·.2)).getD false
  isEmpty := Span.isEmpty
  intersectWith := Span.intersect
  containsSubrange r s := r.intersect s = s
  extendToEncompassTimerange := Span.extend
  timestampFromStr value := Span.parseInt value.toList
  timestampStr n := String.ofList (Span.intText n)
  timestampSub a b := a - b

section Sample

theorem sampleTimestamp_contains (r : Span) (x : ℚ) : sampleTimestamp.Contains r x ↔
      Span.After r.lower x ∧ Span.After (Span.flip r.upper) (-x) := by
  obtain ⟨lower, upper⟩ := r
  unfold MediaTimestamp.Contains sampleTimestamp
  refine and_congr ?_ ?_
  · cases lower <;> simp
  · cases upper <;> simp [Span.flip]

variable {r : Span}

theorem sampleTimestamp_exists (h : r.isEmpty = false) : ∃ x, sampleTimestamp.Contains r x := by
  obtain ⟨lower, upper⟩ := r
  simp only [sampleTimestamp_contains]
  rcases lower with _ | ⟨a, i⟩
  · rcases upper with _ | ⟨b, j⟩
    · exact ⟨0, by simp [Span.flip]⟩
    · refine ⟨b - 1, by simp, ?_⟩
      cases j <;> simp [Span.flip]
  · rcases upper with _ | ⟨b, j⟩
    · refine ⟨a + 1, ?_, by simp [Span.flip]⟩
      cases i <;> simp
    · simp only [Span.isEmpty, Bool.or_eq_false_iff, decide_eq_false_iff_not, not_lt,
        Bool.and_eq_false_iff, Bool.not_eq_false'] at h
      refine ⟨(a + b) / 2, ?_⟩
      rcases lt_or_eq_of_le h.1 with hlt | rfl
      · have hq : (a : ℚ) < b := by exact_mod_cast hlt
        cases i <;> cases j <;> simp [Span.flip] <;> constructor <;> linarith
      · have hij := h.2.resolve_left (by simp)
        simpa [Span.flip] using hij

theorem sampleTimestamp_lawful : sampleTimestamp.Lawful where
  isEmpty_iff r := by
    refine ⟨fun h x hx => ?_, fun h => ?_⟩
    · obtain ⟨lower, upper⟩ := r
      rw [sampleTimestamp_contains] at hx
      rcases lower with _ | ⟨a, i⟩
      · cases h
      · rcases upper with _ | ⟨b, j⟩
        · cases h
        · have h' : b < a ∨ a = b ∧ (i = false ∨ j = false) := by
            simpa [sampleTimestamp, Span.isEmpty] using h
          simp only [Span.flip, Option.map_some, Span.after_some, Int.cast_neg] at hx
          rcases h' with h' | ⟨rfl, hij⟩
          · have hq : (b : ℚ) < a := by exact_mod_cast h'
            cases i <;> cases j <;> simp at hx <;> linarith
          · rcases hij with rfl | rfl
            · cases j <;> simp at hx <;> linarith
            · cases i <;> simp at hx <;> linarith
    · by_contra hcon
      obtain ⟨x, hx⟩ := sampleTimestamp_exists (Bool.not_eq_true _ ▸ hcon)
      exact h x hx
  contains_intersectWith r s x := by
    rw [sampleTimestamp_contains r, sampleTimestamp_contains s]
    refine (sampleTimestamp_contains _ x).trans ?_
    show Span.After (Span.maxLower _ _) x ∧ Span.After (Span.flip (Span.minUpper _ _)) (-x) ↔ _
    rw [Span.minUpper, Span.flip_flip, Span.after_maxLower, Span.after_maxLower]
    tauto
  fromStr_str r := by
    have hchars : (Span.toText r).toList.contains '_' = true := by simp [Span.toText]
    refine ⟨⟨r, Span.ofString_toText r⟩, fun h => ?_, ?_⟩
    · have htext : Span.toText r = "" := h
      rw [htext] at hchars
      cases hchars
    · have hexclusive : MediaTimestamp.instantaneousExclusive (Span.toText r) = false := by
        rw [MediaTimestamp.instantaneousExclusive, hchars]
        rfl
      exact hexclusive

theorem sampleTimestamp_after (hr : ∃ x, sampleTimestamp.Contains r x) (y : ℚ) :
    Span.After r.lower y ↔ ∃ x, sampleTimestamp.Contains r x ∧ x ≤ y := by
  constructor
  · intro hafter
    obtain ⟨x, hx⟩ := hr
    by_cases hxy : x ≤ y
    · exact ⟨x, hx, hxy⟩
    · refine ⟨y, (sampleTimestamp_contains r y).mpr ⟨hafter, ?_⟩, le_refl y⟩
      have hup := ((sampleTimestamp_contains r x).mp hx).2
      exact hup.mono (neg_le_neg (not_le.mp hxy).le)
  · rintro ⟨x, hx, hxy⟩
    exact ((sampleTimestamp_contains r x).mp hx).1.mono hxy

theorem sampleTimestamp_before (hr : ∃ x, sampleTimestamp.Contains r x) (y : ℚ) :
    Span.After (Span.flip r.upper) (-y) ↔ ∃ x, sampleTimestamp.Contains r x ∧ y ≤ x := by
  constructor
  · intro hafter
    obtain ⟨x, hx⟩ := hr
    by_cases hxy : y ≤ x
    · exact ⟨x, hx, hxy⟩
    · refine ⟨y, (sampleTimestamp_contains r y).mpr ⟨?_, hafter⟩, le_refl y⟩
      exact ((sampleTimestamp_contains r x).mp hx).1.mono (not_le.mp hxy).le
  · rintro ⟨x, hx, hxy⟩
    exact ((sampleTimestamp_contains r x).mp hx).2.mono (neg_le_neg hxy)

theorem sampleTimestamp_ext {r s : Span}
    (h : ∀ x, sampleTimestamp.Contains r x ↔ sampleTimestamp.Contains s x)
    (hr : ∃ x, sampleTimestamp.Contains r x) : r = s := by
  have hs : ∃ x, sampleTimestamp.Contains s x := by
    obtain ⟨x, hx⟩ := hr
    exact ⟨x, (h x).mp hx⟩
  have hlower : r.lower = s.lower := Span.eq_of_after fun y => by
    rw [sampleTimestamp_after hr, sampleTimestamp_after hs]
    exact exists_congr fun x => and_congr_left fun _ => h x
  have hupper : Span.flip r.upper = Span.flip s.upper := Span.eq_of_after fun y => by
    rw [← neg_neg y, sampleTimestamp_before hr, sampleTimestamp_before hs]
    exact exists_congr fun x => and_congr_left fun _ => h x
  obtain ⟨l, u⟩ := r
  obtain ⟨l', u'⟩ := s
  rw [Span.mk.injEq]
  exact ⟨hlower, by rw [← Span.flip_flip u, hupper, Span.flip_flip]⟩

theorem sampleTimestamp_empty (h : r.isEmpty = true) (x : ℚ) :
    ¬ sampleTimestamp.Contains r x := (sampleTimestamp_lawful.isEmpty_iff r).mp h x

theorem sampleTimestamp_between (r : Span) (x : ℚ) : sampleTimestamp.Contains r x ↔
    ∃ y z, sampleTimestamp.Contains r y ∧ sampleTimestamp.Contains r z ∧ y ≤ x ∧ x ≤ z := by
  constructor
  · exact fun h => ⟨x, x, h, h, le_refl x, le_refl x⟩
  · rintro ⟨y, z, hy, hz, hyx, hxz⟩
    exact contains_of_between hy hz hyx hxz

theorem sampleTimestamp_extend (r s : Span) (x : ℚ) :
    sampleTimestamp.Contains (r.extend s) x ↔ ∃ y z,
      (sampleTimestamp.Contains r y ∨ sampleTimestamp.Contains s y) ∧
      (sampleTimestamp.Contains r z ∨ sampleTimestamp.Contains s z) ∧ y ≤ x ∧ x ≤ z := by
  unfold Span.extend
  split
  · rename_i hr
    simp only [sampleTimestamp_empty hr, false_or]
    exact sampleTimestamp_between s x
  · rename_i hr
    split
    · rename_i hs
      simp only [sampleTimestamp_empty hs, or_false]
      exact sampleTimestamp_between r x
    · rename_i hs
      have hr' := sampleTimestamp_exists (Bool.not_eq_true _ ▸ hr)
      have hs' := sampleTimestamp_exists (Bool.not_eq_true _ ▸ hs)
      rw [sampleTimestamp_contains, Span.maxUpper, Span.flip_flip, Span.after_minLower,
        Span.after_minLower, sampleTimestamp_after hr', sampleTimestamp_after hs',
        sampleTimestamp_before hr', sampleTimestamp_before hs', ← exists_or, ← exists_or]
      constructor
      · rintro ⟨⟨y, hy⟩, z, hz⟩
        exact ⟨y, z, hy.imp And.left And.left, hz.imp And.left And.left,
          hy.elim And.right And.right, hz.elim And.right And.right⟩
      · rintro ⟨y, z, hy, hz, hyx, hxz⟩
        exact ⟨⟨y, hy.imp (⟨·, hyx⟩) (⟨·, hyx⟩)⟩, z, hz.imp (⟨·, hxz⟩) (⟨·, hxz⟩)⟩

theorem sampleTimestamp_containsSubrange {r s : Span}
    (h : sampleTimestamp.containsSubrange r s = true) {x : ℚ}
    (hx : sampleTimestamp.Contains s x) : sampleTimestamp.Contains r x := by
  have hinter : r.intersect s = s := of_decide_eq_true (p := r.intersect s = s) h
  rw [← hinter] at hx
  exact ((sampleTimestamp_lawful.contains_intersectWith r s x).mp hx).1

theorem sampleTimestamp_arithmetic : sampleTimestamp.Arithmetic where
  fromStr_str r s h := by
    obtain rfl : r = s := Option.some.inj ((Span.ofString_toText r).symm.trans h)
    exact .refl r
  str_congr r s h hr := by
    obtain rfl : r = s := sampleTimestamp_ext h hr
    rfl
  contains_make a b i j x := by
    refine (sampleTimestamp_contains ⟨some (a, i), some (b, j)⟩ x).trans (and_congr ?_ ?_)
    · simp
    · cases j <;> simp [Span.flip]
  timestampSub _ _ := rfl
  containsSubrange _ _ h _ hx := sampleTimestamp_containsSubrange h hx
  contains_extend := sampleTimestamp_extend

end Sample

end Tamoss
