/-
  **Ranges written from the integer columns.**
-/
import Tamoss.Store.Repository
import Tamoss.Store.Spans

namespace Tamoss

variable {mt : MediaTimestamp}

def PlainText (text : String) : Prop :=
  text ≠ "" ∧ ∀ c ∈ text.toList, c ∉ ['[', ']', '(', ')', '_']

/-- What the package documents of the texts of timestamps and of ranges with two of them. -/
structure MediaTimestamp.Texts (mt : MediaTimestamp) : Prop where
  timestampFromStr_str : ∀ a, mt.timestampFromStr (mt.timestampStr a) = some a
  timestampStr_plain : ∀ a, PlainText (mt.timestampStr a)
  /-- `[x_y)` is the range from `x` to `y` without its end -/
  fromStr_halfOpen : ∀ x y a b, PlainText x → PlainText y → mt.timestampFromStr x = some a →
    mt.timestampFromStr y = some b → a < b →
    ∃ r, mt.fromStr ("[" ++ x ++ "_" ++ y ++ ")") = some r ∧
      SameInstants r (mt.make a b true false)

def spanOf (r : mt.TimeRange) : Span :=
  ⟨(mt.start r).map (·, mt.includesStart r), (mt.stop r).map (·, mt.includesEnd r)⟩

theorem contains_spanOf (r : mt.TimeRange) (x : ℚ) :
    sampleTimestamp.Contains (spanOf r) x ↔ mt.Contains r x := by
  rw [sampleTimestamp_contains]
  unfold MediaTimestamp.Contains spanOf
  apply and_congr
  · cases mt.start r <;> simp
  · cases mt.stop r <;> simp [Span.flip]

theorem contains_halfOpen (T : mt.Arithmetic) (a b : Int) (x : ℚ) :
    mt.Contains (mt.make a b true false) x ↔ (a : ℚ) ≤ x ∧ x < b := by
  rw [T.contains_make]
  simp

variable {a b : Int} {r : mt.TimeRange}

theorem spanOf_halfOpen (T : mt.Arithmetic) (hab : a < b)
    (h : SameInstants r (mt.make a b true false)) :
    spanOf r = ⟨some (a, true), some (b, false)⟩ := by
  have hq : (a : ℚ) < b := by exact_mod_cast hab
  have hinstants : ∀ x, sampleTimestamp.Contains (spanOf r) x ↔ (a : ℚ) ≤ x ∧ x < b := by
    intro x
    rw [contains_spanOf, h x, contains_halfOpen T]
  apply sampleTimestamp_ext
  · intro x
    rw [hinstants, sampleTimestamp_contains]
    simp [Span.flip]
  · exact ⟨a, (hinstants a).mpr ⟨le_refl _, hq⟩⟩

theorem finiteNormalizedTimerangeBounds_halfOpen (L : mt.Lawful) (T : mt.Arithmetic) (hab : a < b)
    (h : SameInstants r (mt.make a b true false)) : (mt.start r = some a ∧ mt.stop r = some b) ∧
      finiteNormalizedTimerangeBounds mt r = .ok ⟨a, b, false⟩ := by
  have hq : (a : ℚ) < b := by exact_mod_cast hab
  have hspan := spanOf_halfOpen T hab h
  rw [spanOf, Span.mk.injEq] at hspan
  obtain ⟨hlower, hupper⟩ := hspan
  obtain ⟨s, hstart, hs⟩ := Option.map_eq_some_iff.mp hlower
  obtain ⟨e, hstop, he⟩ := Option.map_eq_some_iff.mp hupper
  obtain ⟨rfl, hin⟩ := Prod.mk.inj hs
  obtain ⟨rfl, hout⟩ := Prod.mk.inj he
  have hempty : mt.isEmpty r = false := by
    rw [← Bool.not_eq_true, L.isEmpty_iff]
    intro hnone
    exact hnone s ((h s).mpr ((contains_halfOpen T s e s).mpr ⟨le_refl _, hq⟩))
  refine ⟨⟨hstart, hstop⟩, ?_⟩
  have hle : ¬ e ≤ s := by omega
  simp [finiteNormalizedTimerangeBounds, normalizedTimerangeBounds, hempty, hstart, hstop, hin,
    hout, hle]

theorem timerangeFromBounds_of_lt (hab : a < b) : timerangeFromBounds mt (some a) (some b) =
      "[" ++ mt.timestampStr a ++ "_" ++ mt.timestampStr b ++ ")" := by
  rw [timerangeFromBounds, if_neg (by omega)]

/-- **A range written from bounds is read back as the half-open range between them.** -/
theorem parse_timerangeFromBounds (L : mt.Lawful) (T : mt.Arithmetic) (X : mt.Texts)
    (hab : a < b) (field : String) (finite : Bool) :
    ∃ r, parseTimerange mt field finite (timerangeFromBounds mt (some a) (some b)) = .ok r ∧
      SameInstants r (mt.make a b true false) := by
  obtain ⟨r, hr, hsame⟩ := X.fromStr_halfOpen _ _ a b (X.timestampStr_plain a)
    (X.timestampStr_plain b) (X.timestampFromStr_str a) (X.timestampFromStr_str b) hab
  obtain ⟨⟨hstart, hstop⟩, -⟩ := finiteNormalizedTimerangeBounds_halfOpen L T hab hsame
  refine ⟨r, ?_, hsame⟩
  rw [timerangeFromBounds_of_lt hab]
  have hne : "[" ++ mt.timestampStr a ++ "_" ++ mt.timestampStr b ++ ")" ≠ "" := by
    intro h
    have hlist := congrArg String.toList h
    simp at hlist
  have hexclusive : MediaTimestamp.instantaneousExclusive
      ("[" ++ mt.timestampStr a ++ "_" ++ mt.timestampStr b ++ ")") = false := by
    simp [MediaTimestamp.instantaneousExclusive]
  simp [parseTimerange, hne, hexclusive, hr, hstart, hstop]

theorem timerangeFromBounds_ne : timerangeFromBounds mt (some a) (some b) ≠ "()" := by
  rw [timerangeFromBounds]
  split
  · intro h
    exact absurd (congrArg (fun s => s.toList.head?) h) (by simp)
  · intro h
    exact absurd (congrArg (fun s => s.toList.head?) h) (by simp)

theorem Span.ofString_halfOpen {x y : String} (hx : PlainText x)
    (ha : parseInt x.toList = some a) (hb : parseInt y.toList = some b) :
    ofString ("[" ++ x ++ "_" ++ y ++ ")") = some ⟨some (a, true), some (b, false)⟩ := by
  have hlist : ("[" ++ x ++ "_" ++ y ++ ")").toList =
      ('[' :: x.toList) ++ '_' :: (y.toList ++ [')']) := by simp
  have hplain : ∀ c ∈ '[' :: x.toList, decide (c ≠ '_') = true := by
    intro c hc
    rcases List.mem_cons.mp hc with rfl | hc
    · decide
    · have := hx.2 c hc
      simp only [List.mem_cons, not_or] at this
      simp [this.2.2.2.2.1]
  unfold ofString
  rw [hlist, List.dropWhile_append_of_pos hplain, List.takeWhile_append_of_pos hplain]
  simp [parseLower, parseUpper, ha, hb]

theorem Span.intText_plain (a : Int) : PlainText (String.ofList (intText a)) := by
  constructor
  · intro h
    have hlist := congrArg String.toList h
    rw [String.toList_ofList] at hlist
    cases a with
    | ofNat n => simp [intText, secNsec] at hlist
    | negSucc n => cases hlist
  · intro c hc
    rw [String.toList_ofList] at hc
    have hclear : c.isDigit = true ∨ c = ':' → c ∉ ['[', ']', '(', ')', '_'] := by
      intro hd hmem
      simp only [List.mem_cons, List.not_mem_nil, or_false] at hmem
      rcases hmem with rfl | rfl | rfl | rfl | rfl
      all_goals exact absurd hd (by decide)
    cases a with
    | ofNat n => exact hclear (mem_secNsec hc)
    | negSucc n =>
      rcases List.mem_cons.mp hc with rfl | hc
      · decide
      · exact hclear (mem_secNsec hc)

theorem sampleTimestamp_texts : sampleTimestamp.Texts where
  timestampFromStr_str a := by
    simp only [sampleTimestamp, String.toList_ofList, Span.parseInt_intText]
  timestampStr_plain a := Span.intText_plain a
  fromStr_halfOpen x y a b hx hy ha hb hab :=
    ⟨_, Span.ofString_halfOpen hx ha hb, .refl _⟩

end Tamoss
