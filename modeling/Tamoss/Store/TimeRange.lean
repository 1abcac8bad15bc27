/-
  **Time ranges and the three ways the service looks at them.**

  The API carries time ranges as strings; the `mediatimestamp` package parses them and computes
  with the parsed ranges; the database compares integer nanosecond columns.
-/
import Mathlib.Algebra.Order.Ring.Rat
import Mathlib.Data.Rat.Cast.Order
import Mathlib.Tactic.Linarith
import Mathlib.Tactic.NormNum

namespace Tamoss

/-- The exceptions the modelled functions raise, with the texts they carry. -/
inductive PyError where
  | valueError (message : String)
  | typeError (message : String)
  | keyError (key : String)
  | overflowError
  | badRequest (detail : String)
  | notFound (detail : String)
  | forbidden (detail : String)
  | segmentOverlap
  | objectCleanupFailed
  | objectCopyFailed
  | runtimeError (message : String)
deriving DecidableEq

/-! ## The package -/

/-- The part of the `mediatimestamp` package that the service uses. Timestamps
    are their whole number of nanoseconds (`to_nanosec`). -/
structure MediaTimestamp where
  TimeRange : Type
  fromStr : String → Option TimeRange
  str : TimeRange → String
  /-- `TimeRange(start, end, inclusivity)` for finite bounds -/
  make : Int → Int → Bool → Bool → TimeRange
  start : TimeRange → Option Int
  stop : TimeRange → Option Int
  includesStart : TimeRange → Bool
  includesEnd : TimeRange → Bool
  isEmpty : TimeRange → Bool
  intersectWith : TimeRange → TimeRange → TimeRange
  containsSubrange : TimeRange → TimeRange → Bool
  extendToEncompassTimerange : TimeRange → TimeRange → TimeRange
  timestampFromStr : String → Option Int
  timestampStr : Int → String
  timestampSub : Int → Int → Int

namespace MediaTimestamp

variable (mt : MediaTimestamp)

/-- The instant `x` (in nanoseconds, on a dense time line) lies in the range. -/
def Contains (r : mt.TimeRange) (x : ℚ) : Prop :=
  (∀ a, mt.start r = some a → if mt.includesStart r then (a : ℚ) ≤ x else a < x) ∧
  (∀ b, mt.stop r = some b → if mt.includesEnd r then x ≤ (b : ℚ) else x < b)

/-- `parse_timerange` refuses `(t]`, `[t)` and `(t)`. -/
def instantaneousExclusive (value : String) : Bool :=
  !value.toList.contains '_' && value ≠ "()" &&
    (value.toList.contains '(' || value.toList.contains ')')

/-- What the package documents of the operations the service relies on. -/
structure Lawful : Prop where
  isEmpty_iff : ∀ r, mt.isEmpty r = true ↔ ∀ x, ¬ mt.Contains r x
  contains_intersectWith : ∀ r s x,
    mt.Contains (mt.intersectWith r s) x ↔ mt.Contains r x ∧ mt.Contains s x
  /-- `str` writes a range in the syntax that `from_str` reads, an instant as `[t]` -/
  fromStr_str : ∀ r, (∃ s, mt.fromStr (mt.str r) = some s) ∧ mt.str r ≠ "" ∧
    instantaneousExclusive (mt.str r) = false

end MediaTimestamp

def SameInstants {mt : MediaTimestamp} (r s : mt.TimeRange) : Prop :=
  ∀ x, mt.Contains r x ↔ mt.Contains s x

/-- What the package documents of the operations that compute with ranges, for exact arithmetic:
    a bound that the package may set on the seconds of a timestamp is not modelled. -/
structure MediaTimestamp.Arithmetic (mt : MediaTimestamp) : Prop where
  /-- a range that was written is read back with the same instants -/
  fromStr_str : ∀ r s, mt.fromStr (mt.str r) = some s → SameInstants s r
  /-- a range is written by its instants -/
  str_congr : ∀ r s, SameInstants r s → (∃ x, mt.Contains r x) → mt.str r = mt.str s
  contains_make : ∀ a b i j x, mt.Contains (mt.make a b i j) x ↔
    (if i then (a : ℚ) ≤ x else (a : ℚ) < x) ∧ (if j then x ≤ (b : ℚ) else x < (b : ℚ))
  timestampSub : ∀ a b, mt.timestampSub a b = a - b
  /-- `contains_subrange` holds only of a range that lies inside -/
  containsSubrange : ∀ r s, mt.containsSubrange r s = true →
    ∀ x, mt.Contains s x → mt.Contains r x
  contains_extend : ∀ r s x, mt.Contains (mt.extendToEncompassTimerange r s) x ↔
    ∃ y z, (mt.Contains r y ∨ mt.Contains s y) ∧ (mt.Contains r z ∨ mt.Contains s z) ∧
      y ≤ x ∧ x ≤ z

section Instants

variable {mt : MediaTimestamp}

theorem SameInstants.refl (r : mt.TimeRange) : SameInstants r r := fun _ => Iff.rfl

theorem SameInstants.symm {r s : mt.TimeRange} (h : SameInstants r s) : SameInstants s r :=
  fun x => (h x).symm

theorem SameInstants.trans {r s t : mt.TimeRange} (h : SameInstants r s)
    (h' : SameInstants s t) : SameInstants r t := fun x => (h x).trans (h' x)

theorem contains_of_between {r : mt.TimeRange} {x y z : ℚ} (hy : mt.Contains r y)
    (hz : mt.Contains r z) (hyx : y ≤ x) (hxz : x ≤ z) : mt.Contains r x := by
  constructor
  · intro a ha
    have h := hy.1 a ha
    revert h
    split
    · exact fun h => h.trans hyx
    · exact fun h => h.trans_le hyx
  · intro b hb
    have h := hz.2 b hb
    revert h
    split
    · exact fun h => hxz.trans h
    · exact fun h => hxz.trans_lt h

end Instants

variable (mt : MediaTimestamp)

/-! ## `domain/timeranges.py` -/

/-- `NormalizedTimerangeBounds`: half-open integer bounds. -/
structure NormalizedTimerangeBounds where
  start : Option Int
  stop : Option Int
  isEmpty : Bool
  isPoint : Bool
deriving DecidableEq

def normalizedTimerangeBounds (timerange : mt.TimeRange) : NormalizedTimerangeBounds :=
  let start := mt.start timerange
  let stop := mt.stop timerange
  let isPoint := !mt.isEmpty timerange && start.isSome && stop.isSome &&
    start == stop && mt.includesStart timerange && mt.includesEnd timerange
  if mt.isEmpty timerange then
    ⟨start, stop, true, false⟩
  else
    let start := start.map fun s => if mt.includesStart timerange then s else s + 1
    let stop := stop.map fun e => if mt.includesEnd timerange then e + 1 else e
    let isEffectivelyEmpty :=
      match start, stop with
      | some s, some e => decide (s ≥ e)
      | _, _ => false
    ⟨start, stop, isEffectivelyEmpty, isPoint⟩

/-- Finite bounds with their values, `SegmentTimerangeBounds` of `domain/segments.py`. -/
structure SegmentTimerangeBounds where
  start : Int
  stop : Int
  isPoint : Bool
deriving DecidableEq

def finiteNormalizedTimerangeBounds (timerange : mt.TimeRange) :
    Except PyError SegmentTimerangeBounds :=
  let bounds := normalizedTimerangeBounds mt timerange
  match bounds.start, bounds.stop with
  | some start, some stop =>
      if bounds.isEmpty then
        .error (.valueError "timerange must not be empty")
      else
        .ok ⟨start, stop, bounds.isPoint⟩
  | _, _ => .error (.valueError "timerange must have finite start and end timestamps")

def parseTimerange (fieldName : String) (finite : Bool) (value : String) :
    Except PyError mt.TimeRange :=
  if value = "" then
    .error (.valueError (fieldName ++ " must be a timerange string"))
  else if MediaTimestamp.instantaneousExclusive value then
    .error (.valueError (fieldName ++ " instantaneous ranges cannot be exclusive"))
  else
    match mt.fromStr value with
    | none => .error (.valueError (fieldName ++ " is invalid"))
    | some parsed =>
        if finite && ((mt.start parsed).isNone || (mt.stop parsed).isNone) then
          .error (.valueError (fieldName ++ " must have finite start and end timestamps"))
        else
          .ok parsed

def parseTimestamp (fieldName : String) (value : String) : Except PyError Int :=
  if value = "" then
    .error (.valueError (fieldName ++ " must be a timestamp string"))
  else
    match mt.timestampFromStr value with
    | none => .error (.valueError (fieldName ++ " is invalid"))
    | some timestamp => .ok timestamp

def timerangeUnionStrings (timeranges : List (Option String)) :
    Except PyError (Option String) := do
  let parsed ← (timeranges.filterMap id).mapM (parseTimerange mt "timerange" false)
  match parsed.filter (fun r => !mt.isEmpty r) with
  | [] => pure none
  | first :: rest =>
      pure (some (mt.str (rest.foldl mt.extendToEncompassTimerange first)))

/-! ## Parsed ranges and integer bounds -/

variable {mt}

variable {finite : Bool} {e : PyError}

theorem parseTimerange_error {field : String} {value : String}
    (h : parseTimerange mt field finite value = .error e) : ∃ message, e = .valueError message := by
  unfold parseTimerange at h
  split at h
  · cases h
    exact ⟨_, rfl⟩
  · split at h
    · cases h
      exact ⟨_, rfl⟩
    · split at h
      · cases h
        exact ⟨_, rfl⟩
      · split at h
        · cases h
          exact ⟨_, rfl⟩
        · cases h

variable {field value : String}

variable {r : mt.TimeRange} {b : SegmentTimerangeBounds}

theorem finiteNormalizedTimerangeBounds_ok (h : finiteNormalizedTimerangeBounds mt r = .ok b) :
    ∃ s e, mt.start r = some s ∧ mt.stop r = some e ∧
      b.start = (if mt.includesStart r then s else s + 1) ∧
      b.stop = (if mt.includesEnd r then e + 1 else e) ∧ b.start < b.stop := by
  unfold finiteNormalizedTimerangeBounds normalizedTimerangeBounds at h
  by_cases hempty : mt.isEmpty r = true
  · simp only [hempty, if_true] at h
    split at h <;> simp at h
  · cases hs : mt.start r with
    | none => simp [hempty, hs] at h
    | some s =>
      cases he : mt.stop r with
      | none => simp [hempty, hs, he] at h
      | some e =>
        simp only [hempty, hs, he, Option.map_some, Bool.false_eq_true, if_false,
          decide_eq_true_eq] at h
        refine ⟨s, e, rfl, rfl, ?_⟩
        generalize (if mt.includesStart r = true then s else s + 1) = S at h ⊢
        generalize (if mt.includesEnd r = true then e + 1 else e) = E at h ⊢
        by_cases hge : S ≥ E
        · simp [hge] at h
        · rw [if_neg hge, Except.ok.injEq] at h
          subst h
          exact ⟨rfl, rfl, not_le.mp hge⟩

theorem contains_intCast_iff (h : finiteNormalizedTimerangeBounds mt r = .ok b) (n : Int) :
    mt.Contains r n ↔ b.start ≤ n ∧ n < b.stop := by
  obtain ⟨s, e, hs, he, hb, hb', -⟩ := finiteNormalizedTimerangeBounds_ok h
  have hstart : (∀ a, mt.start r = some a →
      if mt.includesStart r then (a : ℚ) ≤ n else (a : ℚ) < n) ↔ b.start ≤ n := by
    rw [hs, hb]
    cases mt.includesStart r <;>
      simp only [Option.some.injEq, forall_eq', Int.cast_le, Int.cast_lt, if_true,
        Bool.false_eq_true, if_false, Int.add_one_le_iff]
  have hstop : (∀ a, mt.stop r = some a →
      if mt.includesEnd r then (n : ℚ) ≤ a else (n : ℚ) < a) ↔ n < b.stop := by
    rw [he, hb']
    cases mt.includesEnd r <;>
      simp only [Option.some.injEq, forall_eq', Int.cast_le, Int.cast_lt, if_true,
        Bool.false_eq_true, if_false, Int.lt_add_one_iff]
  exact and_congr hstart hstop

theorem contains_bounds
    (h : finiteNormalizedTimerangeBounds mt r = .ok b) (hin : mt.includesStart r = true)
    {x : ℚ} (hx : mt.Contains r x) : (b.start : ℚ) ≤ x ∧ x < b.stop := by
  obtain ⟨s, e, hs, he, hb, hb', -⟩ := finiteNormalizedTimerangeBounds_ok h
  have h1 := hx.1 s hs
  have h2 := hx.2 e he
  rw [hin, if_pos rfl] at h1 hb
  refine ⟨hb ▸ h1, ?_⟩
  cases hinc : mt.includesEnd r with
  | true =>
    rw [hinc, if_pos rfl] at h2 hb'
    rw [hb']
    push_cast
    linarith
  | false =>
    rw [hinc] at h2 hb'
    exact hb' ▸ h2

/-- **The package's intersection test is the database's bounds test** on ranges
    that include their start. -/
theorem isEmpty_intersectWith_iff (L : mt.Lawful) {r s : mt.TimeRange}
    {b c : SegmentTimerangeBounds}
    (hr : finiteNormalizedTimerangeBounds mt r = .ok b) (hrin : mt.includesStart r = true)
    (hs : finiteNormalizedTimerangeBounds mt s = .ok c) (hsin : mt.includesStart s = true) :
    mt.isEmpty (mt.intersectWith r s) = true ↔ b.stop ≤ c.start ∨ c.stop ≤ b.start := by
  rw [L.isEmpty_iff]
  constructor
  · intro hempty
    by_contra hcon
    rw [not_or, not_le, not_le] at hcon
    obtain ⟨-, -, -, -, -, -, hb⟩ := finiteNormalizedTimerangeBounds_ok hr
    obtain ⟨-, -, -, -, -, -, hc⟩ := finiteNormalizedTimerangeBounds_ok hs
    -- the later of the two starts is a whole nanosecond of both ranges
    refine hempty ((max b.start c.start : Int) : ℚ) ?_
    rw [L.contains_intersectWith, contains_intCast_iff hr, contains_intCast_iff hs]
    omega
  · intro hdisj x hx
    rw [L.contains_intersectWith] at hx
    obtain ⟨h1, h2⟩ := contains_bounds hr hrin hx.1
    obtain ⟨h3, h4⟩ := contains_bounds hs hsin hx.2
    rcases hdisj with h | h
    · have : (b.stop : ℚ) ≤ c.start := by exact_mod_cast h
      linarith
    · have : (c.stop : ℚ) ≤ b.start := by exact_mod_cast h
      linarith

/-- A range string that a segment may carry, with its integer bounds: it parses to
    a finite range that is not empty and includes its start. -/
structure SegmentRange (mt : MediaTimestamp) (value : String)
    (r : mt.TimeRange) (b : SegmentTimerangeBounds) : Prop where
  parsed : parseTimerange mt "timerange" true value = .ok r
  bounds : finiteNormalizedTimerangeBounds mt r = .ok b
  includesStart : mt.includesStart r = true

theorem parseTimerange_of_finite {field : String} {value : String}
    (h : parseTimerange mt field true value = .ok r) (field' : String) :
    parseTimerange mt field' false value = .ok r := by
  unfold parseTimerange at h ⊢
  split at h
  · cases h
  · split at h
    · cases h
    · rename_i h1 h2
      rw [if_neg h1, if_neg h2]
      cases hf : mt.fromStr value with
      | none => simp [hf] at h
      | some p =>
        simp only [hf] at h ⊢
        split at h
        · cases h
        · simpa using h

theorem fromStr_of_parseTimerange
    (h : parseTimerange mt field finite value = .ok r) : mt.fromStr value = some r := by
  unfold parseTimerange at h
  split at h
  · cases h
  · split at h
    · cases h
    · split at h
      · cases h
      · rename_i parsed hparsed
        split at h
        · cases h
        · rw [hparsed, Except.ok.inj h]

theorem MediaTimestamp.Lawful.parse_str (L : mt.Lawful) (r : mt.TimeRange) :
    ∃ s, parseTimerange mt "timerange" false (mt.str r) = .ok s := by
  obtain ⟨⟨s, hs⟩, hne, hexcl⟩ := L.fromStr_str r
  exact ⟨s, by simp [parseTimerange, hne, hexcl, hs]⟩

end Tamoss
