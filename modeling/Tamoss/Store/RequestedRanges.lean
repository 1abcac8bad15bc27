/-
  **What the comparisons of the list and delete filters say of the ranges.**
-/
import Mathlib.Data.Int.SuccPred
import Tamoss.Lib.HalfOpen
import Tamoss.Store.CollectionRanges

namespace Tamoss

open Lib

def segmentBounds (mt : MediaTimestamp) (segment : SegmentRecord) : Except PyError (Int × Int) := do
  let parsed ← parseTimerange mt "timerange" false segment.timerange
  let bounds ← finiteNormalizedTimerangeBounds mt parsed
  return (bounds.start, bounds.stop)

def boundsOverlap (first last : Int) (start stop : Option Int) (requestedIsPoint : Bool) : Bool :=
  if (timerangeQueryEnd start stop requestedIsPoint).any (first ≥ ·) then false
  else !start.any (last ≤ ·)

def segmentOverlapsBounds (mt : MediaTimestamp) (segment : SegmentRecord)
    (start stop : Option Int) (requestedIsPoint : Bool) : Except PyError Bool := do
  let (first, last) ← segmentBounds mt segment
  return boundsOverlap first last start stop requestedIsPoint

def flowTimerangeMatches (mt : MediaTimestamp) (segments : List SegmentRecord)
    (start stop : Option Int) (requestedIsPoint : Bool) : Except PyError Bool := do
  let bounds ← segments.mapM (segmentBounds mt)
  match (bounds.map (·.1)).min?, (bounds.map (·.2)).max? with
  | some first, some last => return boundsOverlap first last start stop requestedIsPoint
  | _, _ => return false

namespace NormalizedTimerangeBounds

/-- The comparison of the list filters, for bounds that may be missing on either side. -/
def overlaps (b c : NormalizedTimerangeBounds) : Bool :=
  !b.isEmpty && !c.isEmpty && (c.start.all fun x => b.stop.all (x < ·)) &&
    b.start.all fun x => c.stop.all (x < ·)

/-- The comparison of the delete filter: the second range starts and ends inside the first. -/
def encloses (b c : NormalizedTimerangeBounds) : Bool :=
  !b.isEmpty && !c.isEmpty && (b.start.all fun x => c.start.any (x ≤ ·)) &&
    b.stop.all fun x => c.stop.any (· ≤ x)

end NormalizedTimerangeBounds

structure Normal (mt : MediaTimestamp) (r : mt.TimeRange) (b : NormalizedTimerangeBounds) :
    Prop where
  lt : b.isEmpty = false → ∀ x ∈ b.start, ∀ y ∈ b.stop, x < y
  contains : ∀ n : Int, mt.Contains r n ↔ b.isEmpty = false ∧ Between b.start b.stop n

variable {mt : MediaTimestamp} {r s : mt.TimeRange} {b c : NormalizedTimerangeBounds}

theorem contains_iff_between (h : mt.isEmpty r = false) (n : Int) :
    mt.Contains r n ↔ Between (normalizedTimerangeBounds mt r).start
      (normalizedTimerangeBounds mt r).stop n := by
  apply and_congr
  · cases hs : mt.start r <;> cases hi : mt.includesStart r <;>
      simp [normalizedTimerangeBounds, h, hs, hi]
  · cases he : mt.stop r <;> cases hi : mt.includesEnd r <;>
      simp [normalizedTimerangeBounds, h, he, hi]

theorem normal_normalized (L : mt.Lawful) (r : mt.TimeRange) :
    Normal mt r (normalizedTimerangeBounds mt r) := by
  cases hempty : mt.isEmpty r with
  | true =>
    have hnone := (L.isEmpty_iff r).mp hempty
    constructor <;> simp [normalizedTimerangeBounds, hempty, hnone]
  | false =>
    have hlt : (normalizedTimerangeBounds mt r).isEmpty = false ↔
        ∀ x ∈ (normalizedTimerangeBounds mt r).start,
          ∀ y ∈ (normalizedTimerangeBounds mt r).stop, x < y := by
      cases hs : mt.start r <;> cases he : mt.stop r <;>
        simp [normalizedTimerangeBounds, hempty, hs, he]
    refine ⟨hlt.mp, fun n => ?_⟩
    rw [contains_iff_between hempty, hlt]
    constructor
    · intro h
      exact ⟨exists_between_iff.mp ⟨n, h⟩, h⟩
    · exact And.right

namespace Normal

variable (hr : Normal mt r b) (hs : Normal mt s c)

include hr

theorem exists_iff : (∃ n : Int, mt.Contains r n) ↔ b.isEmpty = false := by
  simp only [hr.contains]
  constructor
  · rintro ⟨n, h, -⟩
    exact h
  · intro h
    obtain ⟨n, hn⟩ := exists_between_iff.mpr (hr.lt h)
    exact ⟨n, h, hn⟩

include hs

theorem overlaps_iff : b.overlaps c = true ↔ ∃ n : Int, mt.Contains r n ∧ mt.Contains s n := by
  simp only [hr.contains, hs.contains, NormalizedTimerangeBounds.overlaps, Bool.and_eq_true,
    Bool.not_eq_true', Option.all_eq_true, decide_eq_true_eq]
  constructor
  · rintro ⟨⟨⟨hb, hc⟩, hstart⟩, hstop⟩
    obtain ⟨n, hn, hn'⟩ := exists_between_both_iff.mpr ⟨⟨hr.lt hb, hs.lt hc⟩, hstop, hstart⟩
    exact ⟨n, ⟨hb, hn⟩, hc, hn'⟩
  · rintro ⟨n, ⟨hb, hn⟩, hc, hn'⟩
    have h := (exists_between_both_iff.mp ⟨n, hn, hn'⟩).2
    exact ⟨⟨⟨hb, hc⟩, h.2⟩, h.1⟩

theorem encloses_iff : b.encloses c = true ↔ (∃ n : Int, mt.Contains s n) ∧
    ∀ n : Int, mt.Contains s n → mt.Contains r n := by
  rw [hs.exists_iff]
  simp only [hr.contains, hs.contains, NormalizedTimerangeBounds.encloses, Bool.and_eq_true,
    Bool.not_eq_true', Option.all_eq_true, Option.any_eq_true, decide_eq_true_eq]
  constructor
  · rintro ⟨⟨⟨hb, hc⟩, hstart⟩, hstop⟩
    have h := (forall_between_iff (exists_between_iff.mpr (hs.lt hc))).mpr ⟨hstart, hstop⟩
    exact ⟨hc, fun n hn => ⟨hb, h n hn.2⟩⟩
  · rintro ⟨hc, hall⟩
    have hex := exists_between_iff.mpr (hs.lt hc)
    obtain ⟨hstart, hstop⟩ := (forall_between_iff hex).mp fun n hn => (hall n ⟨hc, hn⟩).2
    obtain ⟨n, hn⟩ := hex
    exact ⟨⟨⟨(hall n ⟨hc, hn⟩).1, hc⟩, hstart⟩, hstop⟩

end Normal

section Comparison

variable {start stop : Option Int} (hlt : ∀ x ∈ start, ∀ y ∈ stop, x < y) (isPoint : Bool)

include hlt

theorem timerangeQueryEnd_of_lt : timerangeQueryEnd start stop isPoint = stop := by
  cases start with
  | none => rfl
  | some a =>
    -- the bounds of a point are a nanosecond apart, so that its end is never replaced
    simp only [timerangeQueryEnd, Bool.and_eq_true, decide_eq_true_eq, ite_eq_right_iff]
    rintro ⟨-, rfl⟩
    exact absurd (hlt a rfl a rfl) (lt_irrefl a)

theorem boundsOverlap_of_lt (first last : Int) : boundsOverlap first last start stop isPoint =
      (stop.all (first < ·) && start.all (· < last)) := by
  rw [boundsOverlap, timerangeQueryEnd_of_lt hlt]
  cases start <;> cases stop <;> grind

end Comparison

variable {segment : SegmentRecord}

theorem segmentBounds_ok {first last : Int} (h : segmentBounds mt segment = .ok (first, last)) :
    ∃ s p, parseTimerange mt "timerange" false segment.timerange = .ok s ∧
      normalizedTimerangeBounds mt s = ⟨some first, some last, false, p⟩ := by
  obtain ⟨s, hs, h⟩ := bind_eq_ok h
  obtain ⟨bounds, hb, h⟩ := bind_eq_ok h
  cases h
  refine ⟨s, bounds.isPoint, hs, ?_⟩
  unfold finiteNormalizedTimerangeBounds at hb
  generalize normalizedTimerangeBounds mt s = c at hb ⊢
  obtain ⟨start, stop, isEmpty, isPoint⟩ := c
  cases start <;> cases stop <;> cases isEmpty <;> cases hb
  rfl

theorem segmentBounds_error_iff
    (h : parseTimerange mt "timerange" false segment.timerange = .ok s) :
    (∃ e, segmentBounds mt segment = .error e) ↔ (normalizedTimerangeBounds mt s).start = none ∨
      (normalizedTimerangeBounds mt s).stop = none ∨
      (normalizedTimerangeBounds mt s).isEmpty = true := by
  simp only [segmentBounds, h, bind, Except.bind, finiteNormalizedTimerangeBounds]
  generalize normalizedTimerangeBounds mt s = c
  obtain ⟨start, stop, isEmpty, isPoint⟩ := c
  cases start <;> cases stop <;> cases isEmpty <;> simp [pure, Except.pure]

theorem queryTimerange_parsed {contract : String → Bool} {text : Option String}
    (h : parseQueryTimerange mt contract text = .ok (some r))
    (hb : normalizedTimerangeBounds mt r = b) :
    queryTimerange mt contract text = .ok (if b.isEmpty then ⟨none, none, true, false⟩
      else ⟨b.start, b.stop, false, b.isPoint⟩) := by
  rw [queryTimerange, h]
  simp only [bind, Except.bind, hb]
  split <;> rfl

def InSegment (mt : MediaTimestamp) (segments : List SegmentRecord) (n : Int) : Prop :=
  ∃ segment ∈ segments, ∃ s, parseTimerange mt "timerange" false segment.timerange = .ok s ∧
    mt.Contains s n

/-- A nanosecond of the range lies between nanoseconds of the segments. -/
def MeetsSpan (mt : MediaTimestamp) (r : mt.TimeRange) (segments : List SegmentRecord) : Prop :=
  ∃ n x y : Int, mt.Contains r n ∧ InSegment mt segments x ∧ InSegment mt segments y ∧
    x ≤ n ∧ n ≤ y

section Flow

variable {segments : List SegmentRecord} {spans : List (Int × Int)} (L : mt.Lawful)
  (h : segments.mapM (segmentBounds mt) = .ok spans)

include L h

theorem inSegment_iff (n : Int) :
    InSegment mt segments n ↔ ∃ span ∈ spans, span.1 ≤ n ∧ n < span.2 := by
  rw [mapM_ok_iff] at h
  constructor
  · rintro ⟨segment, hmem, s, hs, hn⟩
    obtain ⟨⟨first, last⟩, hspan, hok⟩ := exists_mem_of_forall₂ h hmem
    obtain ⟨s', p, hs', hc⟩ := segmentBounds_ok hok
    cases hs.symm.trans hs'
    rw [(normal_normalized L s).contains, hc] at hn
    exact ⟨_, hspan, hn.2.1 first rfl, hn.2.2 last rfl⟩
  · rintro ⟨⟨first, last⟩, hspan, hn⟩
    obtain ⟨segment, hmem, hok⟩ := exists_mem_of_forall₂ h.flip hspan
    obtain ⟨s, p, hs, hc⟩ := segmentBounds_ok hok
    refine ⟨segment, hmem, s, hs, ?_⟩
    rw [(normal_normalized L s).contains, hc]
    simpa [Between] using hn

theorem spans_lt : ∀ span ∈ spans, span.1 < span.2 := by
  rintro ⟨first, last⟩ hspan
  obtain ⟨segment, -, hok⟩ := exists_mem_of_forall₂ (mapM_ok_iff.mp h).flip hspan
  obtain ⟨s, p, -, hc⟩ := segmentBounds_ok hok
  have hlt := (normal_normalized L s).lt
  rw [hc] at hlt
  exact hlt rfl first rfl last rfl

theorem meetsSpan_iff (hr : Normal mt r b) (hb : b.isEmpty = false) {first last : Int}
    (hfirst : (spans.map (·.1)).min? = some first) (hlast : (spans.map (·.2)).max? = some last) :
    (b.stop.all (first < ·) && b.start.all (· < last)) = true ↔ MeetsSpan mt r segments := by
  have hspan := span_iff (spans_lt L h) hfirst hlast
  have hlt : first < last := by
    obtain ⟨s, hs, hs'⟩ := List.mem_map.mp (List.min?_eq_some_iff.mp hfirst).1
    have hle := (List.max?_eq_some_iff.mp hlast).2 s.2 (List.mem_map_of_mem hs)
    have hss := spans_lt L h s hs
    omega
  have hmeets : MeetsSpan mt r segments ↔
      ∃ n, Between b.start b.stop n ∧ Between (some first) (some last) n := by
    constructor
    · rintro ⟨n, x, y, hn, hx, hy, hle⟩
      rw [inSegment_iff L h] at hx hy
      have hn' := (hspan n).mpr ⟨x, y, hx, hy, hle⟩
      exact ⟨n, ((hr.contains n).mp hn).2, by simpa [Between] using hn'⟩
    · rintro ⟨n, hn, hn'⟩
      obtain ⟨x, y, hx, hy, hle⟩ := (hspan n).mp (by simpa [Between] using hn')
      exact ⟨n, x, y, (hr.contains n).mpr ⟨hb, hn⟩, (inSegment_iff L h x).mpr hx,
        (inSegment_iff L h y).mpr hy, hle⟩
  rw [hmeets, exists_between_both_iff]
  simp only [Bool.and_eq_true, Option.all_eq_true, decide_eq_true_eq]
  constructor
  · rintro ⟨hstop, hstart⟩
    simpa using ⟨⟨hr.lt hb, hlt⟩, hstart, hstop⟩
  · rintro ⟨-, hstart, hstop⟩
    exact ⟨by simpa using hstop, by simpa using hstart⟩

end Flow

/-- **Normalised bounds are exact.**  Membership, emptiness, overlap and containment of any
    two ranges, nanosecond by nanosecond, are comparisons of their bounds.  A segment whose
    range has bounds on both sides and is not empty is listed when it overlaps the requested
    range, and deleted when it lies inside; any other segment has no bounds to compare.  A
    flow is listed when the requested range meets the span of its segments. -/
theorem normalized_bounds_exact (L : mt.Lawful) (r s : mt.TimeRange) :
    let b := normalizedTimerangeBounds mt r
    let c := normalizedTimerangeBounds mt s
    (∀ n : Int, mt.Contains r n ↔ b.isEmpty = false ∧ (∀ x ∈ b.start, x ≤ n) ∧
      ∀ x ∈ b.stop, n < x) ∧
    (b.isEmpty = true ↔ ∀ n : Int, ¬ mt.Contains r n) ∧
    (b.overlaps c = true ↔ ∃ n : Int, mt.Contains r n ∧ mt.Contains s n) ∧
    (b.encloses c = true ↔ (∃ n : Int, mt.Contains s n) ∧
      ∀ n : Int, mt.Contains s n → mt.Contains r n) ∧
    (∀ segment, parseTimerange mt "timerange" false segment.timerange = .ok s →
      ((∃ e, segmentBounds mt segment = .error e) ↔
        c.start = none ∨ c.stop = none ∨ c.isEmpty = true) ∧
      ∀ first last, segmentBounds mt segment = .ok (first, last) →
        (b.isEmpty = false →
          segmentOverlapsBounds mt segment b.start b.stop b.isPoint = .ok (b.overlaps c)) ∧
        ∀ row : SegmentRow, row.timerangeStart = first → row.timerangeEnd = last →
          (∀ contract text query, parseQueryTimerange mt contract text = .ok (some r) →
            queryTimerange mt contract text = .ok query → query.selects row = b.overlaps c) ∧
          ∀ f text o filter, text ∉ ["", "_"] → parseTimerange mt "timerange" false text = .ok r →
            segmentDeleteFilter mt f (some text) o = .ok filter →
            filter.selects row = (decide (row.record.flowId = f) &&
              o.all (· = row.record.objectId) && b.encloses c)) ∧
    (b.isEmpty = false → ∀ segments matched,
      flowTimerangeMatches mt segments b.start b.stop b.isPoint = .ok matched →
      (matched = true ↔ MeetsSpan mt r segments)) := by
  dsimp only
  have hr := normal_normalized L r
  generalize hb : normalizedTimerangeBounds mt r = b at hr ⊢
  refine ⟨hr.contains, ?_, hr.overlaps_iff (normal_normalized L s),
    hr.encloses_iff (normal_normalized L s),
    fun segment hs => ⟨segmentBounds_error_iff hs, fun first last hbounds => ?_⟩,
    fun hne segments matched h => ?_⟩
  · rw [← not_exists, hr.exists_iff, Bool.not_eq_false]
  · obtain ⟨s', p, hs', hc⟩ := segmentBounds_ok hbounds
    cases hs.symm.trans hs'
    rw [hc]
    refine ⟨fun hne => ?_, ?_⟩
    · simp [segmentOverlapsBounds, hbounds, bind, Except.bind, pure, Except.pure,
        boundsOverlap_of_lt (hr.lt hne), NormalizedTimerangeBounds.overlaps, hne]
    · rintro row rfl rfl
      refine ⟨fun contract text query hparsed hquery => ?_,
        fun f text o filter hall hparsed hfilter => ?_⟩
      · rw [queryTimerange_parsed hparsed hb] at hquery
        rw [← Except.ok.inj hquery]
        cases hne : b.isEmpty with
        | true => simp [QueryTimerange.selects, NormalizedTimerangeBounds.overlaps, hne]
        | false =>
          simp [QueryTimerange.selects, timerangeQueryEnd_of_lt (hr.lt hne),
            NormalizedTimerangeBounds.overlaps, hne]
      · rw [segmentDeleteFilter, if_neg (by simpa using hall)] at hfilter
        obtain ⟨requested, hrequested, hfilter⟩ := bind_eq_ok hfilter
        cases hparsed.symm.trans hrequested
        cases hfilter
        simp [SegmentDeleteFilter.selects, NormalizedTimerangeBounds.encloses, hb,
          Bool.and_assoc, Bool.and_left_comm]
  · obtain ⟨spans, hspans, h⟩ := bind_eq_ok h
    cases spans with
    | nil =>
      cases h
      simp [MeetsSpan, inSegment_iff L hspans]
    | cons span spans =>
      simp only [List.map_cons, List.min?_cons', List.max?_cons'] at h
      rw [← Except.ok.inj h, boundsOverlap_of_lt (hr.lt hne)]
      exact meetsSpan_iff L hspans hr hne (by rw [List.map_cons, List.min?_cons'])
        (by rw [List.map_cons, List.max?_cons'])

theorem normalized_bounds_exact_sample :
    ∃ n : Int, sampleTimestamp.Contains (⟨some (0, false), none⟩ : Span) n ∧
      sampleTimestamp.Contains (⟨some (0, true), some (2, false)⟩ : Span) n :=
  (normalized_bounds_exact sampleTimestamp_lawful ⟨some (0, false), none⟩
    ⟨some (0, true), some (2, false)⟩).2.2.1.mp (by decide)

end Tamoss
