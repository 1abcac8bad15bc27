/-
  **The time range of a media object and the segments that use it.**
-/
import Tamoss.Store.Batch
import Mathlib.Algebra.Order.Archimedean.Basic
import Mathlib.Tactic.Ring

namespace Tamoss

variable {mt : MediaTimestamp}

variable {finite : Bool}

theorem parse_str_same (T : mt.Arithmetic) {field : String}
    {r s : mt.TimeRange} (h : parseTimerange mt field finite (mt.str r) = .ok s) :
    SameInstants s r :=
  T.fromStr_str r s (fromStr_of_parseTimerange h)

theorem extend_same (T : mt.Arithmetic) {r s object : mt.TimeRange}
    (hr : SameInstants r object) (hs : SameInstants s object) :
    SameInstants (mt.extendToEncompassTimerange r s) object := by
  intro x
  rw [T.contains_extend]
  constructor
  · rintro ⟨y, z, hy, hz, hyx, hxz⟩
    have hy' : mt.Contains object y := hy.elim (hr y).mp (hs y).mp
    have hz' : mt.Contains object z := hz.elim (hr z).mp (hs z).mp
    exact contains_of_between hy' hz' hyx hxz
  · intro hx
    exact ⟨x, x, .inl ((hr x).mpr hx), .inl ((hr x).mpr hx), le_refl x, le_refl x⟩

variable {object : mt.TimeRange}

theorem foldl_extend_same (T : mt.Arithmetic)
    {rest : List mt.TimeRange} (hrest : ∀ r ∈ rest, SameInstants r object)
    {first : mt.TimeRange} (hfirst : SameInstants first object) :
    SameInstants (rest.foldl mt.extendToEncompassTimerange first) object := by
  induction rest generalizing first with
  | nil => exact hfirst
  | cons r rest ih =>
    exact ih (fun s hs => hrest s (List.mem_cons_of_mem r hs))
      (extend_same T hfirst (hrest r List.mem_cons_self))

/-- **The union of ranges with the same instants has the same instants.** -/
theorem union_same (L : mt.Lawful) (T : mt.Arithmetic)
    (hobject : ∃ x, mt.Contains object x) {ranges : List (Option String)}
    (hne : ranges.filterMap id ≠ []) (hranges : ∀ text ∈ ranges.filterMap id,
      ∃ r, parseTimerange mt "timerange" false text = .ok r ∧ SameInstants r object)
    {result : Option String} (h : timerangeUnionStrings mt ranges = .ok result) :
    ∃ text r, result = some text ∧ parseTimerange mt "timerange" false text = .ok r ∧
      SameInstants r object := by
  unfold timerangeUnionStrings at h
  obtain ⟨parsed, hparsed, h⟩ := Lib.bind_eq_ok h
  obtain ⟨hmem, hparsedNe⟩ := Lib.mapM_eq_ok hparsed
  have hsame : ∀ r ∈ parsed, SameInstants r object := by
    intro r hr
    obtain ⟨text, htext, hr⟩ := hmem r hr
    obtain ⟨r', hr', hinstants⟩ := hranges text htext
    obtain rfl := Except.ok.inj (hr.symm.trans hr')
    exact hinstants
  -- no range is empty, so none is left out
  have hfilter : parsed.filter (fun r => !mt.isEmpty r) = parsed := by
    refine List.filter_eq_self.mpr fun r hr => ?_
    obtain ⟨x, hx⟩ := hobject
    rw [Bool.not_eq_true', ← Bool.not_eq_true, L.isEmpty_iff]
    exact fun hempty => hempty x ((hsame r hr x).mpr hx)
  rw [hfilter] at h
  cases parsed with
  | nil => exact absurd rfl (hparsedNe hne)
  | cons first rest =>
    obtain rfl := Except.ok.inj h
    obtain ⟨r, hr⟩ := L.parse_str (rest.foldl mt.extendToEncompassTimerange first)
    have hfold := foldl_extend_same T (fun s hs => hsame s (List.mem_cons_of_mem first hs))
      (hsame first List.mem_cons_self)
    exact ⟨_, r, rfl, hr, (parse_str_same T hr).trans hfold⟩

variable {r : mt.TimeRange}

/-- **A bounded range that is not empty contains a shift of itself only for shift zero.** -/
theorem shift_eq_zero {a b : Int} (ha : mt.start r = some a)
    (hb : mt.stop r = some b) {x : ℚ} (hx : mt.Contains r x) {d : ℚ}
    (hshift : ∀ y, mt.Contains r y → mt.Contains r (y - d)) : d = 0 := by
  have hmany : ∀ n : Nat, mt.Contains r (x - n * d) := by
    intro n
    induction n with
    | zero => simpa using hx
    | succ n ih =>
      have := hshift _ ih
      have heq : x - n * d - d = x - (n + 1 : Nat) * d := by
        push_cast
        ring
      rwa [heq] at this
  have hlower : ∀ y, mt.Contains r y → (a : ℚ) ≤ y := by
    intro y hy
    have := hy.1 a ha
    split at this
    · exact this
    · exact this.le
  have hupper : ∀ y, mt.Contains r y → y ≤ (b : ℚ) := by
    intro y hy
    have := hy.2 b hb
    split at this
    · exact this
    · exact this.le
  -- repeated shifts leave every bounded range
  rcases lt_trichotomy d 0 with hd | hd | hd
  · obtain ⟨n, hn⟩ := Archimedean.arch (b - x + 1) (neg_pos.mpr hd)
    have := hupper _ (hmany n)
    rw [nsmul_eq_mul] at hn
    linarith
  · exact hd
  · obtain ⟨n, hn⟩ := Archimedean.arch (x - a + 1) hd
    have := hlower _ (hmany n)
    rw [nsmul_eq_mul] at hn
    linarith

variable (mt) in
def segmentOffset (tsOffset : Option String) : Except PyError Int :=
  if tsOffset = none ∨ tsOffset = some "" then .ok 0
  else parseTimestamp mt "ts_offset" (tsOffset.getD "")

/-- **The segment fits the range of its object**: what `segment_object_timerange` recomputes
    from it has the instants of the range, and its own range, moved back by its offset, lies
    within. -/
structure Covers (mt : MediaTimestamp) (s : SegmentRecord) (object : mt.TimeRange) : Prop where
  own : ∃ own range, segmentObjectTimerange mt s = .ok own ∧
    parseTimerange mt "timerange" false own = .ok range ∧ SameInstants range object
  contained : ∃ offset range, segmentOffset mt s.tsOffset = .ok offset ∧
    parseTimerange mt "timerange" false s.timerange = .ok range ∧
    ∀ x, mt.Contains range x → mt.Contains object (x - offset)
  nonempty : ∃ x, mt.Contains object x

theorem Covers.congr {s : SegmentRecord} {object object' : mt.TimeRange}
    (h : Covers mt s object) (hsame : SameInstants object object') : Covers mt s object' := by
  obtain ⟨own, range, hown, hparsed, hrange⟩ := h.own
  obtain ⟨offset, segment, hoffset, hsegment, hcontained⟩ := h.contained
  obtain ⟨x, hx⟩ := h.nonempty
  exact ⟨⟨own, range, hown, hparsed, hrange.trans hsame⟩,
    ⟨offset, segment, hoffset, hsegment, fun y hy => (hsame _).mp (hcontained y hy)⟩,
    ⟨x, (hsame x).mp hx⟩⟩

def TimeLink (mt : MediaTimestamp) (s : SegmentRecord) (timerange : Option String) : Prop :=
  ∃ text object, timerange = some text ∧
    parseTimerange mt "timerange" false text = .ok object ∧ Covers mt s object

theorem parseTimerange_ne_empty {field text : String}
    (h : parseTimerange mt field finite text = .ok r) : text ≠ "" := by
  rintro rfl
  simp [parseTimerange] at h

theorem shifted_ok (T : mt.Arithmetic) {timerange : String} {tsOffset : Option String}
    {segment inner : mt.TimeRange} {bounds : SegmentTimerangeBounds} {text : String}
    (hsegment : SegmentRange mt timerange segment bounds)
    (htext : objectTimerangeFromSegmentFields mt timerange tsOffset none = .ok text)
    (hinner : parseTimerange mt "timerange" false text = .ok inner) :
    ∃ offset : Int, segmentOffset mt tsOffset = .ok offset ∧
      ∀ x, mt.Contains inner x ↔ mt.Contains segment (x + offset) := by
  have hparsed := parseTimerange_of_finite hsegment.parsed "timerange"
  obtain ⟨a, b, ha, hb, -⟩ := finiteNormalizedTimerangeBounds_ok hsegment.bounds
  unfold objectTimerangeFromSegmentFields at htext
  dsimp only at htext
  split at htext
  · rename_i hnone
    obtain rfl := Except.ok.inj htext
    obtain rfl := Except.ok.inj (hparsed.symm.trans hinner)
    exact ⟨0, by simp [segmentOffset, hnone], by simp⟩
  · rename_i hsome
    obtain ⟨offset, hoffset, htext⟩ := Lib.bind_eq_ok htext
    obtain ⟨range, hrange, htext⟩ := Lib.bind_eq_ok htext
    obtain rfl := Except.ok.inj (hparsed.symm.trans hrange)
    simp only [ha, hb] at htext
    obtain rfl := Except.ok.inj htext
    refine ⟨offset, by rw [segmentOffset, if_neg hsome]; exact hoffset, fun x => ?_⟩
    rw [parse_str_same T hinner x, T.contains_make, T.timestampSub, T.timestampSub]
    unfold MediaTimestamp.Contains
    simp only [ha, hb, Option.some.injEq, forall_eq']
    push_cast
    refine and_congr ?_ ?_
    · split
      · exact sub_le_iff_le_add
      · exact sub_lt_iff_lt_add
    · split
      · exact le_sub_iff_add_le
      · exact lt_sub_iff_add_lt

/-- **The segment a post turns into fits the range that registration computed.** -/
theorem effectiveObjectTimerange_covers (T : mt.Arithmetic) {post : SegmentPost}
    {media : MediaObjectRecord} {existing : Bool} {effective : String}
    (hpost : IsSegmentRange mt post.timerange)
    (h : effectiveObjectTimerange mt post media existing = .ok effective) (f : FlowId)
    (initObjectId : Option ObjectId) (now : Time) :
    ∃ object, parseTimerange mt "timerange" false effective = .ok object ∧
      Covers mt (segmentOfPost f post initObjectId effective now) object := by
  obtain ⟨segment, bounds, hsegment⟩ := hpost
  have hparsed := parseTimerange_of_finite hsegment.parsed "timerange"
  obtain ⟨a, b, ha, hb, -, -, hlt⟩ := finiteNormalizedTimerangeBounds_ok hsegment.bounds
  have hstart : mt.Contains segment (bounds.start : ℚ) :=
    (contains_intCast_iff hsegment.bounds bounds.start).mpr ⟨le_refl _, hlt⟩
  unfold effectiveObjectTimerange at h
  obtain ⟨effective', heffective, h⟩ := Lib.bind_eq_ok h
  obtain ⟨text, htext, h⟩ := Lib.bind_eq_ok h
  obtain ⟨outer, houter, h⟩ := Lib.bind_eq_ok h
  obtain ⟨inner, hinner, h⟩ := Lib.bind_eq_ok h
  dsimp only at h
  split at h
  · cases h
  rename_i hsub
  obtain rfl := Except.ok.inj h
  have hsub' : mt.containsSubrange outer inner = true := by simpa using hsub
  obtain ⟨offset, hoffset, hshift⟩ := shifted_ok T hsegment htext hinner
  have hinside : ∀ x, mt.Contains segment x → mt.Contains outer (x - offset) := by
    intro x hx
    refine T.containsSubrange outer inner hsub' _ ((hshift _).mpr ?_)
    rwa [sub_add_cancel]
  refine ⟨outer, houter, ?_, ⟨offset, segment, hoffset, hparsed, hinside⟩,
    ⟨_, hinside _ hstart⟩⟩
  by_cases hsame : effective' = post.timerange
  · -- the range was not stored: it is recomputed from the offset, which must be zero
    subst hsame
    obtain rfl := Except.ok.inj (hparsed.symm.trans houter)
    have hzero : (offset : ℚ) = 0 := shift_eq_zero ha hb hstart hinside
    refine ⟨text, inner, by simpa [segmentObjectTimerange, segmentOfPost] using htext, hinner,
      fun x => ?_⟩
    rw [hshift x, hzero, add_zero]
  · refine ⟨effective', outer, ?_, houter, .refl outer⟩
    have hne := parseTimerange_ne_empty houter
    simp [segmentObjectTimerange, segmentOfPost, hsame, objectTimerangeFromSegmentFields, hne]
    rfl

end Tamoss
