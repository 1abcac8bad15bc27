/-
  **Timerange strings in the frontend.**

  `utils/tams-time.ts` reads a TAMS timerange with a bounded end and turns it into half-open
  bounds; `parseTamsTimerange` of the player reads half-open timeranges only.
-/
import Mathlib.Data.List.TakeDrop
import Mathlib.Tactic.Ring
import Tamoss.Player.MasterManifest

namespace Tamoss.Player

/-! ## Timestamps -/

def nanosPerSecond : Nat := 1000000000

def timestampFromNanoseconds (nanoseconds : Int) : Text :=
  let sign : Text := if nanoseconds < 0 then ['-'] else []
  let absolute := nanoseconds.natAbs
  sign ++ decimal (absolute / nanosPerSecond) ++ ':' :: decimal (absolute % nanosPerSecond)

def timerangeFromNanoseconds (start stop : Int) : Except String Text :=
  if stop < start then .error "timerange end must not be before start"
  else .ok ('[' :: timestampFromNanoseconds start ++ '_' :: timestampFromNanoseconds stop ++ [')'])

/-- The groups of `/^(-?)(\d+):(\d{1,9})$/u` -/
def execTimestamp (timestamp : Text) : Option (Bool × Text × Text) :=
  let negative : Bool := timestamp.head? = some '-'
  match (if negative then timestamp.tail else timestamp).span Char.isDigit with
  | (whole, ':' :: fraction) =>
      if whole ≠ [] ∧ fraction ≠ [] ∧ fraction.length ≤ 9 ∧ fraction.all Char.isDigit then
        some (negative, whole, fraction)
      else none
  | _ => none

def bigInt (digits : Text) : Nat := Nat.ofDigitChars 10 digits 0

/-- The sign applies to the combined value. -/
def combined : Bool × Text × Text → Int
  | (negative, whole, fraction) =>
      let absolute : Int := bigInt whole * nanosPerSecond + bigInt fraction
      if negative then -absolute else absolute

def nanosecondsFromTimestamp (timestamp : Text) : Option Int :=
  match execTimestamp timestamp with
  | none => none
  | some groups => if bigInt groups.2.2 ≥ nanosPerSecond then none else some (combined groups)

def parseTamsTimestamp (timestamp : Text) : Except PlaybackPlanError Int :=
  match execTimestamp timestamp with
  | none => .error ⟨"invalid-timerange", "A media timerange is invalid."⟩
  | some groups =>
      if bigInt groups.2.2 ≥ nanosPerSecond then
        .error ⟨"invalid-timerange", "A media timerange is invalid."⟩
      else .ok (combined groups)

/-! ## Timeranges -/

/-- The group of `/^\[(-?\d+:\d{1,9})\]$/u` -/
def execInstant : Text → Option Text
  | '[' :: rest =>
      if rest.getLast? = some ']' ∧ (execTimestamp rest.dropLast).isSome then some rest.dropLast
      else none
  | _ => none

/-- The first two groups of the pattern of a range, from the text before the underscore -/
def execOpening : Text → Option (Option Char × Option Text)
  | [] => some (none, none)
  | c :: rest =>
      if c = '[' ∨ c = '(' then
        if rest = [] then some (some c, none)
        else if (execTimestamp rest).isSome then some (some c, some rest)
        else none
      else none

def execClosing (after : Text) : Option (Text × Char) :=
  match after.getLast? with
  | none => none
  | some c =>
      if (c = ')' ∨ c = ']') ∧ (execTimestamp after.dropLast).isSome then some (after.dropLast, c)
      else none

/-- The groups of `/^(?:(\[|\()(-?\d+:\d{1,9})?)?_(-?\d+:\d{1,9})(\)|\])$/u`; a timestamp has
    no underscore, so that the first one parts the text. -/
def execRange (timerange : Text) : Option ((Option Char × Option Text) × Text × Char) :=
  match timerange.span (· ≠ '_') with
  | (before, _ :: after) => do return (← execOpening before, ← execClosing after)
  | _ => none

structure TamsTimerangeBounds where
  start : Option Int
  startInclusive : Bool
  stop : Int
  stopInclusive : Bool
  instantaneous : Bool
deriving DecidableEq

def boundsFromTimerange (timerange : Text) : Option TamsTimerangeBounds :=
  match execInstant timerange with
  | some instant => (nanosecondsFromTimestamp instant).map fun t => ⟨some t, true, t, true, true⟩
  | none =>
    match execRange timerange with
    | none => none
    | some ((marker, opening), closing, close) =>
      if marker.isSome ∧ opening = none then none
      else
        let start := opening.bind nanosecondsFromTimestamp
        match nanosecondsFromTimestamp closing with
        | none => none
        | some stop =>
          if opening.isSome ∧ start = none then none
          else if start.any (· > stop) then none
          else
            let startInclusive := marker ≠ some '('
            let stopInclusive := close = ']'
            some ⟨start, startInclusive, stop, stopInclusive,
              start = some stop && startInclusive && stopInclusive⟩

structure HalfOpenTimerange where
  startNanoseconds : Int
  endNanoseconds : Int
  timerange : Text
deriving DecidableEq

def halfOpenTimerange (timerange : Text) : Except String (Option HalfOpenTimerange) :=
  match boundsFromTimerange timerange with
  | none => .ok none
  | some bounds =>
    match bounds.start with
    | none => .ok none
    | some start =>
      if bounds.instantaneous then .ok none
      else
        let startNanoseconds := if bounds.startInclusive then start else start + 1
        let endNanoseconds := if bounds.stopInclusive then bounds.stop + 1 else bounds.stop
        if endNanoseconds ≤ startNanoseconds then .ok none
        else do
          let text ← timerangeFromNanoseconds startNanoseconds endNanoseconds
          return some ⟨startNanoseconds, endNanoseconds, text⟩

structure ParsedTamsTimerange where
  startNanoseconds : Int
  endNanoseconds : Int
  durationNanoseconds : Int
deriving DecidableEq

/-- The groups of `/^\[(-?\d+:\d{1,9})_(-?\d+:\d{1,9})\)$/u` -/
def execHalfOpen (timerange : Text) : Option (Text × Text) :=
  match execRange timerange with
  | some ((some '[', some start), stop, ')') => some (start, stop)
  | _ => none

def parseTamsTimerange (timerange : Text) : Except PlaybackPlanError ParsedTamsTimerange :=
  match execHalfOpen timerange with
  | none =>
    .error ⟨"invalid-timerange", "Media playback requires a bounded half-open timerange."⟩
  | some (opening, closing) => do
    let start ← parseTamsTimestamp opening
    let stop ← parseTamsTimestamp closing
    if stop ≤ start then
      .error ⟨"invalid-timerange", "Media playback requires a positive timerange."⟩
    else return ⟨start, stop, stop - start⟩

/-! ## What a text means -/

/-- A timestamp as the regular expressions of the player read it: digits on both sides of the
    colon, nine at most behind it. -/
structure Stamp where
  negative : Bool
  whole : Text
  fraction : Text
  whole_ne : whole ≠ []
  fraction_ne : fraction ≠ []
  fraction_le : fraction.length ≤ 9
  digits : ∀ c ∈ whole ++ fraction, c.isDigit = true

def Stamp.text (t : Stamp) : Text :=
  (if t.negative then ['-'] else []) ++ t.whole ++ ':' :: t.fraction

def Stamp.value (t : Stamp) : Int := combined (t.negative, t.whole, t.fraction)

/-- Without leading zeros: `0|[1-9][0-9]*` -/
def NoLeadingZeros (s : Text) : Prop := s = ['0'] ∨ s.head? ≠ some '0'

/-- The timestamps of the contract, whose pattern forbids leading zeros. -/
def Stamp.Contract (t : Stamp) : Prop := NoLeadingZeros t.whole ∧ NoLeadingZeros t.fraction

/-- The timeranges that the player reads: `()`, an instant, whose markers can only be inclusive,
    and a range, which need not have its markers and bounds. A marker is true if it is
    inclusive.  They are those of the contract, and these with leading zeros. -/
inductive TamsRange where
  | never
  | instant (opened closed : Bool) (t : Stamp)
  | range (opening : Option Bool) (start stop : Option Stamp) (closing : Option Bool)

def openMarker : Option Bool → Text
  | none => []
  | some inclusive => [if inclusive then '[' else '(']

def closeMarker : Option Bool → Text
  | none => []
  | some inclusive => [if inclusive then ']' else ')']

def stampText : Option Stamp → Text
  | none => []
  | some t => t.text

namespace TamsRange

def text : TamsRange → Text
  | never => ['(', ')']
  | instant opened closed t =>
      (if opened then ['['] else []) ++ t.text ++ if closed then [']'] else []
  | range opening start stop closing =>
      openMarker opening ++ stampText start ++ '_' :: (stampText stop ++ closeMarker closing)

/-- The timeranges of the contract -/
def Contract : TamsRange → Prop
  | never => True
  | instant _ _ t => t.Contract
  | range _ start stop _ => (∀ a ∈ start, a.Contract) ∧ ∀ b ∈ stop, b.Contract

/-- The nanosecond lies in the range. A bound without a marker is included. -/
def Contains : TamsRange → Int → Prop
  | never, _ => False
  | instant _ _ t, n => n = t.value
  | range opening start stop closing, n =>
      (∀ a ∈ start, if opening.getD true then a.value ≤ n else a.value < n) ∧
        ∀ b ∈ stop, if closing.getD true then n ≤ b.value else n < b.value

/-- A single instant that both bounds include. -/
def IsPoint : TamsRange → Prop
  | instant _ _ _ => True
  | range opening (some a) (some b) closing =>
      a.value = b.value ∧ opening.getD true = true ∧ closing.getD true = true
  | _ => False

def UnboundedStart : TamsRange → Prop
  | range _ none _ _ => True
  | _ => False

def UnboundedEnd : TamsRange → Prop
  | range _ _ none _ => True
  | _ => False

/-- A bound has no inclusivity marker. -/
def Unmarked : TamsRange → Prop
  | range opening start stop closing =>
      start.isSome ∧ opening = none ∨ stop.isSome ∧ closing = none
  | _ => False

/-- The half-open bounds of a range that has two bounds with markers, is no point and is not
    empty. -/
def halfOpen : TamsRange → Option (Int × Int)
  | range (some i) (some a) (some b) (some j) =>
      let start := if i then a.value else a.value + 1
      let stop := if j then b.value + 1 else b.value
      if stop ≤ start ∨ i = true ∧ j = true ∧ a.value = b.value then none else some (start, stop)
  | _ => none

theorem contains_iff {i j : Bool} {a b : Stamp} {n : Int} :
    (range (some i) (some a) (some b) (some j)).Contains n ↔
      (if i then a.value else a.value + 1) ≤ n ∧ n < if j then b.value + 1 else b.value := by
  cases i <;> cases j <;>
    simp only [Contains, Option.mem_some_iff, forall_eq', Option.getD_some, if_true,
      Bool.false_eq_true, if_false, Int.add_one_le_iff, Int.lt_add_one_iff]

variable {R : TamsRange}

theorem contains_of_halfOpen {start stop : Int} (h : R.halfOpen = some (start, stop)) :
    start < stop ∧ ∀ n, R.Contains n ↔ start ≤ n ∧ n < stop := by
  rcases R with _ | _ | ⟨_ | i, _ | a, _ | b, _ | j⟩ <;> try cases h
  simp only [halfOpen, Option.ite_none_left_eq_some] at h
  obtain ⟨hne, heq⟩ := h
  cases heq
  exact ⟨by omega, fun n => contains_iff⟩

theorem halfOpen_none_iff : R.halfOpen = none ↔
    R.IsPoint ∨ (∀ n, ¬ R.Contains n) ∨ R.UnboundedStart ∨ R.UnboundedEnd ∨ R.Unmarked := by
  rcases R with _ | _ | ⟨_ | i, _ | a, _ | b, _ | j⟩
  case range.some.some.some.some =>
    have hempty : (∀ n, ¬ (range (some i) (some a) (some b) (some j)).Contains n) ↔
        (if j then b.value + 1 else b.value) ≤ if i then a.value else a.value + 1 := by
      simp only [contains_iff, not_and, not_lt]
      exact ⟨fun h => h _ (le_refl _), fun h n hn => h.trans hn⟩
    rw [hempty]
    simp [halfOpen, IsPoint, UnboundedStart, UnboundedEnd, Unmarked]
    rw [← not_lt]
    tauto
  all_goals simp [halfOpen, Contains, IsPoint, UnboundedStart, UnboundedEnd, Unmarked]

end TamsRange

/-! ## Reading timestamps -/

theorem span_append {p : Char → Bool} {u v : Text} {c : Char} (hu : ∀ x ∈ u, p x = true)
    (hc : p c = false) : (u ++ c :: v).span p = (u, c :: v) := by
  rw [List.span_eq_takeWhile_dropWhile, List.takeWhile_append_of_pos hu,
    List.dropWhile_append_of_pos hu]
  simp [hc]

theorem of_span {p : Char → Bool} {s u v : Text} {c : Char} (h : s.span p = (u, c :: v)) :
    s = u ++ c :: v ∧ (∀ x ∈ u, p x = true) ∧ p c = false := by
  rw [List.span_eq_takeWhile_dropWhile, Prod.mk.injEq] at h
  obtain ⟨rfl, hdrop⟩ := h
  refine ⟨by rw [← hdrop, List.takeWhile_append_dropWhile],
    List.all_eq_true.mp List.all_takeWhile, ?_⟩
  have := List.head?_dropWhile_not p s
  rw [hdrop] at this
  simpa using this

theorem ofDigitChars_lt {digits : Text} (h : ∀ c ∈ digits, c.isDigit = true) (k : Nat) :
    Nat.ofDigitChars 10 digits k < (k + 1) * 10 ^ digits.length := by
  induction digits generalizing k with
  | nil => simp
  | cons c digits ih =>
    have hc : c.toNat ≤ 57 := by
      have := h c (by simp)
      simp only [Char.isDigit, Bool.and_eq_true, decide_eq_true_eq] at this
      exact UInt32.le_iff_toNat_le.mp this.2
    have hle : 10 * k + (c.toNat - '0'.toNat) + 1 ≤ 10 * (k + 1) := by
      have : '0'.toNat = 48 := rfl
      omega
    rw [Nat.ofDigitChars_cons]
    calc _ < (10 * k + (c.toNat - '0'.toNat) + 1) * 10 ^ digits.length :=
          ih (fun x hx => h x (by simp [hx])) _
      _ ≤ 10 * (k + 1) * 10 ^ digits.length := Nat.mul_le_mul_right _ hle
      _ = (k + 1) * 10 ^ (c :: digits).length := by
        rw [List.length_cons]
        ring

theorem exists_stamp {s : Text} (h : (execTimestamp s).isSome = true) : ∃ t : Stamp, t.text = s := by
  simp only [execTimestamp] at h
  split at h
  · rename_i whole fraction hspan
    split at h
    · rename_i hgroups
      obtain ⟨hwhole, hfraction, hlength, hall⟩ := hgroups
      obtain ⟨heq, hdigits, -⟩ := of_span hspan
      refine ⟨⟨decide (s.head? = some '-'), whole, fraction, hwhole, hfraction, hlength,
        fun c hc => (List.mem_append.mp hc).elim (hdigits c) (List.all_eq_true.mp hall c)⟩, ?_⟩
      rw [Stamp.text, List.append_assoc, ← heq]
      cases s with
      | nil => rfl
      | cons c rest => by_cases hc : c = '-' <;> simp [hc]
    · cases h
  · cases h

namespace Stamp

variable (t : Stamp)

theorem exec : execTimestamp t.text = some (t.negative, t.whole, t.fraction) := by
  obtain ⟨negative, whole, fraction, hwhole, hfraction, hlength, hdigits⟩ := t
  have hspan : (whole ++ ':' :: fraction).span Char.isDigit = (whole, ':' :: fraction) :=
    span_append (fun c hc => hdigits c (by simp [hc])) rfl
  have hgroups : whole ≠ [] ∧ fraction ≠ [] ∧ fraction.length ≤ 9 ∧ fraction.all Char.isDigit :=
    ⟨hwhole, hfraction, hlength, List.all_eq_true.mpr fun c hc => hdigits c (by simp [hc])⟩
  cases negative with
  | true =>
    simp only [text, execTimestamp, if_true, List.cons_append, List.nil_append, List.head?_cons,
      List.tail_cons, decide_true, hspan, if_pos hgroups]
  | false =>
    have hd : (whole ++ ':' :: fraction).head? ≠ some '-' := by
      obtain ⟨d, rest, rfl⟩ := List.exists_cons_of_ne_nil hwhole
      intro h
      cases h
      exact absurd (hdigits '-' (by simp)) (by decide)
    simp only [text, execTimestamp, Bool.false_eq_true, if_false, List.nil_append, hd,
      decide_false, hspan, if_pos hgroups]

theorem fraction_lt : ¬ bigInt t.fraction ≥ nanosPerSecond := by
  have hlt := @ofDigitChars_lt t.fraction (fun c hc => t.digits c (by simp [hc])) 0
  rw [Nat.zero_add, Nat.one_mul] at hlt
  exact not_le.mpr (hlt.trans_le (Nat.pow_le_pow_right (by decide) t.fraction_le))

@[simp] theorem nanoseconds : nanosecondsFromTimestamp t.text = some t.value := by
  simp only [nanosecondsFromTimestamp, t.exec, t.fraction_lt, if_false, value]

@[simp] theorem parsed : parseTamsTimestamp t.text = .ok t.value := by
  simp only [parseTamsTimestamp, t.exec, t.fraction_lt, if_false, value]

theorem text_ne : t.text ≠ [] := by
  simp [text]

theorem plain {c : Char} (hc : c ∈ t.text) : c ∉ ['[', '(', ']', ')', '_'] := by
  have hc' : c = '-' ∨ c = ':' ∨ c.isDigit = true := by
    have hsign : c ∈ (if t.negative then ['-'] else [] : Text) → c = '-' := by
      cases t.negative <;> simp
    have hdigits := t.digits c
    simp only [text, List.mem_append, List.mem_cons] at hc hdigits
    tauto
  rcases hc' with rfl | rfl | hdigit
  · decide
  · decide
  · intro hmem
    simp only [List.mem_cons, List.not_mem_nil, or_false] at hmem
    rcases hmem with rfl | rfl | rfl | rfl | rfl <;> exact absurd hdigit (by decide)

end Stamp

/-- The timestamp that is written for a number of nanoseconds. -/
def stampOf (n : Int) : Stamp where
  negative := n < 0
  whole := decimal (n.natAbs / nanosPerSecond)
  fraction := decimal (n.natAbs % nanosPerSecond)
  whole_ne := Nat.toDigits_ne_nil
  fraction_ne := Nat.toDigits_ne_nil
  fraction_le := (Nat.length_toDigits_le_iff (by decide) (by decide)).mpr
    (Nat.mod_lt _ (by decide))
  digits c hc := (List.mem_append.mp hc).elim decimal_digit decimal_digit

theorem stampOf_text (n : Int) : (stampOf n).text = timestampFromNanoseconds n := by
  simp [Stamp.text, stampOf, timestampFromNanoseconds]

theorem stampOf_value (n : Int) : (stampOf n).value = n := by
  have := Nat.div_add_mod n.natAbs nanosPerSecond
  simp only [Stamp.value, stampOf, combined, bigInt, decimal, Nat.ofDigitChars_ten_toDigits,
    decide_eq_true_eq]
  split <;> lia

/-! ## Reading timeranges -/

theorem execInstant_some {s u : Text} (h : execInstant s = some u) :
    ∃ t : Stamp, t.text = u ∧ s = (TamsRange.instant true true t).text := by
  unfold execInstant at h
  split at h
  · rename_i rest
    split at h
    · rename_i hgroup
      cases h
      obtain ⟨t, ht⟩ := exists_stamp hgroup.2
      refine ⟨t, ht, ?_⟩
      rw [TamsRange.text, ht]
      simp [List.dropLast_append_getLast? _ hgroup.1]
    · cases h
  · cases h

theorem execInstant_range (u v : Text) : execInstant (u ++ '_' :: v) = none := by
  cases h : execInstant (u ++ '_' :: v) with
  | none => rfl
  | some w =>
    obtain ⟨t, -, heq⟩ := execInstant_some h
    have hmem : '_' ∈ (TamsRange.instant true true t).text := heq ▸ by simp
    simp only [TamsRange.text, if_true, List.cons_append, List.nil_append, List.mem_cons,
      List.mem_append, List.not_mem_nil, or_false, Char.reduceEq, false_or] at hmem
    exact absurd (t.plain hmem) (by decide)

theorem execOpening_eq (opening : Option Bool) (start : Option Stamp) :
    execOpening (openMarker opening ++ stampText start) =
      if opening = none ∧ start.isSome then none
      else some (opening.map fun i => if i then '[' else '(', start.map Stamp.text) := by
  cases start with
  | none => rcases opening with _ | _ | _ <;> rfl
  | some t =>
    rcases opening with _ | i
    · obtain ⟨c, rest, hrest⟩ := List.exists_cons_of_ne_nil t.text_ne
      have hc := t.plain (hrest ▸ List.mem_cons_self)
      simp only [List.mem_cons, not_or] at hc
      simp [openMarker, stampText, hrest, execOpening, hc.1, hc.2.1]
    · cases i <;> simp [execOpening, openMarker, stampText, t.text_ne, t.exec]

theorem execClosing_eq (stop : Option Stamp) (closing : Option Bool) :
    execClosing (stampText stop ++ closeMarker closing) =
      stop.bind fun t => closing.map fun j => (t.text, if j then ']' else ')') := by
  cases stop with
  | none => rcases closing with _ | _ | _ <;> rfl
  | some t =>
    rcases closing with _ | j
    · rw [closeMarker, List.append_nil, stampText, execClosing]
      split
      · rfl
      · rename_i c hc
        have hplain := t.plain (List.mem_of_getLast? hc)
        simp only [List.mem_cons, not_or] at hplain
        simp [hplain.2.2.1, hplain.2.2.2.1]
    · cases j <;> simp [execClosing, closeMarker, stampText, t.exec]

theorem execRange_eq (opening : Option Bool) (start stop : Option Stamp) (closing : Option Bool) :
    execRange (TamsRange.range opening start stop closing).text = do
      return (← execOpening (openMarker opening ++ stampText start),
        ← execClosing (stampText stop ++ closeMarker closing)) := by
  have hno : ∀ c ∈ openMarker opening ++ stampText start, decide (c ≠ '_') = true := by
    intro c hc
    rcases List.mem_append.mp hc with hc | hc
    · rcases opening with _ | _ | _ <;> simp [openMarker] at hc <;> simp [hc]
    · cases start with
      | none => simp [stampText] at hc
      | some t =>
        have hplain := t.plain hc
        simp only [List.mem_cons, not_or] at hplain
        simpa using hplain.2.2.2.2.1
  rw [execRange, TamsRange.text, span_append hno (by decide)]

theorem halfOpenTimerange_no_underscore {s : Text} (hs : '_' ∉ s) :
    halfOpenTimerange s = .ok none := by
  have hspan : s.span (· ≠ '_') = (s, []) := by
    have hall : ∀ c ∈ s, decide (c ≠ '_') = true :=
      fun c hc => decide_eq_true (ne_of_mem_of_not_mem hc hs)
    have htake := @List.takeWhile_append_of_pos Char _ s [] hall
    have hdrop := @List.dropWhile_append_of_pos Char _ s [] hall
    rw [List.append_nil] at htake hdrop
    rw [List.span_eq_takeWhile_dropWhile, htake, hdrop]
    simp
  rw [halfOpenTimerange, boundsFromTimerange, execRange, hspan]
  cases execInstant s with
  | none => rfl
  | some t => cases h : nanosecondsFromTimestamp t <;> simp [h]

def written (start stop : Int) : HalfOpenTimerange :=
  ⟨start, stop, (TamsRange.range (some true) (some (stampOf start)) (some (stampOf stop))
    (some false)).text⟩

theorem timerangeFromNanoseconds_eq {start stop : Int} (h : start < stop) :
    timerangeFromNanoseconds start stop = .ok (written start stop).timerange := by
  rw [timerangeFromNanoseconds, if_neg (not_lt.mpr h.le)]
  simp [written, TamsRange.text, openMarker, closeMarker, stampText, stampOf_text]

theorem boundsFromTimerange_marked (i j : Bool) (a b : Stamp) :
    boundsFromTimerange (TamsRange.range (some i) (some a) (some b) (some j)).text =
      if b.value < a.value then none
      else some ⟨some a.value, i, b.value, j, a.value = b.value && i && j⟩ := by
  rw [boundsFromTimerange, execRange_eq, execOpening_eq, execClosing_eq, TamsRange.text,
    execInstant_range]
  cases i <;> cases j <;> simp

theorem halfOpenTimerange_marked (i j : Bool) (a b : Stamp) :
    halfOpenTimerange (TamsRange.range (some i) (some a) (some b) (some j)).text =
      .ok ((TamsRange.range (some i) (some a) (some b) (some j)).halfOpen.map
        fun r => written r.1 r.2) := by
  rw [halfOpenTimerange, boundsFromTimerange_marked, TamsRange.halfOpen]
  generalize hs : (if i then a.value else a.value + 1) = start
  generalize he : (if j then b.value + 1 else b.value) = stop
  by_cases hle : stop ≤ start
  · by_cases hlt : b.value < a.value <;> simp [hlt, hs, he, hle]
  · have hlt : ¬ b.value < a.value := by
      revert hs he
      split <;> split <;> omega
    have hpoint : (decide (a.value = b.value) && i && j) = true ↔
        i = true ∧ j = true ∧ a.value = b.value := by
      cases i <;> cases j <;> simp
    simp only [hlt, if_false, hpoint, hs, he, hle, false_or,
      timerangeFromNanoseconds_eq (not_le.mp hle)]
    split <;> rfl

theorem halfOpenTimerange_text (R : TamsRange) :
    halfOpenTimerange R.text = .ok (R.halfOpen.map fun r => written r.1 r.2) := by
  cases R with
  | never => rfl
  | instant opened closed t =>
    apply halfOpenTimerange_no_underscore
    intro hmem
    simp only [TamsRange.text, List.mem_append] at hmem
    rcases hmem with (hmem | hmem) | hmem
    · cases opened <;> simp at hmem
    · exact absurd (t.plain hmem) (by decide)
    · cases closed <;> simp at hmem
  | range opening start stop closing =>
    rcases opening with _ | i <;> rcases start with _ | a <;> rcases stop with _ | b <;>
      rcases closing with _ | j
    case some.some.some.some => exact halfOpenTimerange_marked i j a b
    all_goals
      rw [halfOpenTimerange, boundsFromTimerange, execRange_eq, execOpening_eq, execClosing_eq,
        TamsRange.text, execInstant_range]
      simp [TamsRange.halfOpen]

theorem exists_opening {u : Text} (h : (execOpening u).isSome = true) :
    ∃ opening start, openMarker opening ++ stampText start = u := by
  unfold execOpening at h
  split at h
  · exact ⟨none, none, rfl⟩
  · rename_i c rest
    split at h
    · rename_i hc
      obtain ⟨i, rfl⟩ : ∃ i : Bool, c = if i then '[' else '(' :=
        hc.elim (fun hc => ⟨true, hc⟩) fun hc => ⟨false, hc⟩
      split at h
      · rename_i hrest
        exact ⟨some i, none, by rw [hrest]; rfl⟩
      · split at h
        · rename_i ht
          obtain ⟨t, rfl⟩ := exists_stamp ht
          exact ⟨some i, some t, rfl⟩
        · cases h
    · cases h

theorem exists_closing {v : Text} (h : (execClosing v).isSome = true) :
    ∃ stop closing, stampText stop ++ closeMarker closing = v := by
  unfold execClosing at h
  split at h
  · cases h
  · rename_i c hlast
    split at h
    · rename_i hc
      obtain ⟨j, rfl⟩ : ∃ j : Bool, c = if j then ']' else ')' :=
        hc.1.elim (fun hc => ⟨false, hc⟩) fun hc => ⟨true, hc⟩
      obtain ⟨t, ht⟩ := exists_stamp hc.2
      refine ⟨some t, some j, ?_⟩
      rw [stampText, ht, closeMarker, List.dropLast_append_getLast? _ hlast]
    · cases h

theorem exists_text {s : Text} {bounds : TamsTimerangeBounds}
    (h : boundsFromTimerange s = some bounds) : ∃ R : TamsRange, R.text = s := by
  rw [boundsFromTimerange] at h
  split at h
  · rename_i u hu
    obtain ⟨t, -, heq⟩ := execInstant_some hu
    exact ⟨_, heq.symm⟩
  · split at h
    · cases h
    · rename_i hrange
      unfold execRange at hrange
      split at hrange
      · rename_i u c v hspan
        obtain ⟨rfl, -, hc⟩ := of_span hspan
        obtain rfl : c = '_' := by simpa using hc
        simp only [bind, Option.bind_eq_some_iff] at hrange
        obtain ⟨groups, hopen, groups', hclose, -⟩ := hrange
        obtain ⟨opening, start, rfl⟩ := exists_opening (by rw [hopen]; rfl)
        obtain ⟨stop, closing, rfl⟩ := exists_closing (by rw [hclose]; rfl)
        exact ⟨.range opening start stop closing, rfl⟩
      · cases hrange

/-! ## Leading zeros -/

def dropZeros (s : Text) : Text :=
  if s.dropWhile (· = '0') = [] then ['0'] else s.dropWhile (· = '0')

theorem dropZeros_plain (s : Text) : NoLeadingZeros (dropZeros s) := by
  unfold dropZeros
  split
  · exact .inl rfl
  · refine .inr fun hzero => ?_
    have hnot := List.head?_dropWhile_not (· = '0') s
    rw [hzero] at hnot
    simp at hnot

theorem dropZeros_of_plain {s : Text} (h : NoLeadingZeros s) (hne : s ≠ []) : dropZeros s = s := by
  cases s with
  | nil => exact absurd rfl hne
  | cons c s =>
    rcases h with h | h
    · rw [h]
      rfl
    · have hc : c ≠ '0' := fun heq => h (by rw [heq]; rfl)
      simp [dropZeros, hc]

theorem bigInt_dropZeros (s : Text) : bigInt (dropZeros s) = bigInt s := by
  have hdrop : ∀ s : Text, bigInt (s.dropWhile (· = '0')) = bigInt s := by
    intro s
    induction s with
    | nil => rfl
    | cons c s ih =>
      by_cases hc : c = '0'
      · subst hc
        simpa [bigInt, Nat.ofDigitChars_cons] using ih
      · simp [hc]
  unfold dropZeros
  split
  · rename_i hnil
    rw [← hdrop s, hnil]
    rfl
  · exact hdrop s

theorem mem_dropZeros {s : Text} {c : Char} (h : c ∈ dropZeros s) : c = '0' ∨ c ∈ s := by
  unfold dropZeros at h
  split at h
  · exact .inl (List.mem_singleton.mp h)
  · exact .inr ((List.dropWhile_sublist _).subset h)

theorem dropZeros_ne (s : Text) : dropZeros s ≠ [] := by
  unfold dropZeros
  split
  · exact List.cons_ne_nil _ _
  · assumption

def Stamp.trimmed (t : Stamp) : Stamp where
  negative := t.negative
  whole := dropZeros t.whole
  fraction := dropZeros t.fraction
  whole_ne := dropZeros_ne _
  fraction_ne := dropZeros_ne _
  fraction_le := by
    unfold dropZeros
    split
    · decide
    · exact ((List.dropWhile_sublist _).length_le).trans t.fraction_le
  digits c hc := by
    have hdigit : c = '0' ∨ c ∈ t.whole ++ t.fraction := by
      rcases List.mem_append.mp hc with hc | hc
      · exact (mem_dropZeros hc).imp_right (List.mem_append_left _)
      · exact (mem_dropZeros hc).imp_right (List.mem_append_right _)
    rcases hdigit with rfl | hc
    · decide
    · exact t.digits c hc

theorem Stamp.trimmed_contract (t : Stamp) : t.trimmed.Contract :=
  ⟨dropZeros_plain _, dropZeros_plain _⟩

theorem Stamp.trimmed_value (t : Stamp) : t.trimmed.value = t.value := by
  simp only [Stamp.value, Stamp.trimmed, combined, bigInt_dropZeros]

theorem Stamp.trimmed_of_contract {t : Stamp} (h : t.Contract) : t.trimmed = t := by
  cases t
  simp only [Stamp.trimmed, Stamp.mk.injEq, true_and]
  exact ⟨dropZeros_of_plain h.1 (by assumption), dropZeros_of_plain h.2 (by assumption)⟩

def TamsRange.trimmed : TamsRange → TamsRange
  | never => never
  | instant opened closed t => instant opened closed t.trimmed
  | range opening start stop closing =>
      range opening (start.map Stamp.trimmed) (stop.map Stamp.trimmed) closing

/-- A timerange with leading zeros means what the timerange of the contract without them does. -/
theorem TamsRange.trimmed_spec (R : TamsRange) : R.trimmed.Contract ∧
    (R.Contract → R.trimmed = R) ∧ ∀ n, R.trimmed.Contains n ↔ R.Contains n := by
  cases R with
  | never => exact ⟨trivial, fun _ => rfl, fun _ => Iff.rfl⟩
  | instant opened closed t =>
    refine ⟨t.trimmed_contract, fun h => ?_, fun n => ?_⟩
    · rw [trimmed, Stamp.trimmed_of_contract h]
    · rw [trimmed, Contains, Contains, t.trimmed_value]
  | range opening start stop closing =>
    have hcontract : ∀ bound : Option Stamp, ∀ a ∈ bound.map Stamp.trimmed, a.Contract := by
      intro bound a ha
      obtain ⟨b, -, rfl⟩ := Option.map_eq_some_iff.mp ha
      exact b.trimmed_contract
    have hsame : ∀ bound : Option Stamp, (∀ a ∈ bound, a.Contract) → bound.map Stamp.trimmed = bound := by
      intro bound h
      cases bound with
      | none => rfl
      | some a => exact congrArg some (Stamp.trimmed_of_contract (h a rfl))
    refine ⟨⟨hcontract start, hcontract stop⟩, fun h => ?_, fun n => ?_⟩
    · rw [trimmed, hsame start h.1, hsame stop h.2]
    · cases start <;> cases stop <;> simp [trimmed, Contains, Stamp.trimmed_value]

/-! ## Exact half-open ranges -/

theorem parseTamsTimerange_written {start stop : Int} (h : start < stop) :
    parseTamsTimerange (written start stop).timerange = .ok ⟨start, stop, stop - start⟩ := by
  rw [parseTamsTimerange, execHalfOpen, written, execRange_eq, execOpening_eq, execClosing_eq]
  simp [bind, Except.bind, stampOf_value, not_le.mpr h, pure, Except.pure]

/-- **Half-open timeranges are exact.**  A timerange that is no point, is not empty, and has
    bounds on both sides, each with its marker, is turned into the half-open range of the same
    nanoseconds, whose text the player reads back with these bounds; every other text gives
    `undefined`.  Leading zeros, which the contract forbids, are read as if they were not there.
    Reading undoes writing for all numbers of nanoseconds. -/
theorem half_open_timerange_exact :
    (∀ s, (∀ R : TamsRange, R.text ≠ s) → halfOpenTimerange s = .ok none) ∧
    (∀ R : TamsRange, ∃ meaning : TamsRange, meaning.Contract ∧ (R.Contract → meaning = R) ∧
      (∀ n, meaning.Contains n ↔ R.Contains n) ∧
      ∃ result, halfOpenTimerange R.text = .ok result ∧
      (result = none ↔ R.IsPoint ∨ (∀ n, ¬ R.Contains n) ∨ R.UnboundedStart ∨
        R.UnboundedEnd ∨ R.Unmarked) ∧
      ∀ range, result = some range →
        (∀ n, R.Contains n ↔ range.startNanoseconds ≤ n ∧ n < range.endNanoseconds) ∧
        parseTamsTimerange range.timerange = .ok ⟨range.startNanoseconds, range.endNanoseconds,
          range.endNanoseconds - range.startNanoseconds⟩) ∧
    ∀ n, nanosecondsFromTimestamp (timestampFromNanoseconds n) = some n := by
  refine ⟨fun s hs => ?_, fun R => ?_, fun n => ?_⟩
  · have hbounds : boundsFromTimerange s = none := by
      by_contra hsome
      obtain ⟨bounds, hbounds⟩ := Option.ne_none_iff_exists'.mp hsome
      obtain ⟨R, hR⟩ := exists_text hbounds
      exact hs R hR
    rw [halfOpenTimerange, hbounds]
  · obtain ⟨hcontract, hsame, hmeaning⟩ := R.trimmed_spec
    refine ⟨R.trimmed, hcontract, hsame, hmeaning, _, halfOpenTimerange_text R, ?_,
      fun range hrange => ?_⟩
    · rw [Option.map_eq_none_iff, TamsRange.halfOpen_none_iff]
    · obtain ⟨⟨start, stop⟩, hhalf, rfl⟩ := Option.map_eq_some_iff.mp hrange
      obtain ⟨hlt, hcontains⟩ := TamsRange.contains_of_halfOpen hhalf
      exact ⟨hcontains, parseTamsTimerange_written hlt⟩
  · rw [← stampOf_text, Stamp.nanoseconds, stampOf_value]

theorem unbounded_end_undefined :
    halfOpenTimerange ['(', '5', ':', '0', '_'] = .ok none ∧
      ∃ R : TamsRange, R.text = ['(', '5', ':', '0', '_'] ∧ R.Contract ∧ ¬ R.IsPoint ∧ (∃ n, R.Contains n) ∧
        ¬ R.UnboundedStart := by
  refine ⟨rfl, .range (some false) (some (stampOf 5000000000)) none none, by decide, ?_, ?_, ?_,
    ?_⟩
  · refine ⟨fun a ha => ?_, fun b hb => by cases hb⟩
    cases ha
    exact ⟨.inr (by decide), .inl (by decide)⟩
  · simp [TamsRange.IsPoint]
  · exact ⟨5000000001, by simp [TamsRange.Contains, stampOf_value]⟩
  · simp [TamsRange.UnboundedStart]

end Tamoss.Player
