/-
  **The master manifest of a preview, and the names of its audio renditions.**

  `compileHlsMasterManifest` of `player/hls-manifest.ts` lists the audio tracks as one group of
  renditions, one line each, with a number behind a label that was used before.  A player reads
  the lines back as attribute lists, in which a comma inside quotes does not separate.
-/
import Mathlib.Data.List.Nodup
import Mathlib.Logic.Function.Basic

namespace Tamoss.Player

/-- The characters of a JavaScript string. -/
abbrev Text := List Char

def isBreak (c : Char) : Bool := c = '\r' || c = '\n'

/-- The white space and line terminators that `trim` removes. -/
def isSpace (c : Char) : Bool :=
  c.val ∈ [0x9, 0xa, 0xb, 0xc, 0xd, 0x20, 0xa0, 0x1680, 0x2028, 0x2029, 0x202f, 0x205f, 0x3000,
    0xfeff] || 0x2000 ≤ c.val && c.val ≤ 0x200a

def quote : Char := Char.ofNat 34

/-- `replace(/[\r\n]+/gu, " ")`: a run of line breaks becomes one space. -/
def replaceBreaks (inBreak : Bool) : Text → Text
  | [] => []
  | c :: s =>
    if isBreak c then
      if inBreak then replaceBreaks true s else ' ' :: replaceBreaks true s
    else c :: replaceBreaks false s

def replaceQuotes (s : Text) : Text := s.map fun c => if c = quote then Char.ofNat 39 else c

def trim (s : Text) : Text := ((s.dropWhile isSpace).reverse.dropWhile isSpace).reverse

def manifestLabel (value : Text) : Text := trim (replaceQuotes (replaceBreaks false value))

/-- `value || fallback`: an absent or empty text is falsy. -/
def orElse (value : Option Text) (fallback : Text) : Text :=
  match value with
  | some (c :: s) => c :: s
  | _ => fallback

structure PreviewTrack where
  role : Option Text
  flowLabel : Option Text
  bitrate : Nat
  uri : Text

def trackLabel (track : PreviewTrack) (fallback : Text) : Text :=
  orElse (some (manifestLabel (orElse track.role (orElse track.flowLabel fallback)))) fallback

structure MasterTrack where
  bitrate : Nat
  label : Text
  uri : Text

structure MasterManifestInput where
  primary : Option MasterTrack
  audio : List MasterTrack

structure PlaybackPlanError where
  code : String
  message : String
deriving DecidableEq

def decimal (n : Nat) : Text := Nat.toDigits 10 n

/-- The occurrence, as it is appended to a label. -/
def suffix (occurrence : Nat) : Text := ' ' :: '(' :: (decimal occurrence ++ [')'])

/-- What one `EXT-X-MEDIA` line says of a track. -/
structure Rendition where
  name : Text
  isDefault : Bool
  uri : Text

def renditions (names : Text → Nat) (index : Nat) : List MasterTrack → List Rendition
  | [] => []
  | track :: audio =>
    let occurrence := names track.label + 1
    let name := if occurrence = 1 then track.label else track.label ++ suffix occurrence
    ⟨manifestLabel name, index == 0, track.uri⟩ ::
      renditions (Function.update names track.label occurrence) (index + 1) audio

/-- `#EXT-X-MEDIA:` -/
def mediaTag : Text := ['#', 'E', 'X', 'T', '-', 'X', '-', 'M', 'E', 'D', 'I', 'A', ':']

def mediaLine (r : Rendition) : Text :=
  mediaTag ++ ("TYPE=AUDIO,GROUP-ID=\"audio\",NAME=\"".toList ++ (r.name ++
    ("\",DEFAULT=".toList ++ ((if r.isDefault then "YES" else "NO").toList ++
      (",AUTOSELECT=YES,URI=\"".toList ++ (r.uri ++ "\"".toList))))))

/-- `#EXT-X-STREAM-INF:BANDWIDTH=` -/
def streamTag : Text :=
  ['#', 'E', 'X', 'T', '-', 'X', '-', 'S', 'T', 'R', 'E', 'A', 'M', '-', 'I', 'N', 'F', ':', 'B',
    'A', 'N', 'D', 'W', 'I', 'D', 'T', 'H', '=']

def streamLine (bitrate : Nat) (group : String) : Text :=
  streamTag ++ (decimal bitrate ++ group.toList)

def compileHlsMasterManifest (input : MasterManifestInput) : Except PlaybackPlanError Text :=
  let lines := ["#EXTM3U".toList, "#EXT-X-VERSION:3".toList]
  match input.primary with
  | none =>
    if input.audio.length = 0 then
      .error ⟨"no-playable-media", "No playable media tracks were found."⟩
    else
      .ok (['\n'].intercalate (lines ++
        (input.audio.flatMap fun track => [streamLine track.bitrate "", track.uri]) ++ [[]]))
  | some primary =>
    let peak := input.audio.foldl (fun maximum track => max maximum track.bitrate) 0
    .ok (['\n'].intercalate (lines ++ (renditions (fun _ => 0) 0 input.audio).map mediaLine ++
      [streamLine (primary.bitrate + peak)
        (if input.audio.length > 0 then ",AUDIO=\"audio\"" else ""), primary.uri] ++ [[]]))

/-- The audio tracks as `compilePlaybackPlan` hands them over, `index` of them before. -/
def masterTracks (index : Nat) : List PreviewTrack → List MasterTrack
  | [] => []
  | track :: tracks =>
    ⟨track.bitrate, trackLabel track ("Audio ".toList ++ decimal (index + 1)), track.uri⟩ ::
      masterTracks (index + 1) tracks

/-- A text that `manifestLabel` leaves alone. -/
structure Clean (s : Text) : Prop where
  breaks : ∀ c ∈ s, isBreak c = false
  quotes : quote ∉ s
  first : ∀ c ∈ s.head?, isSpace c = false
  last : ∀ c ∈ s.getLast?, isSpace c = false

theorem replaceBreaks_breaks (inBreak : Bool) (s : Text) :
    ∀ c ∈ replaceBreaks inBreak s, isBreak c = false := by
  induction s generalizing inBreak with
  | nil =>
    intro c hc
    cases hc
  | cons d s ih =>
    intro c hc
    unfold replaceBreaks at hc
    split at hc
    · split at hc
      · exact ih true c hc
      · rcases List.mem_cons.mp hc with rfl | hc
        · decide
        · exact ih true c hc
    · rename_i hd
      rcases List.mem_cons.mp hc with rfl | hc
      · simpa using hd
      · exact ih false c hc

theorem replaceBreaks_eq_self {s : Text} (h : ∀ c ∈ s, isBreak c = false) (inBreak : Bool) :
    replaceBreaks inBreak s = s := by
  induction s generalizing inBreak with
  | nil => rfl
  | cons c s ih =>
    rw [replaceBreaks, h c List.mem_cons_self, if_neg Bool.false_ne_true,
      ih fun d hd => h d (List.mem_cons_of_mem c hd)]

theorem mem_trim {c : Char} {s : Text} (h : c ∈ trim s) : c ∈ s := by
  unfold trim at h
  rw [List.mem_reverse] at h
  have h := (List.dropWhile_sublist isSpace).subset h
  rw [List.mem_reverse] at h
  exact (List.dropWhile_sublist isSpace).subset h

theorem head?_dropWhile {s : Text} {c : Char} (h : c ∈ (s.dropWhile isSpace).head?) :
    isSpace c = false := by
  have hnot := List.head?_dropWhile_not isSpace s
  rw [Option.mem_def.mp h] at hnot
  simpa using hnot

theorem trim_last {s : Text} {c : Char} (h : c ∈ (trim s).getLast?) : isSpace c = false := by
  unfold trim at h
  rw [List.getLast?_reverse] at h
  exact head?_dropWhile h

theorem trim_first {s : Text} {c : Char} (h : c ∈ (trim s).head?) : isSpace c = false := by
  -- what is cut off at the end leaves the first character, if any is left
  have hpre : (trim s).IsPrefix (s.dropWhile isSpace) := by
    unfold trim
    rw [← List.reverse_suffix, List.reverse_reverse]
    exact List.dropWhile_suffix isSpace
  obtain ⟨t, ht⟩ := hpre
  refine head?_dropWhile (s := s) ?_
  rw [← ht, List.head?_append, Option.mem_def.mp h]
  rfl

theorem trim_eq_self {s : Text} (hfirst : ∀ c ∈ s.head?, isSpace c = false)
    (hlast : ∀ c ∈ s.getLast?, isSpace c = false) : trim s = s := by
  have hdrop : ∀ t : Text, (∀ c ∈ t.head?, isSpace c = false) → t.dropWhile isSpace = t := by
    intro t ht
    cases t with
    | nil => rfl
    | cons c t => simp [List.dropWhile, ht c rfl]
  unfold trim
  rw [hdrop s hfirst, hdrop s.reverse, List.reverse_reverse]
  intro c hc
  rw [List.head?_reverse] at hc
  exact hlast c hc

theorem manifestLabel_clean (value : Text) : Clean (manifestLabel value) where
  breaks c hc := by
    obtain ⟨d, hd, hcd⟩ := List.mem_map.mp (mem_trim hc)
    have hbreak := replaceBreaks_breaks false value d hd
    split at hcd
    · rw [← hcd]
      decide
    · rw [← hcd]
      exact hbreak
  quotes hc := by
    obtain ⟨d, -, hcd⟩ := List.mem_map.mp (mem_trim hc)
    split at hcd
    · revert hcd
      decide
    · rename_i hd
      exact hd hcd
  first c hc := trim_first hc
  last c hc := trim_last hc

theorem Clean.manifestLabel {s : Text} (h : Clean s) : manifestLabel s = s := by
  have hquotes : replaceQuotes s = s := by
    unfold replaceQuotes
    rw [List.map_congr_left (g := id), List.map_id]
    intro c hc
    refine if_neg fun hq => ?_
    subst hq
    exact h.quotes hc
  rw [Player.manifestLabel, replaceBreaks_eq_self h.breaks, hquotes,
    trim_eq_self h.first h.last]

theorem decimal_digit {n : Nat} {c : Char} (hc : c ∈ decimal n) : c.isDigit = true :=
  Nat.isDigit_of_mem_toDigits (by decide) (by decide) hc

theorem digit_plain {c : Char} (h : c.isDigit = true) :
    isBreak c = false ∧ c ≠ quote ∧ isSpace c = false ∧ c ≠ '(' := by
  simp only [Char.isDigit, Bool.and_eq_true, decide_eq_true_eq] at h
  obtain ⟨hlow, hhigh⟩ := h
  refine ⟨?_, ?_, ?_, ?_⟩
  · simp only [isBreak, Bool.or_eq_false_iff, decide_eq_false_iff_not]
    constructor <;> rintro rfl <;> exact absurd hlow (by decide)
  · rintro rfl
    exact absurd hlow (by decide)
  · simp only [isSpace, Bool.or_eq_false_iff, decide_eq_false_iff_not, Bool.and_eq_false_iff]
    generalize c.val = v at hlow hhigh
    constructor
    · simp only [List.mem_cons, List.not_mem_nil, or_false, not_or]
      refine ⟨?_, ?_, ?_, ?_, ?_, ?_, ?_, ?_, ?_, ?_, ?_, ?_, ?_, ?_⟩ <;> rintro rfl <;>
        revert hlow hhigh <;> decide
    · left
      simp only [ge_iff_le, UInt32.le_iff_toNat_le] at hlow hhigh ⊢
      intro hle
      exact absurd (Nat.le_trans hle hhigh) (by decide)
  · rintro rfl
    exact absurd hlow (by decide)

theorem clean_append {s t : Text} (hs : s ≠ []) (ht : t ≠ [])
    (hbreaks : ∀ c ∈ s ++ t, isBreak c = false) (hquotes : quote ∉ s ++ t)
    (hfirst : ∀ c ∈ s.head?, isSpace c = false) (hlast : ∀ c ∈ t.getLast?, isSpace c = false) :
    Clean (s ++ t) where
  breaks := hbreaks
  quotes := hquotes
  first c hc := by
    rw [List.head?_append_of_ne_nil s hs] at hc
    exact hfirst c hc
  last c hc := by
    rw [List.getLast?_append_of_ne_nil s ht] at hc
    exact hlast c hc

theorem Clean.suffix {s : Text} (hs : Clean s) (hne : s ≠ []) (k : Nat) :
    Clean (s ++ suffix k) := by
  have hmem : ∀ c ∈ Player.suffix k, c ∈ decimal k ∨ c = ' ' ∨ c = '(' ∨ c = ')' := by
    intro c hc
    simp only [Player.suffix, List.mem_cons, List.mem_append, List.not_mem_nil, or_false] at hc
    tauto
  apply clean_append hne (List.cons_ne_nil _ _)
  · intro c hc
    rcases List.mem_append.mp hc with hc | hc
    · exact hs.breaks c hc
    · rcases hmem c hc with hc | rfl | rfl | rfl
      · exact (digit_plain (decimal_digit hc)).1
      all_goals decide
  · intro hq
    rcases List.mem_append.mp hq with hq | hq
    · exact hs.quotes hq
    · rcases hmem _ hq with hc | hc | hc | hc
      · exact (digit_plain (decimal_digit hc)).2.1 rfl
      all_goals revert hc; decide
  · exact hs.first
  · intro c hc
    change c ∈ ((' ' :: '(' :: decimal k) ++ [')']).getLast? at hc
    rw [List.getLast?_concat] at hc
    cases hc
    decide

theorem audio_clean (n : Nat) : Clean ("Audio ".toList ++ decimal n) := by
  have hletters : "Audio ".toList = ['A', 'u', 'd', 'i', 'o', ' '] := by decide
  rw [hletters]
  apply clean_append (by decide) Nat.toDigits_ne_nil
  · intro c hc
    rcases List.mem_append.mp hc with hc | hc
    · simp only [List.mem_cons, List.not_mem_nil, or_false] at hc
      rcases hc with rfl | rfl | rfl | rfl | rfl | rfl <;> decide
    · exact (digit_plain (decimal_digit hc)).1
  · intro hq
    rcases List.mem_append.mp hq with hq | hq
    · revert hq
      decide
    · exact (digit_plain (decimal_digit hq)).2.1 rfl
  · intro c hc
    cases hc
    decide
  · intro c hc
    exact (digit_plain (decimal_digit (List.mem_of_getLast? hc))).2.2.1

theorem trackLabel_clean (track : PreviewTrack) {fallback : Text} (h : Clean fallback)
    (hne : fallback ≠ []) : Clean (trackLabel track fallback) ∧ trackLabel track fallback ≠ [] := by
  have hclean := manifestLabel_clean (orElse track.role (orElse track.flowLabel fallback))
  unfold trackLabel
  revert hclean
  generalize manifestLabel (orElse track.role (orElse track.flowLabel fallback)) = label
  intro hclean
  cases label with
  | nil => exact ⟨h, hne⟩
  | cons c s => exact ⟨hclean, List.cons_ne_nil c s⟩

theorem masterTracks_clean (index : Nat) (tracks : List PreviewTrack) :
    ∀ label ∈ (masterTracks index tracks).map (·.label), Clean label ∧ label ≠ [] := by
  induction tracks generalizing index with
  | nil =>
    intro label h
    cases h
  | cons track tracks ih =>
    intro label h
    rcases List.mem_cons.mp h with rfl | h
    · exact trackLabel_clean track (audio_clean (index + 1)) (List.cons_ne_nil _ _)
    · exact ih (index + 1) label h

theorem masterTracks_uris (index : Nat) (tracks : List PreviewTrack) :
    (masterTracks index tracks).map (·.uri) = tracks.map (·.uri) := by
  induction tracks generalizing index with
  | nil => rfl
  | cons track tracks ih => exact congrArg (track.uri :: ·) (ih (index + 1))

theorem append_cons_inj {α : Type} {a : α} {x x' y y' : List α} (hx : a ∉ x) (hx' : a ∉ x')
    (h : x ++ a :: y = x' ++ a :: y') : x = x' ∧ y = y' := by
  induction x generalizing x' with
  | nil =>
    cases x' with
    | nil => exact ⟨rfl, (List.cons.inj h).2⟩
    | cons b x' => exact absurd ((List.cons.inj h).1 ▸ List.mem_cons_self) hx'
  | cons b x ih =>
    cases x' with
    | nil => exact absurd ((List.cons.inj h).1.symm ▸ List.mem_cons_self) hx
    | cons b' x' =>
      obtain ⟨rfl, htail⟩ := List.cons.inj h
      obtain ⟨rfl, rfl⟩ := ih (fun hm => hx (List.mem_cons_of_mem b hm))
        (fun hm => hx' (List.mem_cons_of_mem b hm)) htail
      exact ⟨rfl, rfl⟩

theorem append_suffix_inj {b b' : Text} {k k' : Nat} (h : b ++ suffix k = b' ++ suffix k') :
    b = b' ∧ k = k' := by
  have hrev : ∀ (b : Text) (k : Nat), (b ++ suffix k).reverse =
      (')' :: (decimal k).reverse) ++ '(' :: ' ' :: b.reverse := by
    intro b k
    simp [suffix]
  have hopen : ∀ k, '(' ∉ ')' :: (decimal k).reverse := by
    intro k hm
    rcases List.mem_cons.mp hm with hm | hm
    · revert hm
      decide
    · exact (digit_plain (decimal_digit (List.mem_reverse.mp hm))).2.2.2 rfl
  have hsplit := congrArg List.reverse h
  rw [hrev, hrev] at hsplit
  obtain ⟨hdigits, hlabel⟩ := append_cons_inj (hopen k) (hopen k') hsplit
  have hk : decimal k = decimal k' := List.reverse_injective (List.cons.inj hdigits).2
  refine ⟨List.reverse_injective (List.cons.inj hlabel).2, ?_⟩
  rw [← Nat.ofDigitChars_ten_toDigits (n := k), ← Nat.ofDigitChars_ten_toDigits (n := k')]
  exact congrArg (Nat.ofDigitChars 10 · 0) hk

/-- The name of the `k`-th track with the label. -/
def nameOf (p : Text × Nat) : Text := if p.2 = 1 then p.1 else p.1 ++ suffix p.2

def occurrences (names : Text → Nat) : List Text → List (Text × Nat)
  | [] => []
  | label :: labels =>
    (label, names label + 1) ::
      occurrences (Function.update names label (names label + 1)) labels

theorem mem_occurrences {names : Text → Nat} {labels : List Text} {p : Text × Nat} :
    p ∈ occurrences names labels ↔ names p.1 < p.2 ∧ p.2 ≤ names p.1 + labels.count p.1 := by
  induction labels generalizing names with
  | nil =>
    simp only [occurrences, List.not_mem_nil, List.count_nil, false_iff]
    omega
  | cons label labels ih =>
    obtain ⟨b, k⟩ := p
    simp only [occurrences, List.mem_cons, ih, Prod.mk.injEq]
    by_cases hb : b = label
    · subst hb
      simp only [Function.update_self, List.count_cons_self, true_and]
      omega
    · rw [Function.update_of_ne hb, List.count_cons_of_ne (Ne.symm hb)]
      simp [hb]

theorem occurrences_nodup (names : Text → Nat) (labels : List Text) :
    (occurrences names labels).Nodup := by
  induction labels generalizing names with
  | nil => exact List.nodup_nil
  | cons label labels ih =>
    refine List.nodup_cons.mpr ⟨fun hm => ?_, ih _⟩
    have hlt := (mem_occurrences.mp hm).1
    simp at hlt

theorem renditions_names {audio : List MasterTrack}
    (h : ∀ label ∈ audio.map (·.label), Clean label ∧ label ≠ []) (names : Text → Nat)
    (index : Nat) : (renditions names index audio).map (·.name) =
      (occurrences names (audio.map (·.label))).map nameOf := by
  induction audio generalizing names index with
  | nil => rfl
  | cons track audio ih =>
    obtain ⟨hclean, hne⟩ := h track.label List.mem_cons_self
    have hname : Clean (nameOf (track.label, names track.label + 1)) := by
      unfold nameOf
      split
      · exact hclean
      · exact hclean.suffix hne _
    have htail := ih (fun label hl => h label (List.mem_cons_of_mem _ hl))
      (Function.update names track.label (names track.label + 1)) (index + 1)
    simp only [renditions, List.map_cons, occurrences, htail]
    exact congrArg (· :: _) hname.manifestLabel

theorem renditions_default (names : Text → Nat) (index : Nat) (audio : List MasterTrack) :
    (renditions names (index + 1) audio).filter (·.isDefault) = [] := by
  induction audio generalizing names index with
  | nil => rfl
  | cons track audio ih => simpa [renditions] using ih _ (index + 1)

/-! ## The manifest as a player reads it -/

def renditionLines (manifest : Text) : List Text :=
  (manifest.splitOn '\n').filter (mediaTag.isPrefixOf ·)

/-- The attributes of a line: commas separate them, unless they stand in a quoted text. -/
def attributes (quoted : Bool) (read : Text) : Text → List Text
  | [] => [read]
  | c :: s =>
    if c = quote then attributes (!quoted) (read ++ [c]) s
    else if c = ',' ∧ quoted = false then read :: attributes false [] s
    else attributes quoted (read ++ [c]) s

def attributeOf (key : String) (line : Text) : Option Text :=
  ((attributes false [] (line.drop mediaTag.length)).find? (key.toList.isPrefixOf ·)).map
    (·.drop key.toList.length)

theorem attributes_quoted {t : Text} (h : quote ∉ t) (read s : Text) :
    attributes true read (t ++ s) = attributes true (read ++ t) s := by
  induction t generalizing read with
  | nil => simp
  | cons c t ih =>
    have hc : c ≠ quote := fun heq => h (heq ▸ List.mem_cons_self)
    rw [List.cons_append, attributes, if_neg hc, if_neg (by simp),
      ih fun hm => h (List.mem_cons_of_mem c hm), List.append_assoc]
    rfl

theorem attributes_mediaLine (r : Rendition) (h : quote ∉ r.name) : ∃ rest,
    attributes false [] ((mediaLine r).drop mediaTag.length) =
      "TYPE=AUDIO".toList :: "GROUP-ID=\"audio\"".toList ::
        ("NAME=".toList ++ (quote :: (r.name ++ [quote]))) ::
        ("DEFAULT=".toList ++ (if r.isDefault then "YES" else "NO").toList) :: rest := by
  have hstart : ∀ s, attributes false [] ("TYPE=AUDIO,GROUP-ID=\"audio\",NAME=\"".toList ++ s) =
      "TYPE=AUDIO".toList :: "GROUP-ID=\"audio\"".toList ::
        attributes true ("NAME=".toList ++ [quote]) s := by
    intro s
    simp [attributes, quote]
  have hstop : ∀ read s, attributes true read ("\",DEFAULT=".toList ++
      ((if r.isDefault then "YES" else "NO").toList ++ (",AUTOSELECT=YES,URI=\"".toList ++ s))) =
      (read ++ [quote]) :: ("DEFAULT=".toList ++ (if r.isDefault then "YES" else "NO").toList) ::
        attributes false [] ("AUTOSELECT=YES,URI=\"".toList ++ s) := by
    intro read s
    cases r.isDefault <;> simp [attributes, quote]
  rw [mediaLine, List.drop_left, hstart, attributes_quoted h, hstop]
  simp only [List.append_assoc, List.cons_append, List.nil_append]
  exact ⟨_, rfl⟩

theorem attributeOf_name {r : Rendition} (h : quote ∉ r.name) :
    attributeOf "NAME=" (mediaLine r) = some (quote :: (r.name ++ [quote])) := by
  obtain ⟨rest, hattributes⟩ := attributes_mediaLine r h
  have hfind : "NAME=".toList.isPrefixOf ("NAME=".toList ++ (quote :: (r.name ++ [quote]))) = true :=
    List.isPrefixOf_iff_prefix.mpr (List.prefix_append _ _)
  rw [attributeOf, hattributes, List.find?_cons_of_neg, List.find?_cons_of_neg,
    List.find?_cons_of_pos hfind, Option.map_some, List.drop_left]
  · decide
  · decide

theorem attributeOf_default {r : Rendition} (h : quote ∉ r.name) :
    attributeOf "DEFAULT=" (mediaLine r) = some (if r.isDefault then "YES" else "NO").toList := by
  obtain ⟨rest, hattributes⟩ := attributes_mediaLine r h
  have hfind : "DEFAULT=".toList.isPrefixOf
      ("DEFAULT=".toList ++ (if r.isDefault then "YES" else "NO").toList) = true :=
    List.isPrefixOf_iff_prefix.mpr (List.prefix_append _ _)
  have hname : ¬ "DEFAULT=".toList.isPrefixOf ("NAME=".toList ++ (quote :: (r.name ++ [quote]))) :=
    Bool.false_ne_true
  rw [attributeOf, hattributes, List.find?_cons_of_neg, List.find?_cons_of_neg,
    List.find?_cons_of_neg hname, List.find?_cons_of_pos hfind, Option.map_some, List.drop_left]
  · decide
  · decide

/-- A URI stands on a line of its own, and is no tag. -/
structure UriLine (uri : Text) : Prop where
  single : '\n' ∉ uri
  noTag : uri.head? ≠ some '#'

theorem newline_not_mem {s : Text} (h : Clean s) : '\n' ∉ s :=
  fun hm => absurd (h.breaks _ hm) (by decide)

theorem renditions_clean (names : Text → Nat) (index : Nat) (audio : List MasterTrack) :
    ∀ r ∈ renditions names index audio, Clean r.name ∧ r.uri ∈ audio.map (·.uri) := by
  induction audio generalizing names index with
  | nil =>
    intro r hr
    cases hr
  | cons track audio ih =>
    intro r hr
    rcases List.mem_cons.mp hr with rfl | hr
    · exact ⟨manifestLabel_clean _, List.mem_cons_self⟩
    · obtain ⟨hclean, huri⟩ := ih _ _ r hr
      exact ⟨hclean, List.mem_cons_of_mem _ huri⟩

theorem mediaLine_single {r : Rendition} (hname : Clean r.name) (huri : '\n' ∉ r.uri) :
    '\n' ∉ mediaLine r := by
  have hname' := newline_not_mem hname
  cases hdefault : r.isDefault <;> simp [mediaLine, mediaTag, hname', huri, hdefault]

theorem streamLine_single {bitrate : Nat} {group : String} (h : '\n' ∉ group.toList) :
    '\n' ∉ streamLine bitrate group := by
  have hdigits : '\n' ∉ decimal bitrate :=
    fun hm => absurd (digit_plain (decimal_digit hm)).1 (by decide)
  simp [streamLine, streamTag, hdigits, h]

theorem mediaTag_streamLine (bitrate : Nat) (group : String) :
    mediaTag.isPrefixOf (streamLine bitrate group) = false :=
  rfl

theorem mediaTag_uri {uri : Text} (h : UriLine uri) : mediaTag.isPrefixOf uri = false := by
  have hnoTag := h.noTag
  cases uri with
  | nil => rfl
  | cons c uri =>
    have hc : '#' ≠ c := fun heq => hnoTag (by rw [← heq]; rfl)
    rw [mediaTag, List.isPrefixOf, beq_eq_false_iff_ne.mpr hc, Bool.false_and]

/-- With a primary track, the renditions that a player finds are those of the audio tracks. -/
theorem renditionLines_compile {primary : MasterTrack} {audio : List MasterTrack}
    (hprimary : UriLine primary.uri) (haudio : ∀ uri ∈ audio.map (·.uri), UriLine uri) :
    ∃ manifest, compileHlsMasterManifest ⟨some primary, audio⟩ = .ok manifest ∧
      renditionLines manifest = (renditions (fun _ => 0) 0 audio).map mediaLine := by
  refine ⟨_, rfl, ?_⟩
  have hgroup : '\n' ∉ (if audio.length > 0 then ",AUDIO=\"audio\"" else "").toList := by
    split <;> simp
  have hmedia := renditions_clean (fun _ => 0) 0 audio
  rw [renditionLines, List.splitOn_intercalate]
  · have hall : ((renditions (fun _ => 0) 0 audio).map mediaLine).filter (mediaTag.isPrefixOf ·) =
        (renditions (fun _ => 0) 0 audio).map mediaLine := by
      rw [List.filter_eq_self]
      intro line hline
      obtain ⟨r, -, rfl⟩ := List.mem_map.mp hline
      exact List.isPrefixOf_iff_prefix.mpr (List.prefix_append _ _)
    have hfirst : mediaTag.isPrefixOf "#EXTM3U".toList = false := by decide
    have hversion : mediaTag.isPrefixOf "#EXT-X-VERSION:3".toList = false := by decide
    have hend : mediaTag.isPrefixOf [] = false := rfl
    simp only [List.filter_append, hall, List.filter_cons, List.filter_nil, hfirst, hversion, hend,
      mediaTag_streamLine, mediaTag_uri hprimary, Bool.false_eq_true, if_false, List.nil_append,
      List.append_nil]
  · intro line hline
    simp only [List.mem_append, List.mem_cons, List.mem_map, List.not_mem_nil, or_false] at hline
    rcases hline with (((rfl | rfl) | ⟨r, hr, rfl⟩) | (rfl | rfl)) | rfl
    · simp
    · simp
    · exact mediaLine_single (hmedia r hr).1 (haudio _ (hmedia r hr).2).single
    · exact streamLine_single hgroup
    · exact hprimary.single
    · exact List.not_mem_nil
  · simp

theorem nodup_names_iff {rs : List Rendition} (h : ∀ r ∈ rs, quote ∉ r.name) :
    ((rs.map mediaLine).map (attributeOf "NAME=")).Nodup ↔ (rs.map (·.name)).Nodup := by
  have hnames : (rs.map mediaLine).map (attributeOf "NAME=") =
      (rs.map (·.name)).map fun name => some (quote :: (name ++ [quote])) := by
    rw [List.map_map, List.map_map]
    exact List.map_congr_left fun r hr => attributeOf_name (h r hr)
  rw [hnames, List.nodup_map_iff]
  intro a b hab
  exact List.append_cancel_right (List.cons.inj (Option.some.inj hab)).2

theorem filter_defaults {rs : List Rendition} (h : ∀ r ∈ rs, quote ∉ r.name) :
    ((rs.map mediaLine).filter (attributeOf "DEFAULT=" · = some "YES".toList)).length =
      (rs.filter (·.isDefault)).length := by
  rw [List.filter_map, List.length_map]
  congr 1
  apply List.filter_congr
  intro r hr
  rw [Function.comp_apply, attributeOf_default (h r hr)]
  cases r.isDefault <;> decide

/-- The names that the renditions are given are distinct exactly if no track is labelled like a
    numbered occurrence of another label. -/
theorem names_nodup_iff (tracks : List PreviewTrack) :
    ((renditions (fun _ => 0) 0 (masterTracks 0 tracks)).map (·.name)).Nodup ↔
    ∀ (label : Text) (k : Nat), 2 ≤ k →
      k ≤ ((masterTracks 0 tracks).map (·.label)).count label →
      label ++ suffix k ∉ (masterTracks 0 tracks).map (·.label) := by
  rw [renditions_names (masterTracks_clean 0 tracks),
    List.nodup_map_iff_inj_on (occurrences_nodup _ _)]
  simp only [mem_occurrences, Nat.zero_add]
  generalize (masterTracks 0 tracks).map (·.label) = labels
  constructor
  · intro hinj label k hk hcount hmem
    have heq := hinj (label ++ suffix k, 1) ⟨Nat.one_pos, List.one_le_count_iff.mpr hmem⟩
      (label, k) ⟨by omega, hcount⟩ (by simp [nameOf, show k ≠ 1 by omega])
    have hone := congrArg Prod.snd heq
    simp only at hone
    omega
  · intro hlabels
    -- a name with a number and one without can only meet at a label of that text
    have hmixed : ∀ b k b', k ≤ labels.count b → k ≠ 1 → 0 < k → 1 ≤ labels.count b' →
        b ++ suffix k ≠ b' := by
      rintro b k b' hk hne hpos hb' rfl
      exact hlabels b k (by omega) hk (List.one_le_count_iff.mp hb')
    rintro ⟨b, k⟩ ⟨hk, hcount⟩ ⟨b', k'⟩ ⟨hk', hcount'⟩ heq
    simp only [nameOf] at heq
    split at heq <;> split at heq
    · rename_i h1 h2
      simp_all
    · rename_i h1 h2
      subst h1
      exact absurd heq.symm (hmixed b' k' b hcount' h2 hk' hcount)
    · rename_i h1 h2
      subst h2
      exact absurd heq (hmixed b k b' hcount h1 hk hcount')
    · obtain ⟨rfl, rfl⟩ := append_suffix_inj heq
      rfl

theorem renditions_one_default {audio : List MasterTrack} (h : audio ≠ []) :
    ((renditions (fun _ => 0) 0 audio).filter (·.isDefault)).length = 1 := by
  cases audio with
  | nil => exact absurd rfl h
  | cons track audio => simp [renditions, renditions_default]

/-- **The names of the audio renditions are distinct, and one of them is the default, exactly
    if no track is labelled like a numbered occurrence of another label.**  The names and the
    default are those that a player reads from the manifest of a preview with a primary track. -/
theorem rendition_names_distinct_iff (primary : MasterTrack) (tracks : List PreviewTrack)
    (hprimary : UriLine primary.uri) (huris : ∀ track ∈ tracks, UriLine track.uri) :
    ∃ manifest, compileHlsMasterManifest ⟨some primary, masterTracks 0 tracks⟩ = .ok manifest ∧
      ((((renditionLines manifest).map (attributeOf "NAME=")).Nodup ∧
        (tracks ≠ [] → ((renditionLines manifest).filter
          (attributeOf "DEFAULT=" · = some "YES".toList)).length = 1)) ↔
      ∀ (label : Text) (k : Nat), 2 ≤ k →
        k ≤ ((masterTracks 0 tracks).map (·.label)).count label →
        label ++ suffix k ∉ (masterTracks 0 tracks).map (·.label)) := by
  have haudio : ∀ uri ∈ (masterTracks 0 tracks).map (·.uri), UriLine uri := by
    rw [masterTracks_uris]
    intro uri huri
    obtain ⟨track, htrack, rfl⟩ := List.mem_map.mp huri
    exact huris track htrack
  obtain ⟨manifest, hcompile, hlines⟩ := renditionLines_compile hprimary haudio
  have hquotes : ∀ r ∈ renditions (fun _ => 0) 0 (masterTracks 0 tracks), quote ∉ r.name :=
    fun r hr => (renditions_clean _ _ _ r hr).1.quotes
  refine ⟨manifest, hcompile, ?_⟩
  rw [hlines, nodup_names_iff hquotes, filter_defaults hquotes, names_nodup_iff]
  refine and_iff_left fun hne => renditions_one_default fun hnil => hne ?_
  cases tracks with
  | nil => rfl
  | cons track tracks => cases hnil

def previewUri : Text := "blob:preview".toList

theorem previewUri_line : UriLine previewUri := ⟨by decide, by decide⟩

def labelled (labels : List String) : List PreviewTrack :=
  labels.map fun label => ⟨none, some label.toList, 64000, previewUri⟩

theorem labelled_uris (labels : List String) : ∀ track ∈ labelled labels, UriLine track.uri := by
  intro track htrack
  obtain ⟨label, -, rfl⟩ := List.mem_map.mp htrack
  exact previewUri_line

def video : MasterTrack := ⟨2000000, "Video".toList, previewUri⟩

theorem rendition_names_distinct_two : ∃ manifest,
    compileHlsMasterManifest ⟨some video, masterTracks 0 (labelled ["A", "A"])⟩ = .ok manifest ∧
      ((renditionLines manifest).map (attributeOf "NAME=")).Nodup ∧
      (((masterTracks 0 (labelled ["A", "A"])).map (·.label)) = ["A".toList, "A".toList]) := by
  obtain ⟨manifest, hcompile, hiff⟩ := rendition_names_distinct_iff video (labelled ["A", "A"])
    previewUri_line (labelled_uris _)
  have hlabels : (masterTracks 0 (labelled ["A", "A"])).map (·.label) = ["A".toList, "A".toList] := by
    decide
  refine ⟨manifest, hcompile, (hiff.mpr ?_).1, hlabels⟩
  intro label k hk hcount hmem
  rw [hlabels] at hmem
  have hlength : (label ++ suffix k).length = 1 := by
    simp only [List.mem_cons, List.not_mem_nil, or_false, or_self] at hmem
    rw [hmem]
    rfl
  simp [suffix] at hlength
  omega

/-- Three tracks labelled `A`, `A` and `A (2)`: the second and the third have one name. -/
theorem rendition_names_collide : ∃ manifest,
    compileHlsMasterManifest ⟨some video, masterTracks 0 (labelled ["A", "A", "A (2)"])⟩ =
        .ok manifest ∧
      (renditionLines manifest).map (attributeOf "NAME=") =
        ["\"A\"", "\"A (2)\"", "\"A (2)\""].map fun name => some name.toList :=
  ⟨_, rfl, by decide⟩

end Tamoss.Player
