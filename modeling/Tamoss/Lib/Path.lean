/-
  **Slash-separated paths.**

  `clean` and `join` are the lexical path functions of Go's package `path`, on lists of
  characters.
-/
import Mathlib.Data.List.Infix

namespace Lib.Path

abbrev Segment := List Char

/-- The segments with slashes between them. -/
def joined (segments : List Segment) : List Char := ['/'].intercalate segments

/-- The segments between the slashes. -/
def segments (path : List Char) : List Segment := path.splitOn '/'

def pushSegment (rooted : Bool) (stack : List Segment) (segment : Segment) : List Segment :=
  if segment = [] ∨ segment = ['.'] then stack
  else if segment = ['.', '.'] then
    match stack with
    | [] => if rooted then [] else [['.', '.']]
    | top :: rest => if top = ['.', '.'] then ['.', '.'] :: top :: rest else rest
  else segment :: stack

def clean (path : List Char) : List Char :=
  let rooted := path.head? = some '/'
  let body := joined ((segments path).foldl (pushSegment rooted) []).reverse
  if rooted then '/' :: body else if body = [] then ['.'] else body

def join (elements : List (List Char)) : List Char :=
  let nonempty := elements.filter (· ≠ [])
  if nonempty = [] then [] else clean (joined nonempty)

def below (directory : List Segment) : List Char := directory.flatMap (· ++ ['/'])

/-- A segment that names something: it is not empty, has no slash and is no dot segment. -/
structure Plain (segment : Segment) : Prop where
  nonempty : segment ≠ []
  slash : '/' ∉ segment
  dot : segment ≠ ['.']
  dotdot : segment ≠ ['.', '.']

@[simp] theorem joined_singleton (segment : Segment) : joined [segment] = segment := by
  simp [joined, List.intercalate]

@[simp] theorem joined_cons_cons (a b : Segment) (rest : List Segment) :
    joined (a :: b :: rest) = a ++ '/' :: joined (b :: rest) := by
  simp [joined, List.intercalate]

theorem joined_append {front back : List Segment} (hf : front ≠ []) (hb : back ≠ []) :
    joined (front ++ back) = joined front ++ '/' :: joined back := by
  obtain ⟨c, back, rfl⟩ := List.exists_cons_of_ne_nil hb
  induction front with
  | nil => exact absurd rfl hf
  | cons a front ih =>
    cases front with
    | nil => simp
    | cons b front =>
      have hrest := ih (List.cons_ne_nil b front)
      simp only [List.cons_append] at hrest ⊢
      rw [joined_cons_cons, hrest, joined_cons_cons, List.append_assoc, List.cons_append]

theorem joined_joined_cons {front : List Segment} (hf : front ≠ []) (a : Segment)
    (rest : List Segment) : joined (joined front :: a :: rest) = joined (front ++ a :: rest) := by
  rw [joined_cons_cons, joined_append hf (List.cons_ne_nil a rest)]

theorem slash_not_mem {path : List Char} {segment : Segment} (h : segment ∈ segments path) :
    '/' ∉ segment := by
  unfold segments at h
  induction path generalizing segment with
  | nil =>
    rw [List.splitOn_nil, List.mem_singleton] at h
    simp [h]
  | cons c path ih =>
    simp only [List.splitOn] at h ih
    rw [List.splitOnP_cons_eq_if_modifyHead] at h
    split at h
    · rcases List.mem_cons.mp h with rfl | h
      · simp
      · exact ih h
    · rename_i hc
      obtain ⟨first, rest, hsplit⟩ :=
        List.exists_cons_of_ne_nil (List.splitOnP_ne_nil (· == '/') path)
      rw [hsplit, List.modifyHead_cons] at h
      rw [hsplit] at ih
      rcases List.mem_cons.mp h with rfl | h
      · intro hmem
        rcases List.mem_cons.mp hmem with rfl | hmem
        · exact hc (beq_self_eq_true _)
        · exact ih List.mem_cons_self hmem
      · exact ih (List.mem_cons_of_mem first h)

theorem joined_segments (path : List Char) : joined (segments path) = path :=
  List.intercalate_splitOn '/'

variable {directory : List Segment}

theorem segments_joined (hne : directory ≠ [])
    (h : ∀ s ∈ directory, '/' ∉ s) : segments (joined directory) = directory :=
  List.splitOn_intercalate '/' h hne

theorem segments_ne_nil (path : List Char) : segments path ≠ [] :=
  List.splitOnP_ne_nil _ path

theorem foldl_pushSegment (h : ∀ s ∈ directory, Plain s) (rooted : Bool) (stack : List Segment) :
    directory.foldl (pushSegment rooted) stack = directory.reverse ++ stack := by
  induction directory generalizing stack with
  | nil => rfl
  | cons s directory ih =>
    have hs := h s List.mem_cons_self
    have hpush : pushSegment rooted stack s = s :: stack := by
      simp [pushSegment, hs.nonempty, hs.dot, hs.dotdot]
    rw [List.foldl_cons, hpush, ih fun t ht => h t (List.mem_cons_of_mem s ht)]
    simp

theorem joined_ne_nil (hne : directory ≠ [])
    (h : ∀ s ∈ directory, Plain s) : joined directory ≠ [] := by
  obtain ⟨a, rest, rfl⟩ := List.exists_cons_of_ne_nil hne
  have ha := (h a List.mem_cons_self).nonempty
  cases rest with
  | nil => simpa using ha
  | cons b rest => simp [ha]

theorem head_joined (h : ∀ s ∈ directory, Plain s) : (joined directory).head? ≠ some '/' := by
  cases directory with
  | nil => simp [joined, List.intercalate]
  | cons a rest =>
    have ha := h a List.mem_cons_self
    obtain ⟨c, a', rfl⟩ := List.exists_cons_of_ne_nil ha.nonempty
    have hc : c ≠ '/' := fun he => ha.slash (he ▸ List.mem_cons_self)
    cases rest with
    | nil => simpa using hc
    | cons b rest => simpa using hc

theorem clean_joined (hne : directory ≠ [])
    (h : ∀ s ∈ directory, Plain s) : clean (joined directory) = joined directory := by
  have hslash : ∀ s ∈ directory, '/' ∉ s := fun s hs => (h s hs).slash
  have hstack : ((segments (joined directory)).foldl (pushSegment false) []).reverse
      = directory := by
    rw [segments_joined hne hslash, foldl_pushSegment h, List.append_nil, List.reverse_reverse]
  have hrooted : decide ((joined directory).head? = some '/') = false :=
    decide_eq_false (head_joined h)
  simp only [clean, hrooted, hstack]
  rw [if_neg (head_joined h), if_neg (joined_ne_nil hne h)]

theorem join_plain {directory rest : List Segment} (hne : directory ≠ [])
    (h : ∀ s ∈ directory, Plain s) (hrest : ∀ s ∈ rest, Plain s) :
    join (joined directory :: rest) = joined (directory ++ rest) := by
  have hall : ∀ s ∈ directory ++ rest, Plain s := fun s hs =>
    (List.mem_append.mp hs).elim (h s) (hrest s)
  have hfilter : (joined directory :: rest).filter (· ≠ []) = joined directory :: rest := by
    refine List.filter_eq_self.mpr fun s hs => ?_
    rcases List.mem_cons.mp hs with rfl | hs
    · simpa using joined_ne_nil hne h
    · simpa using (hrest s hs).nonempty
  have hjoined : joined (joined directory :: rest) = joined (directory ++ rest) := by
    cases rest with
    | nil => simp
    | cons a rest => exact joined_joined_cons hne a rest
  simp only [join, hfilter]
  rw [if_neg (List.cons_ne_nil _ _), hjoined]
  exact clean_joined (by simp [hne]) hall

theorem below_eq (hne : directory ≠ []) : below directory = joined directory ++ ['/'] := by
  induction directory with
  | nil => exact absurd rfl hne
  | cons a rest ih =>
    cases rest with
    | nil => simp [below]
    | cons b rest =>
      have hrest := ih (List.cons_ne_nil b rest)
      rw [joined_cons_cons, List.append_assoc, List.cons_append, ← hrest]
      simp [below]

variable {a b : Segment}

theorem slash_segment_iff {x y : List Char} (ha : '/' ∉ a) (hb : '/' ∉ b) :
    a ++ '/' :: x <+: b ++ '/' :: y ↔ a = b ∧ x <+: y := by
  induction a generalizing b with
  | nil =>
    cases b with
    | nil => simp [List.cons_prefix_cons]
    | cons d b =>
      have hd : '/' ≠ d := fun he => hb (he ▸ List.mem_cons_self)
      simp [List.cons_prefix_cons, hd]
  | cons c a ih =>
    have ha' : '/' ∉ a := fun h => ha (List.mem_cons_of_mem c h)
    cases b with
    | nil =>
      have hc : c ≠ '/' := fun he => ha (he ▸ List.mem_cons_self)
      simp [List.cons_prefix_cons, hc]
    | cons d b =>
      have hb' : '/' ∉ b := fun h => hb (List.mem_cons_of_mem d h)
      rw [List.cons_append, List.cons_append, List.cons_prefix_cons, ih ha' hb',
        List.cons.injEq, and_assoc]

variable {as bs : List Segment}

/-- **Containment of directories.** As key prefixes, one directory contains another
    exactly when its segments are an initial part of the other's. -/
theorem below_contains (ha : ∀ s ∈ as, '/' ∉ s)
    (hb : ∀ s ∈ bs, '/' ∉ s) : below as <+: below bs ↔ as <+: bs := by
  induction as generalizing bs with
  | nil => simp [below]
  | cons a as ih =>
    cases bs with
    | nil => simp [below]
    | cons b bs =>
      have hstep := slash_segment_iff (x := below as) (y := below bs)
        (ha a List.mem_cons_self) (hb b List.mem_cons_self)
      have hrest := ih (fun s hs => ha s (List.mem_cons_of_mem a hs))
        (fun s hs => hb s (List.mem_cons_of_mem b hs))
      rw [List.cons_prefix_cons, ← hrest, ← hstep]
      simp [below]

theorem entry_contains : as ++ [a] <+: bs ++ [b] ↔ (as = bs ∧ a = b) ∨ as ++ [a] <+: bs := by
  rw [List.prefix_concat_iff]
  constructor
  · rintro (h | h)
    · exact .inl (List.append_inj' h rfl |>.imp id fun hs => by simpa using hs)
    · exact .inr h
  · rintro (⟨rfl, rfl⟩ | h)
    · exact .inl rfl
    · exact .inr h

end Lib.Path
