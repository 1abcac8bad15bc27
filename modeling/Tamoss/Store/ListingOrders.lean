/-
  **The listing orders agree.**

  A listing by time is ordered in three places: `ListingWindow.follows` compares the texts of
  UTC timestamps, `sorted_listing` of `domain/listings.py` sorts twice by Python's stable
  sort, and the statement of `query_filters.py` has an `ORDER BY` and a cursor predicate.
-/
import Tamoss.Lib.StableSort
import Tamoss.Store.Listing

namespace Tamoss

open Lib

def ListingWindow.follows (codec : PageCodec) (window : ListingWindow) (value : Option SortValue)
    (identity : Nat) : Bool :=
  match window.anchorId with
  | none => true
  | some anchorId =>
      let tie := if window.descending then decide (identity < anchorId)
        else decide (anchorId < identity)
      match listingValue codec value, window.anchorValue with
      | none, some _ => !window.missingFirst
      | some _, none => window.missingFirst
      | none, none => tie
      | some comparable, some anchor =>
          if comparable = anchor then tie
          else if window.descending then textLt comparable.toList anchor.toList
          else textLt anchor.toList comparable.toList

def sortedListing {ρ ν : Type} (lt : ν → ν → Bool) (value : ρ → Option ν) (identity : ρ → String)
    (descending missingFirst : Bool) (items : List ρ) : List ρ :=
  let textBefore (a b : String) := textLt a.toList b.toList
  let present := items.filterMap fun item => (value item).map fun v => (item, v)
  let missing := items.filter fun item => (value item).isNone
  let present := sortBy textBefore (fun pair => identity pair.1) descending present
  let present := sortBy lt (fun pair => pair.2) descending present
  let missing := sortBy textBefore identity descending missing
  let populated := present.map fun pair => pair.1
  if missingFirst then missing ++ populated else populated ++ missing

def SortsAfter {ρ : Type} (sort : List ρ → List ρ) (anchor record : ρ) : Prop :=
  ∀ items, anchor ∈ items → record ∈ items →
    [anchor, record].Sublist (sort items) ∧ ¬ [record, anchor].Sublist (sort items)

section Order

variable (codec : PageCodec) {ρ : Type} (value : ρ → Option Datetime)
  (identity : ρ → UUID) (descending missingFirst : Bool)

def timeValue (record : ρ) : Option SortValue :=
  (value record).map fun d => .instant d.instant

def timeRow (record : ρ) : Option SortValue × Nat :=
  (timeValue value record, (identity record).int)

def ListedLe (a b : ρ) : Prop :=
  listingLe codec descending missingFirst (timeRow value identity a) (timeRow value identity b) =
    true

def ListedLt (a b : ρ) : Prop :=
  ListedLe codec value identity descending missingFirst a b ∧
    ¬ ListedLe codec value identity descending missingFirst b a

def sortedByTime : List ρ → List ρ :=
  sortedListing (fun a b => decide (a.instant < b.instant)) value
    (fun record => (identity record).str) descending missingFirst

def before (descending : Bool) (x y : Nat) : Prop :=
  if descending then y < x else x < y

variable {codec value identity descending missingFirst}

theorem before_asymm {x y : Nat} (h : before descending x y) : ¬ before descending y x := by
  unfold before at *
  cases descending <;> simp at * <;> omega

variable {a b : ρ}

theorem listedLe_iff : ListedLe codec value identity descending missingFirst a b ↔
      match value a, value b with
      | none, none => ¬ before descending (identity b).int (identity a).int
      | none, some _ => missingFirst = true
      | some _, none => missingFirst = false
      | some x, some y => before descending x.instant y.instant ∨
          ¬ before descending y.instant x.instant ∧ ¬ before descending (identity b).int (identity a).int := by
  unfold ListedLe timeRow timeValue listingLe before
  cases value a <;> cases value b <;> cases descending <;>
    simp [SortValue.lt]

theorem listedLt_iff : ListedLt codec value identity descending missingFirst a b ↔
      match value a, value b with
      | none, none => before descending (identity a).int (identity b).int
      | none, some _ => missingFirst = true
      | some _, none => missingFirst = false
      | some x, some y => before descending x.instant y.instant ∨
          x.instant = y.instant ∧ before descending (identity a).int (identity b).int := by
  unfold ListedLt
  rw [listedLe_iff, listedLe_iff]
  unfold before
  cases value a <;> cases value b <;> cases missingFirst <;> cases descending <;> simp <;> omega

theorem ListedLt.irrefl (a : ρ) : ¬ ListedLt codec value identity descending missingFirst a a :=
  fun h => h.2 h.1

theorem listedLe_of_not_lt (h : ¬ ListedLt codec value identity descending missingFirst a b) :
    ListedLe codec value identity descending missingFirst b a := by
  rw [listedLt_iff] at h
  rw [listedLe_iff]
  revert h
  unfold before
  cases value a <;> cases value b <;> cases missingFirst <;> cases descending <;> simp <;> omega

variable (htexts : codec.Texts)

include htexts

theorem isoformat_eq_iff (x y : Datetime) :
    codec.isoformat x.instant = codec.isoformat y.instant ↔ x.instant = y.instant := by
  constructor
  · intro h
    rw [htexts.isoformat, htexts.isoformat] at h
    have hback := congrArg codec.fromisoformat h
    rw [htexts.fromisoformat, htexts.fromisoformat] at hback
    simpa using hback
  · intro h
    rw [h]

theorem textLt_isoformat_iff (x y : Datetime) :
    textLt (codec.isoformat x.instant).toList (codec.isoformat y.instant).toList = true ↔
      x.instant < y.instant := by
  rw [htexts.isoformat, htexts.isoformat, String.toList_ofList, String.toList_ofList,
    Datetime.textLt_isoformat]

variable {window : ListingWindow} {anchor : ρ}

theorem follows_iff (hid : window.anchorId = some (identity anchor).int)
    (hvalue : window.anchorValue = listingValue codec (timeValue value anchor)) (record : ρ) :
    window.follows codec (timeValue value record) (identity record).int = true ↔
      ListedLt codec value identity window.descending window.missingFirst anchor record := by
  have heq := isoformat_eq_iff htexts
  have hlt := textLt_isoformat_iff htexts
  rw [listedLt_iff]
  simp only [ListingWindow.follows, hid, hvalue, timeValue]
  cases value anchor with
  | none =>
    cases value record with
    | none =>
      unfold before
      cases window.descending <;> simp [listingValue]
    | some y => simp [listingValue]
  | some x =>
    cases value record with
    | none => simp [listingValue]
    | some y =>
      simp only [Option.map_some, listingValue, heq]
      unfold before
      by_cases hsame : y.instant = x.instant
      · cases window.descending <;> simp [hsame]
      · have hsame' : ¬ x.instant = y.instant := fun h => hsame h.symm
        cases window.descending <;> simp [hsame, hsame', hlt]

omit htexts

theorem textBefore_compares : Compares (fun a b : UUID => textLt a.str.toList b.str.toList)
    UUID.int :=
  fun a b => a.textLt_str b

theorem instant_compares :
    Compares (fun a b : Datetime => decide (a.instant < b.instant)) Datetime.instant :=
  fun a b => by simp

theorem inOrder_instant (x y : Datetime) :
    inOrder (fun a b : Datetime => decide (a.instant < b.instant)) descending x y = true ↔
      ¬ before descending y.instant x.instant := by
  rw [instant_compares.inOrder_iff]
  unfold before
  cases descending <;> simp

theorem inOrder_uuid (x y : UUID) :
    inOrder (fun a b : UUID => textLt a.str.toList b.str.toList) descending x y = true ↔
      ¬ before descending y.int x.int := by
  rw [textBefore_compares.inOrder_iff]
  unfold before
  cases descending <;> simp

def presentPairs (value : ρ → Option Datetime) (items : List ρ) : List (ρ × Datetime) :=
  items.filterMap fun item => (value item).map fun v => (item, v)

variable {items : List ρ} {pair : ρ × Datetime}

theorem mem_presentPairs (h : pair ∈ presentPairs value items) : value pair.1 = some pair.2 := by
  obtain ⟨item, -, hpair⟩ := List.mem_filterMap.mp h
  obtain ⟨v, hv, rfl⟩ := Option.map_eq_some_iff.mp hpair
  exact hv

theorem presentPairs_map_fst (items : List ρ) :
    (presentPairs value items).map Prod.fst = items.filter fun item => (value item).isSome := by
  induction items with
  | nil => rfl
  | cons item items ih =>
    rw [presentPairs, List.filterMap_cons, List.filter_cons]
    cases value item with
    | none => exact ih
    | some v => exact congrArg (item :: ·) ih

def populated (value : ρ → Option Datetime) (identity : ρ → UUID) (descending : Bool)
    (items : List ρ) : List (ρ × Datetime) :=
  sortBy (fun a b : Datetime => decide (a.instant < b.instant)) Prod.snd descending
    (sortBy (fun a b : UUID => textLt a.str.toList b.str.toList) (fun pair => identity pair.1)
      descending (presentPairs value items))

def unpopulated (value : ρ → Option Datetime) (identity : ρ → UUID) (descending : Bool)
    (items : List ρ) : List ρ :=
  sortBy (fun a b : UUID => textLt a.str.toList b.str.toList) identity descending
    (items.filter fun item => (value item).isNone)

theorem sortedByTime_eq (items : List ρ) :
    sortedByTime value identity descending missingFirst items =
      if missingFirst then unpopulated value identity descending items ++
        (populated value identity descending items).map Prod.fst
      else (populated value identity descending items).map Prod.fst ++
        unpopulated value identity descending items :=
  rfl

theorem populated_perm (items : List ρ) :
    (populated value identity descending items).Perm (presentPairs value items) :=
  (sortBy_perm _ _ _ _).trans (sortBy_perm _ _ _ _)

theorem value_of_mem_populated
    (h : pair ∈ populated value identity descending items) : value pair.1 = some pair.2 :=
  mem_presentPairs ((populated_perm items).mem_iff.mp h)

theorem value_of_mem_unpopulated {item : ρ}
    (h : item ∈ unpopulated value identity descending items) : value item = none := by
  have hmem := (sortBy_perm _ _ _ _).mem_iff.mp h
  simpa using (List.mem_filter.mp hmem).2

theorem sortedByTime_perm (items : List ρ) :
    (sortedByTime value identity descending missingFirst items).Perm items := by
  have hmissing : (unpopulated value identity descending items).Perm
      (items.filter fun item => (value item).isNone) := sortBy_perm _ _ _ _
  have hpresent : ((populated value identity descending items).map Prod.fst).Perm
      (items.filter fun item => !(value item).isNone) := by
    have hsome : (fun item => !(value item).isNone) = fun item => (value item).isSome := by
      funext item
      simp
    rw [hsome, ← presentPairs_map_fst]
    exact (populated_perm items).map Prod.fst
  have hboth := (hmissing.append hpresent).trans
    (List.filter_append_perm (fun item => (value item).isNone) items)
  rw [sortedByTime_eq]
  split
  · exact hboth
  · exact List.perm_append_comm.trans hboth

theorem populated_sorted (items : List ρ) :
    ((populated value identity descending items).map Prod.fst).Pairwise
      (ListedLe codec value identity descending missingFirst) := by
  have hids := sortBy_sorted textBefore_compares (fun pair : ρ × Datetime => identity pair.1)
    descending (presentPairs value items)
  have hsorted := sortBy_refined instant_compares (Prod.snd : ρ × Datetime → Datetime) descending
    hids
  rw [List.pairwise_map, populated]
  apply hsorted.imp_of_mem
  rintro ⟨a, x⟩ ⟨b, y⟩ ha hb ⟨hinstant, hid⟩
  have hx : value a = some x := value_of_mem_populated ha
  have hy : value b = some y := value_of_mem_populated hb
  rw [listedLe_iff]
  simp only [hx, hy]
  by_cases hbefore : before descending x.instant y.instant
  · exact .inl hbefore
  · have htie := hid ((inOrder_instant y x).mpr hbefore)
    exact .inr ⟨(inOrder_instant x y).mp hinstant, (inOrder_uuid (identity a) (identity b)).mp htie⟩

theorem unpopulated_sorted (items : List ρ) : (unpopulated value identity descending items).Pairwise
      (ListedLe codec value identity descending missingFirst) := by
  have hsorted : (unpopulated value identity descending items).Pairwise _ :=
    sortBy_sorted textBefore_compares identity descending _
  apply hsorted.imp_of_mem
  intro a b ha hb hid
  rw [listedLe_iff]
  simp only [value_of_mem_unpopulated ha, value_of_mem_unpopulated hb]
  exact (inOrder_uuid (identity a) (identity b)).mp hid

theorem sortedByTime_sorted (items : List ρ) :
    (sortedByTime value identity descending missingFirst items).Pairwise
      (ListedLe codec value identity descending missingFirst) := by
  rw [sortedByTime_eq]
  cases missingFirst with
  | true =>
    apply List.pairwise_append.mpr
    refine ⟨unpopulated_sorted items, populated_sorted items, ?_⟩
    intro a ha b hb
    obtain ⟨⟨b, y⟩, hy, rfl⟩ := List.mem_map.mp hb
    rw [listedLe_iff]
    simp [value_of_mem_unpopulated ha, value_of_mem_populated hy]
  | false =>
    apply List.pairwise_append.mpr
    refine ⟨populated_sorted items, unpopulated_sorted items, ?_⟩
    intro a ha b hb
    obtain ⟨⟨a, x⟩, hx, rfl⟩ := List.mem_map.mp ha
    rw [listedLe_iff]
    simp [value_of_mem_unpopulated hb, value_of_mem_populated hx]

theorem sortedByTime_pair (h : ListedLe codec value identity descending missingFirst a b) :
    sortedByTime value identity descending missingFirst [a, b] = [a, b] := by
  rw [listedLe_iff] at h
  rw [sortedByTime_eq, unpopulated, populated, presentPairs]
  cases ha : value a with
  | none =>
    cases hb : value b with
    | none =>
      simp only [ha, hb] at h
      simp [ha, hb, sortBy_pair, inOrder_uuid, h]
      simp [sortBy]
    | some y =>
      simp only [ha, hb] at h
      simp [ha, hb, h, sortBy]
  | some x =>
    cases hb : value b with
    | none =>
      simp only [ha, hb] at h
      simp [ha, hb, h, sortBy]
    | some y =>
      simp only [ha, hb] at h
      have hinstant : ¬ before descending y.instant x.instant := by
        rcases h with hbefore | ⟨hbefore, -⟩
        · exact before_asymm hbefore
        · exact hbefore
      have hsorted : sortBy (fun a b : Datetime => decide (a.instant < b.instant)) Prod.snd
          descending (sortBy (fun a b : UUID => textLt a.str.toList b.str.toList)
            (fun pair : ρ × Datetime => identity pair.1) descending [(a, x), (b, y)]) =
          [(a, x), (b, y)] := by
        rw [sortBy_pair _ (fun pair : ρ × Datetime => identity pair.1)]
        split
        · rw [sortBy_pair, if_pos ((inOrder_instant x y).mpr hinstant)]
        · -- the ids are the other way round, so the instants are strictly in order
          rename_i hids
          have hbefore := h.resolve_right fun htie =>
            hids ((inOrder_uuid (identity a) (identity b)).mpr htie.2)
          rw [sortBy_pair, if_neg]
          intro hother
          exact (inOrder_instant y x).mp hother hbefore
      simp [ha, hb, hsorted]
      simp [sortBy]

theorem sortsAfter_iff {anchor record : ρ} :
    SortsAfter (sortedByTime value identity descending missingFirst) anchor record ↔
      ListedLt codec value identity descending missingFirst anchor record := by
  constructor
  · intro h
    by_contra hnot
    have hpair := sortedByTime_pair (listedLe_of_not_lt hnot)
    apply (h [record, anchor] (by simp) (by simp)).2
    rw [hpair]
  · intro hlt items hanchor hrecord
    have hsorted : (sortedByTime value identity descending missingFirst items).Pairwise
        (ListedLe codec value identity descending missingFirst) := sortedByTime_sorted items
    have hnot : ¬ [record, anchor].Sublist
        (sortedByTime value identity descending missingFirst items) := by
      intro hsublist
      have hle := hsorted.sublist hsublist
      simp only [List.pairwise_cons, List.mem_singleton, forall_eq] at hle
      exact hlt.2 hle.1
    refine ⟨?_, hnot⟩
    have hperm : (sortedByTime value identity descending missingFirst items).Perm items :=
      sortedByTime_perm items
    have hmem' := hperm.mem_iff.mpr hrecord
    obtain ⟨s, t, hsplit⟩ := List.append_of_mem (hperm.mem_iff.mpr hanchor)
    rw [hsplit] at hmem' hnot ⊢
    rcases List.mem_append.mp hmem' with hs | ht
    · exact absurd ((List.singleton_sublist.mpr hs).append
        (List.singleton_sublist.mpr List.mem_cons_self)) hnot
    · rcases List.mem_cons.mp ht with rfl | ht
      · exact absurd hlt (ListedLt.irrefl record)
      · exact (List.cons_sublist_cons.mpr (List.singleton_sublist.mpr ht)).trans
          (List.sublist_append_right s _)

theorem cursor_selects (htexts : codec.Texts) (hid : window.anchorId = some (identity anchor).int)
    (hvalue : window.anchorValue = listingValue codec (timeValue value anchor))
    (hoffset : window.offsetPaging = false) (rows : List ρ) :
    ∃ selected, applyListingCursor codec rows window true (timeRow value identity) =
        .ok (selected, window) ∧
      ∀ record ∈ rows, record ∈ selected ↔
        ListedLt codec value identity window.descending window.missingFirst anchor record ∧
          (value anchor = none ∨ value record ≠ none) := by
  refine ⟨rows.filter fun record => cursorPredicate codec window true (identity anchor).int
    (timeValue value anchor) (timeRow value identity record), ?_, ?_⟩
  · cases hanchor : value anchor with
    | none =>
      simp [applyListingCursor, hid, hvalue, hoffset, timeValue, hanchor, listingValue, bind,
        Except.bind, pure, Except.pure]
    | some x =>
      simp [applyListingCursor, hid, hvalue, hoffset, timeValue, hanchor, listingValue, cursorValue,
        htexts.isoformat, htexts.fromisoformat, bind, Except.bind, pure, Except.pure, Except.map]
  · intro record hrecord
    rw [List.mem_filter, listedLt_iff]
    unfold before cursorPredicate timeRow timeValue
    cases value anchor with
    | none =>
      cases value record with
      | none => cases window.descending <;> simp [hrecord]
      | some y => simp [hrecord]
    | some x =>
      cases value record with
      | none => simp
      | some y =>
        have hsame : y.instant = x.instant ↔ x.instant = y.instant := eq_comm
        cases window.descending with
        | false => simp [hrecord, SortValue.lt, hsame]
        | true => simp [hrecord, SortValue.lt, hsame]

end Order

/-- **The listing orders agree.**  For every anchor and record, with timestamps or without, and
    for every direction: `follows` holds exactly if the record comes strictly after the anchor
    in the order of `sorted_listing`, and exactly if it does so in the order of `ORDER BY`.  The
    cursor predicate selects exactly these records, unless the anchor has a timestamp and the
    record has none, when it does not select it. -/
theorem listing_orders_agree (codec : PageCodec) (htexts : codec.Texts) {ρ : Type}
    (value : ρ → Option Datetime) (identity : ρ → UUID) (window : ListingWindow)
    (hoffset : window.offsetPaging = false) (anchor record : ρ)
    (hid : window.anchorId = some (identity anchor).int)
    (hvalue : window.anchorValue = listingValue codec (timeValue value anchor)) :
    (window.follows codec (timeValue value record) (identity record).int = true ↔
      SortsAfter (sortedByTime value identity window.descending window.missingFirst) anchor
        record) ∧
    (window.follows codec (timeValue value record) (identity record).int = true ↔
      ListedLt codec value identity window.descending window.missingFirst anchor record) ∧
    ∀ rows, record ∈ rows → ∃ selected,
      applyListingCursor codec rows window true (timeRow value identity) =
          .ok (selected, window) ∧
        (record ∈ selected ↔
          window.follows codec (timeValue value record) (identity record).int = true ∧
            (value anchor = none ∨ value record ≠ none)) := by
  have hfollows := follows_iff htexts hid hvalue record
  refine ⟨?_, hfollows, ?_⟩
  · rw [hfollows, sortsAfter_iff]
  · intro rows hrecord
    obtain ⟨selected, hcursor, hselected⟩ := cursor_selects htexts hid hvalue hoffset rows
    refine ⟨selected, hcursor, ?_⟩
    rw [hselected record hrecord, hfollows]

def isoCodec : PageCodec where
  isoformat instant := String.ofList (Datetime.textAt instant)
  fromisoformat text := some (some (Datetime.readInstant text.toList), true)
  collates a b := a < b

theorem isoCodec_texts : isoCodec.Texts where
  isoformat d := congrArg String.ofList d.textAt_instant
  fromisoformat d := by
    simp only [isoCodec, String.toList_ofList, d.readInstant_isoformat]

def halfSecondLater : Datetime :=
  { newYear with microsecond := 500000, microsecond_lt := by decide }

def sampleTime : Fin 3 → Option Datetime
  | 0 => some newYear
  | 1 => some halfSecondLater
  | 2 => none

def sampleId (record : Fin 3) : UUID :=
  ⟨record.val, record.isLt.trans (by decide)⟩

def sampleWindow (descending missingFirst : Bool) : ListingWindow where
  context := "flows:created:1"
  limit := 100
  offset := 0
  descending := descending
  missingFirst := missingFirst
  anchorId := some 0
  anchorValue := listingValue isoCodec (timeValue sampleTime 0)
  offsetPaging := false

theorem listing_orders_agree_fraction :
    (sampleWindow false true).follows isoCodec (timeValue sampleTime 1) 1 = true ∧
      SortsAfter (sortedByTime sampleTime sampleId false true) 0 1 := by
  have hagree := listing_orders_agree isoCodec isoCodec_texts sampleTime sampleId
    (sampleWindow false true) rfl 0 1 rfl rfl
  have hlt : ListedLt isoCodec sampleTime sampleId false true 0 1 := by
    rw [listedLt_iff]
    exact .inl (show newYear.instant < halfSecondLater.instant by decide)
  exact ⟨hagree.2.1.mpr hlt, hagree.1.mp (hagree.2.1.mpr hlt)⟩

/-- Behind a record with a timestamp, with the others last, `follows` lets a record without one
    pass and the cursor predicate does not. -/
theorem cursor_skips_missing_timestamp :
    (sampleWindow true false).follows isoCodec (timeValue sampleTime 2) 2 = true ∧
      SortsAfter (sortedByTime sampleTime sampleId true false) 0 2 ∧
      ∃ selected, applyListingCursor isoCodec [2] (sampleWindow true false) true
        (timeRow sampleTime sampleId) = .ok (selected, sampleWindow true false) ∧
          2 ∉ selected := by
  have hlt : ListedLt isoCodec sampleTime sampleId true false 0 2 := by
    rw [listedLt_iff]
    rfl
  have hid : (sampleWindow true false).anchorId = some (sampleId 0).int := rfl
  have hvalue : (sampleWindow true false).anchorValue =
      listingValue isoCodec (timeValue sampleTime 0) := rfl
  refine ⟨?_, ?_, ?_⟩
  · exact (follows_iff isoCodec_texts hid hvalue 2).mpr hlt
  · exact sortsAfter_iff.mpr hlt
  · obtain ⟨selected, hcursor, hselected⟩ := cursor_selects isoCodec_texts hid hvalue rfl [2]
    refine ⟨selected, hcursor, fun hmem => ?_⟩
    have hpresent := ((hselected 2 (by simp)).mp hmem).2
    simp [sampleTime] at hpresent

end Tamoss
