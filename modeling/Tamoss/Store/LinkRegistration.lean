/-
  **Registration keeps segments linked.**
-/
import Tamoss.Store.LinkProtocol

namespace Tamoss

open Lib (bind_eq_ok)
open Lib.Machine

variable {mt : MediaTimestamp} {exact : Prop}

structure SameLinks (a b : MediaObjectRecord) : Prop where
  id : b.id = a.id
  refs : b.referencedByFlows = a.referencedByFlows
  kind : b.objectKind = a.objectKind
  init : b.initObjectId = a.initObjectId
  timerange : b.timerange = a.timerange

theorem SameLinks.refl (a : MediaObjectRecord) : SameLinks a a := ⟨rfl, rfl, rfl, rfl, rfl⟩

theorem SameLinks.trans {a b c : MediaObjectRecord} (h : SameLinks a b) (h' : SameLinks b c) :
    SameLinks a c :=
  ⟨h'.id.trans h.id, h'.refs.trans h.refs, h'.kind.trans h.kind, h'.init.trans h.init,
    h'.timerange.trans h.timerange⟩

variable {checks : UploadChecks} {rd : Readings} {f : FlowId}

theorem ensureFirstUse_same
    {o o' : MediaObjectRecord} (h : ensureFirstUse checks rd f o = .ok o') : SameLinks o o' := by
  obtain ⟨n, rfl⟩ := ensureFirstUse_ok h
  exact ⟨rfl, rfl, rfl, rfl, rfl⟩

variable {objects : ObjectsById}

variable {post : SegmentPost}

theorem loadMediaObject_cases {m : MediaObjectRecord} {existing : Bool}
    (h : loadMediaObject checks rd f objects post = .ok (m, existing)) :
    (objects.get post.objectId = none ∧ m = .new post.objectId rd.now ∧ existing = false) ∨
    ∃ o, objects.get post.objectId = some o ∧ SameLinks o m ∧ o.objectKind ≠ .init ∧
      existing = !o.referencedByFlows.isEmpty := by
  unfold loadMediaObject at h
  split at h
  · rename_i hnone
    split at h <;> cases h
    exact .inl ⟨hnone, rfl, rfl⟩
  · rename_i o hsome
    dsimp only at h
    split at h
    · cases h
    · rename_i hkind
      obtain ⟨o', hfirst, h⟩ := bind_eq_ok h
      have hm : o' = m ∧ (!o.referencedByFlows.isEmpty) = existing := by
        split at h
        · split at h
          · cases h
          · split at h <;> cases h
            exact ⟨rfl, rfl⟩
        · cases h
          exact ⟨rfl, rfl⟩
      obtain ⟨rfl, rfl⟩ := hm
      exact .inr ⟨o, hsome, ensureFirstUse_same hfirst, hkind, rfl⟩

theorem matchContentType_same {flow : FlowRecord} {m m' : MediaObjectRecord}
    (h : matchContentType flow m = .ok m') : SameLinks m m' := by
  unfold matchContentType at h
  split at h
  · cases h
    exact ⟨rfl, rfl, rfl, rfl, rfl⟩
  · split at h <;> cases h
    exact .refl m

theorem resolveInitObject_cases {flow : FlowRecord}
    {locked : List ObjectId} {m m' : MediaObjectRecord} {existing : Bool}
    {init : Option MediaObjectRecord}
    (h : resolveInitObject checks rd flow objects locked post m existing = .ok (m', init)) :
    (m' = m ∧ init = none ∧ m.initObjectId = none) ∨
    ∃ resolved o x, m' = { m with initObjectId := some resolved } ∧ init = some x ∧
      objects.get resolved = some o ∧ SameLinks o x ∧
      (o.objectKind ≠ .media ∧ o.timerange = none) ∧
      (existing = true ∨ m.initObjectId ≠ none → m.initObjectId = some resolved) ∧
      (post.initObjectId = some resolved ∨ m.initObjectId = some resolved) := by
  unfold resolveInitObject at h
  split at h
  · split at h
    · cases h
    · rename_i resolved hresolved
      have hfrom : post.initObjectId = some resolved ∨ m.initObjectId = some resolved := by
        unfold pyOr at hresolved
        split at hresolved
        · exact .inr hresolved
        · exact .inl hresolved
      split at h
      · cases h
      · rename_i hsame
        split at h
        · cases h
        · split at h
          · cases h
          · rename_i o hget
            split at h
            · cases h
            · rename_i hkind
              obtain ⟨x, hfirst, h⟩ := bind_eq_ok h
              cases h
              refine .inr ⟨resolved, o, x, rfl, rfl, hget, ensureFirstUse_same hfirst,
                ⟨fun hk => hkind (.inl hk), ?_⟩, fun hset => ?_, hfrom⟩
              · by_contra hne
                exact hkind (.inr (Option.isSome_iff_ne_none.mpr hne))
              by_contra hne
              refine hsame ?_
              rcases hset with hex | hset
              · simp [hex, hne]
              · simp [Option.isSome_iff_ne_none.mpr hset, hne]
  · split at h
    · cases h
    · rename_i hnone
      cases h
      refine .inl ⟨rfl, rfl, ?_⟩
      simp only [Bool.or_eq_true, not_or, Option.isSome_iff_ne_none, ne_eq, not_not] at hnone
      exact hnone.2

theorem registeredMedia_cases {effective : String} {existing : Bool} {m u : MediaObjectRecord}
    (h : registeredMedia mt f post effective existing m = .ok u) : u.objectKind = .media ∧
      ((existing = true ∧ u.timerange = m.timerange) ∨
        existing = false ∧
          timerangeUnionStrings mt [m.timerange, some effective] = .ok u.timerange) := by
  unfold registeredMedia at h
  dsimp only at h
  split at h
  · rename_i hex
    obtain ⟨is, rfl⟩ := appendGetUrls_ok h
    exact ⟨rfl, .inl ⟨hex, referencedBy_timerange f .media m⟩⟩
  · rename_i hex
    obtain ⟨timerange, hunion, h⟩ := bind_eq_ok h
    obtain ⟨is, rfl⟩ := appendGetUrls_ok h
    rw [referencedBy_timerange] at hunion
    exact ⟨rfl, .inr ⟨by simpa using hex, hunion⟩⟩

variable (mt exact) in
def ReadOk (objects : ObjectsById) : Prop :=
  ∀ o m, objects.get o = some m → ObjectOk mt m ∧ ObjectLink exact m

structure MediaRead (objects : ObjectsById) (o : ObjectId) (m : MediaObjectRecord)
    (existing : Bool) : Prop where
  fresh : objects.get o = none → existing = false ∧ m.timerange = none
  stored : ∀ a, objects.get o = some a → SameLinks a m ∧ a.objectKind ≠ .init ∧
    (existing = true ↔ a.referencedByFlows ≠ [])

namespace MediaRead

variable {o : ObjectId} {m : MediaObjectRecord} {existing : Bool}

theorem of_load {checks : UploadChecks} {rd : Readings} {flow : FlowRecord}
    {post : SegmentPost} {m' : MediaObjectRecord}
    (hload : loadMediaObject checks rd flow.id objects post = .ok (m, existing))
    (hcontent : matchContentType flow m = .ok m') :
    MediaRead objects post.objectId m' existing := by
  have hsame := matchContentType_same hcontent
  rcases loadMediaObject_cases hload with ⟨hnone, rfl, hex⟩ | ⟨a, ha, hsame', hkind, hex⟩
  · refine ⟨fun _ => ⟨hex, hsame.timerange⟩, fun a ha => ?_⟩
    rw [hnone] at ha
    cases ha
  · constructor
    · intro hnone
      rw [hnone] at ha
      cases ha
    · intro b hb
      obtain rfl := Option.some.inj (ha.symm.trans hb)
      exact ⟨hsame'.trans hsame, hkind, by simp [hex]⟩

theorem bare (h : MediaRead objects o m existing) (hread : ReadOk mt exact objects)
    (hex : existing = false) : m.timerange = none := by
  cases ha : objects.get o with
  | none => exact (h.fresh ha).2
  | some a =>
    obtain ⟨hsame, -, hiff⟩ := h.stored a ha
    rw [hsame.timerange]
    refine (hread o a ha).2.bare ?_
    by_contra hne
    rw [hiff.mpr hne] at hex
    cases hex

theorem timed (h : MediaRead objects o m existing) (hread : ReadOk mt exact objects)
    (hexact : exact) (hex : existing = true) : m.timerange ≠ none := by
  cases ha : objects.get o with
  | none =>
    rw [(h.fresh ha).1] at hex
    cases hex
  | some a =>
    obtain ⟨hsame, hkind, hiff⟩ := h.stored a ha
    rw [hsame.timerange]
    exact (hread o a ha).2.timed hexact (hiff.mp hex) hkind

end MediaRead

structure InitRead (objects : ObjectsById) (o : ObjectId) (m m' : MediaObjectRecord)
    (existing : Bool) (init : Option MediaObjectRecord) : Prop where
  timerange : m'.timerange = m.timerange
  keeps : existing = true → m'.initObjectId = m.initObjectId
  segment : init.map (·.id) = m'.initObjectId
  other : ∀ x, init = some x → x.id ≠ o ∧ ∃ a, objects.get x.id = some a ∧ SameLinks a x ∧
    a.objectKind ≠ .media ∧ a.timerange = none

variable {post : SegmentPost} {init : Option MediaObjectRecord} {checks : UploadChecks}
variable {rd : Readings}

theorem InitRead.of_resolve (hread : ReadOk mt exact objects)
    {flow : FlowRecord} {locked : List ObjectId} {m m' : MediaObjectRecord} {existing : Bool}
    (hown : post.initObjectId ≠ some post.objectId)
    (hmedia : MediaRead objects post.objectId m existing)
    (h : resolveInitObject checks rd flow objects locked post m existing = .ok (m', init)) :
    InitRead objects post.objectId m m' existing init := by
  rcases resolveInitObject_cases h with ⟨rfl, rfl, hnone⟩ |
    ⟨resolved, a, x, rfl, rfl, ha, hsame, hkind, hset, hfrom⟩
  · exact ⟨rfl, fun _ => rfl, hnone.symm, fun x hx => by cases hx⟩
  · have hxid : x.id = resolved := hsame.id.trans (Lib.Table.get_eq_some.mp ha).2
    refine ⟨rfl, fun hex => (hset (.inl hex)).symm, by simp [hxid], fun y hy => ?_⟩
    obtain rfl := Option.some.inj hy
    refine ⟨fun hsameId => ?_, a, hxid ▸ ha, hsame, hkind⟩
    rw [hxid] at hsameId
    subst hsameId
    rcases hfrom with hfrom | hfrom
    · exact hown hfrom
    · -- an object that is its own init object would be a media object
      refine hkind.1 ((hread _ a ha).2.kind ?_)
      rw [← (hmedia.stored a ha).1.init, hfrom]
      exact Option.some_ne_none _

variable (mt exact) in
/-- The object `u` replaces what is stored under its id without cutting a tie. -/
structure Relinked (objects : ObjectsById) (u : MediaObjectRecord) : Prop where
  kept : ∀ a, objects.get u.id = some a → ∀ s, Ties mt exact s u.id a → Ties mt exact s u.id u
  keeps : ∀ a, objects.get u.id = some a → a.referencedByFlows ≠ [] → Keeps exact a u
  link : ObjectLink exact u

theorem relinked_init (hread : ReadOk mt exact objects) {a x : MediaObjectRecord}
    (ha : objects.get x.id = some a) (hsame : SameLinks a x) (hkind : a.objectKind ≠ .media)
    (htime : a.timerange = none) (f : FlowId) :
    Relinked mt exact objects { (referencedBy f .init x) with timerange := none } := by
  have hxid : ({ (referencedBy f .init x) with
      timerange := none } : MediaObjectRecord).id = x.id := referencedBy_id f .init x
  constructor
  · intro b hb s hs
    rw [hxid] at hb hs ⊢
    obtain rfl := Option.some.inj (ha.symm.trans hb)
    refine ⟨?_, fun hso => absurd (hs.media hso).1 hkind, fun _ => ⟨rfl, rfl⟩⟩
    refine (mem_referencedBy f .init x).mpr (.inl ?_)
    rw [hsame.refs]
    exact hs.listed
  · intro b hb _
    rw [hxid] at hb
    obtain rfl := Option.some.inj (ha.symm.trans hb)
    exact ⟨List.ne_nil_of_mem ((mem_referencedBy f .init x).mpr (.inr rfl)),
      (referencedBy_initObjectId f .init x).trans hsame.init, fun _ => htime.symm⟩
  · refine ⟨fun _ => rfl, fun hset => ?_, fun _ => rfl, fun _ _ hne => absurd rfl hne⟩
    refine absurd ((hread _ a ha).2.kind ?_) hkind
    rw [← hsame.init, ← referencedBy_initObjectId f .init x]
    exact hset

variable {f : FlowId}

theorem relinked_media {o : ObjectId} {m m' u : MediaObjectRecord} {existing : Bool}
    (hmedia : MediaRead objects o m existing)
    (hinit : InitRead objects o m m' existing init) (hid : u.id = o)
    (hkind : u.objectKind = .media) (huinit : u.initObjectId = m'.initObjectId)
    (htime : existing = true → u.timerange = m'.timerange) (htimed : exact → u.timerange ≠ none)
    (hrefs : ∀ g, g ∈ u.referencedByFlows ↔ g ∈ refsOf (objects.get o) ∨ g = f) :
    Relinked mt exact objects u := by
  subst hid
  constructor
  · intro a ha s hs
    obtain ⟨hsame, hne, hiff⟩ := hmedia.stored a ha
    have hex : existing = true := hiff.mpr (List.ne_nil_of_mem hs.listed)
    have hlisted : s.flowId ∈ u.referencedByFlows := by
      rw [hrefs, ha]
      exact .inl hs.listed
    refine ⟨hlisted, fun hso => ?_, fun hso => absurd (hs.init hso).1 hne⟩
    obtain ⟨-, hi, ht⟩ := hs.media hso
    refine ⟨hkind, by rw [huinit, hinit.keeps hex, hsame.init]; exact hi, fun hexact => ?_⟩
    rw [htime hex, hinit.timerange, hsame.timerange]
    exact ht hexact
  · intro a ha hne
    obtain ⟨hsame, -, hiff⟩ := hmedia.stored a ha
    have hex := hiff.mpr hne
    refine ⟨List.ne_nil_of_mem ((hrefs f).mpr (.inr rfl)), ?_, fun _ => ?_⟩
    · rw [huinit, hinit.keeps hex, hsame.init]
    · rw [htime hex, hinit.timerange, hsame.timerange]
  · have hnot : u.objectKind ≠ .init := fun hk => by rw [hkind] at hk; cases hk
    refine ⟨fun hnil => ?_, fun _ => hkind, fun hk => absurd hk hnot,
      fun hexact _ _ => htimed hexact⟩
    have := (hrefs f).mpr (.inr rfl)
    rw [hnil] at this
    cases this

variable (mt exact) in
structure PreparedLinks (objects : ObjectsById) (p : Prepared mt) : Prop where
  relinked : ∀ u ∈ p.objects, Relinked mt exact objects u
  tied : ∀ u ∈ p.objects, Ties mt exact p.segment u.id u

theorem effectiveObjectTimerange_existing {m : MediaObjectRecord}
    {text effective : String} (hne : text ≠ "") (htext : m.timerange = some text)
    (h : effectiveObjectTimerange mt post m true = .ok effective) : text = effective := by
  unfold effectiveObjectTimerange at h
  rw [if_pos rfl, htext] at h
  obtain ⟨effective', hfields, h⟩ := bind_eq_ok h
  obtain ⟨_, _, h⟩ := bind_eq_ok h
  obtain ⟨_, _, h⟩ := bind_eq_ok h
  obtain ⟨_, _, h⟩ := bind_eq_ok h
  dsimp only at h
  split at h
  · cases h
  obtain rfl := Except.ok.inj h
  simpa [objectTimerangeFromSegmentFields, hne, pure, Except.pure] using hfields

theorem registered_time (L : mt.Lawful) (T : mt.Arithmetic)
    {existing : Bool} {m u : MediaObjectRecord} {effective : String}
    (hpost : IsSegmentRange mt post.timerange) (hok : ObjectOk mt m)
    (htime : existing = true → m.timerange ≠ none) (hbare : existing = false → m.timerange = none)
    (heffective : effectiveObjectTimerange mt post m existing = .ok effective)
    (hreg : registeredMedia mt f post effective existing m = .ok u)
    (initObjectId : Option ObjectId) (now : Time) :
    TimeLink mt (segmentOfPost f post initObjectId effective now) u.timerange := by
  obtain ⟨object, hobject, hcovers⟩ :=
    effectiveObjectTimerange_covers T hpost heffective f initObjectId now
  rcases (registeredMedia_cases hreg).2 with ⟨hex, hsame⟩ | ⟨hex, hunion⟩
  · -- the range the object has is the one the segment was compared with
    obtain ⟨text, htext⟩ := Option.ne_none_iff_exists'.mp (htime hex)
    obtain ⟨r, hr⟩ := hok.parses L htext
    subst hex
    obtain rfl := effectiveObjectTimerange_existing (parseTimerange_ne_empty hr) htext heffective
    rw [hsame, htext]
    exact ⟨text, object, rfl, hobject, hcovers⟩
  · rw [hbare hex] at hunion
    obtain ⟨text, r, htext, hr, hinstants⟩ := union_same L T hcovers.nonempty
      (by simp) (fun t ht => ⟨object, by
        obtain rfl : t = effective := by simpa using ht
        exact hobject, .refl object⟩) hunion
    rw [htext]
    exact ⟨text, r, rfl, hr, hcovers.congr hinstants.symm⟩

theorem prepareSegmentRegistrationOrRaise_links (L : mt.Lawful) (T : exact → mt.Arithmetic)
    (hread : ReadOk mt exact objects) {flow : FlowRecord} {locked : List ObjectId}
    {known : List mt.TimeRange} {p : Prepared mt} (hpost : IsSegmentRange mt post.timerange)
    (h : prepareSegmentRegistrationOrRaise mt flow locked checks rd known objects post = .ok p) :
    PreparedLinks mt exact objects p := by
  unfold prepareSegmentRegistrationOrRaise at h
  obtain ⟨range, -, h⟩ := bind_eq_ok h
  dsimp only at h
  split at h
  · cases h
  rename_i hown
  obtain ⟨⟨m₁, existing⟩, hload, h⟩ := bind_eq_ok h
  obtain ⟨m₂, hcontent, h⟩ := bind_eq_ok h
  obtain ⟨⟨m₃, init⟩, hinit, h⟩ := bind_eq_ok h
  obtain ⟨-, -, h⟩ := bind_eq_ok h
  obtain ⟨effective, heffective, h⟩ := bind_eq_ok h
  obtain ⟨m, hreg, h⟩ := bind_eq_ok h
  cases h
  have hobjects : ∀ o obj, objects.get o = some obj → ObjectOk mt obj :=
    fun o obj hget => (hread o obj hget).1
  obtain ⟨hid₁, hk₁⟩ := loadMediaObject_ok hobjects hload
  obtain ⟨hid₂, hk₂⟩ := matchContentType_ok hk₁ hcontent
  obtain ⟨⟨hid₃, hk₃⟩, -, -⟩ := resolveInitObject_ok hobjects hk₂ hinit
  obtain ⟨hid, hminit, -, hrefs⟩ := registeredMedia_ok hk₃ hreg
  have hmid : m.id = post.objectId := by rw [hid, hid₃, hid₂, hid₁]
  obtain ⟨hkind, htime⟩ := registeredMedia_cases hreg
  have hm := MediaRead.of_load hload hcontent
  have hi := InitRead.of_resolve hread hown hm hinit
  have htimeLink : exact → TimeLink mt
      (segmentOfPost flow.id post (init.map (·.id)) effective rd.now) m.timerange :=
    fun hexact => registered_time L (T hexact) hpost hk₃.ok
      (fun hex => hi.timerange ▸ hm.timed hread hexact hex)
      (fun hex => hi.timerange ▸ hm.bare hread hex) heffective hreg _ rd.now
  have hmem : ∀ u, u ∈ m :: (init.toList.map fun o =>
      { (referencedBy flow.id .init o) with timerange := none }) →
      u = m ∨ ∃ x, init = some x ∧
        u = { (referencedBy flow.id .init x) with timerange := none } := by
    intro u hu
    cases init with
    | none => exact .inl (by simpa using hu)
    | some x => simpa using hu
  constructor
  · intro u hu
    rcases hmem u hu with rfl | ⟨x, hx, rfl⟩
    · refine relinked_media hm hi hmid hkind hminit (fun hex => ?_) (fun hexact => ?_)
        fun g => by rw [hrefs, hk₃.refs, hid₃, hid₂, hid₁]
      · rcases htime with ⟨-, htime⟩ | ⟨hfalse, -⟩
        · exact htime
        · rw [hex] at hfalse
          cases hfalse
      · obtain ⟨text, _, htext, -⟩ := htimeLink hexact
        rw [htext]
        exact Option.some_ne_none text
    · obtain ⟨-, a, ha, hsame, hne, hnone⟩ := hi.other x hx
      exact relinked_init hread ha hsame hne hnone flow.id
  · intro u hu
    rcases hmem u hu with rfl | ⟨x, hx, rfl⟩
    · refine ⟨(hrefs _).mpr (.inr rfl), fun _ => ⟨hkind, ?_, htimeLink⟩, fun hso => ?_⟩
      · rw [hminit]
        exact hi.segment.symm
      · -- the media object is not the segment's init object
        obtain ⟨x, hx, hxid⟩ := Option.map_eq_some_iff.mp hso
        exact absurd (hxid.trans hmid) (hi.other x hx).1
    · have hxid : ({ (referencedBy flow.id .init x) with
          timerange := none } : MediaObjectRecord).id = x.id := referencedBy_id flow.id .init x
      rw [hxid]
      refine ⟨(mem_referencedBy flow.id .init x).mpr (.inr rfl), fun hso => ?_,
        fun _ => ⟨rfl, rfl⟩⟩
      exact absurd hso.symm (hi.other x hx).1

variable (mt exact) in
structure BatchLinks (objects : ObjectsById) (ws : WorkingSet mt) : Prop where
  kept : ∀ o m, objects.get o = some m → ∃ m', ws.objects.get o = some m' ∧
    (∀ s, Ties mt exact s o m → Ties mt exact s o m') ∧
      (m.referencedByFlows ≠ [] → Keeps exact m m')
  tied : ∀ s ∈ ws.accepted, ∀ o, s.Names o →
    ∃ m, ws.objects.get o = some m ∧ Ties mt exact s o m
  link : ∀ o m, ws.objects.get o = some m → ObjectLink exact m

namespace BatchLinks

variable {ws : WorkingSet mt}

theorem start (hlink : ∀ o m, objects.get o = some m → ObjectLink exact m)
    (known : List mt.TimeRange) :
    BatchLinks mt exact objects (⟨known, objects, .empty, []⟩ : WorkingSet mt) where
  kept _ m hm := ⟨m, hm, fun _ h => h, Keeps.refl⟩
  tied := by simp
  link := hlink

theorem accept (h : BatchLinks mt exact objects ws) {flow : FlowRecord} {locked : List ObjectId}
    {post : SegmentPost} {p : Prepared mt}
    (hok : PreparedOk mt flow locked ws.known ws.objects post p)
    (hp : PreparedLinks mt exact ws.objects p) : BatchLinks mt exact objects (ws.accept p) := by
  -- an object is as the post leaves it, or as it was
  have hget : ∀ o, (∃ u ∈ p.objects, u.id = o ∧ (ws.accept p).objects.get o = some u) ∨
      (¬ p.segment.Names o ∧ (ws.accept p).objects.get o = ws.objects.get o) := by
    intro o
    have hfold : (ws.accept p).objects.get o =
        (p.objects.reverse.find? fun u => u.id = o).or (ws.objects.get o) :=
      Lib.Table.get_foldl_upsert _ _ o
    cases hfind : p.objects.reverse.find? fun u => u.id = o with
    | some u =>
      have hmem := List.mem_reverse.mp (List.mem_of_find?_eq_some hfind)
      have hid : u.id = o := by simpa using List.find?_some hfind
      exact .inl ⟨u, hmem, hid, by rw [hfold, hfind]; rfl⟩
    | none =>
      refine .inr ⟨fun hn => ?_, by rw [hfold, hfind]; rfl⟩
      obtain ⟨u, hu, hid⟩ := (hok.names o).mp hn
      have := List.find?_eq_none.mp hfind u (List.mem_reverse.mpr hu)
      simp [hid] at this
  -- what was tied before the post is tied after it
  have hkeep : ∀ o m, ws.objects.get o = some m → ∃ m', (ws.accept p).objects.get o = some m' ∧
      (∀ s, Ties mt exact s o m → Ties mt exact s o m') ∧
        (m.referencedByFlows ≠ [] → Keeps exact m m') := by
    intro o m hm
    rcases hget o with ⟨u, hu, rfl, hu'⟩ | ⟨-, hsame⟩
    · exact ⟨u, hu', (hp.relinked u hu).kept m hm, (hp.relinked u hu).keeps m hm⟩
    · exact ⟨m, hsame.trans hm, fun _ hs => hs, Keeps.refl⟩
  constructor
  · intro o m hm
    obtain ⟨m₁, hm₁, hties₁, hkeeps₁⟩ := h.kept o m hm
    obtain ⟨m₂, hm₂, hties₂, hkeeps₂⟩ := hkeep o m₁ hm₁
    exact ⟨m₂, hm₂, fun s hs => hties₂ s (hties₁ s hs),
      fun hne => (hkeeps₁ hne).trans (hkeeps₂ (hkeeps₁ hne).refs)⟩
  · intro s hs o hn
    rcases List.mem_append.mp hs with hs | hs
    · obtain ⟨m, hm, hties⟩ := h.tied s hs o hn
      obtain ⟨m', hm', hties', -⟩ := hkeep o m hm
      exact ⟨m', hm', hties' s hties⟩
    · obtain rfl := List.mem_singleton.mp hs
      rcases hget o with ⟨u, hu, rfl, hu'⟩ | ⟨hnot, -⟩
      · exact ⟨u, hu', hp.tied u hu⟩
      · exact absurd hn hnot
  · intro o m hm
    rcases hget o with ⟨u, hu, rfl, hu'⟩ | ⟨-, hsame⟩
    · obtain rfl := Option.some.inj (hu'.symm.trans hm)
      exact (hp.relinked u hu).link
    · exact h.link o m (hsame.symm.trans hm)

end BatchLinks

theorem registerPosts_links (L : mt.Lawful) (T : exact → mt.Arithmetic)
    (hread : ReadOk mt exact objects)
    {flow : FlowRecord} {locked : List ObjectId} {checks : UploadChecks}
    {readings : Nat → Readings} {posts : List (Option SegmentPost)} {n : Nat}
    {ws ws' : WorkingSet mt} {results : List SegmentWriteResult}
    (hposts : ∀ post, some post ∈ posts → post.objectId ∈ locked ∧
      IsSegmentRange mt post.timerange)
    (hok : BatchOk flow locked objects ws) (h : BatchLinks mt exact objects ws)
    (hrun : registerPosts mt flow locked checks readings n ws posts = .ok (ws', results)) :
    BatchLinks mt exact objects ws' := by
  induction posts generalizing n ws results with
  | nil =>
    cases hrun
    exact h
  | cons post posts ih =>
    have htail : ∀ post, some post ∈ posts → post.objectId ∈ locked ∧
        IsSegmentRange mt post.timerange := fun post hp => hposts post (by simp [hp])
    cases post with
    | none =>
      obtain ⟨⟨ws₁, results₁⟩, hrest, hrun⟩ := bind_eq_ok hrun
      cases hrun
      exact ih htail hok h hrest
    | some post =>
      obtain ⟨⟨ws₁, result⟩, hpost, hrun⟩ := bind_eq_ok hrun
      obtain ⟨⟨ws₂, results₂⟩, hrest, hrun⟩ := bind_eq_ok hrun
      cases hrun
      obtain ⟨hlocked, hrange⟩ := hposts post (by simp)
      have hnow : ∀ o obj, ws.objects.get o = some obj → ObjectOk mt obj :=
        hok.objectOk fun o obj hget => (hread o obj hget).1
      unfold registerPost at hpost
      split at hpost
      · rename_i p hp
        cases hpost
        have hprep := prepareSegmentRegistrationOrRaise_ok hnow hp
        refine ih htail (hok.accept L hprep hlocked hrange) (h.accept hprep ?_) hrest
        exact prepareSegmentRegistrationOrRaise_links L T
          (fun o m hm => ⟨hnow o m hm, h.link o m hm⟩) hrange hp
      · cases hpost
        exact ih htail hok h hrest
      · cases hpost

variable {fc : FlowContract} {D : (service mt fc).Discipline} {i : SessionId}
variable {E : PyError → Session → Prop}

theorem ObjectsSaved.carried (ids : List ObjectId) (objects : ObjectsById)
    (saved : List MediaObjectRecord) : Carried mt exact i (ObjectsSaved i ids objects saved) :=
  .forall_of fun o => .imp fun _ => .object o fun x =>
    (∀ u ∈ saved, u.id = o → x = some u) ∧ ((∀ u ∈ saved, u.id ≠ o) → x = objects.get o)

variable (i) in
def Registering (f : FlowId) : CoreAssertion :=
  fun c l => c.Holds i (.flow f) ∧ RemovesNone l

theorem Registering.carried (f : FlowId) : Carried mt exact i (Registering i f) :=
  (Carried.holds (k := .flow f) id).and RemovesNone.carried

theorem Registering.lockable (f : FlowId) : Lockable i (Registering i f) :=
  (Lockable.holds _).and (.local _)

section Saving

variable {flow : FlowRecord} {locked : List ObjectId} {ws : WorkingSet mt}

theorem BatchLinks.push_saveObject (h : BatchLinks mt exact objects ws)
    (hok : BatchOk flow locked objects ws) {c : Core} {l : Session}
    {saved : List MediaObjectRecord} {u : MediaObjectRecord} (hu : u ∈ ws.updated.rows)
    (hnew : ∀ v ∈ saved, v.id ≠ u.id) (hreg : Registering i flow.id c l)
    (htx : LinkTx mt exact i c l) (hsaved : ObjectsSaved i locked objects saved c l) :
    LinkTx mt exact i c (l.push [.saveObject u]) := by
  obtain ⟨-, -, hrefs⟩ := hok.updated u hu
  obtain ⟨hheld, -, hget⟩ := hsaved u.id (hok.updated_locked hu)
  replace hget := hget hnew
  have hws : ws.objects.get u.id = some u := by
    rw [hok.objects, Lib.Table.get_eq_some.mpr ⟨hu, rfl⟩]
    rfl
  have hw : Write.onObject u.id ((c.view l).objects.get u.id) (.saveObject u) = some u := by
    simp [Write.onObject]
  refine htx.push_object hw (by simp [Write.TouchesFlow]) (fun o ho => ho.symm) hheld ?_ ?_ ?_ ?_
    (fun _ _ => hreg.2)
  · intro row _ _ m hm hties
    obtain ⟨m', hm', hkept, -⟩ := h.kept u.id m (hget ▸ hm)
    obtain rfl := Option.some.inj (hws.symm.trans hm')
    exact ⟨u, rfl, hkept row.record hties⟩
  · intro m hm
    obtain rfl := Option.some.inj hm
    exact h.link u.id u hws
  · intro g hg
    rw [refsOf_some, hrefs, hget]
    exact or_iff_left fun he => hg (he ▸ hreg.1)
  · intro m m' hm hne hm'
    obtain rfl := Option.some.inj hm'
    obtain ⟨m₁, hm₁, -, hkeeps⟩ := h.kept u.id m (hget ▸ hm)
    obtain rfl := Option.some.inj (hws.symm.trans hm₁)
    exact hkeeps hne

namespace LinkSpec

theorem saveObjects (h : BatchLinks mt exact objects ws) (hok : BatchOk flow locked objects ws) :
    LinkSpec mt fc exact D i
      (InLink mt exact i fun c l => Registering i flow.id c l ∧ ObjectsAre i locked objects c l)
      (ws.updated.rows.forM fun o => call (.write (.saveObject o)))
      (fun _ => InLink mt exact i fun c l => Registering i flow.id c l ∧
        ObjectsSaved i locked objects ws.updated.rows c l) E := by
  let I (saved : List MediaObjectRecord) : CoreAssertion := InLink mt exact i fun c l =>
    Registering i flow.id c l ∧ ObjectsSaved i locked objects saved c l
  have hI : ∀ saved, LinkStable mt exact i (I saved) := fun saved =>
    InLink.stable ((Registering.carried _).and (ObjectsSaved.carried _ _ _))
  have hloop : LinkSpec mt fc exact D i (I [])
      (ws.updated.rows.forM fun o => call (.write (.saveObject o)))
      (fun _ => I ws.updated.rows) E := by
    refine Triple.forM (I := fun saved => (I saved).lift mt fc) (fun saved => (hI saved).lift) ?_
    intro saved u rest hxs
    have hu : u ∈ ws.updated.rows := by rw [hxs]; simp
    have hnew : ∀ v ∈ saved, v.id ≠ u.id := by
      have hnodup := ws.updated.nodup
      rw [hxs, List.map_append, List.nodup_append] at hnodup
      exact fun v hv => hnodup.2.2 v.id (List.mem_map_of_mem hv) u.id (by simp)
    refine write (hI saved) (hI _) (fun _ _ hA => hA.1.inTransaction) fun c l hA => ?_
    obtain ⟨htx, hreg, hsaved⟩ := hA
    exact ⟨h.push_saveObject hok hu hnew hreg htx hsaved,
      ⟨hreg.1, hreg.2.push (by simp) (by simp) (by simp)⟩, hsaved.push hnew⟩
  refine Triple.pre hloop fun w l _ hA => ⟨hA.1, hA.2.1, fun o ho => ?_⟩
  exact ⟨(hA.2.2 o ho).1, by simp, fun _ => (hA.2.2 o ho).2⟩

theorem saveSegments (h : BatchLinks mt exact objects ws)
    (hok : BatchOk flow locked objects ws) {rows : List SegmentRow}
    (hrows : ws.accepted.mapM (segmentRow mt) = .ok rows) : LinkSpec mt fc exact D i
      (InLink mt exact i fun c l => Registering i flow.id c l ∧
        ObjectsSaved i locked objects ws.updated.rows c l)
      (rows.forM fun row => call (.write (.saveSegment row)))
      (fun _ => InLink mt exact i Always) E := by
  let A : CoreAssertion := InLink mt exact i fun c l => Registering i flow.id c l ∧
    ObjectsSaved i locked objects ws.updated.rows c l
  have hA : LinkStable mt exact i A :=
    InLink.stable ((Registering.carried _).and (ObjectsSaved.carried _ _ _))
  -- what an accepted segment names has been saved
  have hsaved : ∀ c l, ObjectsSaved i locked objects ws.updated.rows c l →
      ∀ s ∈ ws.accepted, ∀ o, s.Names o → c.Holds i (.object o) ∧
        ∃ m, (c.view l).objects.get o = some m ∧ Ties mt exact s o m := by
    intro c l hs s hsmem o ho
    obtain ⟨hlocked, hsome⟩ := hok.named s hsmem o ho
    obtain ⟨u, hu⟩ := Option.isSome_iff_exists.mp hsome
    obtain ⟨m, hm, hties⟩ := h.tied s hsmem o ho
    rw [hok.objects, hu] at hm
    obtain rfl := Option.some.inj hm
    obtain ⟨humem, rfl⟩ := Lib.Table.get_eq_some.mp hu
    obtain ⟨hheld, hget, -⟩ := hs u.id hlocked
    exact ⟨hheld, u, hget u humem rfl, hties⟩
  have hloop : LinkSpec mt fc exact D i A
      (rows.forM fun row => call (.write (.saveSegment row))) (fun _ => A) E := by
    refine Triple.forM (I := fun _ => A.lift mt fc) (fun _ => hA.lift) ?_
    intro done row rest hxs
    have hrow : row ∈ rows := by rw [hxs]; simp
    obtain ⟨hacc, hflow, -⟩ := hok.rowOk hrows hrow
    refine write hA hA (fun _ _ hA => hA.1.inTransaction) fun c l ⟨htx, hreg, hs⟩ => ?_
    refine ⟨htx.push_saveSegment (hflow ▸ hreg.1) (hsaved c l hs _ hacc),
      ⟨hreg.1, hreg.2.push (by simp) (by simp) (by simp)⟩, fun o ho => ?_⟩
    rw [Core.view_push]
    exact hs o ho
  exact Triple.post hloop fun _ w l _ hA => ⟨hA.1, trivial⟩

theorem saveRegisteredSegments (h : BatchLinks mt exact objects ws)
    (hok : BatchOk flow locked objects ws) {flow' : FlowRecord} (hid : flow'.id = flow.id)
    (version : Nat) : LinkSpec mt fc exact D i
      (InLink mt exact i fun c l => Registering i flow.id c l ∧ ObjectsAre i locked objects c l)
      (saveRegisteredSegments mt flow' version ws.updated.rows ws.accepted)
      (fun _ => InLink mt exact i Always) Always := by
  have hF : Carried mt exact i fun c l => Registering i flow.id c l ∧
      ObjectsAre i locked objects c l := (Registering.carried _).and (ObjectsAre.carried _ _)
  have hG : Carried mt exact i fun c l => Registering i flow.id c l ∧
      ObjectsSaved i locked objects ws.updated.rows c l :=
    (Registering.carried _).and (ObjectsSaved.carried _ _ _)
  unfold Tamoss.saveRegisteredSegments
  rw [hid]
  refine bind (lockFlow hF hF flow.id (fun c l h => .inl h.1.1) ?_) fun _ => ?_
  · -- the lock is already held
    intro c l locks h hk
    have hkeep : ∀ k, c.Holds i k → locks k = some i := fun k hk' => (hk k).mpr (.inr hk')
    exact ⟨⟨hkeep _ h.1.1, h.1.2⟩, fun o ho => ⟨hkeep _ (h.2 o ho).1, (h.2 o ho).2⟩⟩
  refine bind (neutral hF (by trivial)) fun _ => ?_
  refine bind (saveObjects h hok) fun _ => ?_
  refine bind (except (InLink.stable hG) (fun _ _ _ _ => trivial) _) fun rows =>
    Triple.assume fun hrows => ?_
  refine reading (InLink.stable hG) trivial fun overlap => ?_
  exact Triple.throwIf (fun _ _ _ => trivial) fun _ => saveSegments h hok hrows

end LinkSpec

end Saving

namespace LinkSpec

theorem registerCandidates (L : mt.Lawful) (T : exact → mt.Arithmetic) (flow : FlowRecord)
    (version : Nat) (checks : UploadChecks) (readings : Nat → Readings)
    (validated : List (Option SegmentPost)) (known : List mt.TimeRange)
    (hvalid : ∀ post, some post ∈ validated → IsSegmentRange mt post.timerange) :
    LinkSpec mt fc exact D i
      (InLink mt exact i fun c l => Registering i flow.id c l ∧ ∀ o, ¬ c.Holds i (.object o))
      (registerCandidates mt flow version checks readings validated known)
      (fun _ => InLink mt exact i Always) Always := by
  have hR : Carried mt exact i (Registering i flow.id) := Registering.carried flow.id
  have hF : Carried mt exact i fun c l =>
      Registering i flow.id c l ∧ ∀ o, ¬ c.Holds i (.object o) :=
    hR.and (Carried.held (P := fun S => ∀ o, ¬ S (.object o)) fun _ _ h hS o ho =>
      hS o ((h _ id).mpr ho))
  unfold Tamoss.registerCandidates
  refine Triple.bind (Triple.yields (requestedObjectIds_yields flow _)
    (calm hF (requestedObjectIds_calm flow _))) fun requested =>
      Triple.assume fun hrequested => ?_
  refine bind (lockObjects hR (Registering.lockable _)
    fun c l h => ⟨h.1, .inr (.inl h.2)⟩) fun _ => ?_
  refine bind (getObjects hR requested) fun objects => Triple.assume fun hread => ?_
  have hG : Carried mt exact i fun c l => Registering i flow.id c l ∧
      ObjectsAre i requested objects c l := hR.and (ObjectsAre.carried _ _)
  refine bind (except (InLink.stable hG) (fun _ _ _ _ => trivial) _)
    fun ⟨ws, results⟩ => Triple.assume fun hrun => ?_
  have hposts : ∀ post, some post ∈ validated → post.objectId ∈ requested ∧
      IsSegmentRange mt post.timerange := fun post hpost =>
    ⟨hrequested post (List.mem_filterMap.mpr ⟨some post, hpost, rfl⟩), hvalid post hpost⟩
  have hstart : BatchOk flow requested objects (⟨known, objects, .empty, []⟩ : WorkingSet mt) :=
    BatchOk.start flow requested known
  have hok : BatchOk flow requested objects ws :=
    registerPosts_ok L (fun o m hm => (hread o m hm).2.1) hposts hstart hrun
  have hlinks : BatchLinks mt exact objects ws :=
    registerPosts_links L T (fun o m hm => (hread o m hm).2) hposts hstart
      (BatchLinks.start (fun o m hm => (hread o m hm).2.2) known) hrun
  dsimp only
  split
  · refine reading (InLink.stable hG) trivial fun now => ?_
    refine bind (saveRegisteredSegments hlinks hok (by rfl) version) fun _ => ?_
    exact pure (InLink.stable .true) _
  · exact Triple.pure (InLink.stable hG).lift fun _ _ _ h => ⟨h.1, trivial⟩

theorem registerSegmentsLocked (L : mt.Lawful) (T : exact → mt.Arithmetic) (f : FlowId)
    (posts : List SegmentPostInput) (checks : UploadChecks) (readings : Nat → Readings) :
    LinkSpec mt fc exact D i
      (InLink mt exact i fun c l => Registering i f c l ∧ ∀ o, ¬ c.Holds i (.object o))
      (registerSegmentsLocked mt f posts checks readings)
      (fun _ => InLink mt exact i Always) Always := by
  have hF : Carried mt exact i fun c l =>
      Registering i f c l ∧ ∀ o, ¬ c.Holds i (.object o) :=
    (Registering.carried f).and (Carried.held (P := fun S => ∀ o, ¬ S (.object o))
      fun _ _ h hS o ho => hS o ((h _ id).mpr ho))
  have hst := InLink.stable hF
  have hdone : ∀ results : List SegmentWriteResult, LinkSpec mt fc exact D i
      (InLink mt exact i fun c l => Registering i f c l ∧ ∀ o, ¬ c.Holds i (.object o))
      (Pure.pure results) (fun _ => InLink mt exact i Always) Always :=
    fun results => Triple.pure hst.lift fun _ _ _ h => ⟨h.1, trivial⟩
  unfold Tamoss.registerSegmentsLocked
  refine bind (requireFlow hF f true) fun ⟨flow, version⟩ => Triple.assume fun hid => ?_
  obtain rfl : flow.id = f := hid
  refine bind (calm hF (ensureFlowWritable_calm flow)) fun _ => ?_
  split
  · exact hdone _
  · refine reading hst trivial fun backends => ?_
    dsimp only
    split
    · exact hdone _
    · refine reading hst trivial fun stored => ?_
      refine bind (except hst (fun _ _ _ _ => trivial) _) fun known =>
        Triple.assume fun _ => ?_
      exact registerCandidates L T flow version checks readings _ known
        fun post hpost => validatePosts_range hpost

theorem registerSegments (L : mt.Lawful) (T : exact → mt.Arithmetic) (f : FlowId)
    (posts : List SegmentPostInput) (rd : Readings) (readings : Nat → Readings) :
    LinkSpec mt fc exact D i (Resting i fun _ => True) (registerSegments mt f posts rd readings)
      (fun _ => AtRest) AtRest := by
  refine bind (calmResting (verifyControlledUploads_calm posts rd)) fun checks => ?_
  refine Triple.tryCatch (fun _ => idle_stable.lift) (unitOfWork ?_) fun e => ?_
  · have hF' : Carried mt exact i fun c l =>
        Registering i f c l ∧ ∀ o, ¬ c.Holds i (.object o) :=
      (Registering.carried f).and (Carried.held (P := fun S => ∀ o, ¬ S (.object o))
        fun _ _ h hS o ho => hS o ((h _ id).mpr ho))
    refine bind (lockFlow (Opening.carried _) hF' f (fun c l h => .inr h.2.1) ?_)
      fun _ => registerSegmentsLocked L T f posts checks readings
    intro c l locks h hk
    refine ⟨⟨(hk _).mpr (.inl rfl), removesNone_of_neutral h.1⟩, fun o ho => ?_⟩
    rcases (hk _).mp ho with he | ho
    · cases he
    · exact h.2.1 _ ho
  · split
    · exact Triple.pure idle_stable.lift fun _ _ _ h => h
    · exact Triple.throw fun _ _ h => h

end LinkSpec

end Tamoss
