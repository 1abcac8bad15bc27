/-
  **What validation says of a post, and how a valid post can be refused.**
-/
import Tamoss.Store.Batch

namespace Tamoss

open Lib (bind_eq_ok)

variable {mt : MediaTimestamp}

structure ValidPost (mt : MediaTimestamp) (post : SegmentPost) (b : SegmentTimerangeBounds) :
    Prop where
  range : ∃ r, SegmentRange mt post.timerange r b
  tsOffset : ∀ v, post.tsOffset = some v → ∃ n, parseTimestamp mt "ts_offset" v = .ok n
  objectTimerange : ∀ v, post.objectTimerange = some v →
    ∃ r, parseTimerange mt "object_timerange" true v = .ok r
  labels : ((post.getUrls.getD []).map (·.label)).Nodup

theorem validateGetUrls_ok {reserved seen : List String} {entries : List GetUrl}
    (h : validateGetUrls reserved seen entries = .ok ()) :
    (entries.map (·.label)).Nodup ∧ ∀ entry ∈ entries, ∀ l ∈ seen, entry.label ≠ some l := by
  induction entries generalizing seen with
  | nil => simp
  | cons entry entries ih =>
    unfold validateGetUrls at h
    split at h
    · cases h
    · rename_i label hlabel
      split at h
      · cases h
      · split at h
        · cases h
        · rename_i hseen
          split at h
          · cases h
          · cases h
          · obtain ⟨hnodup, hne⟩ := ih h
            rw [not_or] at hseen
            refine ⟨List.nodup_cons.mpr ⟨fun hmem => ?_, hnodup⟩, ?_⟩
            · obtain ⟨entry', hmem', heq⟩ := List.mem_map.mp hmem
              exact hne entry' hmem' label List.mem_cons_self (heq.trans hlabel)
            · intro entry' hmem l hl
              rcases List.mem_cons.mp hmem with rfl | hmem
              · rw [hlabel]
                rintro ⟨⟩
                exact hseen.1 hl
              · exact hne entry' hmem l (List.mem_cons_of_mem label hl)

variable {labels : List String} {post : SegmentPost}

theorem validateSegmentFields_ok
    {parsed : mt.TimeRange} (h : validateSegmentFields mt labels post parsed = .ok ()) :
    (∀ v, post.tsOffset = some v → ∃ n, parseTimestamp mt "ts_offset" v = .ok n) ∧
    (∀ v, post.objectTimerange = some v →
      ∃ r, parseTimerange mt "object_timerange" true v = .ok r) ∧
    ((post.getUrls.getD []).map (·.label)).Nodup := by
  obtain ⟨_, hoffset, h⟩ := bind_eq_ok h
  obtain ⟨-, -, h⟩ := bind_eq_ok h
  obtain ⟨_, hobject, h⟩ := bind_eq_ok h
  obtain ⟨-, -, h⟩ := bind_eq_ok h
  obtain ⟨-, -, h⟩ := bind_eq_ok h
  obtain ⟨-, -, hurls⟩ := bind_eq_ok h
  refine ⟨fun v hv => ?_, fun v hv => ?_, ?_⟩
  · rw [hv] at hoffset
    obtain ⟨n, hn, -⟩ := bind_eq_ok hoffset
    exact ⟨n, hn⟩
  · rw [hv] at hobject
    obtain ⟨r, hr, -⟩ := bind_eq_ok hobject
    exact ⟨r, hr⟩
  · cases hentries : post.getUrls with
    | none => simp
    | some entries =>
      rw [hentries] at hurls
      simp only [validateGetUrlsField] at hurls
      split at hurls
      · cases hurls
      · exact (validateGetUrls_ok hurls).1

variable {b : SegmentTimerangeBounds}

theorem validateSegmentPayload_ok {input : SegmentPostInput}
    (h : validateSegmentPayload mt labels input = .ok (post, b)) : ValidPost mt post b := by
  cases input with
  | rejected => cases h
  | accepted p =>
    obtain ⟨r, hparsed, h⟩ := bind_eq_ok h
    obtain ⟨b', hbounds, h⟩ := bind_eq_ok h
    dsimp only at h
    split at h
    · cases h
    · rename_i hin
      obtain ⟨_, hfields, h⟩ := bind_eq_ok h
      obtain ⟨rfl, rfl⟩ := Prod.mk.inj (Except.ok.inj h)
      obtain ⟨hoffset, hobject, hlabels⟩ := validateSegmentFields_ok hfields
      exact ⟨⟨r, hparsed, hbounds, by simpa using hin⟩, hoffset, hobject, hlabels⟩

variable {inputs : List SegmentPostInput}

theorem validatePosts_valid
    (h : some (post, b) ∈ validatePosts mt labels inputs) : ValidPost mt post b := by
  simp only [validatePosts, List.mem_map] at h
  obtain ⟨input, -, h⟩ := h
  cases hv : validateSegmentPayload mt labels input with
  | error e => simp [hv, Except.toOption] at h
  | ok v =>
    simp only [hv, Except.toOption, Option.some.injEq] at h
    subst h
    exact validateSegmentPayload_ok hv

theorem validatePosts_range
    (h : some post ∈ (validatePosts mt labels inputs).map (Option.map (·.1))) :
    IsSegmentRange mt post.timerange := by
  obtain ⟨x, hx, hpost⟩ := List.mem_map.mp h
  obtain ⟨⟨post', b⟩, rfl, rfl⟩ := Option.map_eq_some_iff.mp hpost
  obtain ⟨r, hr⟩ := (validatePosts_valid hx).range
  exact ⟨r, b, hr⟩

/-- The computation raises `BadRequest` or nothing. -/
def OnlyBadRequest {α : Type} (x : Except PyError α) : Prop :=
  ∀ e, x = .error e → ∃ detail, e = .badRequest detail

namespace OnlyBadRequest

variable {α β : Type}

theorem ok (a : α) : OnlyBadRequest (.ok a) := by
  rintro e ⟨⟩

theorem error (detail : String) : OnlyBadRequest (.error (.badRequest detail) : Except PyError α) := by
  rintro e ⟨⟩
  exact ⟨detail, rfl⟩

variable {x : Except PyError α}

theorem of_ok (h : ∃ a, x = .ok a) : OnlyBadRequest x := by
  obtain ⟨a, rfl⟩ := h
  exact ok a

theorem bind {f : α → Except PyError β} (hx : OnlyBadRequest x)
    (hf : ∀ a, x = .ok a → OnlyBadRequest (f a)) : OnlyBadRequest (x >>= f) := by
  cases x with
  | ok a => exact hf a rfl
  | error e =>
    obtain ⟨detail, rfl⟩ := hx e rfl
    exact error detail

end OnlyBadRequest

open OnlyBadRequest

theorem ensureFirstUse_badRequest (checks : UploadChecks) (rd : Readings) (f : FlowId)
    (o : MediaObjectRecord) : OnlyBadRequest (ensureFirstUse checks rd f o) := by
  unfold ensureFirstUse
  split
  · refine bind ?_ fun _ _ => ?_
    · unfold ensureControlledObjectAllocationMatchesFlow
      split
      · exact ok _
      · split
        · exact error _
        · exact ok _
    · unfold ensureControlledObjectUploaded
      dsimp only
      split
      · exact error _
      · exact ok _
      · split
        · exact error _
        · split
          · exact error _
          · exact ok _
  · exact ok _

theorem loadMediaObject_badRequest (checks : UploadChecks) (rd : Readings) (f : FlowId)
    (objects : ObjectsById) (post : SegmentPost) :
    OnlyBadRequest (loadMediaObject checks rd f objects post) := by
  unfold loadMediaObject
  split
  · split
    · exact error _
    · exact ok _
  · dsimp only
    split
    · exact error _
    · refine bind (ensureFirstUse_badRequest _ _ _ _) fun _ _ => ?_
      split
      · split
        · exact error _
        · split
          · exact error _
          · exact ok _
      · exact ok _

theorem matchContentType_badRequest (flow : FlowRecord) (o : MediaObjectRecord) :
    OnlyBadRequest (matchContentType flow o) := by
  unfold matchContentType
  split
  · exact ok _
  · split
    · exact error _
    · exact ok _

theorem resolveInitObject_badRequest (checks : UploadChecks) (rd : Readings)
    (flow : FlowRecord) (objects : ObjectsById) (locked : List ObjectId) (post : SegmentPost)
    (media : MediaObjectRecord) (existing : Bool) :
    OnlyBadRequest (resolveInitObject checks rd flow objects locked post media existing) := by
  unfold resolveInitObject
  split
  · split
    · exact error _
    · split
      · exact error _
      · split
        · exact error _
        · split
          · exact error _
          · split
            · exact error _
            · exact bind (ensureFirstUse_badRequest _ _ _ _) fun _ _ => ok _
  · split
    · exact error _
    · exact ok _

theorem validateAppends_badRequest (o : MediaObjectRecord) (entries : List GetUrl) :
    OnlyBadRequest (validateAppends o entries) := by
  induction entries with
  | nil => exact ok _
  | cons entry entries ih =>
    unfold validateAppends
    split
    · exact error _
    · exact ih

variable {b : SegmentTimerangeBounds} {post : SegmentPost}

theorem objectTimerangeFromSegmentFields_ok (L : mt.Lawful)
    (hpost : ValidPost mt post b) {objectTimerange : Option String}
    (h : ∀ v, objectTimerange = some v → ∃ r, parseTimerange mt "timerange" false v = .ok r) :
    ∃ t, objectTimerangeFromSegmentFields mt post.timerange post.tsOffset objectTimerange =
      .ok t ∧ ∃ r, parseTimerange mt "timerange" false t = .ok r := by
  obtain ⟨r, hr⟩ := hpost.range
  have hparsed := parseTimerange_of_finite hr.parsed "timerange"
  have hderived : ∃ t, objectTimerangeFromSegmentFields mt post.timerange post.tsOffset none =
      .ok t ∧ ∃ r, parseTimerange mt "timerange" false t = .ok r := by
    unfold objectTimerangeFromSegmentFields
    dsimp only
    split
    · exact ⟨_, rfl, r, hparsed⟩
    · rename_i hoffset
      cases htext : post.tsOffset with
      | none => exact absurd (.inl htext) hoffset
      | some v =>
        obtain ⟨n, hn⟩ := hpost.tsOffset v htext
        simp only [Option.getD_some, hn, hparsed, Lib.ok_bind]
        split
        · exact ⟨_, rfl, L.parse_str _⟩
        · exact ⟨_, rfl, r, hparsed⟩
  cases objectTimerange with
  | none => exact hderived
  | some v =>
    rw [objectTimerangeFromSegmentFields]
    dsimp only
    split
    · exact ⟨v, rfl, h v rfl⟩
    · exact hderived

theorem effectiveObjectTimerange_badRequest (L : mt.Lawful)
    (hpost : ValidPost mt post b) {media : MediaObjectRecord}
    (hmedia : ∀ v, media.timerange = some v →
      ∃ r, parseTimerange mt "timerange" false v = .ok r) (existing : Bool) :
    OnlyBadRequest (effectiveObjectTimerange mt post media existing) ∧
      ∀ t, effectiveObjectTimerange mt post media existing = .ok t →
        ∃ r, parseTimerange mt "timerange" false t = .ok r := by
  have hgiven : ∀ v, (if existing then media.timerange else post.objectTimerange) = some v →
      ∃ r, parseTimerange mt "timerange" false v = .ok r := by
    intro v hv
    split at hv
    · exact hmedia v hv
    · obtain ⟨r, hr⟩ := hpost.objectTimerange v hv
      exact ⟨r, parseTimerange_of_finite hr "timerange"⟩
  obtain ⟨outer, houter, r, hr⟩ := objectTimerangeFromSegmentFields_ok L hpost hgiven
  have hnone : ∀ v, (none : Option String) = some v →
      ∃ r, parseTimerange mt "timerange" false v = .ok r := by simp
  obtain ⟨inner, hinner, r', hr'⟩ := objectTimerangeFromSegmentFields_ok L hpost hnone
  simp only [effectiveObjectTimerange, houter, hinner, hr, hr', Lib.ok_bind]
  split
  · exact ⟨error _, by rintro t ⟨⟩⟩
  · refine ⟨ok _, ?_⟩
    rintro t ⟨⟩
    exact ⟨r, hr⟩

theorem appendGetUrls_of_validateAppends {o : MediaObjectRecord} {entries : List GetUrl}
    (hlabels : (entries.map (·.label)).Nodup) (h : validateAppends o entries = .ok ()) :
    ∃ o', appendGetUrls o entries = .ok o' := by
  have hall : ∀ entries : List GetUrl, validateAppends o entries = .ok () → ∀ entry ∈ entries,
      validateUncontrolledInstanceAppend o.instances entry.url entry.label
        (entry.presigned.getD false) = .ok () := by
    intro entries
    induction entries with
    | nil => simp
    | cons entry entries ih =>
      intro h
      unfold validateAppends at h
      split at h
      · cases h
      · rename_i hentry
        exact List.forall_mem_cons.mpr ⟨hentry, ih h⟩
  replace h := hall entries h
  clear hall
  induction entries generalizing o with
  | nil => exact ⟨o, rfl⟩
  | cons entry entries ih =>
    obtain ⟨hentry, hrest⟩ := List.forall_mem_cons.mp h
    obtain ⟨hnew, hnodup⟩ := List.nodup_cons.mp hlabels
    -- the new instance has a label of its own
    have happend : ∃ o₁, appendUncontrolledInstance o entry.url entry.label
        (entry.presigned.getD false) = .ok o₁ ∧ (o₁.instances = o.instances ∨
          ∃ i : ObjectInstance, i.label = entry.label ∧ o₁.instances = o.instances ++ [i]) := by
      simp only [appendUncontrolledInstance, hentry, Lib.ok_bind]
      split
      · exact ⟨o, rfl, .inl rfl⟩
      · exact ⟨_, rfl, .inr ⟨_, rfl, rfl⟩⟩
    obtain ⟨o₁, ho₁, hinstances⟩ := happend
    obtain ⟨o', ho'⟩ := ih hnodup (o := o₁) fun other hother => by
      have hvalid := hrest other hother
      rcases hinstances with hsame | ⟨i, hi, hmore⟩
      · rwa [hsame]
      · have hne : i.label ≠ other.label := fun he =>
          hnew (List.mem_map.mpr ⟨other, hother, he.symm.trans hi⟩)
        unfold validateUncontrolledInstanceAppend at hvalid ⊢
        rwa [hmore, List.find?_append, List.find?_singleton, if_neg (by simp [hne]),
          Option.or_none]
    exact ⟨o', (congrArg (· >>= fun o => appendGetUrls o entries) ho₁).trans ho'⟩

theorem validateAppends_congr {o o' : MediaObjectRecord} (h : o'.instances = o.instances)
    (entries : List GetUrl) : validateAppends o' entries = validateAppends o entries := by
  induction entries with
  | nil => rfl
  | cons entry entries ih =>
    unfold validateAppends
    rw [h, ih]

@[simp] theorem referencedBy_instances (f : FlowId) (kind : ObjectKind)
    (o : MediaObjectRecord) : (referencedBy f kind o).instances = o.instances := by
  unfold referencedBy MediaObjectRecord.addReference
  dsimp only
  split <;> rfl

theorem timerangeUnionStrings_exists {ranges : List (Option String)}
    (h : ∀ t, some t ∈ ranges → ∃ r, parseTimerange mt "timerange" false t = .ok r) :
    ∃ t, timerangeUnionStrings mt ranges = .ok t := by
  have hmap : ∀ texts : List String,
      (∀ t ∈ texts, ∃ r, parseTimerange mt "timerange" false t = .ok r) →
      ∃ parsed, texts.mapM (parseTimerange mt "timerange" false) = .ok parsed := by
    intro texts
    induction texts with
    | nil => exact fun _ => ⟨[], rfl⟩
    | cons t texts ih =>
      intro hall
      obtain ⟨⟨r, hr⟩, hrest⟩ := List.forall_mem_cons.mp hall
      obtain ⟨rs, hrs⟩ := ih hrest
      exact ⟨r :: rs, by rw [List.mapM_cons, hr, Lib.ok_bind, hrs]; rfl⟩
  obtain ⟨parsed, hparsed⟩ := hmap (ranges.filterMap id) fun t ht => by
    obtain ⟨x, hx, rfl⟩ := List.mem_filterMap.mp ht
    exact h t hx
  unfold timerangeUnionStrings
  rw [hparsed, Lib.ok_bind]
  split <;> exact ⟨_, rfl⟩

theorem registeredMedia_exists (L : mt.Lawful) {f : FlowId}
    (hpost : ValidPost mt post b) {effective : String} {existing : Bool}
    {m : MediaObjectRecord} (hm : ObjectOk mt m)
    (heffective : ∃ r, parseTimerange mt "timerange" false effective = .ok r)
    (happends : validateAppends m (post.getUrls.getD []) = .ok ()) :
    ∃ m', registeredMedia mt f post effective existing m = .ok m' := by
  unfold registeredMedia
  dsimp only
  split
  · exact appendGetUrls_of_validateAppends hpost.labels
      ((validateAppends_congr (by simp) _).trans happends)
  · obtain ⟨t, ht⟩ : ∃ t, timerangeUnionStrings mt
        [(referencedBy f .media m).timerange, some effective] = .ok t := by
      refine timerangeUnionStrings_exists fun t ht => ?_
      rcases List.mem_cons.mp ht with ht | ht
      · exact hm.parses L (by simpa using ht.symm)
      · obtain rfl : t = effective := by simpa using ht
        exact heffective
    rw [ht, Lib.ok_bind]
    exact appendGetUrls_of_validateAppends hpost.labels
      ((validateAppends_congr (by simp) _).trans happends)

theorem prepare_badRequest (L : mt.Lawful) (hpost : ValidPost mt post b) {objects : ObjectsById}
    (hobjects : ∀ o obj, objects.get o = some obj → ObjectOk mt obj) (flow : FlowRecord)
    (locked : List ObjectId) (checks : UploadChecks) (rd : Readings) (known : List mt.TimeRange) :
    OnlyBadRequest
      (prepareSegmentRegistrationOrRaise mt flow locked checks rd known objects post) := by
  obtain ⟨r, hr⟩ := hpost.range
  unfold prepareSegmentRegistrationOrRaise
  refine bind ?_ fun range _ => ?_
  · simp only [ensureSegmentTimerangeIsAvailable, hr.parsed, Lib.ok_bind]
    split
    · exact error _
    · exact ok _
  dsimp only
  split
  · exact error _
  refine bind (loadMediaObject_badRequest checks rd flow.id objects post)
    fun ⟨m₁, existing⟩ hload => ?_
  obtain ⟨-, hk₁⟩ := loadMediaObject_ok hobjects hload
  refine bind (matchContentType_badRequest flow m₁) fun m₂ hcontent => ?_
  obtain ⟨-, hk₂⟩ := matchContentType_ok hk₁ hcontent
  refine bind (resolveInitObject_badRequest checks rd flow objects locked post m₂ existing)
    fun ⟨m₃, init⟩ hinit => ?_
  obtain ⟨⟨-, hk₃⟩, -⟩ := resolveInitObject_ok hobjects hk₂ hinit
  refine bind (validateAppends_badRequest m₃ _) fun _ happends => ?_
  obtain ⟨heffective, hparsed⟩ := effectiveObjectTimerange_badRequest L hpost
    (fun _ => hk₃.ok.parses L) existing
  refine bind heffective fun effective heff => ?_
  exact bind (of_ok (registeredMedia_exists L hpost hk₃.ok (hparsed effective heff)
    happends)) fun _ _ => ok _

end Tamoss
