/-
  **Advanced resource patches and the identity of the objects they patch.**

  `applyAdvancedResourcePatches` of `internal/controller/advanced_patches.go`: the JSON merge
  patches of a Tamoss are applied, one after the other, to every object the operator emits that
  they target.
-/
import Mathlib.Data.List.TakeWhile
import Tamoss.Lib.Json
import Tamoss.Operator.Artifacts

namespace Tamoss.Operator

open Lib

/-! ## Managed objects -/

structure GroupVersionKind where
  group : String
  version : String
  kind : String
deriving DecidableEq

def GroupVersionKind.apiVersion (gvk : GroupVersionKind) : String :=
  if gvk.group = "" then gvk.version else gvk.group ++ "/" ++ gvk.version

def parseGroupVersion (text : String) : Option (String × String) :=
  if text = "/" then some ("", "")
  else
    match text.toList.dropWhile (· ≠ '/') with
    | [] => some ("", text)
    | _ :: version =>
        if '/' ∈ version then none
        else some (String.ofList (text.toList.takeWhile (· ≠ '/')), String.ofList version)

structure OwnerReference where
  apiVersion : String
  kind : String
  name : String
  uid : String
  controller : Option Bool
  blockOwnerDeletion : Option Bool
deriving DecidableEq

def extractOwnerReference (v : Members) : OwnerReference where
  apiVersion := Json.text (v.get "apiVersion")
  kind := Json.text (v.get "kind")
  name := Json.text (v.get "name")
  uid := Json.text (v.get "uid")
  controller := Json.truth (v.get "controller")
  blockOwnerDeletion := Json.truth (v.get "blockOwnerDeletion")

def ownerReferences : List Json → Option (List OwnerReference)
  | [] => some []
  | .obj v :: rest => (ownerReferences rest).map (extractOwnerReference v :: ·)
  | _ :: _ => none

/-- The fields of `metav1.ObjectMeta` that identify an object. -/
structure ObjectMeta where
  name : String
  namespaceName : String
  ownerReferences : List OwnerReference
deriving DecidableEq

/-- What the accessors of an unstructured object read in its `metadata`. -/
def ObjectMeta.ofMetadata (metadata : Option Json) : ObjectMeta where
  name := Json.text ((Json.members metadata).get "name")
  namespaceName := Json.text ((Json.members metadata).get "namespace")
  ownerReferences :=
    match (Json.members metadata).get "ownerReferences" with
    | some (.arr items) => (Operator.ownerReferences items).getD []
    | _ => []

/-- `runtime.DefaultUnstructuredConverter` and the scheme, for the Go types of the typed
    objects. -/
structure Converter (T : Type) where
  /-- the kind that the scheme registers for the object's Go type -/
  gvk : T → GroupVersionKind
  objectMeta : T → ObjectMeta
  toUnstructured : T → Except String Members
  /-- decoding into the object -/
  fromUnstructured : Members → T → Except String T

/-- What the converter documents about `metadata`: encoding writes it as an object that reads
    back as it was; decoding leaves the Go type as it is, sets what the map has and clears
    what it does not have. -/
structure Converter.Lawful {T : Type} (conv : Converter T) : Prop where
  encodes : ∀ {o m}, conv.toUnstructured o = .ok m →
    ∃ md, m.get "metadata" = some (.obj md) ∧
      ObjectMeta.ofMetadata (some (.obj md)) = conv.objectMeta o
  decodesType : ∀ {o m o'}, conv.fromUnstructured m o = .ok o' → conv.gvk o' = conv.gvk o
  decodesMetadata : ∀ {o m o'}, conv.fromUnstructured m o = .ok o' →
    conv.objectMeta o' = ObjectMeta.ofMetadata (m.get "metadata")

inductive ManagedObject (T : Type) where
  | typed (object : T)
  | unstructured (object : Members)

variable {T : Type} (conv : Converter T)

def unstructuredGVK (object : Members) : GroupVersionKind :=
  match parseGroupVersion (Json.text (object.get "apiVersion")) with
  | none => ⟨"", "", ""⟩
  | some (group, version) => ⟨group, version, Json.text (object.get "kind")⟩

def ManagedObject.gvk : ManagedObject T → GroupVersionKind
  | .typed o => conv.gvk o
  | .unstructured object => unstructuredGVK object

/-- `canonicalObjectGVK`; the source panics for an unstructured object without kind or
    version. -/
def canonicalObjectGVK (obj : ManagedObject T) : Except String GroupVersionKind :=
  match obj with
  | .typed o => .ok (conv.gvk o)
  | .unstructured object =>
      let gvk := unstructuredGVK object
      if gvk.kind = "" then .error "Object 'Kind' is missing"
      else if gvk.version = "" then .error "Object 'apiVersion' is missing"
      else .ok gvk

def ManagedObject.objectMeta : ManagedObject T → ObjectMeta
  | .typed o => conv.objectMeta o
  | .unstructured object => ObjectMeta.ofMetadata (object.get "metadata")

/-- `ensureTypeMeta`.  The Go type of a typed object fixes its kind, so only the JSON form of
    an unstructured one shows the difference. -/
def ensureTypeMeta : ManagedObject T → Except String (ManagedObject T)
  | .typed o => .ok (.typed o)
  | .unstructured object => do
      let gvk ← canonicalObjectGVK conv (.unstructured object)
      return .unstructured ((object.set "apiVersion" (.str gvk.apiVersion)).set "kind"
        (.str gvk.kind))

/-! ## Patches -/

structure PatchTarget where
  apiVersion : String
  kind : String
  name : String
deriving DecidableEq

/-- The raw bytes of a patch: none, bytes that are no JSON text, or a JSON text. -/
inductive RawPatch where
  | empty
  | malformed (error : String)
  | json (value : Json)

structure AdvancedResourcePatch where
  target : PatchTarget
  patch : RawPatch

def validateAdvancedResourcePatchTarget (target : PatchTarget) : Except String Unit :=
  if trimSpace target.kind.toList = [] then .error "advanced resource patch target kind is required"
  else if trimSpace target.name.toList = [] then
    .error "advanced resource patch target name is required"
  else .ok ()

def advancedResourcePatchMatches (target : PatchTarget) (gvk : GroupVersionKind)
    (name : String) : Bool :=
  if target.kind ≠ gvk.kind ∨ target.name ≠ name then false
  else if target.apiVersion = "" then true
  else target.apiVersion = gvk.apiVersion

/-- `json.Unmarshal` into a `map[string]interface{}`: null leaves the map empty. -/
def unmarshalPatch : RawPatch → Except String Members
  | .empty => .error "unexpected end of JSON input"
  | .malformed error => .error error
  | .json (.obj members) => .ok (Json.decodedMembers [] members)
  | .json .null => .ok []
  | .json (.bool _) => .error "json: cannot unmarshal bool into Go value of type map"
  | .json (.num _) => .error "json: cannot unmarshal number into Go value of type map"
  | .json (.str _) => .error "json: cannot unmarshal string into Go value of type map"
  | .json (.arr _) => .error "json: cannot unmarshal array into Go value of type map"

def firstSet (fields : List String) (m : Members) : Option String :=
  fields.find? (fun field => (m.get field).isSome)

def validateAdvancedResourcePatch (patch : Members) : Except String Unit :=
  match firstSet ["apiVersion", "kind"] patch with
  | some field => .error ("advanced resource patch must not set " ++ field)
  | none =>
      match patch.get "metadata" with
      | some (.obj metadata) =>
          match firstSet ["name", "namespace", "ownerReferences"] metadata with
          | some field => .error ("advanced resource patch must not set metadata." ++ field)
          | none => .ok ()
      | _ => .ok ()

mutual

def mergeJSONMap (target : Members) : Members → Members
  | [] => target
  | (key, value) :: rest => mergeJSONMap (mergeMember target key value) rest
termination_by structural patch => patch

/-- One pass of the loop of `mergeJSONMap`: null deletes, an object is merged into an object,
    and any other value replaces what is there. -/
def mergeMember (target : Members) (key : String) : Json → Members
  | .null => target.erase key
  | .obj patchMap =>
      match target.get key with
      | some (.obj targetMap) => target.set key (.obj (mergeJSONMap targetMap patchMap))
      | _ => target.set key (.obj patchMap)
  | value => target.set key value
termination_by structural value => value

end

def applyAdvancedResourcePatch (obj : ManagedObject T) (raw : RawPatch) :
    Except String (ManagedObject T) := do
  let patch ← (unmarshalPatch raw).mapError ("decode JSON merge patch: " ++ ·)
  if patch.isEmpty then
    return obj
  validateAdvancedResourcePatch patch
  match obj with
  | .unstructured object => return .unstructured (mergeJSONMap object patch)
  | .typed o =>
      let current ← conv.toUnstructured o
      let decoded ← conv.fromUnstructured (mergeJSONMap current patch) o
      ensureTypeMeta conv (.typed decoded)

def applyEach : List AdvancedResourcePatch → ManagedObject T → Except String (ManagedObject T)
  | [], obj => .ok obj
  | patch :: rest, obj => do
      validateAdvancedResourcePatchTarget patch.target
      let gvk ← canonicalObjectGVK conv obj
      let name := (obj.objectMeta conv).name
      if !advancedResourcePatchMatches patch.target gvk name then
        applyEach rest obj
      else
        match patch.patch with
        | .empty => applyEach rest obj
        | raw => do
            let obj ← (applyAdvancedResourcePatch conv obj raw).mapError
              ("apply advanced resource patch to " ++ gvk.kind ++ "/" ++ name ++ ": " ++ ·)
            applyEach rest obj

def applyAdvancedResourcePatches (resourcePatches : List AdvancedResourcePatch)
    (obj : ManagedObject T) : Except String (ManagedObject T) :=
  if resourcePatches.isEmpty then .ok obj
  else do
    let obj ← ensureTypeMeta conv obj
    applyEach conv resourcePatches obj

/-! ## What a merge does to one member -/

def mergedValue : Option Json → Option Json → Option Json
  | before, none => before
  | _, some .null => none
  | some (.obj targetMap), some (.obj patchMap) => some (.obj (mergeJSONMap targetMap patchMap))
  | _, some value => some value

@[simp] theorem mergedValue_none (before : Option Json) : mergedValue before none = before := by
  cases before <;> rfl

theorem get_mergeMember_self (target : Members) (key : String) (value : Json) :
    (mergeMember target key value).get key = mergedValue (target.get key) (some value) := by
  cases value with
  | null => simp [mergeMember, mergedValue]
  | obj patchMap =>
    rw [mergeMember]
    split
    · rename_i targetMap h
      rw [h, Members.get_set_self, mergedValue]
    · rename_i h
      rw [Members.get_set_self]
      cases hbefore : target.get key with
      | none => rfl
      | some before =>
        cases before with
        | obj targetMap => exact absurd hbefore (h targetMap)
        | _ => rfl
  | _ => cases target.get key <;> simp [mergeMember, mergedValue]

theorem get_mergeMember_ne {key k : String} (h : k ≠ key) (target : Members) (value : Json) :
    (mergeMember target k value).get key = target.get key := by
  cases value with
  | null => rw [mergeMember, Members.get_erase_ne h]
  | obj patchMap =>
    rw [mergeMember]
    split
    · exact Members.get_set_ne h _ _
    · exact Members.get_set_ne h _ _
  | _ => exact Members.get_set_ne h _ _

variable {patch : Members}

theorem get_mergeJSONMap_of_not_mem {key : String} (h : key ∉ patch.names) (target : Members) :
    (mergeJSONMap target patch).get key = target.get key := by
  induction patch generalizing target with
  | nil => rfl
  | cons member rest ih =>
    obtain ⟨k, value⟩ := member
    simp only [Members.names, List.map_cons, List.mem_cons, not_or] at h
    rw [mergeJSONMap, ih h.2, get_mergeMember_ne (Ne.symm h.1)]

/-- **A merge, member by member.**  In a patch without repeated names each member acts on the
    member of its name and on no other. -/
theorem get_mergeJSONMap (h : patch.names.Nodup) (target : Members) (key : String) :
    (mergeJSONMap target patch).get key = mergedValue (target.get key) (patch.get key) := by
  induction patch generalizing target with
  | nil => simp [mergeJSONMap]
  | cons member rest ih =>
    obtain ⟨k, value⟩ := member
    have hnodup := List.nodup_cons.mp h
    rw [mergeJSONMap]
    by_cases hk : k = key
    · subst hk
      rw [get_mergeJSONMap_of_not_mem hnodup.1, get_mergeMember_self, Members.get_cons_self]
    · rw [ih hnodup.2, get_mergeMember_ne hk, Members.get_cons_ne hk]

/-! ## Identity -/

structure Identity where
  apiVersion : String
  kind : String
  objectMeta : ObjectMeta
deriving DecidableEq

def ManagedObject.identity (obj : ManagedObject T) : Identity where
  apiVersion := (obj.gvk conv).apiVersion
  kind := (obj.gvk conv).kind
  objectMeta := obj.objectMeta conv

def keepsMetadata (patch : Members) : Bool :=
  match patch.get "metadata" with
  | none => true
  | some (.obj _) => true
  | some _ => false

def RawPatch.keepsMetadata : RawPatch → Bool
  | .json (.obj members) => Operator.keepsMetadata (Json.decodedMembers [] members)
  | _ => true

def AdvancedResourcePatch.targets (patch : AdvancedResourcePatch) (obj : ManagedObject T) :
    Bool :=
  advancedResourcePatchMatches patch.target (obj.gvk conv) (obj.objectMeta conv).name

/-! ### The kind of an object -/

variable {gvk : GroupVersionKind}

theorem canonicalObjectGVK_ok {obj : ManagedObject T}
    (h : canonicalObjectGVK conv obj = .ok gvk) : gvk = obj.gvk conv := by
  cases obj with
  | typed o =>
    simp only [canonicalObjectGVK, Except.ok.injEq] at h
    exact h.symm
  | unstructured object =>
    simp only [canonicalObjectGVK] at h
    split at h
    · simp at h
    · split at h
      · simp at h
      · simp only [Except.ok.injEq] at h
        exact h.symm

variable {object : Members}

theorem canonicalObjectGVK_version
    (h : canonicalObjectGVK conv (.unstructured object) = .ok gvk) : gvk.version ≠ "" := by
  simp only [canonicalObjectGVK] at h
  split at h
  · simp at h
  · split at h
    · simp at h
    · rename_i hversion
      simp only [Except.ok.injEq] at h
      rw [← h]
      exact hversion

theorem parseGroupVersion_of_not_mem {text : String} (h : '/' ∉ text.toList) :
    parseGroupVersion text = some ("", text) := by
  have hne : text ≠ "/" := by
    intro heq
    subst heq
    exact h (by decide)
  have hdrop : text.toList.dropWhile (· ≠ '/') = [] := by
    apply List.dropWhile_eq_nil_iff.mpr
    intro c hc
    apply decide_eq_true
    intro heq
    exact h (heq ▸ hc)
  rw [parseGroupVersion, if_neg hne, hdrop]

theorem parseGroupVersion_slash {group version : String} (hgroup : '/' ∉ group.toList)
    (hversion : '/' ∉ version.toList) (hne : group ≠ "") :
    parseGroupVersion (group ++ "/" ++ version) = some (group, version) := by
  have hlist : (group ++ "/" ++ version).toList = group.toList ++ '/' :: version.toList := by
    simp
  have hslash : group ++ "/" ++ version ≠ "/" := by
    intro heq
    have hlen := congrArg (fun t => t.toList.length) heq
    simp only [hlist] at hlen
    apply hne
    rw [← String.toList_eq_nil_iff]
    apply List.length_eq_zero_iff.mp
    simp at hlen
    omega
  have hall : ∀ c ∈ group.toList, decide (c ≠ '/') = true := by
    intro c hc
    apply decide_eq_true
    intro heq
    exact hgroup (heq ▸ hc)
  rw [parseGroupVersion, if_neg hslash, hlist, List.dropWhile_append_of_pos hall,
    List.takeWhile_append_of_pos hall]
  simp [hversion]

variable {text group version : String}

theorem parseGroupVersion_spec (h : parseGroupVersion text = some (group, version)) :
    '/' ∉ group.toList ∧ '/' ∉ version.toList := by
  unfold parseGroupVersion at h
  split at h
  · simp only [Option.some.injEq, Prod.mk.injEq] at h
    rw [← h.1, ← h.2]
    decide
  · split at h
    · rename_i hdrop
      simp only [Option.some.injEq, Prod.mk.injEq] at h
      obtain ⟨rfl, rfl⟩ := h
      constructor
      · decide
      · intro hmem
        have hall := List.dropWhile_eq_nil_iff.mp hdrop '/' hmem
        simp at hall
    · split at h
      · simp at h
      · rename_i hrest
        simp only [Option.some.injEq, Prod.mk.injEq] at h
        obtain ⟨rfl, rfl⟩ := h
        constructor
        · intro hmem
          rw [String.toList_ofList] at hmem
          have hslash := List.mem_takeWhile_imp hmem
          simp at hslash
        · rw [String.toList_ofList]
          exact hrest

theorem parseGroupVersion_apiVersion
    (h : parseGroupVersion text = some (group, version)) (kind : String) :
    parseGroupVersion (GroupVersionKind.apiVersion ⟨group, version, kind⟩) =
      some (group, version) := by
  obtain ⟨hgroup, hversion⟩ := parseGroupVersion_spec h
  unfold GroupVersionKind.apiVersion
  dsimp only
  split
  · rename_i hempty
    rw [hempty, parseGroupVersion_of_not_mem hversion]
  · rename_i hne
    exact parseGroupVersion_slash hgroup hversion hne

variable {obj obj' : ManagedObject T}

theorem ensureTypeMeta_ok (h : ensureTypeMeta conv obj = .ok obj') :
    obj'.gvk conv = obj.gvk conv ∧ obj'.objectMeta conv = obj.objectMeta conv := by
  cases obj with
  | typed o =>
    simp only [ensureTypeMeta, Except.ok.injEq] at h
    rw [← h]
    exact ⟨rfl, rfl⟩
  | unstructured object =>
    simp only [ensureTypeMeta, bind, Except.bind] at h
    split at h
    · simp at h
    · rename_i gvk hgvk
      simp only [pure, Except.pure, Except.ok.injEq] at h
      have hversion := canonicalObjectGVK_version conv hgvk
      have hgvk := canonicalObjectGVK_ok conv hgvk
      simp only [ManagedObject.gvk] at hgvk
      subst h
      constructor
      · -- the texts that are written parse to the kind they were made of
        have hkind : ManagedObject.gvk conv (.unstructured ((object.set "apiVersion"
            (.str gvk.apiVersion)).set "kind" (.str gvk.kind))) =
            match parseGroupVersion gvk.apiVersion with
            | none => ⟨"", "", ""⟩
            | some (group, version) => ⟨group, version, gvk.kind⟩ := by
          rw [ManagedObject.gvk, unstructuredGVK, Members.get_set_self,
            Members.get_set_ne (by decide), Members.get_set_self]
          rfl
        rw [hkind]
        cases hparse : parseGroupVersion (Json.text (object.get "apiVersion")) with
        | none =>
          simp only [unstructuredGVK, hparse] at hgvk
          rw [hgvk] at hversion
          exact absurd rfl hversion
        | some parsed =>
          obtain ⟨group, version⟩ := parsed
          simp only [unstructuredGVK, hparse] at hgvk
          rw [hgvk, parseGroupVersion_apiVersion hparse]
          simp only [ManagedObject.gvk, unstructuredGVK, hparse]
      · simp only [ManagedObject.objectMeta,
          Members.get_set_ne (show "kind" ≠ "metadata" by decide),
          Members.get_set_ne (show "apiVersion" ≠ "metadata" by decide)]

/-! ### One patch -/

variable {raw : RawPatch}

theorem unmarshalPatch_nodup (h : unmarshalPatch raw = .ok patch) : patch.names.Nodup := by
  unfold unmarshalPatch at h
  split at h <;> simp only [Except.ok.injEq, reduceCtorEq] at h
  · rw [← h]
    exact Json.nodup_decodedMembers Members.nodup_names_nil _
  · rw [← h]
    exact List.nodup_nil

theorem firstSet_eq_none {fields : List String} {m : Members} :
    firstSet fields m = none ↔ ∀ field ∈ fields, m.get field = none := by
  simp [firstSet]

theorem validateAdvancedResourcePatch_ok (h : validateAdvancedResourcePatch patch = .ok ()) :
    (∀ field ∈ ["apiVersion", "kind"], patch.get field = none) ∧
      ∀ metadata : Members, patch.get "metadata" = some (.obj metadata) →
        ∀ field ∈ ["name", "namespace", "ownerReferences"], metadata.get field = none := by
  unfold validateAdvancedResourcePatch at h
  split at h
  · simp at h
  · rename_i hfields
    refine ⟨firstSet_eq_none.mp hfields, ?_⟩
    intro metadata hmetadata
    rw [hmetadata] at h
    dsimp only at h
    split at h
    · simp at h
    · rename_i hnone
      exact firstSet_eq_none.mp hnone

theorem ofMetadata_merged {metadata : Members}
    (h : ∀ field ∈ ["name", "namespace", "ownerReferences"], metadata.get field = none)
    (target : Members) : ObjectMeta.ofMetadata (some (.obj (mergeJSONMap target metadata))) =
      ObjectMeta.ofMetadata (some (.obj target)) := by
  have hkeeps : ∀ field ∈ ["name", "namespace", "ownerReferences"],
      (mergeJSONMap target metadata).get field = target.get field := by
    intro field hfield
    exact get_mergeJSONMap_of_not_mem (Members.get_eq_none.mp (h field hfield)) target
  simp only [ObjectMeta.ofMetadata, Json.members, hkeeps "name" (by simp),
    hkeeps "namespace" (by simp), hkeeps "ownerReferences" (by simp)]

theorem ofMetadata_name_of_members {metadata : Option Json} (h : Json.members metadata = []) :
    (ObjectMeta.ofMetadata metadata).name = "" := by
  simp [ObjectMeta.ofMetadata, h, Json.text]

theorem merged_metadata {object patch : Members} (hnodup : patch.names.Nodup)
    (hvalid : validateAdvancedResourcePatch patch = .ok ()) {md : Members}
    (hmd : object.get "metadata" = some (.obj md)) :
    if keepsMetadata patch then
      ObjectMeta.ofMetadata ((mergeJSONMap object patch).get "metadata") =
        ObjectMeta.ofMetadata (some (.obj md)) else
      (ObjectMeta.ofMetadata ((mergeJSONMap object patch).get "metadata")).name = "" := by
  rw [get_mergeJSONMap hnodup, hmd, keepsMetadata]
  cases hvalue : patch.get "metadata" with
  | none => simp
  | some value =>
    cases value with
    | obj fields =>
      simp only [mergedValue, if_true]
      exact ofMetadata_merged ((validateAdvancedResourcePatch_ok hvalid).2 fields hvalue) md
    | _ => simp [mergedValue, ObjectMeta.ofMetadata, Json.members, Json.text]

theorem merged_gvk {object patch : Members}
    (hvalid : validateAdvancedResourcePatch patch = .ok ()) :
    unstructuredGVK (mergeJSONMap object patch) = unstructuredGVK object := by
  have hkeeps : ∀ field ∈ ["apiVersion", "kind"],
      (mergeJSONMap object patch).get field = object.get field := by
    intro field hfield
    have hnone := (validateAdvancedResourcePatch_ok hvalid).1 field hfield
    exact get_mergeJSONMap_of_not_mem (Members.get_eq_none.mp hnone) object
  simp only [unstructuredGVK, hkeeps "apiVersion" (by simp), hkeeps "kind" (by simp)]

theorem metadata_of_name (h : (ObjectMeta.ofMetadata (object.get "metadata")).name ≠ "") :
    ∃ md, object.get "metadata" = some (.obj md) := by
  cases hmd : object.get "metadata" with
  | none => exact absurd (ofMetadata_name_of_members rfl) (hmd ▸ h)
  | some value =>
    cases value with
    | obj md => exact ⟨md, rfl⟩
    | _ => exact absurd (ofMetadata_name_of_members rfl) (hmd ▸ h)

variable {conv}

theorem mapError_ok {α : Type} {f : String → String} {x : Except String α} {a : α}
    (h : x.mapError f = .ok a) : x = .ok a := by
  cases x with
  | error e => simp [Except.mapError] at h
  | ok b => simpa [Except.mapError] using h

theorem applyAdvancedResourcePatch_cases (h : applyAdvancedResourcePatch conv obj raw = .ok obj') :
    ∃ patch, unmarshalPatch raw = .ok patch ∧ (patch = [] ∧ obj' = obj ∨
      validateAdvancedResourcePatch patch = .ok () ∧
        ((∃ object, obj = .unstructured object ∧
            obj' = .unstructured (mergeJSONMap object patch)) ∨
          ∃ o current o', obj = .typed o ∧ conv.toUnstructured o = .ok current ∧
            conv.fromUnstructured (mergeJSONMap current patch) o = .ok o' ∧
            obj' = .typed o')) := by
  simp only [applyAdvancedResourcePatch, bind, Except.bind, pure, Except.pure] at h
  split at h
  · simp at h
  · rename_i patch hpatch
    refine ⟨patch, mapError_ok hpatch, ?_⟩
    split at h
    · rename_i hempty
      left
      exact ⟨List.isEmpty_iff.mp hempty, by simpa using h.symm⟩
    · right
      split at h
      · simp at h
      · rename_i hvalid
        refine ⟨hvalid, ?_⟩
        cases obj with
        | unstructured object =>
          left
          exact ⟨object, rfl, by simpa using h.symm⟩
        | typed o =>
          right
          dsimp only at h
          split at h
          · simp at h
          · rename_i current hcurrent
            split at h
            · simp at h
            · rename_i o' ho'
              exact ⟨o, current, o', rfl, hcurrent, ho', by simpa [ensureTypeMeta] using h.symm⟩

theorem keepsMetadata_of_unmarshal
    (h : unmarshalPatch raw = .ok patch) : raw.keepsMetadata = keepsMetadata patch := by
  unfold unmarshalPatch at h
  split at h <;> simp only [Except.ok.injEq, reduceCtorEq] at h
  · rw [← h]
    rfl
  · rw [← h]
    rfl

/-- **One patch.**  The kind stays; the rest of the identity stays if the patch leaves
    `metadata` an object, and otherwise the name is gone. -/
theorem applyAdvancedResourcePatch_ok (hconv : conv.Lawful)
    (hname : (obj.objectMeta conv).name ≠ "")
    (h : applyAdvancedResourcePatch conv obj raw = .ok obj') : obj'.gvk conv = obj.gvk conv ∧
      if raw.keepsMetadata then obj'.objectMeta conv = obj.objectMeta conv
      else (obj'.objectMeta conv).name = "" := by
  obtain ⟨patch, hpatch, ⟨rfl, rfl⟩ | ⟨hvalid, hobj⟩⟩ := applyAdvancedResourcePatch_cases h
  · rw [keepsMetadata_of_unmarshal hpatch]
    exact ⟨rfl, rfl⟩
  · have hnodup := unmarshalPatch_nodup hpatch
    rw [keepsMetadata_of_unmarshal hpatch]
    rcases hobj with ⟨object, rfl, rfl⟩ | ⟨o, current, o', rfl, hcurrent, ho', rfl⟩
    · obtain ⟨md, hmd⟩ := metadata_of_name hname
      have hmerged := merged_metadata hnodup hvalid hmd
      refine ⟨merged_gvk hvalid, ?_⟩
      simp only [ManagedObject.objectMeta]
      split
      · rename_i hkeeps
        rw [if_pos hkeeps, ← hmd] at hmerged
        exact hmerged
      · rename_i hkeeps
        rw [if_neg hkeeps] at hmerged
        exact hmerged
    · obtain ⟨md, hmd, hmeta⟩ := hconv.encodes hcurrent
      have hmerged := merged_metadata hnodup hvalid hmd
      refine ⟨hconv.decodesType ho', ?_⟩
      simp only [ManagedObject.objectMeta, hconv.decodesMetadata ho']
      split
      · rename_i hkeeps
        rw [if_pos hkeeps] at hmerged
        exact hmerged.trans hmeta
      · rename_i hkeeps
        rw [if_neg hkeeps] at hmerged
        exact hmerged

/-! ### The list of patches -/

variable {target : PatchTarget}

theorem validateAdvancedResourcePatchTarget_ok
    (h : validateAdvancedResourcePatchTarget target = .ok ()) : target.name ≠ "" := by
  intro hname
  rw [validateAdvancedResourcePatchTarget, hname] at h
  split at h
  · simp at h
  · simp [trimSpace] at h

theorem advancedResourcePatchMatches_name
    {name : String} (h : advancedResourcePatchMatches target gvk name = true) :
    target.name = name := by
  unfold advancedResourcePatchMatches at h
  split at h
  · simp at h
  · rename_i hsame
    exact not_not.mp fun hne => hsame (Or.inr hne)

theorem applyEach_cons {patch : AdvancedResourcePatch} {rest : List AdvancedResourcePatch}
    (h : applyEach conv (patch :: rest) obj = .ok obj') : patch.target.name ≠ "" ∧
      ((patch.targets conv obj = false ∨ patch.patch = .empty) ∧
          applyEach conv rest obj = .ok obj' ∨
        patch.targets conv obj = true ∧ ∃ next,
          applyAdvancedResourcePatch conv obj patch.patch = .ok next ∧
          applyEach conv rest next = .ok obj') := by
  simp only [applyEach, bind, Except.bind] at h
  split at h
  · simp at h
  · rename_i htarget
    refine ⟨validateAdvancedResourcePatchTarget_ok htarget, ?_⟩
    split at h
    · simp at h
    · rename_i gvk hgvk
      have hgvk := canonicalObjectGVK_ok conv hgvk
      subst hgvk
      split at h
      · rename_i hmiss
        left
        exact ⟨Or.inl (by simpa [AdvancedResourcePatch.targets] using hmiss), h⟩
      · rename_i hmatch
        split at h
        · rename_i hempty
          left
          exact ⟨Or.inr hempty, h⟩
        · split at h
          · simp at h
          · rename_i next hnext
            right
            refine ⟨by simpa [AdvancedResourcePatch.targets] using hmatch, next, ?_, h⟩
            exact mapError_ok hnext

theorem targets_of_no_name {patch : AdvancedResourcePatch} {obj : ManagedObject T}
    (hpatch : patch.target.name ≠ "") (hname : (obj.objectMeta conv).name = "") :
    patch.targets conv obj = false := by
  by_contra h
  apply hpatch
  rw [← hname]
  exact advancedResourcePatchMatches_name (by simpa [AdvancedResourcePatch.targets] using h)

variable {patches : List AdvancedResourcePatch}

theorem applyEach_of_no_name
    (hname : (obj.objectMeta conv).name = "") (h : applyEach conv patches obj = .ok obj') :
    obj' = obj := by
  induction patches with
  | nil => simpa [applyEach] using h.symm
  | cons patch rest ih =>
    obtain ⟨hpatch, ⟨-, hrest⟩ | ⟨htargets, -⟩⟩ := applyEach_cons h
    · exact ih hrest
    · rw [targets_of_no_name hpatch hname] at htargets
      simp at htargets

/-- **The list of patches.**  The kind stays, and the rest of the identity stays exactly if
    every patch meant for the object leaves `metadata` an object. -/
theorem applyEach_ok (hconv : conv.Lawful) (h : applyEach conv patches obj = .ok obj') :
    obj'.gvk conv = obj.gvk conv ∧ (obj'.objectMeta conv = obj.objectMeta conv ↔
      ∀ patch ∈ patches, patch.targets conv obj = true → patch.patch.keepsMetadata = true) := by
  induction patches generalizing obj with
  | nil =>
    have hsame : obj' = obj := by simpa [applyEach] using h.symm
    subst hsame
    simp
  | cons patch rest ih =>
    obtain ⟨hpatch, ⟨hskip, hrest⟩ | ⟨htargets, next, hnext, hrest⟩⟩ := applyEach_cons h
    · -- the patch does not apply: it says nothing about the object
      have hfirst : patch.targets conv obj = true → patch.patch.keepsMetadata = true := by
        intro htargets
        rcases hskip with hmiss | hempty
        · rw [hmiss] at htargets
          simp at htargets
        · rw [hempty]
          rfl
      obtain ⟨hgvk, hiff⟩ := ih hrest
      refine ⟨hgvk, hiff.trans ?_⟩
      simp only [List.forall_mem_cons]
      exact ⟨fun hall => ⟨hfirst, hall⟩, fun hall => hall.2⟩
    · have hname : (obj.objectMeta conv).name ≠ "" := by
        intro hname
        rw [targets_of_no_name hpatch hname] at htargets
        simp at htargets
      obtain ⟨hgvk, hmeta⟩ := applyAdvancedResourcePatch_ok hconv hname hnext
      by_cases hkeeps : patch.patch.keepsMetadata = true
      · -- the identity is still the same, so the rest of the list targets the same object
        rw [if_pos hkeeps] at hmeta
        have htarget : ∀ p : AdvancedResourcePatch, p.targets conv next = p.targets conv obj := by
          intro p
          simp only [AdvancedResourcePatch.targets, hgvk, hmeta]
        obtain ⟨hgvk', hiff⟩ := ih hrest
        refine ⟨hgvk'.trans hgvk, ?_⟩
        rw [← hmeta, hiff]
        simp only [List.forall_mem_cons, htarget]
        exact ⟨fun hall => ⟨fun _ => hkeeps, hall⟩, fun hall => hall.2⟩
      · -- the name is gone, and stays gone
        rw [if_neg hkeeps] at hmeta
        have hsame := applyEach_of_no_name hmeta hrest
        subst hsame
        refine ⟨hgvk, ?_⟩
        constructor
        · intro heq
          rw [heq] at hmeta
          exact absurd hmeta hname
        · intro hall
          exact absurd (hall patch List.mem_cons_self htargets) hkeeps

/-! ## A converter

Typed objects that have nothing but their metadata, to apply the results to. -/

def OwnerReference.encoded (owner : OwnerReference) : Members :=
  [("apiVersion", .str owner.apiVersion), ("kind", .str owner.kind), ("name", .str owner.name),
    ("uid", .str owner.uid)] ++
  (owner.controller.map fun b => ("controller", Json.bool b)).toList ++
  (owner.blockOwnerDeletion.map fun b => ("blockOwnerDeletion", Json.bool b)).toList

def ObjectMeta.encoded (shown : ObjectMeta) : Members :=
  [("name", .str shown.name), ("namespace", .str shown.namespaceName),
    ("ownerReferences", .arr (shown.ownerReferences.map fun owner => .obj owner.encoded))]

def metadataOnly : Converter (GroupVersionKind × ObjectMeta) where
  gvk o := o.1
  objectMeta o := o.2
  toUnstructured o := .ok [("metadata", .obj o.2.encoded)]
  fromUnstructured m o := .ok (o.1, ObjectMeta.ofMetadata (m.get "metadata"))

theorem extractOwnerReference_encoded (owner : OwnerReference) :
    extractOwnerReference owner.encoded = owner := by
  obtain ⟨apiVersion, kind, name, uid, controller, blockOwnerDeletion⟩ := owner
  cases controller <;> cases blockOwnerDeletion <;> rfl

theorem ownerReferences_encoded (owners : List OwnerReference) :
    ownerReferences (owners.map fun owner => .obj owner.encoded) = some owners := by
  induction owners with
  | nil => rfl
  | cons owner owners ih =>
    simp only [List.map_cons, ownerReferences, ih, extractOwnerReference_encoded, Option.map_some]

theorem metadataOnly_lawful : metadataOnly.Lawful where
  encodes := by
    intro o m h
    simp only [metadataOnly, Except.ok.injEq] at h
    subst h
    refine ⟨o.2.encoded, rfl, ?_⟩
    simp [ObjectMeta.ofMetadata, ObjectMeta.encoded, Json.members, Members.get, Json.text,
      metadataOnly, ownerReferences_encoded]
  decodesType := by
    intro o m o' h
    simp only [metadataOnly, Except.ok.injEq] at h
    subst h
    rfl
  decodesMetadata := by
    intro o m o' h
    simp only [metadataOnly, Except.ok.injEq] at h
    subst h
    rfl

def ownedMeta : ObjectMeta where
  name := "demo-db"
  namespaceName := "media"
  ownerReferences :=
    [⟨"tamoss.livewyer.io/v1alpha1", "Tamoss", "demo", "7d0c", some true, some true⟩]

def typedService : ManagedObject (GroupVersionKind × ObjectMeta) :=
  .typed (⟨"", "v1", "Service"⟩, ownedMeta)

def unstructuredService : ManagedObject (GroupVersionKind × ObjectMeta) :=
  .unstructured [("apiVersion", .str "v1"), ("kind", .str "Service"),
    ("metadata", .obj ownedMeta.encoded)]

def servicePatch (metadata : Json) : AdvancedResourcePatch where
  target := ⟨"v1", "Service", "demo-db"⟩
  patch := .json (.obj [("metadata", metadata)])

/-! ## The result -/

/-- **Advanced patches and identity.**  When the patches of a Tamoss have been applied to an
    object, it has the API version, kind, name, namespace and owner references it had before
    exactly if every patch meant for it has an object for `metadata` or none at all. -/
theorem advanced_patches_keep_identity_iff {T : Type} (conv : Converter T)
    (hconv : conv.Lawful) (resourcePatches : List AdvancedResourcePatch)
    (obj obj' : ManagedObject T)
    (h : applyAdvancedResourcePatches conv resourcePatches obj = .ok obj') :
    obj'.identity conv = obj.identity conv ↔
      ∀ patch ∈ resourcePatches, patch.targets conv obj = true →
        patch.patch.keepsMetadata = true := by
  have hsame : obj'.gvk conv = obj.gvk conv ∧ (obj'.objectMeta conv = obj.objectMeta conv ↔
      ∀ patch ∈ resourcePatches, patch.targets conv obj = true →
        patch.patch.keepsMetadata = true) := by
    unfold applyAdvancedResourcePatches at h
    split at h
    · rename_i hempty
      rw [List.isEmpty_iff] at hempty
      simp only [Except.ok.injEq] at h
      subst h hempty
      simp
    · simp only [bind, Except.bind] at h
      split at h
      · simp at h
      · rename_i start hstart
        obtain ⟨hgvk, hmeta⟩ := ensureTypeMeta_ok conv hstart
        have htarget : ∀ p : AdvancedResourcePatch,
            p.targets conv start = p.targets conv obj := by
          intro p
          simp only [AdvancedResourcePatch.targets, hgvk, hmeta]
        obtain ⟨hgvk', hiff⟩ := applyEach_ok hconv h
        rw [hgvk, hmeta] at *
        simp only [htarget] at hiff
        exact ⟨hgvk', hiff⟩
  rw [← hsame.2]
  constructor
  · intro hidentity
    exact congrArg Identity.objectMeta hidentity
  · intro hmeta
    simp only [ManagedObject.identity, hsame.1, hmeta]

theorem label_patch_keeps_identity :
    ∃ obj', applyAdvancedResourcePatches metadataOnly
        [servicePatch (.obj [("labels", .obj [("tier", .str "data")])])] unstructuredService =
      .ok obj' ∧ obj'.identity metadataOnly = unstructuredService.identity metadataOnly :=
  ⟨_, rfl, (advanced_patches_keep_identity_iff metadataOnly metadataOnly_lawful
    [servicePatch (.obj [("labels", .obj [("tier", .str "data")])])] unstructuredService _
    rfl).mpr (by decide)⟩

/-- A patch whose `metadata` is null is accepted and takes name, namespace and owners away. -/
theorem null_metadata_patch_removes_identity :
    (typedService.identity metadataOnly = ⟨"v1", "Service", ownedMeta⟩ ∧
      (applyAdvancedResourcePatches metadataOnly [servicePatch .null] typedService).toOption.map
        (ManagedObject.identity metadataOnly) = some ⟨"v1", "Service", ⟨"", "", []⟩⟩) ∧
    (unstructuredService.identity metadataOnly = ⟨"v1", "Service", ownedMeta⟩ ∧
      (applyAdvancedResourcePatches metadataOnly [servicePatch .null]
        unstructuredService).toOption.map
        (ManagedObject.identity metadataOnly) = some ⟨"v1", "Service", ⟨"", "", []⟩⟩) := by
  constructor
  · decide
  · decide

end Tamoss.Operator
