/-
  **Where hibernation artifacts lie in the bucket.**

  A `TamossHibernate` writes its manifest and its database backup below a root prefix made of
  the destination prefix and the operation's name (`tamosshibernate_controller.go`).
-/
import Tamoss.Lib.Path

namespace Tamoss.Operator

open Lib

def isNameChar (c : Char) : Bool := c.isLower || c.isDigit

def isDnsLabel (label : List Char) : Bool :=
  label ≠ [] && label.all (fun c => isNameChar c || c = '-') &&
    label.head?.all isNameChar && label.getLast?.all isNameChar

def isDnsSubdomain (name : String) : Bool :=
  name.length ≤ 253 && (name.toList.splitOn '.').all isDnsLabel

/-- The name of a stored object. -/
structure ResourceName where
  text : String
  valid : isDnsSubdomain text = true
deriving DecidableEq

def isSpace (c : Char) : Bool :=
  c.toNat ∈ [0x09, 0x0A, 0x0B, 0x0C, 0x0D, 0x20, 0x85, 0xA0, 0x1680, 0x2028, 0x2029, 0x202F,
    0x205F, 0x3000] || (0x2000 ≤ c.toNat && c.toNat ≤ 0x200A)

def trimSpace (text : List Char) : List Char :=
  ((text.dropWhile isSpace).reverse.dropWhile isSpace).reverse

def quoted (text : String) : String := "\"" ++ text ++ "\""

/-- What decides where the artifact of a `TamossHibernate` lies. -/
structure Operation where
  namespaceName : ResourceName
  name : ResourceName
  /-- `spec.tamossRef.name`; it has been resolved before an artifact is built -/
  tamossRef : ResourceName
  /-- `spec.destination.prefix` -/
  destination : String
deriving DecidableEq

def validateHibernationDestinationPrefix (destination : String) : Except String Unit := do
  let path := destination.toList
  if trimSpace path ≠ path then
    throw "spec.destination.prefix must not have leading or trailing whitespace"
  if path = [] then
    return
  if path.head? = some '/' ∨ path.getLast? = some '/' ∨ Path.clean path ≠ path then
    throw ("spec.destination.prefix " ++ quoted destination ++
      " must be a normalized relative object-key prefix")
  if ∃ segment ∈ Path.segments path, segment = [] ∨ segment = ['.'] ∨ segment = ['.', '.'] then
    throw ("spec.destination.prefix " ++ quoted destination ++
      " contains an unsafe path segment")

def hibernateDestinationPrefix (op : Operation) : String :=
  if op.destination ≠ "" then op.destination else "hibernations/" ++ op.tamossRef.text

def artifactPath (op : Operation) (last : String) : List Char :=
  Path.join [(hibernateDestinationPrefix op).toList, op.name.text.toList, last.toList]

def hibernateManifestKey (op : Operation) : List Char := artifactPath op "manifest.json"

/-- The key below the bucket in `hibernateBarmanObjectStore`'s destination path. -/
def hibernateBackupPath (op : Operation) : List Char := artifactPath op "cnpg"

def hibernationArtifactRootPrefix (manifestKey : List Char) : Except String (List Char) := do
  let key := trimSpace manifestKey
  let invalid (problem : String) : String :=
    "resume artifact manifest key " ++ quoted (String.ofList manifestKey) ++ " " ++ problem
  if key = [] then
    throw "resume artifact cleanup requires a manifest key"
  if key.head? = some '/' then
    throw (invalid "must be relative")
  if Path.clean key ≠ key then
    throw (invalid "must be normalized")
  if ¬ "/manifest.json".toList <:+ key then
    throw (invalid "must end with /manifest.json")
  let root := key.take (key.length - "/manifest.json".length)
  if root = [] ∨ root = ['.'] ∨ root = ['/'] then
    throw (invalid "does not identify an artifact prefix")
  if ∃ part ∈ Path.segments root, part = [] ∨ part = ['.'] ∨ part = ['.', '.'] then
    throw (invalid "contains an unsafe path segment")
  return root ++ ['/']

def Operation.Accepted (op : Operation) : Prop :=
  validateHibernationDestinationPrefix op.destination = .ok ()

variable {text : List Char}

theorem mem_splitOn {a c : Char} (hc : c ∈ text) (hne : c ≠ a) :
    ∃ part ∈ text.splitOn a, c ∈ part := by
  have hjoin : [a].intercalate (text.splitOn a) = text := List.intercalate_splitOn a
  rw [← hjoin] at hc
  clear hjoin
  generalize text.splitOn a = parts at hc ⊢
  induction parts with
  | nil => simp [List.intercalate] at hc
  | cons p parts ih =>
    cases parts with
    | nil => exact ⟨p, List.mem_cons_self, by simpa [List.intercalate] using hc⟩
    | cons q parts =>
      have hsplit : c ∈ p ∨ c = a ∨ c ∈ [a].intercalate (q :: parts) := by
        simpa [List.intercalate] using hc
      rcases hsplit with hp | ha | hrest
      · exact ⟨p, List.mem_cons_self, hp⟩
      · exact absurd ha hne
      · obtain ⟨part, hpart, hmem⟩ := ih hrest
        exact ⟨part, List.mem_cons_of_mem p hpart, hmem⟩

theorem ResourceName.plain (name : ResourceName) : Path.Plain name.text.toList := by
  have hvalid := name.valid
  simp only [isDnsSubdomain, Bool.and_eq_true, List.all_eq_true] at hvalid
  obtain ⟨-, hlabels⟩ := hvalid
  have hlabel : ∀ label ∈ name.text.toList.splitOn '.', label ≠ [] ∧ '/' ∉ label := by
    intro label hl
    have hok := hlabels label hl
    simp only [isDnsLabel, Bool.and_eq_true, decide_eq_true_eq, List.all_eq_true] at hok
    refine ⟨hok.1.1.1, fun hslash => ?_⟩
    exact absurd (hok.1.1.2 '/' hslash) (by decide)
  constructor
  · intro hnil
    exact (hlabel [] (by simp [hnil])).1 rfl
  · intro hslash
    obtain ⟨label, hl, hmem⟩ := mem_splitOn (a := '.') hslash (by decide)
    exact (hlabel label hl).2 hmem
  · intro hdot
    exact (hlabel [] (by rw [hdot]; decide)).1 rfl
  · intro hdots
    exact (hlabel [] (by rw [hdots]; decide)).1 rfl

def Operation.directory (op : Operation) : List Path.Segment :=
  Path.segments (hibernateDestinationPrefix op).toList

theorem Operation.directory_ne_nil (op : Operation) : op.directory ≠ [] :=
  Path.segments_ne_nil _

theorem Operation.joined_directory (op : Operation) :
    Path.joined op.directory = (hibernateDestinationPrefix op).toList :=
  Path.joined_segments _

theorem validate_ok {destination : String}
    (h : validateHibernationDestinationPrefix destination = .ok ())
    (hne : destination.toList ≠ []) : trimSpace destination.toList = destination.toList ∧
      ∀ s ∈ Path.segments destination.toList, Path.Plain s := by
  unfold validateHibernationDestinationPrefix at h
  dsimp only at h
  split at h
  · cases h
  · rename_i htrim
    split at h
    · cases h
    · split at h
      · cases h
      · rename_i hunsafe
        refine ⟨not_not.mp htrim, fun s hs => ?_⟩
        have hsafe : ¬ (s = [] ∨ s = ['.'] ∨ s = ['.', '.']) :=
          fun hbad => hunsafe ⟨s, hs, hbad⟩
        rw [not_or, not_or] at hsafe
        exact ⟨hsafe.1, Path.slash_not_mem hs, hsafe.2.1, hsafe.2.2⟩

theorem hibernations_plain : Path.Plain "hibernations".toList := by
  constructor <;> decide

variable {op : Operation}

theorem Operation.directory_default (h : op.destination = "") :
    op.directory = ["hibernations".toList, op.tamossRef.text.toList] := by
  have htext : (hibernateDestinationPrefix op).toList =
      Path.joined ["hibernations".toList, op.tamossRef.text.toList] := by
    rw [hibernateDestinationPrefix, if_neg (not_not.mpr h), String.toList_append,
      Path.joined_cons_cons, Path.joined_singleton]
    rfl
  rw [Operation.directory, htext]
  refine Path.segments_joined (List.cons_ne_nil _ _) fun s hs => ?_
  rcases List.mem_pair.mp hs with rfl | rfl
  · exact hibernations_plain.slash
  · exact op.tamossRef.plain.slash

theorem Operation.Accepted.plain (h : op.Accepted) : ∀ s ∈ op.directory, Path.Plain s := by
  by_cases hempty : op.destination = ""
  · rw [Operation.directory_default hempty]
    intro s hs
    rcases List.mem_pair.mp hs with rfl | rfl
    · exact hibernations_plain
    · exact op.tamossRef.plain
  · have hne : op.destination.toList ≠ [] := fun hnil => hempty (String.toList_eq_nil_iff.mp hnil)
    have hdir : op.directory = Path.segments op.destination.toList := by
      rw [Operation.directory, hibernateDestinationPrefix, if_pos hempty]
    rw [hdir]
    exact (validate_ok h hne).2

def Operation.root (op : Operation) : List Path.Segment :=
  op.directory ++ [op.name.text.toList]

theorem Operation.root_ne_nil (op : Operation) : op.root ≠ [] := by simp [Operation.root]

theorem Operation.Accepted.root_plain (h : op.Accepted) : ∀ s ∈ op.root, Path.Plain s := by
  intro s hs
  rcases List.mem_append.mp hs with hs | hs
  · exact h.plain s hs
  · exact List.mem_singleton.mp hs ▸ op.name.plain

theorem Operation.Accepted.artifactPath_eq (h : op.Accepted) {last : String}
    (hlast : Path.Plain last.toList) : artifactPath op last = Path.below op.root ++ last.toList := by
  have hrest : ∀ s ∈ [op.name.text.toList, last.toList], Path.Plain s := by
    intro s hs
    rcases List.mem_pair.mp hs with rfl | rfl
    · exact op.name.plain
    · exact hlast
  calc artifactPath op last
      = Path.joined (op.directory ++ [op.name.text.toList, last.toList]) := by
        rw [artifactPath, ← op.joined_directory]
        exact Path.join_plain op.directory_ne_nil h.plain hrest
    _ = Path.joined (op.root ++ [last.toList]) := by simp [Operation.root]
    _ = Path.joined op.root ++ '/' :: last.toList := by
        rw [Path.joined_append op.root_ne_nil (List.cons_ne_nil _ _), Path.joined_singleton]
    _ = Path.below op.root ++ last.toList := by
        rw [Path.below_eq op.root_ne_nil, List.append_assoc, List.singleton_append]

theorem trimSpace_eq_self (hhead : ∀ c, text.head? = some c → isSpace c = false)
    (hlast : ∀ c, text.getLast? = some c → isSpace c = false) : trimSpace text = text := by
  have hdrop : ∀ t : List Char, (∀ c, t.head? = some c → isSpace c = false) →
      t.dropWhile isSpace = t := by
    intro t ht
    cases t with
    | nil => rfl
    | cons c t => rw [List.dropWhile_cons, ht c rfl, if_neg Bool.false_ne_true]
  have hback : text.reverse.dropWhile isSpace = text.reverse :=
    hdrop _ fun c hc => hlast c (by rwa [List.head?_reverse] at hc)
  rw [trimSpace, hdrop text hhead, hback, List.reverse_reverse]

theorem head_of_trimSpace {c : Char} (h : trimSpace (c :: text) = c :: text) :
    isSpace c = false := by
  by_contra hspace
  have hc : isSpace c = true := by simpa using hspace
  have hshort : (trimSpace (c :: text)).length ≤ text.length := by
    have hfront : ((c :: text).dropWhile isSpace).length ≤ text.length := by
      rw [List.dropWhile_cons, if_pos hc]
      exact (List.dropWhile_suffix isSpace).length_le
    have hback := (List.dropWhile_suffix (l := ((c :: text).dropWhile isSpace).reverse)
      isSpace).length_le
    rw [trimSpace, List.length_reverse]
    rw [List.length_reverse] at hback
    omega
  rw [h, List.length_cons] at hshort
  omega

theorem Operation.Accepted.head (h : op.Accepted) :
    ∃ c rest, (hibernateDestinationPrefix op).toList = c :: rest ∧ isSpace c = false := by
  by_cases hempty : op.destination = ""
  · refine ⟨'h', "ibernations/".toList ++ op.tamossRef.text.toList, ?_, by decide⟩
    rw [hibernateDestinationPrefix, if_neg (not_not.mpr hempty), String.toList_append]
    rfl
  · have hne : op.destination.toList ≠ [] := fun hnil => hempty (String.toList_eq_nil_iff.mp hnil)
    rw [hibernateDestinationPrefix, if_pos hempty]
    obtain ⟨c, rest, hcons⟩ := List.exists_cons_of_ne_nil hne
    refine ⟨c, rest, hcons, ?_⟩
    have htrim := (validate_ok h hne).1
    rw [hcons] at htrim
    exact head_of_trimSpace htrim

theorem manifest_plain : Path.Plain "manifest.json".toList := by
  constructor <;> decide

theorem cnpg_plain : Path.Plain "cnpg".toList := by
  constructor <;> decide

theorem Operation.Accepted.manifestKey_eq (h : op.Accepted) :
    hibernateManifestKey op = Path.joined op.root ++ "/manifest.json".toList := by
  rw [hibernateManifestKey, h.artifactPath_eq manifest_plain, Path.below_eq op.root_ne_nil,
    List.append_assoc]
  rfl

theorem Operation.Accepted.trimSpace_manifestKey (h : op.Accepted) :
    trimSpace (hibernateManifestKey op) = hibernateManifestKey op := by
  obtain ⟨d, rest, hdest, hspace⟩ := h.head
  have hroot : Path.joined op.root = d :: (rest ++ '/' :: op.name.text.toList) := by
    rw [Operation.root, Path.joined_append op.directory_ne_nil (List.cons_ne_nil _ _),
      op.joined_directory, hdest, Path.joined_singleton]
    rfl
  refine trimSpace_eq_self (fun c hc => ?_) fun c hc => ?_
  · rw [h.manifestKey_eq, hroot, List.cons_append, List.head?_cons, Option.some.injEq] at hc
    exact hc ▸ hspace
  · have hlast : (hibernateManifestKey op).getLast? = some 'n' := by
      rw [h.manifestKey_eq, List.getLast?_append]
      rfl
    rw [hlast, Option.some.injEq] at hc
    exact hc ▸ by decide

theorem Operation.Accepted.clean_manifestKey (h : op.Accepted) :
    Path.clean (hibernateManifestKey op) = hibernateManifestKey op := by
  have hjoined : hibernateManifestKey op = Path.joined (op.root ++ ["manifest.json".toList]) := by
    rw [h.manifestKey_eq, Path.joined_append op.root_ne_nil (List.cons_ne_nil _ _),
      Path.joined_singleton]
    rfl
  rw [hjoined]
  refine Path.clean_joined (by simp) fun s hs => ?_
  rcases List.mem_append.mp hs with hs | hs
  · exact h.root_plain s hs
  · exact List.mem_singleton.mp hs ▸ manifest_plain

theorem Operation.Accepted.take_manifestKey (h : op.Accepted) : (hibernateManifestKey op).take
      ((hibernateManifestKey op).length - "/manifest.json".length) = Path.joined op.root := by
  rw [h.manifestKey_eq, List.length_append, String.length_toList, Nat.add_sub_cancel,
    List.take_left]

theorem Operation.Accepted.segments_root (h : op.Accepted) :
    Path.segments (Path.joined op.root) = op.root :=
  Path.segments_joined op.root_ne_nil fun s hs => (h.root_plain s hs).slash

/-- **The parse inverts the construction.** -/
theorem Operation.Accepted.rootPrefix_eq (h : op.Accepted) :
    hibernationArtifactRootPrefix (hibernateManifestKey op) = .ok (Path.below op.root) := by
  have hroot : Path.joined op.root ≠ [] := Path.joined_ne_nil op.root_ne_nil h.root_plain
  have hnil : hibernateManifestKey op ≠ [] := by simp [h.manifestKey_eq]
  have hrelative : (hibernateManifestKey op).head? ≠ some '/' := by
    rw [h.manifestKey_eq, List.head?_append_of_ne_nil _ hroot]
    exact Path.head_joined h.root_plain
  have hsuffix : "/manifest.json".toList <:+ hibernateManifestKey op := by
    rw [h.manifestKey_eq]
    exact List.suffix_append _ _
  have hdot : Path.joined op.root ≠ ['.'] := by
    intro he
    have hsingle : op.root = [['.']] := by rw [← h.segments_root, he]; rfl
    exact (h.root_plain ['.'] (by simp [hsingle])).dot rfl
  have hslash : Path.joined op.root ≠ ['/'] := fun he =>
    Path.head_joined h.root_plain (by rw [he]; rfl)
  have hparts : ¬ ∃ part ∈ Path.segments (Path.joined op.root),
      part = [] ∨ part = ['.'] ∨ part = ['.', '.'] := by
    rw [h.segments_root]
    rintro ⟨part, hpart, hbad⟩
    have hp := h.root_plain part hpart
    exact hbad.elim hp.nonempty fun hbad => hbad.elim hp.dot hp.dotdot
  simp only [hibernationArtifactRootPrefix, h.trimSpace_manifestKey, h.take_manifestKey]
  rw [if_neg hnil, if_neg hrelative, if_neg (not_not.mpr h.clean_manifestKey),
    if_neg (not_not.mpr hsuffix), if_neg (by simp [hroot, hdot, hslash]), if_neg hparts,
    Path.below_eq op.root_ne_nil]
  rfl

def Operation.DeletesUnder (op : Operation) (root : List Char) : Prop :=
  hibernationArtifactRootPrefix (hibernateManifestKey op) = .ok root

def Operation.Writes (op : Operation) (key : List Char) : Prop :=
  key = hibernateManifestKey op ∨ hibernateBackupPath op ++ ['/'] <+: key

/-- The artifacts of the two operations are isolated: neither root is a prefix of the
    other, and the clean-up of one deletes no object of the other. -/
structure Isolated (a b : Operation) : Prop where
  roots : ∀ ra rb, a.DeletesUnder ra → b.DeletesUnder rb → ¬ ra <+: rb ∧ ¬ rb <+: ra
  spared : ∀ ra key, a.DeletesUnder ra → b.Writes key → ¬ ra <+: key
  spares : ∀ rb key, b.DeletesUnder rb → a.Writes key → ¬ rb <+: key

def Operation.OwnRoot (op : Operation) : Prop :=
  ∃ root, op.DeletesUnder root ∧ hibernateManifestKey op = root ++ "manifest.json".toList ∧
    hibernateBackupPath op = root ++ "cnpg".toList

def LiesAt (destination path : List Char) : Prop :=
  destination = path ∨ path ++ ['/'] <+: destination

def Clash (a b : Operation) : Prop :=
  (hibernateDestinationPrefix a = hibernateDestinationPrefix b ∧ a.name = b.name) ∨
    LiesAt (hibernateDestinationPrefix b).toList
      ((hibernateDestinationPrefix a).toList ++ '/' :: a.name.text.toList) ∨
    LiesAt (hibernateDestinationPrefix a).toList
      ((hibernateDestinationPrefix b).toList ++ '/' :: b.name.text.toList)

theorem Operation.Accepted.deletesUnder (h : op.Accepted) {root : List Char} :
    op.DeletesUnder root ↔ root = Path.below op.root := by
  rw [Operation.DeletesUnder, h.rootPrefix_eq, Except.ok.injEq, eq_comm]

theorem Operation.Accepted.ownRoot (h : op.Accepted) : op.OwnRoot :=
  ⟨Path.below op.root, h.rootPrefix_eq, h.artifactPath_eq manifest_plain,
    h.artifactPath_eq cnpg_plain⟩

theorem Operation.Accepted.writes (h : op.Accepted) {key : List Char}
    (hkey : op.Writes key) : Path.below op.root <+: key := by
  rcases hkey with rfl | hbackup
  · rw [hibernateManifestKey, h.artifactPath_eq manifest_plain]
    exact List.prefix_append _ _
  · rw [hibernateBackupPath, h.artifactPath_eq cnpg_plain, List.append_assoc] at hbackup
    exact (List.prefix_append _ _).trans hbackup

variable {a b : Operation}

theorem destination_eq_iff :
    hibernateDestinationPrefix a = hibernateDestinationPrefix b ↔ a.directory = b.directory := by
  constructor
  · intro h
    rw [Operation.directory, h, Operation.directory]
  · intro h
    have hjoined := congrArg Path.joined h
    rw [a.joined_directory, b.joined_directory] at hjoined
    exact String.toList_inj.mp hjoined

theorem name_eq_iff {a b : ResourceName} : a = b ↔ a.text.toList = b.text.toList := by
  rw [String.toList_inj]
  cases a
  cases b
  simp

theorem liesAt_iff (ha : a.Accepted) (hb : b.Accepted) :
    LiesAt (hibernateDestinationPrefix b).toList
      ((hibernateDestinationPrefix a).toList ++ '/' :: a.name.text.toList) ↔
    a.root <+: b.directory := by
  have hroot : (hibernateDestinationPrefix a).toList ++ '/' :: a.name.text.toList =
      Path.joined a.root := by
    rw [Operation.root, Path.joined_append a.directory_ne_nil (List.cons_ne_nil _ _),
      a.joined_directory, Path.joined_singleton]
  have hslash : ∀ s ∈ a.root, '/' ∉ s := fun s hs => (ha.root_plain s hs).slash
  have hslash' : ∀ s ∈ b.directory, '/' ∉ s := fun s hs => (hb.plain s hs).slash
  rw [LiesAt, ← b.joined_directory, hroot]
  constructor
  · rintro (heq | hbelow)
    · have hsegments := congrArg Path.segments heq
      rw [ha.segments_root, Path.segments_joined b.directory_ne_nil hslash'] at hsegments
      exact hsegments ▸ List.prefix_rfl
    · rw [← Path.below_contains hslash hslash', Path.below_eq a.root_ne_nil,
        Path.below_eq b.directory_ne_nil]
      exact hbelow.trans (List.prefix_append _ _)
  · rintro ⟨rest, hrest⟩
    cases rest with
    | nil => exact .inl (by rw [← hrest, List.append_nil])
    | cons s rest =>
      refine .inr ⟨Path.joined (s :: rest), ?_⟩
      rw [← hrest, Path.joined_append a.root_ne_nil (List.cons_ne_nil _ _), List.append_assoc,
        List.singleton_append]

theorem root_contains_iff (ha : a.Accepted) (hb : b.Accepted) :
    Path.below a.root <+: Path.below b.root ↔
      (hibernateDestinationPrefix a = hibernateDestinationPrefix b ∧ a.name = b.name) ∨
        LiesAt (hibernateDestinationPrefix b).toList
          ((hibernateDestinationPrefix a).toList ++ '/' :: a.name.text.toList) := by
  rw [Path.below_contains (fun s hs => (ha.root_plain s hs).slash)
      (fun s hs => (hb.root_plain s hs).slash), liesAt_iff ha hb, destination_eq_iff,
    name_eq_iff]
  exact Path.entry_contains

/-- **Artifact isolation.** What an accepted operation writes lies under exactly the root
    that its own clean-up deletes; and two operations are isolated from each other unless
    they clash. -/
theorem artifact_isolation (a b : Operation) (ha : a.Accepted) (hb : b.Accepted) :
    a.OwnRoot ∧ b.OwnRoot ∧ (Isolated a b ↔ ¬ Clash a b) := by
  refine ⟨ha.ownRoot, hb.ownRoot, fun h hclash => ?_, fun hclash => ?_⟩
  · have hroots := h.roots _ _ (ha.deletesUnder.mpr rfl) (hb.deletesUnder.mpr rfl)
    rw [root_contains_iff ha hb, root_contains_iff hb ha] at hroots
    rcases hclash with hsame | hbelow | habove
    · exact hroots.1 (.inl hsame)
    · exact hroots.1 (.inr hbelow)
    · exact hroots.2 (.inr habove)
  · have hab : ¬ Path.below a.root <+: Path.below b.root := by
      rw [root_contains_iff ha hb]
      rintro (hsame | hbelow)
      · exact hclash (.inl hsame)
      · exact hclash (.inr (.inl hbelow))
    have hba : ¬ Path.below b.root <+: Path.below a.root := by
      rw [root_contains_iff hb ha]
      rintro (hsame | habove)
      · exact hclash (.inl ⟨hsame.1.symm, hsame.2.symm⟩)
      · exact hclash (.inr (.inr habove))
    constructor
    · intro ra rb hra hrb
      rw [ha.deletesUnder.mp hra, hb.deletesUnder.mp hrb]
      exact ⟨hab, hba⟩
    · intro ra key hra hkey hdel
      rw [ha.deletesUnder.mp hra] at hdel
      exact (List.prefix_or_prefix_of_prefix hdel (hb.writes hkey)).elim hab hba
    · intro rb key hrb hkey hdel
      rw [hb.deletesUnder.mp hrb] at hdel
      exact (List.prefix_or_prefix_of_prefix hdel (ha.writes hkey)).elim hba hab

def nightly (namespaceName : ResourceName) : Operation where
  namespaceName := namespaceName
  name := ⟨"nightly", by decide⟩
  tamossRef := ⟨"media", by decide⟩
  destination := "backups"

theorem nightly_accepted (namespaceName : ResourceName) : (nightly namespaceName).Accepted := by
  show validateHibernationDestinationPrefix "backups" = .ok ()
  decide

theorem artifact_isolation_sample :
    Isolated (nightly ⟨"east", by decide⟩)
      { nightly ⟨"west", by decide⟩ with destination := "" } := by
  have hb : ({ nightly ⟨"west", by decide⟩ with destination := "" } : Operation).Accepted := by
    show validateHibernationDestinationPrefix "" = .ok ()
    decide
  refine (artifact_isolation _ _ (nightly_accepted _) hb).2.2.mpr ?_
  unfold Clash LiesAt
  decide

/-- **The namespace is not part of the root.** Two operations of one name in two
    namespaces, with the same destination prefix, have the same root: the clean-up of one
    deletes the manifest of the other. -/
theorem artifacts_shared_across_namespaces :
    ∃ a b : Operation, a.Accepted ∧ b.Accepted ∧
      (a.namespaceName, a.name) ≠ (b.namespaceName, b.name) ∧ ¬ Isolated a b ∧
      ∃ root, a.DeletesUnder root ∧ root <+: hibernateManifestKey b := by
  have ha := nightly_accepted ⟨"east", by decide⟩
  have hb := nightly_accepted ⟨"west", by decide⟩
  have hdel : (nightly ⟨"east", by decide⟩).DeletesUnder "backups/nightly/".toList := by
    unfold Operation.DeletesUnder
    decide
  have hkey : "backups/nightly/".toList <+:
      hibernateManifestKey (nightly ⟨"west", by decide⟩) := by decide
  refine ⟨_, _, ha, hb, by decide, ?_, _, hdel, hkey⟩
  exact fun h => h.spared _ _ hdel (.inl rfl) hkey

end Tamoss.Operator
