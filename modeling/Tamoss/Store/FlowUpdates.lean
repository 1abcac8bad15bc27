/-
  **Lost updates and resurrected flows.**
-/
import Tamoss.Store.FlowCopies
import Tamoss.Store.Guarantees

namespace Tamoss

open Lib.Machine
open Lib (Only only_except Yields yields_pure yields_bind)

variable {mt : MediaTimestamp} {fc : FlowContract} {i : SessionId}

theorem setFlowProperty_id (property : FlowProperty) (value : DataValue) (flow : FlowRecord) :
    Yields (·.id = flow.id) (setFlowProperty property value flow) := by
  unfold setFlowProperty
  cases property with
  | label => exact yields_bind fun _ => by split <;> first | exact yields_pure rfl | simp
  | description => exact yields_bind fun _ => by split <;> first | exact yields_pure rfl | simp
  | avgBitRate =>
    refine yields_bind fun _ => yields_bind fun _ => ?_
    split
    · split <;> first | exact yields_pure rfl | simp
    · simp
  | maxBitRate =>
    refine yields_bind fun _ => yields_bind fun _ => ?_
    split
    · split <;> first | exact yields_pure rfl | simp
    · simp
  | readOnly => dsimp only; split <;> first | exact yields_pure rfl | simp

variable {f : FlowId}

theorem replaceFlowCollection_id {flow : FlowRecord} (h : flow.id = f)
    (items : List CollectionItem) : Yields (·.id = f) (replaceFlowCollection flow items) :=
  yields_bind fun _ => by split <;> exact yields_pure h

theorem applyEdit_id (flow : FlowRecord) (edit : FlowEdit) :
    Yields (·.id = flow.id) (applyEdit flow edit) := by
  cases edit with
  | setProperty property value => exact setFlowProperty_id property value flow
  | deleteProperty property =>
    exact yields_bind fun _ => yields_bind fun _ => yields_pure rfl
  | setTag name value => exact yields_bind fun _ => yields_pure rfl
  | deleteTag name => exact yields_bind fun _ => yields_pure rfl
  | setCollection items => exact yields_bind fun _ => replaceFlowCollection_id rfl items

theorem putRecord_id (f : FlowId) (flow : FlowData) (supplied : List String) (subject : String)
    (existing : Option FlowRecord) :
    Yields (·.id = f) (putRecord fc f flow supplied subject existing) := by
  refine yields_bind fun _ => yields_bind fun ⟨data, unlinkedFields⟩ => ?_
  dsimp only
  split
  · simp
  · refine yields_bind fun _ => yields_bind fun _ => yields_bind fun now =>
      yields_bind fun version => ?_
    cases existing with
    | none =>
      split
      · exact replaceFlowCollection_id (by rfl) _
      · exact yields_pure rfl
    | some existing =>
      split
      · exact replaceFlowCollection_id (by rfl) _
      · exact yields_pure rfl

theorem unlinked_id {parent parent' : FlowRecord}
    (h : unlinked f parent = some parent') : parent'.id = parent.id := by
  unfold unlinked at h
  dsimp only at h
  split at h
  · cases h
  · split at h
    · cases h
    · split at h <;> cases h <;> rfl

namespace CopySpec

variable {B : List (FlowId × Nat)} {tx : Bool} {E : PyError → Session → Prop}

variable {A : WorldAssertion}

theorem inner {α : Type} (hA : OpenStable i A) {p : App α}
    (hp : Only Call.Open p) : CopySpec mt fc i A p (fun _ => A) Always :=
  opens hA (fun _ _ _ _ => trivial) hp

theorem step {α : Type} {c : Call} {k : c.Resp → App α} {Q : α → WorldAssertion}
    (hA : OpenStable i A) (hc : c.Open) (h : ∀ r, CopySpec mt fc i A (k r) Q Always) :
    CopySpec mt fc i A (call c >>= k) Q Always :=
  bind (inner hA (only_call hc)) h

theorem yields {α : Type} {p : App α} {φ : α → Prop}
    {Q : α → WorldAssertion} (hφ : Yields φ p) (hp : CopySpec mt fc i A p Q E) :
    CopySpec mt fc i A p (fun a w l => φ a ∧ Q a w l) E :=
  Triple.yields hφ hp

theorem requireFlow (f : FlowId) (hE : ∀ e w l, Copied i tx B w l → E e l) :
    CopySpec mt fc i (Copied i tx B) (requireFlow f true)
      (fun r w l => r.1.id = f ∧ Copied i tx ((f, r.2) :: B) w l) E := by
  refine bind ((getFlow f false).pre fun w l h => ⟨by simp, h⟩) fun read => ?_
  cases hread : read.flow with
  | none => exact throw fun w l h => hE _ w l h.2.2
  | some flow =>
    refine assume fun hid => ?_
    exact (pure (OpenStable.copied tx ((f, read.version) :: B)) fun w l h =>
      ⟨hid flow rfl, h⟩).pre fun w l h => h.1 (.inr rfl)

theorem editFlow (f : FlowId) (edit : FlowEdit) (identity : Option String) :
    CopySpec mt fc i (Copied i tx []) (editFlow f edit identity) (fun _ _ l => Outside l)
      (fun _ => Outside) := by
  refine transaction ?_
  refine step (OpenStable.copied true []) trivial fun _ => ?_
  refine bind (requireFlow f fun _ _ _ _ => trivial) fun ⟨flow, version⟩ => ?_
  refine assume fun hid => ?_
  refine bind (yields (applyEdit_id flow edit) (inner (OpenStable.copied true _)
    (only_open_of_calm (applyEdit_calm flow edit)))) fun flow' => assume fun hid' => ?_
  refine step (OpenStable.copied true _) trivial fun now => ?_
  refine step (OpenStable.copied true _) trivial fun version' => ?_
  refine (saveFlow (B := [(f, version)]) ?_).pre (fun w l h => h.saving) |>.post fun _ _ _ h => h.done
  simpa [touchFlowMetadata] using hid'.trans hid

theorem putFlow (f : FlowId) (flow : FlowData) (suppliedFields : Option (List String))
    (subject : String) :
    CopySpec mt fc i (fun w l => Op.puts f (w.running i) = true ∧ Copied i tx [] w l)
      (putFlow fc f flow suppliedFields subject) (fun _ _ l => Outside l) (fun _ => Outside) := by
  have hst : ∀ tx, OpenStable i (fun w l => Op.puts f (w.running i) = true ∧
      Copied i tx [] w l) := fun tx =>
    (OpenStable.running fun running => Op.puts f running = true).and (.copied tx [])
  refine unitOfWork (hst tx) (hst true) (fun _ _ h => ⟨h.1, rfl, h.2.clean, h.2.backed⟩) ?_
  refine step (hst true) trivial fun _ => ?_
  unfold putFlowLocked
  split
  · exact throw fun _ _ _ => trivial
  · dsimp only
    split
    · exact throw fun _ _ _ => trivial
    · refine bind ((getFlow f true).pre fun w l h => ⟨fun _ => h.1, h.2⟩) fun read => ?_
      refine bind ((yields (putRecord_id f flow _ subject read.flow) (inner
        (OpenStable.copied true [(f, read.version)])
        (only_open_of_tame (putRecord_tame fc f flow _ subject read.flow)))).pre
        fun w l h => h.2.1 (.inl rfl)) fun record => assume fun hid => ?_
      exact ((saveFlow (by simp [hid])).pre fun w l h => h.saving).post fun _ _ _ h => h.done

theorem saveRegisteredSegments {flow : FlowRecord} {version : Nat}
    (hmem : (flow.id, version) ∈ B) (objects : List MediaObjectRecord)
    (segments : List SegmentRecord) :
    CopySpec mt fc i (Copied i true B) (saveRegisteredSegments mt flow version objects segments)
      (fun _ => Saved i) Always := by
  refine step (.copied true B) trivial fun _ => ?_
  refine bind ((saveFlow hmem).pre fun w l h => h.saving) fun _ => ?_
  refine (inner (.saved) ?_).pre fun w l h => h.done
  refine (Only.forM fun o _ => only_call (by trivial)).bind fun _ =>
    (only_except _).bind fun rows => only_step (by trivial) fun overlap => ?_
  dsimp only
  split
  · simp
  · exact Only.forM fun row _ => only_call (by trivial)

theorem registerSegmentsLocked (f : FlowId) (posts : List SegmentPostInput)
    (uploadChecks : UploadChecks) (readings : Nat → Readings) :
    CopySpec mt fc i (Copied i true []) (registerSegmentsLocked mt f posts uploadChecks readings)
      (fun _ => Saved i) Always := by
  refine bind (requireFlow f fun _ _ _ _ => trivial) fun ⟨flow, version⟩ =>
    assume fun (hid : flow.id = f) => ?_
  have hst : OpenStable i (Copied i true [(f, version)]) := .copied true _
  have hdone : ∀ results : List SegmentWriteResult, CopySpec mt fc i
      (Copied i true [(f, version)]) (Pure.pure results) (fun _ => Saved i) Always :=
    fun _ => pure hst fun _ _ h => h.saving.done
  refine bind (inner hst (only_open_of_calm (ensureFlowWritable_calm flow))) fun _ => ?_
  dsimp only
  split
  · exact hdone _
  refine step hst trivial fun backends => ?_
  split
  · exact hdone _
  refine step hst trivial fun stored => ?_
  refine bind (inner hst (only_except _)) fun known => ?_
  refine bind (inner hst (only_open_of_apart (requestedObjectIds_apart flow _))) fun requested => ?_
  refine bind (inner hst (only_open_of_apart (lockObjects_apart requested))) fun _ => ?_
  refine step hst trivial fun objects => ?_
  refine bind (inner hst (only_except _)) fun ⟨ws, results⟩ => ?_
  dsimp only
  split
  · refine step hst trivial fun now => ?_
    refine bind (saveRegisteredSegments (by simp [hid]) _ _) fun _ => ?_
    exact pure .saved fun _ _ h => h
  · exact hdone _

theorem registerSegments (f : FlowId) (posts : List SegmentPostInput) (rd : Readings)
    (readings : Nat → Readings) :
    CopySpec mt fc i (Copied i false []) (registerSegments mt f posts rd readings)
      (fun _ _ l => Outside l) (fun _ => Outside) := by
  refine bind (opens (.copied false []) (fun _ _ _ h => ⟨h.tx, h.clean⟩)
    (only_open_of_calm (verifyControlledUploads_calm posts rd))) fun checks => ?_
  have hbody : CopySpec mt fc i (Copied i false []) (Tamoss.unitOfWork do
      call (.lockFlowSegments f)
      Tamoss.registerSegmentsLocked mt f posts checks readings) (fun _ _ l => Outside l)
      (fun _ => Outside) :=
    transaction (step (.copied true []) trivial fun _ =>
      registerSegmentsLocked f posts checks readings)
  refine Triple.tryCatch (fun _ _ _ _ h _ _ => h) hbody fun e => ?_
  cases e with
  | segmentOverlap => exact Triple.pure (fun _ _ _ h _ _ => h) fun _ _ _ h => h
  | _ => exact Triple.throw fun _ _ h => h

theorem deleteSegments (f : FlowId) (timerange : Option String) (objectId : Option ObjectId)
    (rounds : Nat) :
    CopySpec mt fc i (Copied i false []) (deleteSegments mt f timerange objectId rounds)
      (fun _ _ l => Outside l) (fun _ => Outside) := by
  have hout : ∀ {B w l}, Copied i false B w l → Outside l := fun h => ⟨h.tx, h.clean⟩
  have hread : CopySpec mt fc i (Copied i false []) (Tamoss.requireFlow f objectId.isSome)
      (fun r w l => (objectId.isSome = true → r.1.id = f) ∧
        Copied i false (if objectId.isSome then [(f, r.2)] else []) w l) (fun _ => Outside) := by
    cases objectId with
    | none =>
      exact (opens (.copied false []) (fun _ _ _ => hout)
        (only_open_of_calm (requireFlow_calm f))).post fun _ _ _ h => ⟨by simp, h⟩
    | some o =>
      exact (requireFlow f fun _ _ _ => hout).post fun _ _ _ h => ⟨fun _ => h.1, h.2⟩
  refine bind hread fun ⟨flow, version⟩ =>
    assume fun (hid : objectId.isSome = true → flow.id = f) => ?_
  set B : List (FlowId × Nat) := if objectId.isSome then [(f, version)] else [] with hB
  have hst : OpenStable i (Copied i false B) := .copied false B
  refine bind (opens hst (fun _ _ _ => hout)
    (only_open_of_calm (ensureFlowWritable_calm flow))) fun _ => ?_
  split
  · exact throw fun _ _ => hout
  refine bind (opens hst (fun _ _ _ => hout) (only_call (by trivial))) fun matching => ?_
  split
  · exact pure hst fun _ _ => hout
  split
  · rename_i hsome
    refine transaction ?_
    refine bind (inner (.copied true B)
      (only_open_of_apart (deleteMatchingSegments_apart mt _ _ _ _))) fun _ => ?_
    refine step (.copied true B) trivial fun now => ?_
    refine ((saveFlow ?_).pre fun w l h => h.saving).post fun _ _ _ h => h.done
    simp [hB, hsome, hid hsome]
  · exact (opens hst (fun _ _ _ => hout)
      (only_open_of_apart (recordDeletionRequest_apart f _ false))).post
      fun _ _ _ => hout

theorem unlinkFlowCollectionReferences (f : FlowId) :
    CopySpec mt fc i (Copied i true B) (unlinkFlowCollectionReferences f)
      (fun _ => Saving i []) Always := by
  refine bind (listFlowsCollecting f) fun parents => ?_
  refine ((Triple.forM (I := fun _ => Saving i (parents.map fun p => (p.1.id, p.2)))
    (fun _ w w' l h hr _ => (OpenStable.saving _).rely w w' l h hr) ?_).pre
    fun w l _ h => h.saving).post fun _ w l _ h => ⟨h.tx, h.saved, h.undeleted, by simp⟩
  rintro done ⟨parent, version⟩ rest rfl
  dsimp only
  split
  · exact pure (.saving _) fun _ _ h => h
  · rename_i parent' hunlinked
    exact saveFlow (List.mem_map.mpr ⟨(parent, version), by simp, by simp [unlinked_id hunlinked]⟩)

theorem removeFlow (flow : FlowRecord) (f : FlowId) :
    CopySpec mt fc i (Copied i true B) (removeFlow flow f) (fun _ => Saved i) Always :=
  bind (unlinkFlowCollectionReferences f) fun _ => bind (deleteFlow f) fun _ =>
    inner .saved (only_open_of_tame (deleteOrphanSource_tame flow.sourceId))

theorem deleteFlowOperation (f : FlowId) :
    CopySpec mt fc i (Copied i false []) (Tamoss.deleteFlow f) (fun _ _ l => Outside l)
      (fun _ => Outside) := by
  have hout : ∀ {w l}, Copied i false [] w l → Outside l := fun h => ⟨h.tx, h.clean⟩
  have hopen : ∀ {α : Type} {p : App α}, Only Call.Open p → CopySpec mt fc i
      (Copied i false []) p (fun _ => Copied i false []) (fun _ => Outside) := fun hp =>
    opens (.copied false []) (fun _ _ _ => hout) hp
  refine bind (hopen (only_open_of_calm (requireFlow_calm f))) fun ⟨flow, _⟩ => ?_
  refine bind (hopen (only_open_of_calm (ensureFlowWritable_calm flow))) fun _ => ?_
  refine bind (hopen (only_call (by trivial))) fun timerange => ?_
  split
  · exact transaction (removeFlow flow f)
  · exact (hopen (only_open_of_apart (recordDeletionRequest_apart f timerange true))).post fun _ _ _ => hout

theorem applyDeleteMetadata (requestId : QueueId) (rounds : Nat) :
    CopySpec mt fc i (Copied i false []) (applyDeleteMetadata mt requestId rounds)
      (fun _ _ l => Outside l) (fun _ => Outside) := by
  have hst : OpenStable i (Copied i true []) := .copied true []
  have hdone : ∀ {α : Type} (a : α), CopySpec mt fc i (Copied i true []) (Pure.pure a)
      (fun _ => Saved i) Always := fun _ => pure hst fun _ _ h => h.saving.done
  refine transaction (step hst trivial fun found => ?_)
  cases found with
  | none => exact hdone none
  | some request =>
    dsimp only
    split
    · exact hdone _
    refine step hst trivial fun now => ?_
    refine step hst trivial fun _ => ?_
    split
    · exact hdone _
    refine bind (inner hst (only_except _)) fun filter => ?_
    have hend : ∀ remaining : Option String, CopySpec mt fc i (Saved i) (do
        let now ← call .utcNow
        let request := { request with
          status := .started, error := none, timerangeRemaining := remaining, updated := now }
        call (.write (.saveDeleteRequest request))
        Pure.pure (some request)) (fun _ => Saved i) Always := fun _ =>
      inner .saved (only_step (by trivial) fun _ => only_step (by trivial) fun _ => by simp)
    have hdelete := only_open_of_apart
      (deleteMatchingSegments_apart mt filter (some request.id) false rounds)
    split
    · -- a request to delete the flow
      refine bind (R := fun _ => Saved i) ?_ hend
      refine bind (inner hst hdelete) fun remaining => ?_
      dsimp only
      split
      · exact hdone _
      refine step hst trivial fun read => ?_
      cases read.flow with
      | none => exact hdone none
      | some flow => exact bind (removeFlow flow _) fun _ => pure .saved fun _ _ h => h
    · -- a request to delete segments: the copy is read before the flow is locked
      refine bind (R := fun _ => Saved i) ?_ hend
      refine bind ((getFlow request.flowId false).pre fun w l h => ⟨by simp, h⟩) fun read => ?_
      cases hread : read.flow with
      | none => exact (hdone none).pre fun w l h => h.2.2
      | some flow =>
        refine assume fun hid => ?_
        refine CopySpec.pre (R := Copied i true [(request.flowId, read.version)]) ?_
          fun w l h => h.1 (.inr rfl)
        refine bind (inner (.copied true _) hdelete) fun remaining => ?_
        refine step (.copied true _) trivial fun now => ?_
        refine bind ((saveFlow (by simp [hid flow rfl])).pre fun w l h => h.saving) fun _ => ?_
        exact pure (.saving _) fun _ _ h => h.done

theorem processDeleteRequest (requestId : QueueId) (rounds : Nat) :
    CopySpec mt fc i (Copied i false []) (processDeleteRequest mt requestId rounds)
      (fun _ _ l => l.Clean) (fun _ l => l.Clean) := by
  have hactive : CopySpec mt fc i (Copied i false [])
      (processActiveDeleteRequest mt requestId rounds) (fun _ _ l => l.Clean)
      (fun _ l => l.Clean) := by
    refine bind ((applyDeleteMetadata requestId rounds).conseq (fun _ _ _ h => h.2)
      fun _ _ h => h.2) fun request => keeps ?_
    cases request with
    | none => simp
    | some request =>
      refine only_step trivial fun cleanups =>
        (only_keepsFlows_of_aside (processObjectCleanups_aside _)).bind fun _ => ?_
      split
      · exact only_keepsFlows_of_aside (releaseDeleteRequestClaim_aside _)
      · exact only_keepsFlows_of_aside (markDeleteRequestDone_aside _)
  refine bind (opens (.copied false []) (fun _ _ _ h => h.clean) (only_call (by trivial)))
    fun request => ?_
  cases request with
  | none => exact pure (.copied false []) fun _ _ h => h.clean
  | some request =>
    dsimp only
    split
    · exact pure (.copied false []) fun _ _ h => h.clean
    · refine Triple.tryCatch (fun _ _ _ _ h _ _ => h) hactive fun e => keeps ?_
      cases e <;> exact only_keepsFlows_of_aside (markDeleteRequestError_aside _ _)

end CopySpec

theorem operation_copies (op : Op) :
    CopySpec mt fc i (fun w l => w.running i = some op ∧ Copied i false [] w l)
      (operation mt fc op) (fun _ _ l => l.Clean) (fun _ l => l.Clean) := by
  have hout : ∀ {p : App Unit}, CopySpec mt fc i (Copied i false []) p (fun _ _ l => Outside l)
      (fun _ => Outside) → CopySpec mt fc i
      (fun w l => w.running i = some op ∧ Copied i false [] w l) p (fun _ _ l => l.Clean)
      (fun _ l => l.Clean) := fun hp =>
    (hp.conseq (fun _ _ _ h => h.2) fun _ _ h => h.2).pre fun _ _ h => h.2
  have hkeeps : ∀ {p : App Unit}, Only Call.KeepsFlows p → CopySpec mt fc i
      (fun w l => w.running i = some op ∧ Copied i false [] w l) p (fun _ _ l => l.Clean)
      (fun _ l => l.Clean) := fun hp => (CopySpec.keeps hp).pre fun _ _ h => h.2.clean
  have hkept : ∀ {p : App Unit}, Only Call.KeepsCatalogue p → CopySpec mt fc i
      (fun w l => w.running i = some op ∧ Copied i false [] w l) p (fun _ _ l => l.Clean)
      (fun _ l => l.Clean) := fun hp => hkeeps (only_keepsFlows_of_keepsCatalogue hp)
  have htame : ∀ {p : App Unit}, TameTransaction p → CopySpec mt fc i
      (fun w l => w.running i = some op ∧ Copied i false [] w l) p (fun _ _ l => l.Clean)
      (fun _ l => l.Clean) := fun hp => hkeeps (only_keepsFlows_of_tameTransaction hp)
  cases op with
  | registerSegments f posts rd readings =>
    exact hout (CopySpec.bind (CopySpec.registerSegments f posts rd readings) fun _ =>
      Triple.pure (fun _ _ _ h _ _ => h) fun _ _ _ h => h)
  | deleteSegments f timerange objectId rounds =>
    exact hout (CopySpec.deleteSegments f timerange objectId rounds)
  | deleteFlow f => exact hout (CopySpec.deleteFlowOperation f)
  | processDeleteRequest requestId rounds =>
    exact (CopySpec.processDeleteRequest requestId rounds).pre fun _ _ h => h.2
  | putFlow f flow suppliedFields subject =>
    exact ((CopySpec.putFlow f flow suppliedFields subject).conseq (fun _ _ _ h => h.2)
      fun _ _ h => h.2).pre fun _ _ h => ⟨by rw [h.1]; simp [Op.puts], h.2⟩
  | editFlow f edit identity => exact hout (CopySpec.editFlow f edit identity)
  | allocateFlowStorage settings f request rounds =>
    exact hkept (allocateFlowStorage_keepsCatalogue settings f request rounds)
  | registerObjectInstance o url label =>
    exact hkept (registerObjectInstance_keepsCatalogue o url label)
  | queueControlledObjectCopy o destination =>
    exact hkept (queueControlledObjectCopy_keepsCatalogue o destination)
  | deleteObjectInstance o storageId label =>
    exact hkept (deleteObjectInstance_keepsCatalogue o storageId label)
  | runObjectCopy copy => exact hkept (runObjectCopy_keepsCatalogue copy)
  | processObjectCleanups cleanups =>
      exact hkept (only_keepsCatalogue_of_aside (processObjectCleanups_aside cleanups))
  | queueStaleAllocatedObjectCleanups before maxObjects =>
    exact hkept (queueStaleAllocatedObjectCleanups_keepsCatalogue before maxObjects)
  | editSource s edit => exact htame (editSource_tame s edit)
  | createProfile p payload => exact htame ((createProfile_onProfiles fc p payload).mono
    fun _ hc => hc.tame)
  | ensureProfile p payload => exact htame ((ensureProfile_onProfiles fc p payload).mono
    fun _ hc => hc.tame)
  | deleteProfileIfUnused p => exact htame ((deleteProfileIfUnused_onProfiles p).mono
    fun _ hc => hc.tame)

variable {c : (service mt fc).Config} {db : Database}

theorem copyInv_of_reachable
    (hc : (service mt fc).Reachable (guardedChanges mt fc) (World.initial db) c) :
    CopyInv c.shared := by
  have hinit : CopyInv (World.initial db) :=
    ⟨by simp [World.initial], by simp [World.initial]⟩
  refine (Reachable.ok (P := copyProtocol mt fc) ?_ ?_ hinit hc).inv
  · intro i op w hi _
    have hi' : CopyInv { w with running := Function.update w.running i (some op) } :=
      ⟨hi.saves, fun j copy hcopy => ⟨(hi.copies j copy hcopy).current,
        (hi.copies j copy hcopy).locked⟩⟩
    refine ⟨hi', fun j hj => ⟨rfl, Function.update_of_ne hj _ _, fun _ _ => rfl⟩, ?_⟩
    have hsafe : CopySpec mt fc i (fun w l => w.running i = some op ∧ Copied i false [] w l)
      (operation mt fc op) (fun _ _ l => l.Clean) (fun _ l => l.Clean) := operation_copies op
    refine Safe.bind (Safe.mono (hsafe _ .idle hi' ⟨Function.update_self i _ _, rfl, ?_, ?_⟩)
      fun _ _ _ _ _ _ _ _ => trivial)
    · simp [Session.Clean, Session.idle]
    · simp
  · intro i w hi
    have hrel := hi.release i
    refine ⟨⟨hrel.saves, fun j copy hcopy => ⟨(hrel.copies j copy hcopy).current,
      (hrel.copies j copy hcopy).locked⟩⟩, fun j hj => ⟨?_, ?_, fun _ _ => rfl⟩⟩
    · exact (CopyRely.release w hj).copies
    · exact Function.update_of_ne hj _ _

def saves (c : (service mt fc).Config) : List FlowSave := (World.history c.shared).saves

variable {f : FlowId}

theorem saves_commit_of_appears {w : World} {writes : List Write}
    (hbefore : w.db.flows.get f = none) (hafter : (w.commit i writes).db.flows.get f ≠ none) :
    ∃ s ∈ (w.commit i writes).history.saves, s.present = false ∧
      s.byPut = Op.puts f (w.running i) := by
  obtain ⟨basis, hmem⟩ := flowSaves_of_appears hbefore hafter
  exact ⟨_, List.mem_append_right _ (List.mem_map_of_mem hmem), rfl, rfl⟩

theorem saves_exec_of_appears {ch : Choice} {q : Call} {w w' : World} {l l' : Session}
    {r : q.Resp} (h : exec mt i ch q w l = some (r, w', l'))
    (hbefore : w.db.flows.get f = none) (hafter : w'.db.flows.get f ≠ none) :
    ∃ s ∈ w'.history.saves, s.present = false ∧ s.byPut = Op.puts f (w.running i) := by
  cases exec_moves h with
  | commit => exact saves_commit_of_appears hbefore hafter
  | submits _ hsub =>
    unfold World.submit at hsub
    split at hsub
    · cases hsub
      exact absurd hbefore hafter
    · cases hsub
      exact saves_commit_of_appears hbefore hafter
  | _ => exact absurd hbefore hafter

/-- **No lost update and no resurrected flow**, in every run of guarded commits: every
    committed save overwrites the version that its copy was read at, a row that is not
    there is saved by `put_flow` only, and a step that makes a row appear is a step of
    `put_flow` for that flow. -/
theorem no_lost_update
    (hc : (service mt fc).Reachable (guardedChanges mt fc) (World.initial db) c) :
    (∀ s ∈ saves c, s.basis = s.current ∧ (s.present = true ∨ s.byPut = true)) ∧
    ∀ a c', (service mt fc).step c a = some c' → (guardedChanges mt fc).Permits c a →
      ∀ f, (database c).flows.get f = none → (database c').flows.get f ≠ none →
        ∃ i ch, a = .call i ch ∧ Op.puts f (World.running c.shared i) = true := by
  refine ⟨(copyInv_of_reachable hc).saves, fun a c' hstep hperm f hbefore hafter => ?_⟩
  have hinv := copyInv_of_reachable (.step a hc hstep hperm)
  cases stepped hstep with
  | start i op _ =>
    exact absurd hbefore hafter
  | call i ch _ _ _ _ _ _ _ hexec =>
    refine ⟨i, ch, rfl, ?_⟩
    obtain ⟨s, hs, hpresent, hput⟩ := saves_exec_of_appears hexec hbefore hafter
    rcases (hinv.saves s hs).2 with h | h
    · rw [hpresent] at h
      cases h
    · exact hput.symm.trans h
  | leave i =>
    exact absurd hbefore hafter

def callsOf (i : SessionId) (calls : Nat) :
    List (service sampleTimestamp sampleContract).Action :=
  List.replicate calls (.call i ⟨7, 3, true, fun _ => false⟩)

/-- No other session has a copy of a flow when this one commits. -/
def editsAlone (i : SessionId) (q : Call) (w : World) (_ : Session) : Bool :=
  match q with
  | .commit => (List.range 2).all fun j => j = i || w.history.copies j = []
  | _ => true

/-- One session changes the label while another waits for the flow, and then changes the
    description: both changes stay. -/
theorem no_lost_update_sample :
    ∃ (actions : List sampleStore.Action) (c : sampleStore.Config),
      runSessions 2 editsAlone actions = some c ∧
      ((database c).flows.get 1).map (fun flow => (flow.data.get "label", flow.data.get "description")) =
        some (some (.text "new"), some (.text "about")) ∧
      (saves c).map (fun s => (s.flowId, s.current)) = [(1, 0), (1, 1)] ∧
      ∀ s ∈ saves c, s.basis = s.current ∧ (s.present = true ∨ s.byPut = true) := by
  let actions : List sampleStore.Action :=
    .start 0 (.editFlow 1 (.setProperty .label (.text "new")) none) :: callsOf 0 3 ++
      .start 1 (.editFlow 1 (.setProperty .description (.text "about")) none) :: callsOf 1 1 ++
      callsOf 0 4 ++ callsOf 1 6
  obtain ⟨c, hc, hdata, hsaves⟩ : ∃ c, runSessions 2 editsAlone actions = some c ∧
      ((database c).flows.get 1).map (fun flow => (flow.data.get "label", flow.data.get "description")) =
        some (some (.text "new"), some (.text "about")) ∧
      (saves c).map (fun s => (s.flowId, s.current)) = [(1, 0), (1, 1)] :=
    exists_of_any (by decide +kernel)
  refine ⟨actions, c, hc, hdata, hsaves, (no_lost_update (reachable_of_runSessions
    (D := guardedChanges sampleTimestamp sampleContract) (fun _ => trivial) ?_ hc)).1⟩
  intro i q r w l hq hidle
  cases q with
  | commit =>
    intro f _ j hj copy hcopy
    have hnone : w.history.copies j = [] := by
      by_cases hjn : j < 2
      · have hall := List.all_eq_true.mp hq j (List.mem_range.mpr hjn)
        simpa [hj] using hall
      · exact (hidle j (Nat.le_of_not_lt hjn)).1
    rw [hnone] at hcopy
    cases hcopy
  | _ => trivial

/-- `delete_segments` with an object filter reads the flow, and saves that copy after
    another session has changed the flow's label, or has deleted the flow: the label is lost,
    the flow is back. -/
theorem lost_update_and_resurrection :
    (∃ c : (service sampleTimestamp sampleContract).Config,
      Reachable _ (Discipline.free _) (World.initial sampleDatabase) c ∧
      ∃ s ∈ saves c, s.flowId = 1 ∧ s.basis < s.current) ∧
    ∃ c : (service sampleTimestamp sampleContract).Config,
      Reachable _ (Discipline.free _) (World.initial sampleDatabase) c ∧
      ((database c).flows.get 1).isSome = true ∧
      ∃ s ∈ saves c, s.flowId = 1 ∧ s.present = false ∧ s.byPut = false := by
  let start : List sampleStore.Action :=
    session (sampleRegister [samplePost "a" "[0:0_10:0)"]) 15 ++
      [.start 0 (.deleteSegments 1 none (some "a") 5)] ++ callsOf 0 2
  let edit : List sampleStore.Action :=
    .start 1 (.editFlow 1 (.setProperty .label (.text "new")) none) :: callsOf 1 7
  let delete : List sampleStore.Action :=
    .start 1 (.deleteFlow 1) :: callsOf 1 5 ++ .leave 1 ::
      .start 1 (.processDeleteRequest 3 5) :: callsOf 1 19
  let ran (actions : List sampleStore.Action) :=
    run sampleStore (tests _ (fun _ => true) (fun _ _ _ _ => true))
      (.initial (World.initial sampleDatabase)) actions
  have hreach : ∀ {actions c}, ran actions = some c → Reachable _ (Discipline.free _)
      (World.initial sampleDatabase) c := fun h =>
    Reachable.of_run (fun _ _ => trivial) (fun _ _ _ _ _ _ => trivial) .init h
  obtain ⟨c, hc, hlost⟩ : ∃ c, ran (start ++ edit ++ callsOf 0 12) = some c ∧
      ∃ s ∈ saves c, s.flowId = 1 ∧ s.basis < s.current := exists_of_any (by decide +kernel)
  obtain ⟨c', hc', hback⟩ : ∃ c, ran (start ++ delete ++ callsOf 0 8) = some c ∧
      ((database c).flows.get 1).isSome = true ∧
        ∃ s ∈ saves c, s.flowId = 1 ∧ s.present = false ∧ s.byPut = false :=
    exists_of_any (by decide +kernel)
  exact ⟨⟨c, hreach hc, hlost⟩, c', hreach hc', hback⟩

end Tamoss
