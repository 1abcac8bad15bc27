/-
  **References between flows, and from flows to sources.**
-/
import Tamoss.Store.CatalogueRuns
import Tamoss.Store.Guarantees

namespace Tamoss

open Lib.Machine

variable {mt : MediaTimestamp} {fc : FlowContract}

def recordedDatabase (c : (recordedService mt fc).Config) : Database := World.db c.shared.1

variable {c : (recordedService mt fc).Config} {db₀ : Database}

/-- In every undisturbed run, in every state, each collection names stored flows other than
    the flow itself, each once. -/
theorem collections_in_order (h₀ : CollectionsOk db₀)
    (hc : (recordedService mt fc).Reachable (undisturbed mt fc) (World.initial db₀, .empty) c) :
    CollectionsOk (recordedDatabase c) :=
  (catalogueInvariant_run hc).1.1 h₀

def plainContract : FlowContract where
  flowPut data := match data.get "id", data.get "source_id" with
    | some (.uuid f), some (.uuid s) => some (f, s)
    | _, _ => none
  flowPayload data := match data.get "source_id", data.get "format" with
    | some (.uuid s), some (.text format) => some (data, s, format)
    | _, _ => none
  uuid value := match value with
    | .uuid id => some id
    | _ => none
  initSegments _ := false
  textField data name := match data.get name with
    | some (.text value) => some value
    | _ => none
  tagsField _ := []
  profileBody _ := true

def memberFlow : Op :=
  .putFlow 1 [("id", .uuid 1), ("source_id", .uuid 8), ("format", .text "video")] none "ann"

def collectingFlow : Op :=
  .putFlow 2 [("id", .uuid 2), ("source_id", .uuid 9), ("format", .text "video"),
    ("flow_collection", .collection [⟨1, ""⟩])] none "ben"

def siblingFlow : Op :=
  .putFlow 3 [("id", .uuid 3), ("source_id", .uuid 8), ("format", .text "video")] none "ben"

def recordedCalls (i : SessionId) (op : Op) (calls : Nat) :
    List (recordedService sampleTimestamp plainContract).Action :=
  .start i op :: List.replicate calls (.call i ⟨7, 3, true, fun _ => false⟩)

def runUndisturbed (actions : List (recordedService sampleTimestamp plainContract).Action) :
    Option (recordedService sampleTimestamp plainContract).Config :=
  run _ (tests _ (fun _ => true) fun i q s l => match q with
      | .commit => ∀ e ∈ s.2.rows, e.1 ≠ i → e.2.StandsIn (World.view s.1 l)
      | _ => true)
    (.initial (World.initial Database.empty, .empty)) actions

theorem reachable_of_runUndisturbed
    {actions : List (recordedService sampleTimestamp plainContract).Action}
    {c : (recordedService sampleTimestamp plainContract).Config}
    (h : runUndisturbed actions = some c) :
    (recordedService sampleTimestamp plainContract).Reachable
      (undisturbed sampleTimestamp plainContract) (World.initial Database.empty, .empty) c := by
  refine Reachable.of_run (fun _ _ => trivial) ?_ .init h
  intro i q r s l hq
  cases q with
  | commit =>
    intro e he
    exact (of_decide_eq_true hq : ∀ e ∈ s.2.rows, e.1 ≠ i → e.2.StandsIn (World.view s.1 l)) e he
  | _ => trivial

theorem undisturbed_runs :
    (runUndisturbed (recordedCalls 0 memberFlow 10 ++ recordedCalls 1 collectingFlow 11)).any
      (fun c => ((recordedDatabase c).flows.get 2).any fun flow =>
        flow.flowCollection.map (·.id) = [1]) = true ∧
    (runUndisturbed (recordedCalls 0 memberFlow 10 ++ recordedCalls 1 siblingFlow 9)).any
      (fun c => (c.threads 1).any (fun t => t.1.writes.any fun w => match w with
          | .saveSource source => source.id = 8
          | _ => false) && (((recordedDatabase c).sources.get 8).isSome &&
          ((World.running c.shared.1 1).bind Op.sourceEdit).isNone)) = true := by
  decide +kernel

def plainCalls (i : SessionId) (calls : Nat) :
    List (service sampleTimestamp plainContract).Action :=
  List.replicate calls (.call i ⟨7, 3, true, fun _ => false⟩)

def runPlain (actions : List (service sampleTimestamp plainContract).Action) :
    Option (service sampleTimestamp plainContract).Config :=
  run _ (tests _ (fun _ => true) fun _ _ _ _ => true) (.initial (World.initial Database.empty))
    actions

theorem reachable_of_runPlain {actions : List (service sampleTimestamp plainContract).Action}
    {c : (service sampleTimestamp plainContract).Config} (h : runPlain actions = some c) :
    (service sampleTimestamp plainContract).Reachable (.free _) (World.initial Database.empty) c :=
  Reachable.of_run (fun _ _ => trivial) (fun _ _ _ _ _ _ => trivial) .init h

theorem disturbed_runs :
    (runPlain (.start 0 memberFlow :: plainCalls 0 10 ++ .start 1 collectingFlow ::
        plainCalls 1 9 ++ .start 2 (.deleteFlow 1) :: plainCalls 2 9 ++ plainCalls 1 2)).any
      (fun c => ((database c).flows.get 2).any (fun flow => flow.flowCollection.map (·.id) = [1]) &&
        ((database c).flows.get 1).isNone) = true ∧
    (runPlain (.start 0 memberFlow :: plainCalls 0 10 ++ .start 2 (.deleteFlow 1) ::
        plainCalls 2 6 ++ .start 1 siblingFlow :: plainCalls 1 10 ++ plainCalls 2 3)).any
      (fun c => ((database c).flows.get 3).any (fun flow => flow.sourceId = some 8) &&
        ((database c).sources.get 8).isNone) = true ∧
    (runPlain (.start 0 memberFlow :: plainCalls 0 10 ++ .start 1 siblingFlow ::
        plainCalls 1 5 ++ .start 2 (.editSource 8 (.setProperty .label "new")) ::
        plainCalls 2 6)).any
      (fun c => (((database c).sources.get 8).map (·.label) = some (some (.text "new"))) &&
        (run _ (tests _ (fun _ => true) fun _ _ _ _ => true) c (plainCalls 1 5)).any fun c' =>
          ((database c').sources.get 8).map (·.label) = some none) = true := by
  decide +kernel

theorem collections_in_order_sample :
    ∃ c : (recordedService sampleTimestamp plainContract).Config,
      (∃ flow, (recordedDatabase c).flows.get 2 = some flow ∧
        flow.flowCollection.map (·.id) = [1]) ∧ CollectionsOk (recordedDatabase c) := by
  obtain ⟨c, hc, hany⟩ := Option.any_eq_true .. |>.mp undisturbed_runs.1
  obtain ⟨flow, hflow, hids⟩ := Option.any_eq_true .. |>.mp hany
  have hempty : CollectionsOk Database.empty := fun flow hflow => by cases hflow
  exact ⟨c, ⟨flow, hflow, of_decide_eq_true hids⟩,
    collections_in_order hempty (reachable_of_runUndisturbed hc)⟩

theorem collects_deleted_flow :
    ∃ c : (service sampleTimestamp plainContract).Config,
      Reachable _ (.free _) (World.initial Database.empty) c ∧ ¬ CollectionsOk (database c) := by
  obtain ⟨c, hc, hany⟩ := Option.any_eq_true .. |>.mp disturbed_runs.1
  obtain ⟨hcollects, hgone⟩ := Bool.and_eq_true_iff.mp hany
  obtain ⟨flow, hflow, hids⟩ := Option.any_eq_true .. |>.mp hcollects
  refine ⟨c, reachable_of_runPlain hc, fun hok => ?_⟩
  obtain ⟨item, hitems, hid⟩ := List.map_eq_singleton_iff.mp (of_decide_eq_true hids)
  have hmem : item ∈ flow.flowCollection := by simp [hitems]
  have hstored := (hok flow (Lib.Table.get_eq_some.mp hflow).1).stored item hmem
  rw [hid, Option.isNone_iff_eq_none.mp hgone] at hstored
  cases hstored

/-- In every undisturbed run, in every state, the source of each flow is stored, and each
    source record that a session is about to save is the stored one with the session's own
    edit. -/
theorem sources_in_order (h₀ : FlowsSourced db₀)
    (hc : (recordedService mt fc).Reachable (undisturbed mt fc) (World.initial db₀, .empty) c) :
    FlowsSourced (recordedDatabase c) ∧
      ∀ i l p, c.threads i = some ⟨l, p⟩ → ∀ source, .saveSource source ∈ l.writes →
        MadeFrom ((World.running c.shared.1 i).bind Op.sourceEdit) (recordedDatabase c)
          source := by
  have hinv := catalogueInvariant_run hc
  refine ⟨hinv.1.2.1 h₀, ?_⟩
  intro i l p hth source hsource
  obtain ⟨m, hm, htracks, hsound, hedit⟩ := hinv.2 i l p hth
  have hown : m.StandsIn (recordedDatabase c) :=
    hinv.1.2.2 (i, m) (Lib.Table.get_eq_some.mp hm).1
  have hmem : .saveSource source ∈ m.writes :=
    htracks.writes ▸ List.mem_filter.mpr ⟨hsource, rfl⟩
  exact hedit ▸ hsound.made source hmem _ hown

/-- A second flow of source 8 is about to be stored. -/
theorem sources_in_order_sample :
    ∃ (c : (recordedService sampleTimestamp plainContract).Config) (source : SourceRecord),
      FlowsSourced (recordedDatabase c) ∧ source.id = 8 ∧
        ((recordedDatabase c).sources.get 8).isSome = true ∧
        MadeFrom none (recordedDatabase c) source := by
  obtain ⟨c, hc, hany⟩ := Option.any_eq_true .. |>.mp undisturbed_runs.2
  obtain ⟨hthread, hrest⟩ := Bool.and_eq_true_iff.mp hany
  obtain ⟨hstored, hedit⟩ := Bool.and_eq_true_iff.mp hrest
  obtain ⟨⟨l, p⟩, hth, hwrites⟩ := Option.any_eq_true .. |>.mp hthread
  obtain ⟨w, hw, hsource⟩ := List.any_eq_true.mp hwrites
  have hempty : FlowsSourced Database.empty := fun flow hflow => by cases hflow
  have hrun := sources_in_order hempty (reachable_of_runUndisturbed hc)
  cases w with
  | saveSource source =>
    have hmade := hrun.2 1 l p hth source hw
    rw [Option.isNone_iff_eq_none.mp hedit] at hmade
    exact ⟨c, source, hrun.1, of_decide_eq_true hsource, hstored, hmade⟩
  | _ => cases hsource

/-- The last flow of source 8 is being deleted and no other is found; a new flow of that
    source is stored; the deletion drops the source.  And: `put_flow` has read source 8; its
    label is set; `put_flow` saves the copy without the label. -/
theorem source_dropped_and_edit_lost :
    (∃ c : (service sampleTimestamp plainContract).Config,
      Reachable _ (.free _) (World.initial Database.empty) c ∧ ¬ FlowsSourced (database c)) ∧
    ∃ c c' : (service sampleTimestamp plainContract).Config,
      Reachable _ (.free _) (World.initial Database.empty) c ∧
      run _ (tests _ (fun _ => true) fun _ _ _ _ => true) c (plainCalls 1 5) = some c' ∧
      ((database c).sources.get 8).map (·.label) = some (some (.text "new")) ∧
      ((database c').sources.get 8).map (·.label) = some none := by
  constructor
  · obtain ⟨c, hc, hany⟩ := Option.any_eq_true .. |>.mp disturbed_runs.2.1
    obtain ⟨hsourced, hgone⟩ := Bool.and_eq_true_iff.mp hany
    obtain ⟨flow, hflow, hsource⟩ := Option.any_eq_true .. |>.mp hsourced
    refine ⟨c, reachable_of_runPlain hc, fun hok => ?_⟩
    have hstored := hok flow (Lib.Table.get_eq_some.mp hflow).1 8 (of_decide_eq_true hsource)
    rw [Option.isNone_iff_eq_none.mp hgone] at hstored
    cases hstored
  · obtain ⟨c, hc, hany⟩ := Option.any_eq_true .. |>.mp disturbed_runs.2.2
    obtain ⟨hnew, hrest⟩ := Bool.and_eq_true_iff.mp hany
    obtain ⟨c', hc', hold⟩ := Option.any_eq_true .. |>.mp hrest
    exact ⟨c, c', reachable_of_runPlain hc, hc', of_decide_eq_true hnew, of_decide_eq_true hold⟩

end Tamoss
