import BrowserPilot.Proofs.Agent.Account
import BrowserPilot.Proofs.Transcript.Export

/-! The entries that a run adds, as a function of the agent. The results among them can be read again. -/
namespace BrowserPilot
open Browser

namespace StepResult

def map (f : Text → Text) (r : StepResult) : StepResult := ⟨f r.action, r.success, r.data.map f, r.error.map f⟩

variable {f : Text → Text}

theorem regular_toJson_map (depth : Nat) (r : StepResult) (h : ∀ text, Json.Unpaired (f text).toList) :
    Json.Regular (depth + 1) (r.map f).toJson := by
  obtain ⟨action, success, data, error⟩ := r
  refine .obj ?_ ?_ ?_
  · cases data <;> cases error <;> simp [map]
  all_goals
    intro p hp
    simp only [map, List.mem_append, List.mem_cons, List.not_mem_nil, or_false, Option.mem_toList,
      Option.map_eq_some_iff] at hp
    rcases hp with ((rfl | rfl) | ⟨_, ⟨text, _, rfl⟩, rfl⟩) | ⟨_, ⟨text, _, rfl⟩, rfl⟩
  · exact Json.unpaired_ofString _
  · exact Json.unpaired_ofString _
  · exact Json.unpaired_ofString _
  · exact Json.unpaired_ofString _
  · exact .str (h _)
  · exact .bool _
  · exact .str (h _)
  · exact .str (h _)

theorem compact_map (r : StepResult) (h : ∀ text, Json.printString (f text) = Json.printString text) :
    (r.map f).toJson.compact = r.toJson.compact := by
  obtain ⟨action, success, data, error⟩ := r
  cases data <;> cases error <;>
    simp [map, toJson, Json.compact, Json.print, Json.printFields, Json.printLeaf, h]

/-- The recorded JSON of a result can always be read. -/
theorem exists_read_compact (r : StepResult) : ∃ v, Json.read r.toJson.compact = .ok v := by
  choose f hf hp using Json.exists_unpaired_printString
  refine ⟨(r.map f).toJson, ?_⟩
  rw [← r.compact_map hp]
  exact (r.regular_toJson_map 989 hf).read_compact

end StepResult

namespace Remark

theorem legible_ofModel (text : Text) : (ofModel text).Legible := legible_of_none rfl

theorem legible_ofFailure (f : Failure) : (ofFailure f).Legible := legible_of_none rfl

theorem legible_ofResult (r : StepResult) : (ofResult r).Legible := by
  intro text ht
  obtain rfl := Option.some.inj ht
  exact r.exists_read_compact

end Remark

theorem Transcript.Grows.map_drop {t t' : Transcript} {remarks : List Remark} (h : t.Grows t' remarks) :
    (t'.entries.drop t.entries.length).map Remark.ofEntry = remarks := by
  obtain ⟨added, he, rfl⟩ := h
  rw [he, List.drop_left]

namespace Agent

/-- The entries that a run adds to the transcript. -/
def additions (w : World) (runner : Runner) (message : Option Text) (a : Agent) : List Remark :=
  ((a.run w runner message).2.transcript.entries.drop a.transcript.entries.length).map Remark.ofEntry

variable {w : World} {runner : Runner} {a : Agent}

theorem legible_of_mem_results (results : List StepResult) :
    ∀ r ∈ Remark.ofModel "Executing plan..." :: results.map .ofResult, r.Legible :=
  List.forall_mem_cons.mpr ⟨Remark.legible_ofModel _, List.forall_mem_map.mpr fun r _ => Remark.legible_ofResult r⟩

theorem Meets.legible {f : Failure} {before : List Remark} (h : Meets w runner a f before) :
    ∀ r ∈ before, r.Legible := by
  cases h with
  | brokenOff _ _ => exact legible_of_mem_results []
  | noSummary _ _ _ => exact legible_of_mem_results _
  | _ => exact List.forall_mem_nil _

theorem Told.legible {outcome : Outcome} {remarks : List Remark} (h : Told w runner a outcome remarks) :
    ∀ r ∈ remarks, r.Legible := by
  cases h with
  | clarification _ _ => exact List.forall_mem_singleton.mpr (Remark.legible_ofModel _)
  | invalidPlan _ _ => exact List.forall_mem_singleton.mpr (Remark.legible_ofModel _)
  | results _ _ _ =>
    rw [← List.cons_append]
    exact List.forall_mem_append.mpr
      ⟨legible_of_mem_results _, List.forall_mem_singleton.mpr (Remark.legible_ofModel _)⟩
  | error hm _ =>
    exact List.forall_mem_append.mpr ⟨hm.legible, List.forall_mem_singleton.mpr (Remark.legible_ofFailure _)⟩

theorem additions_of_unencodable (w : World) (runner : Runner) {message : Option Text} (a : Agent)
    (h : (taskOf message).isEncodable = false) : a.additions w runner message = [] := by
  rw [additions, run_of_unencodable w runner a h, List.drop_length, List.map_nil]

/-- For a task that can be encoded these are the task and the entries of the outcome or of the failure. -/
theorem told_additions (w : World) (runner : Runner) {message : Option Text} (a : Agent)
    (h : (taskOf message).isEncodable = true) :
    ∃ remarks, a.additions w runner message = .ofUser (taskOf message) :: remarks ∧
      ((∃ outcome, (a.run w runner message).1 = .ok outcome ∧ Told w runner a outcome remarks) ∨
        ∃ f, Meets w runner a f remarks ∧ f.text.isEncodable = false ∧
          (a.run w runner message).1 = .error (.unrecorded (.unencodable ("Error: " ++ f.text)))) := by
  obtain ⟨remarks, hg, ht⟩ := told_run w runner a h
  exact ⟨remarks, hg.map_drop, ht⟩

theorem grows_run (w : World) (runner : Runner) (message : Option Text) (a : Agent) :
    a.transcript.Grows (a.run w runner message).2.transcript (a.additions w runner message) := by
  cases h : (taskOf message).isEncodable with
  | true =>
    obtain ⟨remarks, hg, _⟩ := told_run w runner a h
    rw [additions, hg.map_drop]
    exact hg
  | false =>
    rw [additions_of_unencodable w runner a h, run_of_unencodable w runner a h]
    exact .refl _

theorem legible_of_mem_additions {message : Option Text} {r : Remark} (h : r ∈ a.additions w runner message) :
    r.Legible := by
  cases ht : (taskOf message).isEncodable with
  | true =>
    obtain ⟨remarks, he, hr⟩ := told_additions w runner a ht
    rw [he] at h
    rcases List.mem_cons.mp h with rfl | h
    · exact Remark.legible_of_none rfl
    · rcases hr with ⟨outcome, _, hr⟩ | ⟨f, hm, _⟩
      · exact hr.legible r h
      · exact hm.legible r h
  | false =>
    rw [additions_of_unencodable w runner a ht] at h
    cases h

theorem remarks_run (w : World) (runner : Runner) (message : Option Text) (a : Agent) :
    (a.run w runner message).2.transcript.entries.map Remark.ofEntry =
      a.transcript.entries.map Remark.ofEntry ++ a.additions w runner message :=
  (a.grows_run w runner message).map_ofEntry

end Agent

end BrowserPilot
