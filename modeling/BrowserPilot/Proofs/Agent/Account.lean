import BrowserPilot.Proofs.Agent.Resolution
import BrowserPilot.Proofs.Browser.Results
import BrowserPilot.Proofs.Plan.Acceptance
import BrowserPilot.Proofs.Transcript.Numbering

/-! The entries that a run adds to the transcript. They agree with the outcome wherever the run fails. A task that
cannot be encoded adds nothing and has no outcome. -/
namespace BrowserPilot
open Browser

namespace Remark

def ofUser (text : Text) : Remark := ⟨userRole, text, none⟩

def ofModel (text : Text) : Remark := ⟨modelRole, text, none⟩

/-- The entry of a result has its compact JSON both as text and as result. -/
def ofResult (r : StepResult) : Remark := ⟨resultRole, r.toJson.compact, some r.toJson.compact⟩

def ofFailure (f : Failure) : Remark := .ofModel ("Error: " ++ f.text)

def isResult (r : Remark) : Bool := r.role = (resultRole : Text)

end Remark

namespace Transcript.Grows

theorem noted (t : Transcript) (role : String) {text : Text} (h : text.isEncodable = true) :
    t.Grows (t.after (.add (some role) (some text) none)) [⟨role, text, none⟩] := by
  have hs : Storable (some ↑role) (some text) none := ⟨by simp, h, rfl⟩
  exact t.grows_of_storable hs

theorem addResults (t : Transcript) (results : List StepResult) :
    t.Grows (t.addResults results) (results.map .ofResult) := by
  induction results generalizing t with
  | nil => exact refl t
  | cons r results ih => exact (t.grows_of_storable r.storable_toJson).trans (ih _)

end Transcript.Grows

/-- The model's reaction to the second request. -/
def ChatModel.second? (m : ChatModel) : Option Answer := (m.built.answers.getD [])[1]?

theorem ChatModel.next?_ask (system user : Text) (m : ChatModel) :
    ((ask system user).run m).2.next? = m.second? := by
  change (m.built.answers.getD []).tail.head? = _
  rw [List.head?_tail]
  rfl

namespace Agent

/-- The results, or the failure, of executing a plan from the agent's state. -/
def executed (w : World) (runner : Runner) (a : Agent) (plan : Plan) : Except Failure (List StepResult) :=
  ((runner.execute w (Command.ofPlan plan)).run ⟨.nothing, a.log⟩).1

/-- The summary of results, for which the model is asked unless there are none. -/
def summary (a : Agent) (results : List StepResult) : Except Failure Text :=
  if results.isEmpty then .ok Summary.nothingDone else ChatModel.hear a.model.second?

/-- The summary, or a failure if it cannot be recorded. -/
def summarized (a : Agent) (results : List StepResult) : Except Failure Text :=
  (a.summary results).bind fun summary => (recorded summary).map fun _ => summary

/-- The failures of a run, each with the entries added between the message and the failure: no plan was decoded, a
reply cannot be recorded, the execution failed, or the summary failed. -/
inductive Meets (w : World) (runner : Runner) (a : Agent) : Failure → List Remark → Prop
  | noPlan {f : Failure} : a.resolution = .error f → Meets w runner a f []
  | question {text : Text} {f : Failure} : a.resolution = .ok (.asks text) → recorded text = .error f →
      Meets w runner a f []
  | refusal {defects : List Plan.Defect} {f : Failure} : a.resolution = .ok (.refuses defects) →
      recorded (refusal defects) = .error f → Meets w runner a f []
  | brokenOff {plan : Plan} {f : Failure} : a.resolution = .ok (.executes plan) →
      a.executed w runner plan = .error f → Meets w runner a f [.ofModel "Executing plan..."]
  | noSummary {plan : Plan} {results : List StepResult} {f : Failure} : a.resolution = .ok (.executes plan) →
      a.executed w runner plan = .ok results → a.summarized results = .error f →
      Meets w runner a f (.ofModel "Executing plan..." :: results.map .ofResult)

/-- The outcomes of a run, each with the entries added after the message. -/
inductive Told (w : World) (runner : Runner) (a : Agent) : Outcome → List Remark → Prop
  | clarification {text : Text} : a.resolution = .ok (.asks text) → recorded text = .ok () →
      Told w runner a (.clarification text) [.ofModel text]
  | invalidPlan {defects : List Plan.Defect} : a.resolution = .ok (.refuses defects) →
      recorded (refusal defects) = .ok () → Told w runner a (.invalidPlan defects)
        [.ofModel ("Invalid action plan:\n" ++ Text.joinLines (defects.map Plan.Defect.message))]
  | results {plan : Plan} {results : List StepResult} {summary : Text} : a.resolution = .ok (.executes plan) →
      a.executed w runner plan = .ok results → a.summarized results = .ok summary →
      Told w runner a (.results results summary)
        (.ofModel "Executing plan..." :: (results.map .ofResult ++ [.ofModel summary]))
  | error {f : Failure} {before : List Remark} : Meets w runner a f before → f.text.isEncodable = true →
      Told w runner a (.error f.text) (before ++ [.ofFailure f])

variable {w : World} {runner : Runner} {a : Agent}

theorem Meets.of_noted {role : String} {text : Text} {f : Failure} {before : List Remark}
    (h : Meets w runner (a.noted role text) f before) : Meets w runner a f before := by
  cases h with
  | noPlan hr => exact .noPlan hr
  | question hr hf => exact .question hr hf
  | refusal hr hf => exact .refusal hr hf
  | brokenOff hr he => exact .brokenOff hr he
  | noSummary hr he hs => exact .noSummary hr he hs

theorem Told.of_noted {role : String} {text : Text} {outcome : Outcome} {remarks : List Remark}
    (h : Told w runner (a.noted role text) outcome remarks) : Told w runner a outcome remarks := by
  cases h with
  | clarification hr ht => exact .clarification hr ht
  | invalidPlan hr ht => exact .invalidPlan hr ht
  | results hr he hs => exact .results hr he hs
  | error hm hf => exact .error hm.of_noted hf

theorem recorded_eq_ok_iff {text : Text} : recorded text = .ok () ↔ text.isEncodable = true := by
  cases h : text.isEncodable <;> simp [recorded, h]

theorem recorded_of_unencodable {text : Text} (h : text.isEncodable = false) :
    recorded text = .error (.unrecorded (.unencodable text)) := if_neg (by simp [h])

theorem exists_reply_of_resolution {resolution : Resolution} (h : a.resolution = .ok resolution) :
    ∃ answer reply, ChatModel.hear a.model.next? = .ok answer ∧ ModelReply.ofText answer = .ok reply ∧
      resolve a.active reply = .ok resolution := by
  unfold Agent.resolution at h
  cases hh : ChatModel.hear a.model.next? with
  | error f =>
    rw [hh] at h
    cases h
  | ok answer =>
    simp only [hh, Except.bind] at h
    cases hr : ModelReply.ofText answer with
    | error e => simp [hr] at h
    | ok reply => exact ⟨answer, reply, rfl, hr, by simpa [hr] using h⟩

theorem ne_nil_of_refuses {defects : List Plan.Defect} (h : a.resolution = .ok (.refuses defects)) :
    defects ≠ [] := by
  obtain ⟨_, reply, _, _, hr⟩ := exists_reply_of_resolution h
  cases reply with
  | question text => cases hr
  | plan raw =>
    simp only [resolve] at hr
    split at hr
    · cases hr
    · rename_i found hv
      obtain rfl := Resolution.refuses.inj (Except.ok.inj hr)
      exact Plan.ne_nil_of_rejected hv
    · cases hr

theorem summary_eq (a : Agent) (system task : Text) (results : List StepResult) :
    ((Summary.ofResults system results).run (a.asked task).model).1 = a.summary results := by
  unfold Summary.ofResults summary
  split
  · rfl
  · rw [← ChatModel.next?_ask (Prompt.system a.selection) (Prompt.request task)]
    rfl

theorem summarized_of_summary {results : List StepResult} {text : Text} (h : a.summary results = .ok text) :
    a.summarized results = (recorded text).map fun _ => text := by
  rw [summarized, h]
  rfl

/-- An executed plan adds its announcement, its results and its summary, as far as nothing fails. -/
theorem told_carryOut (task : Text) {plan : Plan} (hr : a.resolution = .ok (.executes plan)) :
    ∃ remarks,
      a.transcript.Grows ((carryOut w runner (Prompt.system a.selection) plan).run (a.asked task)).2.transcript
        remarks ∧
      match ((carryOut w runner (Prompt.system a.selection) plan).run (a.asked task)).1 with
      | .ok outcome => Told w runner a outcome remarks
      | .error f => Meets w runner a f remarks := by
  have hb : a.transcript.Grows _ [.ofModel "Executing plan..."] :=
    .noted a.transcript modelRole (Text.isEncodable_ofString "Executing plan...")
  have hx : ((runner.execute w (Command.ofPlan plan)).run ⟨.nothing, (a.asked task).log⟩).1 =
      a.executed w runner plan := rfl
  rw [run_carryOut]
  dsimp only
  rw [hx]
  simp only [a.summary_eq (Prompt.system a.selection) task]
  cases he : a.executed w runner plan with
  | error f => exact ⟨_, hb, .brokenOff hr he⟩
  | ok results =>
    have ht := hb.trans (.addResults _ results)
    dsimp only
    cases hh : a.summary results with
    | error f => exact ⟨_, ht, .noSummary hr he (by rw [summarized, hh]; rfl)⟩
    | ok summary =>
      have hs := summarized_of_summary hh
      dsimp only
      cases hn : summary.isEncodable with
      | true =>
        rw [recorded_eq_ok_iff.mpr hn] at hs ⊢
        exact ⟨_, ht.trans (.noted _ modelRole hn), .results hr he hs⟩
      | false =>
        rw [recorded_of_unencodable hn] at hs ⊢
        rw [noted_of_unencodable _ _ hn]
        exact ⟨_, ht, .noSummary hr he hs⟩

theorem told_pursue (w : World) (runner : Runner) (a : Agent) (task : Text) :
    ∃ remarks, a.transcript.Grows ((pursue w runner task).run a).2.transcript remarks ∧
      match ((pursue w runner task).run a).1 with
      | .ok outcome => Told w runner a outcome remarks
      | .error f => Meets w runner a f remarks := by
  rw [run_pursue]
  cases hr : a.resolution with
  | error f => exact ⟨[], .refl _, .noPlan hr⟩
  | ok resolution =>
    cases resolution with
    | asks text =>
      dsimp only
      cases ht : text.isEncodable with
      | true =>
        rw [recorded_eq_ok_iff.mpr ht]
        exact ⟨_, .noted _ modelRole ht, .clarification hr (recorded_eq_ok_iff.mpr ht)⟩
      | false =>
        rw [recorded_of_unencodable ht, noted_of_unencodable _ _ ht]
        exact ⟨[], .refl _, .question hr (recorded_of_unencodable ht)⟩
    | refuses defects =>
      dsimp only
      cases ht : (refusal defects).isEncodable with
      | true =>
        rw [recorded_eq_ok_iff.mpr ht]
        refine ⟨_, .noted _ modelRole ht, ?_⟩
        have hm : defects.map Plan.Defect.message ≠ [] := by simpa using ne_nil_of_refuses hr
        have hj : refusal defects = "Invalid action plan:\n" ++ Text.joinLines (defects.map Plan.Defect.message) := by
          rw [refusal, Text.joinLines_cons hm]
          rfl
        rw [hj]
        exact .invalidPlan hr (recorded_eq_ok_iff.mpr ht)
      | false =>
        rw [recorded_of_unencodable ht, noted_of_unencodable _ _ ht]
        exact ⟨[], .refl _, .refusal hr (recorded_of_unencodable ht)⟩
    | executes plan => exact told_carryOut task hr

/-- A run for a task that can be encoded ends with an outcome and its entries, or with a failure whose own entry
cannot be recorded. -/
theorem told_run (w : World) (runner : Runner) {message : Option Text} (a : Agent)
    (h : (taskOf message).isEncodable = true) :
    ∃ remarks, a.transcript.Grows (a.run w runner message).2.transcript (.ofUser (taskOf message) :: remarks) ∧
      ((∃ outcome, (a.run w runner message).1 = .ok outcome ∧ Told w runner a outcome remarks) ∨
        ∃ f, Meets w runner a f remarks ∧ f.text.isEncodable = false ∧
          (a.run w runner message).1 = .error (.unrecorded (.unencodable ("Error: " ++ f.text)))) := by
  rw [run_of_encodable w runner a h]
  generalize taskOf message = task at h ⊢
  have hu : a.transcript.Grows _ [.ofUser task] := .noted a.transcript userRole h
  obtain ⟨remarks, hg, ht⟩ := told_pursue w runner (a.noted userRole task) task
  cases hp : (pursue w runner task).run (a.noted userRole task) with
  | mk result b =>
    rw [hp] at hg ht
    cases result with
    | ok outcome => exact ⟨remarks, hu.trans hg, .inl ⟨outcome, rfl, ht.of_noted⟩⟩
    | error f =>
      dsimp only [settled, closed]
      cases hf : f.text.isEncodable with
      | true =>
        have he : ("Error: " ++ f.text : Text).isEncodable = true := by simpa using hf
        rw [recorded_eq_ok_iff.mpr he]
        exact ⟨_, hu.trans (hg.trans (.noted _ modelRole he)), .inl ⟨_, rfl, .error ht.of_noted hf⟩⟩
      | false =>
        have he : ("Error: " ++ f.text : Text).isEncodable = false := by simpa using hf
        rw [recorded_of_unencodable he, noted_of_unencodable _ _ he]
        exact ⟨remarks, hu.trans hg, .inr ⟨f, ht.of_noted, hf, rfl⟩⟩

end Agent
end BrowserPilot
