import BrowserPilot.Proofs.Agent.Selection

/-! The requests that a run sends to the model: one for a plan, and one for a summary if the plan was executed and
has results. -/
namespace BrowserPilot
open Browser

theorem activeTools_activeTools (selection : List Text) :
    activeTools (activeTools selection) = activeTools selection := by
  cases selection <;> rfl

theorem Prompt.system_activeTools (selection : List Text) : system (activeTools selection) = system selection := by
  rw [system, system, activeTools_activeTools]

theorem Prompt.summary_eq (report : Text) :
    summary report = "The following Playwright steps were executed:\n" ++ report ++
      "\nPlease provide a brief summary of what happened." := by
  have hb : ("The following Playwright steps were executed:\n" : Text) =
      "The following Playwright steps were executed:" ++ "\n" := rfl
  have he : ("\nPlease provide a brief summary of what happened." : Text) =
      "\n" ++ "Please provide a brief summary of what happened." := rfl
  rw [summary, Text.joinLines_cons (by simp), Text.joinLines_cons (by simp), Text.joinLines,
    Text.intercalate_singleton, hb, he]
  simp only [Text.append_assoc]

namespace ChatModel

theorem requests_built (m : ChatModel) : m.built.requests = m.requests := by
  unfold built
  split <;> rfl

theorem requests_ask (system user : Text) (m : ChatModel) :
    ((ask system user).run m).2.requests = m.requests ++ [messages system user] :=
  congrArg (· ++ [messages system user]) m.requests_built

theorem hear_eq_ok_iff {answer : Option Answer} {text : Text} :
    hear answer = .ok text ↔ ∃ value, answer = some (.content value) ∧ text = Text.strip value.display := by
  unfold hear
  split <;> simp [eq_comm]

end ChatModel

theorem Summary.requests_ofResults (system : Text) {results : List StepResult} (h : results ≠ []) (m : ChatModel) :
    ((ofResults system results).run m).2.requests =
      m.requests ++ [ChatModel.messages system (Prompt.summary (StepResult.report results))] := by
  rw [ofResults, if_neg (by simpa using h), ChatModel.requests_ask]

namespace Agent

def planRequest (a : Agent) (task : Text) : List Message :=
  ChatModel.messages (Prompt.system a.selection) (Prompt.request task)

def summaryRequest (a : Agent) (results : List StepResult) : List Message :=
  ChatModel.messages (Prompt.system a.selection) (Prompt.summary (StepResult.report results))

/-- The next run executes a plan that returns these results, and there is at least one. -/
def SumsUp (w : World) (runner : Runner) (a : Agent) (results : List StepResult) : Prop :=
  results ≠ [] ∧ ∃ plan, a.resolution = .ok (.executes plan) ∧ a.executed w runner plan = .ok results

variable {w : World} {runner : Runner} {a : Agent} {results : List StepResult}

theorem eq_of_executes {plan plan' : Plan} (h : a.resolution = .ok (.executes plan))
    (h' : a.resolution = .ok (.executes plan')) : plan' = plan :=
  Resolution.executes.inj (Except.ok.inj (h'.symm.trans h))

theorem SumsUp.unique {found : List StepResult} (h : SumsUp w runner a results) (h' : SumsUp w runner a found) :
    found = results := by
  obtain ⟨_, plan, hr, he⟩ := h
  obtain ⟨_, plan', hr', he'⟩ := h'
  obtain rfl := eq_of_executes hr hr'
  exact Except.ok.inj (he'.symm.trans he)

theorem requests_asked (a : Agent) (task : Text) :
    (a.asked task).model.requests = a.model.requests ++ [a.planRequest task] :=
  ChatModel.requests_ask _ _ a.model

/-- A run that has results ends with their summary. -/
theorem run_pursue_of_sumsUp (h : SumsUp w runner a results) (task : Text) :
    ((pursue w runner task).run a).1 = (a.summarized results).map (.results results) ∧
      ((pursue w runner task).run a).2.model.requests =
        a.model.requests ++ [a.planRequest task, a.summaryRequest results] := by
  obtain ⟨hn, plan, hr, he⟩ := h
  have hx : ((runner.execute w (Command.ofPlan plan)).run ⟨.nothing, (a.asked task).log⟩).1 = .ok results := he
  have hq : ((Summary.ofResults (Prompt.system a.selection) results).run (a.asked task).model).2.requests =
      a.model.requests ++ [a.planRequest task, a.summaryRequest results] := by
    rw [Summary.requests_ofResults _ hn, requests_asked, List.append_assoc]
    rfl
  simp only [run_pursue, hr, run_carryOut, hx, a.summary_eq (Prompt.system a.selection) task, summarized]
  cases a.summary results with
  | error f => exact ⟨rfl, hq⟩
  | ok summary =>
    refine ⟨?_, hq⟩
    dsimp only [Except.bind]
    cases recorded summary <;> rfl

/-- A run without results sends one request. If its plan was executed, the summary is fixed. -/
theorem run_pursue_of_not_sumsUp (h : ∀ results, ¬ SumsUp w runner a results) (task : Text) :
    ((pursue w runner task).run a).2.model.requests = a.model.requests ++ [a.planRequest task] ∧
      ∀ list summary, ((pursue w runner task).run a).1 = .ok (.results list summary) →
        list = [] ∧ summary = Summary.nothingDone := by
  have hq := a.requests_asked task
  rw [run_pursue]
  cases hr : a.resolution with
  | error f => exact ⟨hq, by simp⟩
  | ok resolution =>
    cases resolution with
    | asks text => exact ⟨hq, by simp [map_recorded_eq_ok_iff]⟩
    | refuses defects => exact ⟨hq, by simp [map_recorded_eq_ok_iff]⟩
    | executes plan =>
      have hx : ((runner.execute w (Command.ofPlan plan)).run ⟨.nothing, (a.asked task).log⟩).1 =
          a.executed w runner plan := rfl
      simp only [run_carryOut, hx]
      cases he : a.executed w runner plan with
      | error f => exact ⟨hq, by simp⟩
      | ok results =>
        obtain rfl : results = [] := not_not.mp fun hn => h results ⟨hn, plan, hr, he⟩
        refine ⟨hq, ?_⟩
        rintro list summary ⟨⟩
        exact ⟨rfl, rfl⟩

@[simp] theorem model_closed (a : Agent) (result : Except Failure Outcome) : (a.closed result).model = a.model := by
  cases result <;> rfl

theorem settled_eq_ok_results_iff {result : Except Failure Outcome} {list : List StepResult} {summary : Text} :
    settled result = .ok (.results list summary) ↔ result = .ok (.results list summary) := by
  cases result with
  | ok outcome => rfl
  | error f => simp [settled, map_recorded_eq_ok_iff]

/-- A run sends the request for a plan, and then the request for a summary if it has results. -/
theorem requests_run (w : World) (runner : Runner) {message : Option Text} (a : Agent)
    (h : (taskOf message).isEncodable = true) :
    ∃ later, (a.run w runner message).2.model.requests =
        a.model.requests ++ a.planRequest (taskOf message) :: later ∧
      (∀ results, SumsUp w runner a results → later = [a.summaryRequest results]) ∧
      ((∀ results, ¬ SumsUp w runner a results) → later = []) := by
  rw [run_of_encodable w runner a h]
  generalize taskOf message = task
  simp only [model_closed]
  by_cases hs : ∃ results, SumsUp w runner a results
  · obtain ⟨results, hs⟩ := hs
    refine ⟨_, (run_pursue_of_sumsUp (a := a.noted userRole task) hs task).2, fun found hf => ?_, fun hn => ?_⟩
    · rw [hs.unique hf]
      rfl
    · exact absurd hs (hn results)
  · have hs := not_exists.mp hs
    exact ⟨[], (run_pursue_of_not_sumsUp (a := a.noted userRole task) hs task).1,
      fun results hr => absurd hr (hs results), fun _ => rfl⟩

theorem outcome_run_of_sumsUp (h : SumsUp w runner a results) {message : Option Text}
    (ht : (taskOf message).isEncodable = true) :
    (a.run w runner message).1 = settled ((a.summarized results).map (.results results)) := by
  rw [run_of_encodable w runner a ht]
  -- recording the task changes neither the next answer nor the log
  exact congrArg settled (run_pursue_of_sumsUp (a := a.noted userRole (taskOf message)) h _).1

theorem outcome_run_of_not_sumsUp (h : ∀ results, ¬ SumsUp w runner a results) {message : Option Text}
    (ht : (taskOf message).isEncodable = true) {list : List StepResult} {summary : Text}
    (ho : (a.run w runner message).1 = .ok (.results list summary)) :
    list = [] ∧ summary = Summary.nothingDone := by
  rw [run_of_encodable w runner a ht, settled_eq_ok_results_iff] at ho
  exact (run_pursue_of_not_sumsUp (a := a.noted userRole (taskOf message)) h _).2 list summary ho

theorem executes_of_accepted {raw : Json} {plan : Plan} (hp : a.Proposes raw)
    (hv : Plan.validate a.active raw = .ok (.accepted plan)) : a.resolution = .ok (.executes plan) := by
  obtain ⟨answer, ha, ht⟩ := hp
  simp only [resolution, ha, Except.bind, ht, resolve, hv]

theorem sumsUp_iff : SumsUp w runner a results ↔
    ∃ raw plan, a.Proposes raw ∧ Plan.validate a.active raw = .ok (.accepted plan) ∧
      a.executed w runner plan = .ok results ∧ results ≠ [] := by
  constructor
  · rintro ⟨hn, plan, hr, he⟩
    obtain ⟨raw, hp, hv⟩ := exists_proposal_of_executes hr
    exact ⟨raw, plan, hp, hv, he, hn⟩
  · rintro ⟨raw, plan, hp, hv, he, hn⟩
    exact ⟨hn, plan, executes_of_accepted hp hv, he⟩

/-- The results in the request for a summary are those in the transcript. -/
theorem Meets.filter_of_sumsUp {f : Failure} {remarks : List Remark} (hm : Meets w runner a f remarks)
    (h : SumsUp w runner a results) : remarks.filter Remark.isResult = results.map .ofResult := by
  obtain ⟨_, plan, hr, he⟩ := h
  cases hm with
  | noPlan hq => cases hr.symm.trans hq
  | question hq => cases hr.symm.trans hq
  | refusal hq => cases hr.symm.trans hq
  | brokenOff hq hx =>
    obtain rfl := eq_of_executes hr hq
    cases he.symm.trans hx
  | noSummary hq hx =>
    obtain rfl := eq_of_executes hr hq
    obtain rfl := Except.ok.inj (he.symm.trans hx)
    exact filter_executed results

theorem Told.filter_of_sumsUp {outcome : Outcome} {remarks : List Remark} (ht : Told w runner a outcome remarks)
    (h : SumsUp w runner a results) : remarks.filter Remark.isResult = results.map .ofResult := by
  cases ht with
  | error hm _ => rw [filter_concat _ rfl, hm.filter_of_sumsUp h]
  | clarification hq => cases h.2.choose_spec.1.symm.trans hq
  | invalidPlan hq => cases h.2.choose_spec.1.symm.trans hq
  | results hq hx =>
    obtain ⟨_, plan, hr, he⟩ := h
    obtain rfl := eq_of_executes hr hq
    obtain rfl := Except.ok.inj (he.symm.trans hx)
    rw [← List.cons_append, filter_concat _ rfl, filter_executed]

theorem outcome_run_of_no_results {plan : Plan} (hr : a.resolution = .ok (.executes plan))
    (he : a.executed w runner plan = .ok []) {message : Option Text} (ht : (taskOf message).isEncodable = true) :
    (a.run w runner message).1 = .ok (.results [] Summary.nothingDone) := by
  rw [run_of_encodable w runner a ht]
  generalize hn : a.noted userRole (taskOf message) = b
  have hr : b.resolution = .ok (.executes plan) := hn ▸ hr
  have hx : ((runner.execute w (Command.ofPlan plan)).run ⟨.nothing, (b.asked (taskOf message)).log⟩).1 =
      .ok [] := hn ▸ he
  simp only [run_pursue, hr, run_carryOut, hx]
  rfl

/-- A plan without steps has a result only if the session does not open. -/
theorem executed_of_no_steps {plan : Plan} (hp : plan.steps = []) {session : Session}
    (hs : runner.sessions.made w a.log = .ok session) :
    a.executed w runner plan =
      match ((session.openUp w).run (Runner.fresh ⟨.nothing, a.log⟩)).1 with
      | .ok _ => .ok []
      | .error f => .ok [.failed initAction f.text] := by
  have hc : Command.ofPlan plan = [] := by rw [Command.ofPlan, hp, List.map_nil]
  rw [executed, hc]
  cases ho : (session.openUp w).run (Runner.fresh ⟨.nothing, a.log⟩) with
  | mk outcome opened =>
    cases outcome with
    | ok u =>
      rw [Runner.run_execute_of_opened hs ho]
      rfl
    | error f => rw [Runner.run_execute_of_not_opened hs ho]

theorem sumsUp_of_no_steps {plan : Plan} (hr : a.resolution = .ok (.executes plan)) (hp : plan.steps = [])
    {session : Session} (hs : runner.sessions.made w a.log = .ok session) {message : Option Text}
    (ht : (taskOf message).isEncodable = true) :
    match ((session.openUp w).run (Runner.fresh ⟨.nothing, a.log⟩)).1 with
    | .ok _ =>
      (∀ found, ¬ SumsUp w runner a found) ∧ (a.run w runner message).1 = .ok (.results [] Summary.nothingDone)
    | .error f => SumsUp w runner a [.failed initAction f.text] := by
  have hx := executed_of_no_steps hp hs
  cases ho : ((session.openUp w).run (Runner.fresh ⟨.nothing, a.log⟩)).1 with
  | ok u =>
    rw [ho] at hx
    refine ⟨?_, outcome_run_of_no_results hr hx ht⟩
    rintro found ⟨hn, plan', hr', hx'⟩
    obtain rfl := eq_of_executes hr hr'
    exact hn (Except.ok.inj (hx'.symm.trans hx))
  | error f =>
    rw [ho] at hx
    exact ⟨by simp, plan, hr, hx⟩

theorem summarized_eq_ok_iff {summary : Text} (h : results ≠ []) :
    a.summarized results = .ok summary ↔
      ∃ value, a.model.second? = some (.content value) ∧ summary = Text.strip value.display ∧
        summary.isEncodable = true := by
  have he : a.summary results = ChatModel.hear a.model.second? := if_neg (by simpa using h)
  constructor
  · intro hs
    cases hh : a.summary results with
    | error f =>
      rw [summarized, hh] at hs
      cases hs
    | ok text =>
      rw [summarized_of_summary hh, map_recorded_eq_ok_iff] at hs
      obtain ⟨ht, rfl⟩ := hs
      obtain ⟨value, hv, hd⟩ := ChatModel.hear_eq_ok_iff.mp (he.symm.trans hh)
      exact ⟨value, hv, hd, ht⟩
  · rintro ⟨value, hv, hd, ht⟩
    have hh : a.summary results = .ok summary := he.trans (ChatModel.hear_eq_ok_iff.mpr ⟨value, hv, hd⟩)
    exact summarized_of_summary hh ▸ map_recorded_eq_ok_iff.mpr ⟨ht, rfl⟩

/-- A summary is the stripped second answer, or the fixed text if there are no results. -/
theorem summary_cases {message : Option Text} (ht : (taskOf message).isEncodable = true) {summary : Text}
    (ho : (a.run w runner message).1 = .ok (.results results summary)) :
    (results = [] ∧ summary = Summary.nothingDone ∧ ∀ found, ¬ SumsUp w runner a found) ∨
      SumsUp w runner a results ∧
        ∃ value, a.model.second? = some (.content value) ∧ summary = Text.strip value.display := by
  by_cases hs : ∃ found, SumsUp w runner a found
  · obtain ⟨found, hs⟩ := hs
    rw [outcome_run_of_sumsUp hs ht, settled_eq_ok_results_iff] at ho
    cases hm : a.summarized found with
    | error f =>
      rw [hm] at ho
      cases ho
    | ok text =>
      rw [hm] at ho
      obtain ⟨rfl, rfl⟩ := Outcome.results.inj (Except.ok.inj ho)
      obtain ⟨value, hv, hd, -⟩ := (summarized_eq_ok_iff hs.1).mp hm
      exact .inr ⟨hs, value, hv, hd⟩
  · have hs := not_exists.mp hs
    obtain ⟨rfl, rfl⟩ := outcome_run_of_not_sumsUp hs ht ho
    exact .inl ⟨rfl, rfl, hs⟩

end Agent
end BrowserPilot
