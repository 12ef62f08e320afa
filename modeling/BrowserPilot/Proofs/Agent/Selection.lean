import BrowserPilot.Proofs.Agent.Account

/-! The selection of tools. After any operations a run calls the browser only for a plan whose actions are all
active. -/
namespace BrowserPilot
open Browser

theorem activeTools_eq (selection : List Text) :
    activeTools selection = if selection = [] then Tool.names else selection := by
  cases selection <;> rfl

namespace Agent

/-- The agent after a sequence of operations, each in its own world. -/
def after (runner : Runner) : Agent → List (World × Operation) → Agent
  | a, [] => a
  | a, (w, op) :: ops => after runner (a.act w runner op).2 ops

/-- The selection after a sequence of operations. -/
def Operation.selected : List Text → List Operation → List Text
  | tools, [] => tools
  | _, .select tools :: ops => selected tools ops
  | tools, _ :: ops => selected tools ops

theorem selection_carryOut (w : World) (runner : Runner) (system : Text) (plan : Plan) (a : Agent) :
    ((carryOut w runner system plan).run a).2.selection = a.selection := by
  rw [run_carryOut]
  dsimp only
  split
  · rfl
  · split <;> rfl

theorem selection_pursue (w : World) (runner : Runner) (task : Text) (a : Agent) :
    ((pursue w runner task).run a).2.selection = a.selection := by
  rw [run_pursue]
  cases a.resolution with
  | error f => rfl
  | ok resolution =>
    cases resolution with
    | asks text => rfl
    | refuses defects => rfl
    | executes plan => exact selection_carryOut w runner _ plan (a.asked task)

theorem selection_run (w : World) (runner : Runner) (message : Option Text) (a : Agent) :
    (a.run w runner message).2.selection = a.selection := by
  cases h : (taskOf message).isEncodable with
  | true =>
    have hp := selection_pursue w runner (taskOf message) (a.noted userRole (taskOf message))
    rw [run_of_encodable w runner a h]
    cases hr : (pursue w runner (taskOf message)).run (a.noted userRole (taskOf message)) with
    | mk result b =>
      rw [hr] at hp
      cases result <;> exact hp
  | false => rw [run_of_unencodable w runner a h]

theorem selection_after (runner : Runner) (a : Agent) (ops : List (World × Operation)) :
    (a.after runner ops).selection = Operation.selected a.selection (ops.map Prod.snd) := by
  induction ops generalizing a with
  | nil => rfl
  | cons op ops ih =>
    obtain ⟨w, op⟩ := op
    rw [after, ih]
    cases op with
    | run message => exact congrArg (Operation.selected · _) (selection_run w runner message a)
    | select tools => rfl
    | replaceModel answers => rfl
    | clear => rfl

/-- The model's next answer decodes to a plan with this value. -/
def Proposes (a : Agent) (raw : Json) : Prop :=
  ∃ answer, ChatModel.hear a.model.next? = .ok answer ∧ ModelReply.ofText answer = .ok (.plan raw)

variable {a : Agent}

theorem exists_proposal_of_executes {plan : Plan} (h : a.resolution = .ok (.executes plan)) :
    ∃ raw, a.Proposes raw ∧ Plan.validate a.active raw = .ok (.accepted plan) := by
  obtain ⟨answer, reply, ha, ht, hr⟩ := exists_reply_of_resolution h
  cases reply with
  | question text => cases hr
  | plan raw =>
    refine ⟨raw, ⟨answer, ha, ht⟩, ?_⟩
    simp only [resolve] at hr
    split at hr
    · cases hr
    · cases hr
    · rename_i accepted hv
      obtain rfl := Resolution.executes.inj (Except.ok.inj hr)
      exact hv

theorem executes_of_proposes {raw : Json} (h : a.Proposes raw) (hf : Plan.Fits a.active raw) :
    ∃ plan, a.resolution = .ok (.executes plan) := by
  obtain ⟨answer, ha, ht⟩ := h
  obtain ⟨_, items, rfl, hi, hv⟩ := hf
  obtain ⟨plan, he, _⟩ := Plan.validate_of_fits hi hv
  refine ⟨plan, ?_⟩
  simp only [resolution, ha, Except.bind, ht, resolve, he]

/-- A run calls the browser if and only if the task can be encoded and an accepted plan is proposed; then it creates
one session. -/
theorem log_run_cases (w : World) (runner : Runner) (message : Option Text) (a : Agent) :
    ((taskOf message).isEncodable = true ∧ (∃ plan, a.resolution = .ok (.executes plan)) ∧
      ∃ rest, (a.run w runner message).2.log = a.log ++ .createSession :: rest ∧ ∀ c ∈ rest, c.kind ≠ .createSession) ∨
    (¬ ((taskOf message).isEncodable = true ∧ ∃ plan, a.resolution = .ok (.executes plan)) ∧
      (a.run w runner message).2.log = a.log) := by
  rw [log_run, commandsFor?, nextCommands?]
  cases h : (taskOf message).isEncodable with
  | false => exact .inr ⟨by simp, rfl⟩
  | true =>
    cases a.resolution with
    | error f => exact .inr ⟨by simp, rfl⟩
    | ok resolution =>
      cases resolution with
      | asks text => exact .inr ⟨by simp, rfl⟩
      | refuses defects => exact .inr ⟨by simp, rfl⟩
      | executes plan =>
        exact .inl ⟨rfl, ⟨plan, rfl⟩, runner.log_execute_eq_cons w (Command.ofPlan plan) ⟨.nothing, a.log⟩⟩

theorem filter_map_ofResult (results : List StepResult) :
    (results.map Remark.ofResult).filter Remark.isResult = results.map .ofResult := by
  rw [List.filter_eq_self]
  intro remark hm
  obtain ⟨r, _, rfl⟩ := List.mem_map.mp hm
  rfl

theorem filter_executed (results : List StepResult) :
    (Remark.ofModel "Executing plan..." :: results.map Remark.ofResult).filter Remark.isResult =
      results.map .ofResult := by
  rw [List.filter_cons_of_neg (by decide), filter_map_ofResult]

theorem filter_concat (remarks : List Remark) {last : Remark} (h : last.isResult = false) :
    (remarks ++ [last]).filter Remark.isResult = remarks.filter Remark.isResult := by
  rw [List.filter_append, List.filter_cons_of_neg (by simp [h]), List.filter_nil, List.append_nil]

section
variable {w : World} {runner : Runner} {outcome : Outcome} {remarks : List Remark}

theorem Meets.exists_results {f : Failure} (h : Meets w runner a f remarks) :
    ∃ results, remarks.filter Remark.isResult = results.map .ofResult ∧
      (results = [] ∨ ∃ plan, a.resolution = .ok (.executes plan) ∧ a.executed w runner plan = .ok results) := by
  cases h with
  | @noSummary plan results f hr he hs => exact ⟨results, filter_executed results, .inr ⟨plan, hr, he⟩⟩
  | _ => exact ⟨[], rfl, .inl rfl⟩

theorem Told.exists_results (h : Told w runner a outcome remarks) :
    ∃ results, remarks.filter Remark.isResult = results.map .ofResult ∧
      (∀ list summary, outcome = .results list summary → list = results) ∧
      (results = [] ∨ ∃ plan, a.resolution = .ok (.executes plan) ∧ a.executed w runner plan = .ok results) := by
  cases h with
  | clarification hr ht => exact ⟨[], rfl, by simp, .inl rfl⟩
  | invalidPlan hr ht => exact ⟨[], rfl, by simp, .inl rfl⟩
  | @results plan results summary hr he hs =>
    refine ⟨results, ?_, fun list _ ho => (Outcome.results.inj ho).1.symm, .inr ⟨plan, hr, he⟩⟩
    rw [← List.cons_append, filter_concat _ rfl, filter_executed]
  | error hm hf =>
    obtain ⟨results, hres, hx⟩ := hm.exists_results
    refine ⟨results, ?_, by simp, hx⟩
    rw [filter_concat _ rfl, hres]

end

theorem active_of_executed {w : World} {runner : Runner} {plan : Plan} {results : List StepResult}
    (hr : a.resolution = .ok (.executes plan)) (he : a.executed w runner plan = .ok results) :
    (∀ r ∈ results, r.action ∈ a.active) ∨ ∃ error, results = [.failed initAction error] := by
  rcases Runner.actions_of_execute he with hi | ha
  · exact .inr hi
  · refine .inl fun r hm => ?_
    obtain ⟨raw, _, hv⟩ := exists_proposal_of_executes hr
    have hm : r.action ∈ results.map (·.action) := List.mem_map_of_mem hm
    rw [ha] at hm
    obtain ⟨c, hc, hca⟩ := List.mem_map.mp hm
    obtain ⟨s, hs, rfl⟩ := List.mem_map.mp (Command.mem_of_mem_upToEnd hc)
    rw [← hca]
    exact Plan.action_mem_of_accepted hv s hs

/-- The results that a run records are those of its outcome, if that has any. All are of active tools, or the only
one is the failed opening of the session. -/
theorem results_of_run (w : World) (runner : Runner) (message : Option Text) (a : Agent) :
    ∃ results remarks, a.transcript.Grows (a.run w runner message).2.transcript remarks ∧
      remarks.filter Remark.isResult = results.map .ofResult ∧
      (∀ list summary, (a.run w runner message).1 = .ok (.results list summary) → list = results) ∧
      ((∀ r ∈ results, r.action ∈ a.active) ∨ ∃ error, results = [.failed initAction error]) := by
  cases h : (taskOf message).isEncodable with
  | false =>
    rw [run_of_unencodable w runner a h]
    exact ⟨[], [], .refl _, rfl, by simp, .inl (by simp)⟩
  | true =>
    have hactive {results : List StepResult}
        (hx : results = [] ∨ ∃ plan, a.resolution = .ok (.executes plan) ∧ a.executed w runner plan = .ok results) :
        (∀ r ∈ results, r.action ∈ a.active) ∨ ∃ error, results = [.failed initAction error] := by
      rcases hx with rfl | ⟨plan, hr, he⟩
      · exact .inl (by simp)
      · exact active_of_executed hr he
    obtain ⟨remarks, hg, ⟨outcome, ho, ht⟩ | ⟨f, hm, -, ho⟩⟩ := told_run w runner a h
    · obtain ⟨results, hf, hl, hx⟩ := ht.exists_results
      refine ⟨results, _, hg, hf, fun list summary hs => ?_, hactive hx⟩
      exact hl list summary (Except.ok.inj (ho.symm.trans hs))
    · obtain ⟨results, hf, hx⟩ := hm.exists_results
      exact ⟨results, _, hg, hf, by simp [ho], hactive hx⟩

theorem Told.not_executes {w : World} {runner : Runner} {outcome : Outcome} {remarks : List Remark}
    (h : Told w runner a outcome remarks)
    (ho : (∃ text, outcome = .clarification text) ∨ ∃ defects, outcome = .invalidPlan defects) (plan : Plan) :
    a.resolution ≠ .ok (.executes plan) := by
  intro hr
  rcases ho with ⟨text, rfl⟩ | ⟨defects, rfl⟩
  · cases h with
    | clarification hq => cases hr.symm.trans hq
  · cases h with
    | invalidPlan hq => cases hr.symm.trans hq

/-- After any operations the last selection is active, or all tools if it is empty. A run then calls the browser if
and only if the task can be encoded and the first answer is a plan whose steps all fit the active tools; it creates
one session. Every result is of an active tool, or the only one is the failed opening of the session. Questions and
refused plans make no call. -/
theorem browser_serves_active_tools (runner : Runner) (a₀ : Agent) (past : List (World × Operation)) (w : World)
    (message : Option Text) :
    let a := a₀.after runner past
    let ended := a.run w runner message
    let chosen := Operation.selected a₀.selection (past.map Prod.snd)
    a.active = (if chosen = [] then Tool.names else chosen) ∧
    ∃ made, ended.2.log = a.log ++ made ∧
      (made ≠ [] ↔ (Text.strip (message.getD "")).isEncodable = true ∧
        ∃ raw, a.Proposes raw ∧ Plan.Fits a.active raw) ∧
      (made ≠ [] → Log.count made .createSession = 1) ∧
      ((∃ text, ended.1 = .ok (.clarification text)) ∨ (∃ defects, ended.1 = .ok (.invalidPlan defects)) →
        made = []) ∧
      ∃ results remarks, a.transcript.Grows ended.2.transcript remarks ∧
        remarks.filter Remark.isResult = results.map .ofResult ∧
        (∀ list summary, ended.1 = .ok (.results list summary) → list = results) ∧
        ((∀ r ∈ results, r.action ∈ a.active) ∨ ∃ error, results = [.failed "browser-init" error]) := by
  intro a ended chosen
  refine ⟨by rw [active, selection_after, activeTools_eq], ?_⟩
  have hresults := results_of_run w runner message a
  rcases log_run_cases w runner message a with ⟨ht, ⟨plan, hr⟩, rest, hl, hrest⟩ | ⟨hn, hl⟩
  · refine ⟨_, hl, ?_, fun _ => ?_, fun ho => ?_, hresults⟩
    · obtain ⟨raw, hp, hv⟩ := exists_proposal_of_executes hr
      exact iff_of_true (by simp) ⟨ht, raw, hp, Plan.fits_of_accepted hv⟩
    · have hz : Log.count rest .createSession = 0 := count_eq_zero hrest
      rw [Log.count, List.countP_cons_of_pos (by rfl)]
      exact congrArg (· + 1) hz
    · exfalso
      obtain ⟨remarks, _, ⟨outcome, hout, htold⟩ | ⟨f, _, _, hout⟩⟩ := told_run w runner a ht
      · refine htold.not_executes (ho.imp ?_ ?_) plan hr
        · rintro ⟨text, h⟩
          exact ⟨text, Except.ok.inj (hout.symm.trans h)⟩
        · rintro ⟨defects, h⟩
          exact ⟨defects, Except.ok.inj (hout.symm.trans h)⟩
      · rcases ho with ⟨_, h⟩ | ⟨_, h⟩ <;> cases hout.symm.trans h
  · refine ⟨[], by simpa using hl, ?_, by simp, by simp, hresults⟩
    refine iff_of_false (by simp) ?_
    rintro ⟨ht, raw, hp, hfit⟩
    exact hn ⟨ht, executes_of_proposes hp hfit⟩

end Agent
end BrowserPilot
