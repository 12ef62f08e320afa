import BrowserPilot.Proofs.Agent.Resolution
import BrowserPilot.Proofs.Browser.Isolation
import BrowserPilot.Proofs.Plan.Acceptance
import BrowserPilot.Service
import BrowserPilot.StepResult.Defect

/-! Validation and execution of plans in requests. A plan is executed if and only if it is valid, independently of
the selection and the transcript. Answers with a text that cannot be encoded are 500. -/
namespace BrowserPilot

def Plan.isEncodable (plan : Plan) : Bool := plan.steps.all fun s => s.arguments.all fun p => p.2.isEncodable

namespace StepResult

def isEncodable (r : StepResult) : Bool :=
  r.action.isEncodable && r.data.all Text.isEncodable && r.error.all Text.isEncodable

/-- The value has the fields of the result, where data and error may be missing, and reads back as the result. -/
structure WrittenAs (r : StepResult) (v : Json) : Prop where
  action : v.field? "action" = some (.str r.action)
  success : v.field? "success" = some (.bool r.success)
  data : v.field? "data" = r.data.map .str
  error : v.field? "error" = r.error.map .str
  reads : ofJson v = .ok r

theorem writtenAs_toJson (r : StepResult) : r.WrittenAs r.toJson := by
  refine ⟨?_, ?_, ?_, ?_, r.ofJson_toJson⟩
  all_goals
    obtain ⟨action, success, data, error⟩ := r
    cases data <;> cases error <;> rfl

end StepResult

namespace Service
open Browser

namespace Response

theorem isSendable_step (s : Step) : isSendable s.toJson = s.arguments.all fun p => p.2.isEncodable := by
  cases s <;> simp [Step.toJson, isSendable, areFieldsSendable, Step.arguments, Step.action, Step.tool, Tool.name,
    Field.key]

theorem isSendable_plan (plan : Plan) : isSendable plan.toJson = plan.isEncodable := by
  have hs : areSendable (plan.steps.map Step.toJson) = plan.isEncodable := by
    rw [Bool.eq_iff_iff, areSendable_iff, List.forall_mem_map, Plan.isEncodable, List.all_eq_true]
    simp only [isSendable_step]
  simp [Plan.toJson, isSendable, areFieldsSendable, hs]

theorem isSendable_result (r : StepResult) : isSendable r.toJson = r.isEncodable := by
  obtain ⟨action, success, data, error⟩ := r
  cases data <;> cases error <;>
    simp [StepResult.toJson, isSendable, areFieldsSendable, StepResult.isEncodable, Bool.and_assoc]

theorem isSendable_results (results : List StepResult) :
    isSendable (.arr (results.map StepResult.toJson)) = results.all StepResult.isEncodable := by
  rw [Bool.eq_iff_iff, isSendable, areSendable_iff, List.forall_mem_map, List.all_eq_true]
  simp only [isSendable_result]

end Response

theorem itemDefects_eq_nil_iff (key : Text) (index : Nat) (items : List Json) :
    itemDefects key index items = [] ↔ ∃ texts : List Text, items = texts.map .str := by
  induction items generalizing index with
  | nil => exact iff_of_true rfl ⟨[], rfl⟩
  | cons v items ih =>
    cases v with
    | str s =>
      rw [itemDefects, ih]
      constructor
      · rintro ⟨texts, rfl⟩
        exact ⟨s :: texts, rfl⟩
      · rintro ⟨texts, h⟩
        obtain ⟨_, texts, rfl, _, h⟩ := List.map_eq_cons_iff.mp h.symm
        exact ⟨texts, h.symm⟩
    | _ =>
      refine iff_of_false (List.cons_ne_nil _ _) ?_
      rintro ⟨texts, h⟩
      obtain ⟨_, _, _, hs, _⟩ := List.map_eq_cons_iff.mp h.symm
      cases hs

theorem filterMap_str? (texts : List Text) : (texts.map Json.str).filterMap Json.str? = texts := by
  induction texts with
  | nil => rfl
  | cons s texts ih => rw [List.map_cons, List.filterMap_cons, Json.str?, ih]

theorem readTexts_eq_ok_iff (key : Text) (v : Json) (texts : List Text) :
    readTexts key v = .ok texts ↔ v = .arr (texts.map .str) := by
  constructor
  · intro h
    unfold readTexts at h
    split at h
    · rename_i items
      split at h
      · rename_i hd
        obtain ⟨found, rfl⟩ := (itemDefects_eq_nil_iff key 0 items).mp hd
        rw [filterMap_str?] at h
        rw [Except.ok.inj h]
      · cases h
    · cases h
  · rintro rfl
    simp only [readTexts, (itemDefects_eq_nil_iff key 0 _).mpr ⟨texts, rfl⟩, filterMap_str?]

/-- A body with a plan and its list of tools. All tools are enabled if the list is missing or null. -/
inductive Submits (body : List UInt8) (raw : Json) : List Text → Prop
  | unlisted {fields : List (Text × Json)} : readBody body = .ok (.obj fields) →
      (fields.lookup ("plan" : Text)).getD .null = raw →
      fields.lookup ("enabled_tools" : Text) = none ∨ fields.lookup ("enabled_tools" : Text) = some .null →
      Submits body raw Tool.names
  | listed {fields : List (Text × Json)} {tools : List Text} : readBody body = .ok (.obj fields) →
      (fields.lookup ("plan" : Text)).getD .null = raw →
      fields.lookup ("enabled_tools" : Text) = some (.arr (tools.map .str)) → Submits body raw tools

variable {body : List UInt8} {raw : Json} {allowed : List Text}

theorem planPayload_of_readBody {fields : List (Text × Json)} (h : readBody body = .ok (.obj fields)) :
    planPayload body =
      match fields.lookup ("enabled_tools" : Text) with
      | none | some .null => .ok ⟨(fields.lookup ("plan" : Text)).getD .null, none⟩
      | some v => (readTexts "enabled_tools" v).map fun tools =>
          ⟨(fields.lookup ("plan" : Text)).getD .null, some tools⟩ := by
  unfold planPayload
  rw [h]
  rfl

theorem exists_fields_of_planPayload {p : PlanPayload} (h : planPayload body = .ok p) :
    ∃ fields, readBody body = .ok (.obj fields) := by
  unfold planPayload at h
  cases hb : readBody body with
  | error e =>
    rw [hb] at h
    cases h
  | ok v =>
    rw [hb] at h
    cases v with
    | obj fields => exact ⟨fields, rfl⟩
    | _ => cases h

theorem Submits.exists_planPayload (h : Submits body raw allowed) :
    ∃ p, planPayload body = .ok p ∧ p.plan = raw ∧ p.enabled.getD Tool.names = allowed := by
  cases h with
  | unlisted hb hp he =>
    refine ⟨⟨raw, none⟩, ?_, rfl, rfl⟩
    rcases he with he | he <;> rw [planPayload_of_readBody hb, he, hp]
  | listed hb hp he =>
    refine ⟨⟨raw, some allowed⟩, ?_, rfl, rfl⟩
    simp only [planPayload_of_readBody hb, he, hp, (readTexts_eq_ok_iff _ _ _).mpr rfl]
    rfl

theorem submits_of_planPayload {p : PlanPayload} (h : planPayload body = .ok p) :
    Submits body p.plan (p.enabled.getD Tool.names) := by
  obtain ⟨fields, hb⟩ := exists_fields_of_planPayload h
  rw [planPayload_of_readBody hb] at h
  split at h
  · rename_i he
    obtain rfl := Except.ok.inj h
    exact .unlisted hb rfl (.inl he)
  · rename_i he
    obtain rfl := Except.ok.inj h
    exact .unlisted hb rfl (.inr he)
  · rename_i v _ he
    cases ht : readTexts "enabled_tools" v with
    | error e =>
      rw [ht] at h
      cases h
    | ok tools =>
      rw [ht] at h
      obtain rfl := Except.ok.inj h
      obtain rfl := (readTexts_eq_ok_iff _ _ _).mp ht
      exact .listed hb rfl he

/-- A request to `/validate`. -/
def judging (body : List UInt8) (origin : Option Text) : Request := ⟨"POST", "/validate", body, origin⟩

/-- A request to `/execute`. -/
def executing (body : List UInt8) (origin : Option Text) : Request := ⟨"POST", "/execute", body, origin⟩

namespace Response

theorem ok_rejected (defects : List Plan.Defect) :
    let errors : Json := .arr (defects.map fun d => .str d.message)
    ok (Plan.Verdict.rejected defects).toJson =
      if defects.all fun d => d.message.isEncodable then
        ⟨200, .json (.obj [("valid", .bool false), ("errors", errors)])⟩ else failed := by
  intro errors
  have hv : (Plan.Verdict.rejected defects).toJson = .obj [("valid", .bool false), ("errors", errors)] := by
    simp [Plan.Verdict.toJson, Plan.Verdict.messages, errors]
  have hs : isSendable errors = _ := isSendable_texts Plan.Defect.message defects
  simp [hv, ok, json, isSendable, areFieldsSendable, hs]

theorem refusal_rejected (defects : List Plan.Defect) :
    let errors : Json := .arr (defects.map fun d => .str d.message)
    refusal 422 (.obj [("errors", errors)]) =
      if defects.all fun d => d.message.isEncodable then ⟨422, .json (.obj [("detail", .obj [("errors", errors)])])⟩
      else failed := by
  intro errors
  have hs : isSendable errors = _ := isSendable_texts Plan.Defect.message defects
  simp [refusal, json, isSendable, areFieldsSendable, hs]

theorem ok_accepted (plan : Plan) :
    ok (Plan.Verdict.accepted plan).toJson =
      if plan.isEncodable then
        ⟨200, .json (.obj [("valid", .bool true), ("errors", .arr []), ("plan", plan.toJson)])⟩ else failed := by
  simp [Plan.Verdict.toJson, ok, json, isSendable, areFieldsSendable, areSendable, isSendable_plan]

theorem ofExecution_ok (results : List StepResult) :
    ofExecution (.ok results) =
      if results.all StepResult.isEncodable then
        ⟨200, .json (.obj [("results", .arr (results.map StepResult.toJson))])⟩ else failed := by
  rw [ofExecution, ok_field, isSendable_results]

end Response

section
variable (w : World) (runner : Runner) (origin : Option Text) (a : Agent)

theorem handle_judging :
    handle w runner (judging body origin) a = follow w runner a body .validate := by
  have hf : Route.find "POST" "/validate" = .ok .validate := by decide +kernel
  exact handle_of_find hf

theorem handle_executing :
    handle w runner (executing body origin) a = follow w runner a body .execute := by
  have hf : Route.find "POST" "/execute" = .ok .execute := by decide +kernel
  exact handle_of_find hf

/-- A body that is not accepted has the same answer from both routes. -/
theorem handle_of_planPayload_error {e : PayloadError} (h : planPayload body = .error e) :
    handle w runner (judging body origin) a = (.ofPayloadError e, a) ∧
      handle w runner (executing body origin) a = (.ofPayloadError e, a) := by
  rw [handle_judging, handle_executing, follow, follow, h]
  exact ⟨rfl, rfl⟩

theorem handle_judging_of_validate {verdict : Plan.Verdict} (h : Submits body raw allowed)
    (hv : Plan.validate allowed raw = .ok verdict) :
    handle w runner (judging body origin) a = (.ok verdict.toJson, a) := by
  obtain ⟨p, hp, rfl, rfl⟩ := h.exists_planPayload
  rw [handle_judging, follow, hp]
  simp only [withPayload, judge, hv]

theorem handle_executing_of_rejected {defects : List Plan.Defect} (h : Submits body raw allowed)
    (hv : Plan.validate allowed raw = .ok (.rejected defects)) :
    handle w runner (executing body origin) a =
      (.refusal 422 (.obj [("errors", .arr (defects.map fun d => .str d.message))]), a) := by
  obtain ⟨p, hp, rfl, rfl⟩ := h.exists_planPayload
  rw [handle_executing, follow, hp]
  simp only [withPayload, executePlan, judge, hv]

theorem handle_executing_of_accepted {plan : Plan} (h : Submits body raw allowed)
    (hv : Plan.validate allowed raw = .ok (.accepted plan)) :
    handle w runner (executing body origin) a =
      (.ofExecution ((runner.execute w (Command.ofPlan plan)).run ⟨.nothing, a.log⟩).1,
        { a with log := ((runner.execute w (Command.ofPlan plan)).run ⟨.nothing, a.log⟩).2.log }) := by
  obtain ⟨p, hp, rfl, rfl⟩ := h.exists_planPayload
  rw [handle_executing, follow, hp]
  simp only [withPayload, executePlan, judge, hv, Agent.run_withBrowser]

end

theorem Response.status_json_ne {status : Nat} (h : status ≠ 500) (v : Json) :
    (⟨status, .json v⟩ : Response) ≠ failed :=
  fun he => h (congrArg Response.status he)

theorem Response.ofExecution_eq_failed_iff (outcome : Except Failure (List StepResult)) :
    ofExecution outcome = failed ↔
      (∃ f, outcome = .error f) ∨ ∃ results, outcome = .ok results ∧ results.all StepResult.isEncodable = false := by
  cases outcome with
  | error f => exact iff_of_true rfl (.inl ⟨f, rfl⟩)
  | ok results =>
    rw [ofExecution_ok]
    cases h : results.all StepResult.isEncodable with
    | true =>
      rw [if_pos rfl]
      exact iff_of_false (status_json_ne (by decide) _) (by simpa using h)
    | false => exact iff_of_true rfl (.inr ⟨results, rfl, h⟩)

/-- The answer and the agent after executing an accepted plan. One session is created. The answer has the results,
whose actions are those of the steps up to the first `closeBrowser`, or that of the failed opening. It is 500 if and
only if the execution fails or a result cannot be encoded. -/
structure CarriedOut (w : World) (runner : Runner) (a : Agent) (plan : Plan) (answer : Response × Agent) : Prop where
  agent : answer.2 = { a with log := ((runner.execute w (Command.ofPlan plan)).run ⟨.nothing, a.log⟩).2.log }
  session : ∃ made, answer.2.log = a.log ++ made ∧ Log.count made .createSession = 1
  results : ∀ results, ((runner.execute w (Command.ofPlan plan)).run ⟨.nothing, a.log⟩).1 = .ok results →
    results.all StepResult.isEncodable = true →
    ∃ values, answer.1 = ⟨200, .json (.obj [("results", .arr values)])⟩ ∧
      List.Forall₂ StepResult.WrittenAs results values
  actions : ∀ results, ((runner.execute w (Command.ofPlan plan)).run ⟨.nothing, a.log⟩).1 = .ok results →
    (∃ error, results = [.failed "browser-init" error]) ∨ results.map (·.action) = plan.attempted.map Step.action
  fails : answer.1 = .failed ↔
    (∃ f, ((runner.execute w (Command.ofPlan plan)).run ⟨.nothing, a.log⟩).1 = .error f) ∨
      ∃ results, ((runner.execute w (Command.ofPlan plan)).run ⟨.nothing, a.log⟩).1 = .ok results ∧
        results.all StepResult.isEncodable = false

variable {w : World} {runner : Runner} {origin origin' : Option Text} {a b : Agent}

theorem carriedOut_of_accepted {plan : Plan} (h : Submits body raw allowed)
    (hv : Plan.validate allowed raw = .ok (.accepted plan)) :
    CarriedOut w runner a plan (handle w runner (executing body origin) a) := by
  rw [handle_executing_of_accepted w runner origin a h hv]
  refine ⟨rfl, runner.count_createSession_execute w _ _, fun results hr he => ?_,
    fun _ => Runner.actions_of_execute_plan,
    Response.ofExecution_eq_failed_iff _⟩
  refine ⟨results.map StepResult.toJson, ?_, ?_⟩
  · rw [hr, Response.ofExecution_ok, if_pos he]
  · rw [List.forall₂_map_right_iff]
    exact List.forall₂_same.mpr fun r _ => r.writtenAs_toJson

/-- The answers depend on the plan and its tools and, of the agent, only on the log. -/
theorem answers_congr {body' : List UInt8} (h : Submits body raw allowed) (h' : Submits body' raw allowed)
    (hl : b.log = a.log) :
    (handle w runner (judging body' origin') b).1 = (handle w runner (judging body origin) a).1 ∧
      (handle w runner (executing body' origin') b).1 = (handle w runner (executing body origin) a).1 ∧
      (handle w runner (executing body' origin') b).2.log = (handle w runner (executing body origin) a).2.log := by
  obtain ⟨verdict, hv⟩ := Plan.exists_verdict allowed raw
  rw [handle_judging_of_validate w runner origin a h hv, handle_judging_of_validate w runner origin' b h' hv]
  cases verdict with
  | rejected defects =>
    rw [handle_executing_of_rejected w runner origin a h hv, handle_executing_of_rejected w runner origin' b h' hv]
    exact ⟨rfl, rfl, hl⟩
  | accepted plan =>
    rw [handle_executing_of_accepted w runner origin a h hv, handle_executing_of_accepted w runner origin' b h' hv, hl]
    exact ⟨rfl, rfl, rfl⟩

/-- A body that is not accepted is refused alike by both routes, without a call. A rejected plan is answered with
its errors by both, again without a call. An accepted plan is shown by one and executed by the other. An answer with
a text that cannot be encoded is 500 instead. Neither answer depends on the selection, on the transcript or on other
fields of the body. -/
theorem execution_follows_judgement (body : List UInt8) (origin : Option Text) (w : World) (runner : Runner)
    (a : Agent) :
    let judged := handle w runner (judging body origin) a
    let executed := handle w runner (executing body origin) a
    ((∀ raw allowed, ¬ Submits body raw allowed) →
      ∃ e, planPayload body = .error e ∧ judged = (.ofPayloadError e, a) ∧ executed = (.ofPayloadError e, a)) ∧
    ∀ raw allowed, Submits body raw allowed →
      ((∃ defects : List Plan.Defect, Plan.validate allowed raw = .ok (.rejected defects) ∧
          let errors : Json := .arr (defects.map fun d => .str d.message)
          if defects.all fun d => d.message.isEncodable then
            judged = (⟨200, .json (.obj [("valid", .bool false), ("errors", errors)])⟩, a) ∧
            executed = (⟨422, .json (.obj [("detail", .obj [("errors", errors)])])⟩, a)
          else judged = (.failed, a) ∧ executed = (.failed, a)) ∨
        ∃ plan, Plan.validate allowed raw = .ok (.accepted plan) ∧
          judged = (if plan.isEncodable then
            ⟨200, .json (.obj [("valid", .bool true), ("errors", .arr []), ("plan", plan.toJson)])⟩ else .failed, a) ∧
          CarriedOut w runner a plan executed) ∧
      ∀ body' origin' b, Submits body' raw allowed → b.log = a.log →
        (handle w runner (judging body' origin') b).1 = judged.1 ∧
        (handle w runner (executing body' origin') b).1 = executed.1 ∧
        (handle w runner (executing body' origin') b).2.log = executed.2.log := by
  intro judged executed
  refine ⟨fun hn => ?_, fun raw allowed hs => ⟨?_, fun body' origin' b hs' hl => ?_⟩⟩
  · cases hp : planPayload body with
    | error e => exact ⟨e, rfl, handle_of_planPayload_error w runner origin a hp⟩
    | ok p => exact absurd (submits_of_planPayload hp) (hn _ _)
  · obtain ⟨verdict, hv⟩ := Plan.exists_verdict allowed raw
    have hj : judged = (.ok verdict.toJson, a) := handle_judging_of_validate w runner origin a hs hv
    cases verdict with
    | rejected defects =>
      have hx : executed = _ := handle_executing_of_rejected w runner origin a hs hv
      refine .inl ⟨defects, hv, ?_⟩
      rw [hj, hx, Response.ok_rejected, Response.refusal_rejected]
      dsimp only
      split <;> exact ⟨rfl, rfl⟩
    | accepted plan =>
      have hx : CarriedOut w runner a plan executed := carriedOut_of_accepted hs hv
      refine .inr ⟨plan, hv, ?_, hx⟩
      rw [hj, Response.ok_accepted]
  · simp only [judged, executed]
    exact answers_congr hs hs' hl

/-- A plan whose action is a lone surrogate. The body is accepted, and both answers are 500. -/
theorem judgement_fails_for_half_pair :
    let body : List UInt8 := "\x7b\"plan\": \x7b\"steps\": [\x7b\"action\": \"\\ud800\"\x7d]\x7d\x7d".toUTF8.toList
    let runner : Runner := ⟨.ready .plain, ⟨.none, ["shots"]⟩⟩
    let a := Agent.new [] (.ready [])
    (∃ raw, Submits body raw Tool.names) ∧
      (handle ⟨[], none, []⟩ runner (judging body none) a).1.status = 500 ∧
      (handle ⟨[], none, []⟩ runner (executing body none) a).1.status = 500 := by
  intro body runner a
  have hp : (planPayload body).toOption.map PlanPayload.enabled = some none := by decide +kernel
  refine ⟨?_, by decide +kernel, by decide +kernel⟩
  cases h : planPayload body with
  | error e => simp [h, Except.toOption] at hp
  | ok p =>
    have he : p.enabled = none := by simpa [h, Except.toOption] using hp
    have hs := submits_of_planPayload h
    rw [he] at hs
    exact ⟨p.plan, hs⟩

/-- An empty list of tools enables none. -/
example :
    let text (rest : String) : List UInt8 :=
      ("\x7b\"plan\": \x7b\"steps\": [\x7b\"action\": \"closeBrowser\"\x7d]\x7d" ++ rest ++ "\x7d").toUTF8.toList
    let calls (body : List UInt8) : Log :=
      (handle ⟨[], none, []⟩ ⟨.ready .plain, ⟨.none, ["shots"]⟩⟩ (executing body none)
        (.new ["goto"] (.ready []))).2.log
    calls (text ", \"enabled_tools\": null") = [.createSession, .openSession, .closeSession] ∧
      calls (text ", \"enabled_tools\": []") = [] := by
  decide +kernel

end Service

end BrowserPilot
