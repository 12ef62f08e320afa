import BrowserPilot.Proofs.Browser.Teardown

/-! The results of a plan: one for each executed step, in order, with data or error as its outcome requires. -/
namespace BrowserPilot

theorem Failure.name_ne_empty (f : Failure) : f.name ≠ "" := by
  cases f with
  | fault kind message => exact kind.name_ne_empty
  | unreadable text error => cases error <;> simp [name]
  | unrecorded error =>
    cases error with
    | unwritable error => cases error <;> simp [name]
    | _ => simp [name]
  | settings error => cases error <;> simp [name]
  | _ => simp [name]

theorem Failure.text_ne_empty (f : Failure) : f.text ≠ "" := by
  unfold text
  split
  · exact f.name_ne_empty
  · rename_i h
    simpa using h

/-- A success has no error, and data if and only if its action returns some; a failure has an error and no data. -/
structure StepResult.WellTold (r : StepResult) : Prop where
  success : r.success = true →
    r.error = none ∧ (r.data.isSome = true ↔ r.action ∈ (["extractText", "snapshotText", "screenshot"] : List Text))
  failure : r.success = false → r.data = none ∧ ∃ error, r.error = some error ∧ error ≠ ""

theorem StepResult.wellTold_failed (action : Text) (f : Failure) : (failed action f.text).WellTold where
  success h := by cases h
  failure _ := ⟨rfl, f.text, rfl, f.text_ne_empty⟩

namespace Browser

/-- None of the page calls between the two logs fails the plan. -/
def World.Spares (w : World) (before after : Log) : Prop :=
  ∀ past c f, before <+: past → past ++ [c] <+: after → c.kind.isOfPage = true → w.respond past c = .error f →
    f.isStepFault = true

/-- Two worlds with equal responses to every call that closes nothing. -/
def World.AgreesButClosing (w w' : World) : Prop :=
  ∀ past c, c.kind ∉ [.closeSession, .closeBrowser, .stop] → w'.respond past c = w.respond past c

theorem World.isStepFault_of_content {w : World} {c : Call} {f : Failure} (h : w.content c = .error f) :
    f.isStepFault = true := by
  unfold content at h
  split at h
  · split at h
    · cases h
    · obtain rfl := Except.error.inj h
      rfl
  · split at h
    · cases h
    · obtain rfl := Except.error.inj h
      rfl
  · split at h
    · cases h
    · obtain rfl := Except.error.inj h
      rfl
  · cases h

theorem World.spares_of_faults {w : World}
    (h : ∀ rule ∈ w.faults, rule.call.isOfPage = true → rule.kind.isStepFault = true) (before after : Log) :
    w.Spares before after := by
  intro past c f _ _ hk hf
  unfold respond at hf
  split at hf
  · rename_i g hg
    obtain rfl := Except.error.inj hf
    simp only [fault?, Option.map_eq_some_iff] at hg
    obtain ⟨rule, hr, rfl⟩ := hg
    have hc := List.find?_some hr
    simp only [Bool.and_eq_true, decide_eq_true_eq] at hc
    exact h rule (List.mem_of_find?_eq_some hr) (by rw [hc.1, hk])
  · exact isStepFault_of_content hf

theorem World.Spares.mono {w : World} {a b c d : Log} (h : w.Spares a d) (hab : a <+: b) (hcd : c <+: d) :
    w.Spares b c :=
  fun past e f hp he hk hf => h past e f (hab.trans hp) (he.trans hcd) hk hf

namespace Runner

theorem isSome_product (r : Runner) (text : Text) (s : Step) :
    (r.product text s).isSome = true ↔ s.action ∈ (["extractText", "snapshotText", "screenshot"] : List Text) := by
  cases s <;> simp [product, Step.action, Step.tool, Tool.name]

theorem eq_none_of_idle {s : Step} {data : Option Text} (h : idle s = .ok data) : data = none := by
  unfold idle at h
  split at h
  · split at h
    · exact (Except.ok.inj h).symm
    · cases h
  · exact (Except.ok.inj h).symm

theorem isSome_of_outcome {r : Runner} {w : World} {past : Log} {s : Step} {data : Option Text}
    (h : r.outcome w past s = .ok data) :
    data.isSome = true ↔ s.action ∈ (["extractText", "snapshotText", "screenshot"] : List Text) := by
  unfold outcome at h
  split at h
  · rename_i c _
    cases hr : w.respond past c with
    | error f => simp [hr, Except.map] at h
    | ok text =>
      rw [hr] at h
      obtain rfl := Except.ok.inj h
      exact r.isSome_product text s
  · rename_i hn
    obtain rfl := eq_none_of_idle h
    cases s <;> simp [pageCall?, Step.action, Step.tool, Tool.name] at hn ⊢

theorem wellTold_of_report {r : Runner} {w : World} {past : Log} {c : Command} {result : StepResult}
    (h : r.report w past c = .ok result) : result.WellTold := by
  cases c with
  | unknown action => cases h
  | step s =>
    cases ho : r.outcome w past s with
    | ok data =>
      simp only [report, told, ho] at h
      obtain rfl := Except.ok.inj h
      exact ⟨fun _ => ⟨rfl, isSome_of_outcome ho⟩, fun h => by cases h⟩
    | error f =>
      simp only [report, told, ho] at h
      split at h
      · obtain rfl := Except.ok.inj h
        exact StepResult.wellTold_failed s.action f
      · cases h

/-- A step fails the plan only through a page call that does. -/
theorem exists_call_of_report_error {r : Runner} {w : World} {past : Log} {s : Step} {f : Failure}
    (h : r.report w past (.step s) = .error f) :
    f.isStepFault = false ∧ ∃ c, r.pageCall? s = some c ∧ w.respond past c = .error f := by
  cases ho : r.outcome w past s with
  | ok data => simp [report, told, ho] at h
  | error g =>
    simp only [report, told, ho] at h
    split at h
    · cases h
    · rename_i hg
      obtain rfl := Except.error.inj h
      refine ⟨by simpa using hg, ?_⟩
      unfold outcome at ho
      split at ho
      · rename_i c hc
        refine ⟨c, hc, ?_⟩
        cases hr : w.respond past c with
        | error e =>
          rw [hr] at ho
          exact congrArg Except.error (Except.error.inj ho)
        | ok text => simp [hr, Except.map] at ho
      · refine absurd hg ?_
        unfold idle at ho
        split at ho
        · split at ho
          · cases ho
          · obtain rfl := Except.error.inj ho
            simp [Failure.isStepFault]
        · cases ho

theorem upToEnd_steps (steps : List Step) :
    Command.upToEnd (steps.map .step) = (steps.take (steps.idxOf .closeBrowser + 1)).map .step := by
  induction steps with
  | nil => rfl
  | cons s steps ih =>
    by_cases hs : s = .closeBrowser
    · subst hs
      simp [Command.upToEnd, Command.endsPlan]
    · have he : (Command.step s).endsPlan = false := by
        unfold Command.endsPlan
        split
        · rename_i h
          exact absurd (Command.step.inj h) hs
        · rfl
      have hi : (s :: steps).idxOf .closeBrowser = steps.idxOf .closeBrowser + 1 := by
        rw [List.idxOf_cons, beq_false_of_ne hs, cond_false]
      rw [hi, List.map_cons, Command.upToEnd, he, ih]
      rfl

/-- Steps that are spared are all executed up to the first `closeBrowser`. -/
theorem executeCommands_of_spares {r : Runner} {w : World} {steps : List Step} {d : Desk}
    (h : w.Spares d.log ((r.executeCommands w (steps.map .step)).run d).2.log) :
    ∃ results, Reports r w d.log (Command.upToEnd (steps.map .step)) results ∧
      ((r.executeCommands w (steps.map .step)).run d).1 = .ok results := by
  rcases r.run_executeCommands w (steps.map .step) d with
    ⟨results, hr, he⟩ | ⟨before, command, after, results, f, hu, _, hf, he⟩
  · exact ⟨results, hr, by rw [he]⟩
  · have hm : command ∈ Command.upToEnd (steps.map .step) := by simp [hu]
    obtain ⟨s, _, rfl⟩ := List.mem_map.mp (upToEnd_steps steps ▸ hm)
    -- the command that ended the plan early did so with a call that the world does not spare
    obtain ⟨hs, c, hc, hr⟩ := exists_call_of_report_error hf
    rw [he] at h
    have hk : c.kind.isOfPage = true := isOfPage_of_pageCall? hc
    have hb := h _ c f (List.prefix_append _ _) (by simp [calls, hc]) hk hr
    simp [hs] at hb

variable {w w' : World}

theorem outcome_congr (h : w.AgreesButClosing w') (r : Runner) (past : Log) (s : Step) :
    r.outcome w' past s = r.outcome w past s := by
  unfold outcome
  split
  · rename_i c hc
    have hk : c.kind.isOfPage = true := isOfPage_of_pageCall? hc
    have ha : c.kind ∉ [.closeSession, .closeBrowser, .stop] := by
      intro hm
      simp only [List.mem_cons, List.not_mem_nil, or_false] at hm
      rcases hm with he | he | he <;> rw [he] at hk <;> cases hk
    rw [h past c ha]
  · rfl

theorem executeCommands_congr (h : w.AgreesButClosing w') (r : Runner) (commands : List Command) :
    r.executeCommands w' commands = r.executeCommands w commands := by
  have hc (c : Command) : r.executeCommand w' c = r.executeCommand w c := by
    funext d
    have hr : r.report w' d.log c = r.report w d.log c := by
      cases c with
      | unknown action => rfl
      | step s => simp only [report, outcome_congr h]
    exact (r.run_executeCommand w' c d).trans (by rw [hr, ← r.run_executeCommand w c d]; rfl)
  induction commands with
  | nil => rfl
  | cons c cs ih => simp only [executeCommands, hc, ih]

theorem openUp_congr (h : w.AgreesButClosing w') (session : Session) (d : Desk) :
    (session.openUp w').run d = (session.openUp w).run d := by
  cases session with
  | plain => simp only [Session.openUp, run_perform_, h d.log .openSession (by decide)]
  | launching o =>
    have hl (past : Log) : w'.respond past o.call = w.respond past o.call :=
      h past _ (by simp [LaunchOptions.call, Call.kind])
    simp only [Session.openUp, Attempt.run_bind, run_perform, run_perform_, Attempt.run_modify, hl,
      h _ .start (by decide), h _ .newContext (by decide), h _ .newPage (by decide)]

/-- The outcome of a plan does not depend on the responses to closing calls. -/
theorem execute_congr (h : w.AgreesButClosing w') (r : Runner) (commands : List Command) (d : Desk) :
    ((r.execute w' commands).run d).1 = ((r.execute w commands).run d).1 := by
  have hm : r.sessions.made w' d.log = r.sessions.made w d.log := by
    simp only [SessionSource.made, h d.log .createSession (by decide)]
  simp only [run_execute, hm]
  cases r.sessions.made w d.log with
  | error f => rfl
  | ok session =>
    simp only [run_useSession, openUp_congr h]
    cases (session.openUp w).run (fresh d) with
    | mk outcome opened =>
      cases outcome with
      | error f => rfl
      | ok u => simp only [executeCommands_congr h]

/-- The results of a plan are the failed opening of its session, or the results of its commands up to the first
`closeBrowser`. -/
theorem reports_of_execute {r : Runner} {commands : List Command} {d : Desk} {results : List StepResult}
    (h : ((r.execute w commands).run d).1 = .ok results) :
    (∃ error, results = [.failed initAction error]) ∨
      ∃ past, Reports r w past (Command.upToEnd commands) results := by
  cases hs : r.sessions.made w d.log with
  | error f =>
    rw [run_execute, hs] at h
    cases h
  | ok session =>
    cases ho : (session.openUp w).run (fresh d) with
    | mk outcome opened =>
      cases outcome with
      | error f =>
        rw [run_execute_of_not_opened hs ho] at h
        exact .inl ⟨f.text, (Except.ok.inj h).symm⟩
      | ok u =>
        rw [run_execute_of_opened hs ho] at h
        rcases r.run_executeCommands w commands opened with ⟨found, hr, he⟩ | ⟨_, _, _, _, f, _, _, _, he⟩
        · rw [he] at h
          obtain rfl := Except.ok.inj h
          exact .inr ⟨opened.log, hr⟩
        · rw [he] at h
          cases h

theorem actions_of_execute {r : Runner} {commands : List Command} {d : Desk} {results : List StepResult}
    (h : ((r.execute w commands).run d).1 = .ok results) :
    (∃ error, results = [.failed initAction error]) ∨
      results.map (·.action) = (Command.upToEnd commands).map Command.action :=
  (reports_of_execute h).imp_right fun ⟨_, hr⟩ => hr.actions

theorem length_upToEnd_steps (steps : List Step) :
    (Command.upToEnd (steps.map .step)).length =
      if .closeBrowser ∈ steps then steps.idxOf .closeBrowser + 1 else steps.length := by
  rw [upToEnd_steps, List.length_map, List.length_take]
  split
  · rename_i hm
    have := List.idxOf_lt_length_of_mem hm
    omega
  · rename_i hm
    rw [List.idxOf_eq_length hm]
    omega

theorem execute_of_opened {r : Runner} {w : World} {session : Session} {plan : Plan} {d opened : Desk}
    (hs : r.sessions.made w d.log = .ok session) (ho : (session.openUp w).run (fresh d) = (.ok (), opened))
    (hw : w.Spares d.log ((r.execute w (Command.ofPlan plan)).run d).2.log) :
    ∃ results, ((r.execute w (Command.ofPlan plan)).run d).1 = .ok results ∧
      results.length = (if .closeBrowser ∈ plan.steps then plan.steps.idxOf .closeBrowser + 1 else plan.steps.length) ∧
      results.map (·.action) = (plan.steps.take results.length).map Step.action ∧
      ∀ result ∈ results, result.WellTold := by
  have hr := run_execute_of_opened hs ho (Command.ofPlan plan)
  obtain ⟨n, hl, _⟩ := log_opened ho
  have hsp : w.Spares opened.log ((r.executeCommands w (Command.ofPlan plan)).run opened).2.log := by
    refine hw.mono ?_ ?_
    · rw [hl]
      exact List.prefix_append _ _
    · rw [hr, Session.log_close]
      exact List.prefix_append _ _
  obtain ⟨results, hres, hok⟩ := executeCommands_of_spares hsp
  refine ⟨results, by rw [hr]; exact hok, hres.length_eq.trans (length_upToEnd_steps plan.steps), ?_, ?_⟩
  · have ht := List.prefix_iff_eq_take.mp (List.take_prefix (plan.steps.idxOf .closeBrowser + 1) plan.steps)
    have ha := hres.actions
    have hk := hres.length_eq
    rw [upToEnd_steps, List.map_map] at ha
    rw [upToEnd_steps, List.length_map] at hk
    rw [ha, hk, ← ht]
    rfl
  · intro result hm
    obtain ⟨c, _, past, hc⟩ := hres.exists_report hm
    exact wellTold_of_report hc

end Runner
end Browser
end BrowserPilot
