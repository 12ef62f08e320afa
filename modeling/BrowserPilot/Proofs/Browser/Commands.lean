import BrowserPilot.Browser.Execution

/-! Execution of commands: each makes at most one page call, and has a result or fails the plan. -/
namespace BrowserPilot.Browser

/-- The commands up to and including the first `closeBrowser`. -/
def Command.upToEnd : List Command → List Command
  | [] => []
  | c :: cs => if c.endsPlan then [c] else c :: upToEnd cs

theorem Command.mem_of_mem_upToEnd {c : Command} {commands : List Command} (h : c ∈ upToEnd commands) :
    c ∈ commands := by
  induction commands with
  | nil => exact h
  | cons e es ih =>
    rw [upToEnd] at h
    split at h
    · exact List.mem_cons.mpr (.inl (List.mem_singleton.mp h))
    · exact List.mem_cons.mpr ((List.mem_cons.mp h).imp_right ih)

namespace Runner

/-- The page call of a step; a URL that is not allowed has none. -/
def pageCall? (r : Runner) : Step → Option Call
  | .goto url =>
    match Url.navigable url with
    | .ok _ => some (.goto url navigationTimeout)
    | .error _ => none
  | .clickText text => some (.click (TextPattern.ofText text) stepTimeout)
  | .typeInto selector value => some (.fill selector value stepTimeout)
  | .waitForText text => some (.waitFor (TextPattern.ofText text) stepTimeout)
  | .extractText selector => some (.innerText true selector stepTimeout)
  | .snapshotText => some (.innerText false "body" stepTimeout)
  | .screenshot name => some (.screenshot (r.screenshotPath name) stepTimeout)
  | .closeBrowser => none

/-- The data of a step whose call returned the given text. -/
def product (r : Runner) (text : Text) : Step → Option Text
  | .extractText _ | .snapshotText => some text
  | .screenshot name => some (r.screenshotPath name)
  | _ => none

def idle : Step → Except Failure (Option Text)
  | .goto url =>
    match Url.navigable url with
    | .ok _ => .ok none
    | .error refusal => .error (.refusedUrl refusal)
  | _ => .ok none

/-- The data of a step, or its failure, when it is executed after the calls of the log. -/
def outcome (r : Runner) (w : World) (past : Log) (s : Step) : Except Failure (Option Text) :=
  match r.pageCall? s with
  | some c => (w.respond past c).map fun text => r.product text s
  | none => idle s

/-- The result of a step; failures that are not step faults are raised. -/
def told (s : Step) : Except Failure (Option Text) → Except Failure StepResult
  | .ok data => .ok (.succeeded s.action data)
  | .error failure => if failure.isStepFault then .ok (.failed s.action failure.text) else .error failure

def calls (r : Runner) : Command → List Call
  | .step s => (r.pageCall? s).toList
  | .unknown _ => []

/-- The result of a command that is executed after the calls of the log. -/
def report (r : Runner) (w : World) (past : Log) : Command → Except Failure StepResult
  | .step s => told s (r.outcome w past s)
  | .unknown action => .error (.unknownAction action)

/-- The results of commands executed one after the other from the log on. -/
inductive Reports (r : Runner) (w : World) : Log → List Command → List StepResult → Prop
  | nil (past : Log) : Reports r w past [] []
  | cons {past : Log} {c : Command} {cs : List Command} {result : StepResult} {results : List StepResult} :
      r.report w past c = .ok result → Reports r w (past ++ r.calls c) cs results →
      Reports r w past (c :: cs) (result :: results)

private theorem run_fetch {α : Type} (w : World) (c : Call) (f : Text → α) (d : Desk) :
    (do let (_, text) ← perform w c; return f text : Attempt Desk α).run d =
      ((w.respond d.log c).map f, { d with log := d.log ++ [c] }) := by
  rw [Attempt.run_bind, run_perform]
  cases w.respond d.log c <;> rfl

private theorem run_effect {α : Type} (w : World) (c : Call) (a : α) (d : Desk) :
    (do perform_ w c; return a : Attempt Desk α).run d =
      ((w.respond d.log c).map fun _ => a, { d with log := d.log ++ [c] }) := by
  rw [Attempt.run_bind, run_perform_]
  cases w.respond d.log c <;> rfl

theorem run_carryOut (r : Runner) (w : World) (s : Step) (d : Desk) :
    (r.carryOut w s).run d = (r.outcome w d.log s, { d with log := d.log ++ (r.pageCall? s).toList }) := by
  cases s with
  | goto url =>
    cases hn : Url.navigable url with
    | error refusal => simp [carryOut, outcome, pageCall?, idle, hn, Attempt.run_throw]
    | ok out =>
      obtain rfl := Url.navigable_eq_self hn
      simp only [carryOut, outcome, pageCall?, hn]
      exact run_effect w (.goto out navigationTimeout) none d
  | clickText text => exact run_effect w _ none d
  | typeInto selector value => exact run_effect w _ none d
  | waitForText text => exact run_effect w _ none d
  | extractText selector => exact run_fetch w _ some d
  | snapshotText => exact run_fetch w _ some d
  | screenshot name => exact run_effect w _ (some (r.screenshotPath name)) d
  | closeBrowser => simp [carryOut, outcome, pageCall?, idle, Attempt.run_pure]

theorem run_executeCommand (r : Runner) (w : World) (c : Command) (d : Desk) :
    (r.executeCommand w c).run d = (r.report w d.log c, { d with log := d.log ++ r.calls c }) := by
  cases c with
  | unknown action => simp [executeCommand, report, calls, Attempt.run_throw]
  | step s =>
    simp only [executeCommand, report, calls, Attempt.run_bind, Attempt.run_result, run_carryOut]
    cases r.outcome w d.log s with
    | ok data => rfl
    | error failure =>
      simp only [told]
      split <;> rfl

/-- Either all commands up to the first `closeBrowser` have results, or one of them fails the plan. The log is
extended by the calls of the executed commands. -/
theorem run_executeCommands (r : Runner) (w : World) (commands : List Command) (d : Desk) :
    (∃ results, Reports r w d.log (Command.upToEnd commands) results ∧
      (r.executeCommands w commands).run d =
        (.ok results, { d with log := d.log ++ (Command.upToEnd commands).flatMap r.calls })) ∨
    (∃ before c after results failure, Command.upToEnd commands = before ++ c :: after ∧
      Reports r w d.log before results ∧
      r.report w (d.log ++ before.flatMap r.calls) c = .error failure ∧
      (r.executeCommands w commands).run d =
        (.error failure, { d with log := d.log ++ before.flatMap r.calls ++ r.calls c })) := by
  -- on the commands, with the desk general, since each command starts where the one before it has ended
  induction commands generalizing d with
  | nil => exact .inl ⟨[], .nil _, by simp [executeCommands, Command.upToEnd, Attempt.run_pure]⟩
  | cons c cs ih =>
    simp only [executeCommands, Attempt.run_bind, run_executeCommand]
    cases hr : r.report w d.log c with
    | error failure =>
      obtain ⟨rest, hu⟩ : ∃ rest, Command.upToEnd (c :: cs) = c :: rest := by
        unfold Command.upToEnd
        split <;> exact ⟨_, rfl⟩
      exact .inr ⟨[], c, rest, [], failure, hu, .nil _, by simpa using hr, by simp⟩
    | ok result =>
      cases hc : c.endsPlan with
      | true =>
        refine .inl ⟨[result], ?_, ?_⟩
        · simpa [Command.upToEnd, hc] using Reports.cons hr (.nil _)
        · simp [Command.upToEnd, hc, Attempt.run_pure]
      | false =>
        simp only [Command.upToEnd, hc, Bool.false_eq_true, if_false, Attempt.run_bind, Attempt.run_pure]
        rcases ih { d with log := d.log ++ r.calls c } with
          ⟨results, hs, he⟩ | ⟨before, e, after, results, failure, hu, hs, hf, he⟩
        · exact .inl ⟨result :: results, .cons hr hs, by simp [he]⟩
        · refine .inr ⟨c :: before, e, after, result :: results, failure, by simp [hu], .cons hr hs, ?_, ?_⟩
          · simpa using hf
          · simp [he]

theorem isOfPage_of_pageCall? {r : Runner} {s : Step} {c : Call} (h : r.pageCall? s = some c) :
    c.kind.isOfPage = true := by
  cases s <;> simp only [pageCall?, Option.some.injEq, reduceCtorEq] at h
  case goto url =>
    split at h
    · obtain rfl := Option.some.inj h
      rfl
    · cases h
  all_goals subst h; rfl

theorem isOfPage_of_mem_calls {r : Runner} {command : Command} {c : Call} (h : c ∈ r.calls command) :
    c.kind.isOfPage = true := by
  cases command with
  | unknown action => simp [calls] at h
  | step s => exact isOfPage_of_pageCall? (Option.mem_toList.mp h)

theorem action_of_report {r : Runner} {w : World} {past : Log} {c : Command} {result : StepResult}
    (h : r.report w past c = .ok result) : result.action = c.action := by
  cases c with
  | unknown action => simp [report] at h
  | step s =>
    simp only [report, told] at h
    split at h
    · obtain rfl := Except.ok.inj h
      rfl
    · split at h
      · obtain rfl := Except.ok.inj h
        rfl
      · cases h

namespace Reports
variable {r : Runner} {w : World} {past : Log} {commands : List Command} {results : List StepResult}

theorem actions (h : Reports r w past commands results) :
    results.map (·.action) = commands.map Command.action := by
  induction h with
  | nil => rfl
  | cons hc _ ih => rw [List.map_cons, List.map_cons, action_of_report hc, ih]

theorem length_eq (h : Reports r w past commands results) : results.length = commands.length := by
  simpa using congrArg List.length h.actions

theorem exists_report (h : Reports r w past commands results) {result : StepResult} (hm : result ∈ results) :
    ∃ c ∈ commands, ∃ log, r.report w log c = .ok result := by
  induction h with
  | nil => simp at hm
  | @cons past c _ _ _ hc _ ih =>
    rcases List.mem_cons.mp hm with rfl | hm
    · exact ⟨c, by simp, past, hc⟩
    · obtain ⟨e, he, hr⟩ := ih hm
      exact ⟨e, by simp [he], hr⟩

end Reports

/-- Executing commands appends some of their calls to the log and changes nothing else. -/
theorem log_executeCommands (r : Runner) (w : World) (commands : List Command) (d : Desk) :
    ∃ made, ((r.executeCommands w commands).run d).2 = { d with log := d.log ++ made } ∧
      ∀ c ∈ made, ∃ command ∈ Command.upToEnd commands, c ∈ r.calls command := by
  rcases r.run_executeCommands w commands d with
    ⟨results, _, he⟩ | ⟨before, e, after, results, failure, hu, _, _, he⟩
  · refine ⟨(Command.upToEnd commands).flatMap r.calls, by rw [he], ?_⟩
    simp
  · refine ⟨before.flatMap r.calls ++ r.calls e, by rw [he, List.append_assoc], ?_⟩
    intro c hc
    rw [hu]
    rcases List.mem_append.mp hc with hc | hc
    · obtain ⟨command, hm, hc⟩ := List.mem_flatMap.mp hc
      exact ⟨command, by simp [hm], hc⟩
    · exact ⟨e, by simp, hc⟩

end Runner

end BrowserPilot.Browser
