import BrowserPilot.Proofs.Browser.Results

/-! Failing plans: no session can be created, or a command is fatal. Faults while opening or closing the session do
not fail a plan. -/
namespace BrowserPilot

namespace FaultKind

def ofPage : List FaultKind := [.pageError, .pageTimeout]

def ofSystem : List FaultKind := [.timeout, .systemError, .fileNotFound, .permission]

theorem isStepFault_eq_false_iff (k : FaultKind) :
    k.isStepFault = false ↔ k ∉ ofPage ∧ k ∉ ofSystem ∧ k ≠ .unsafeUrl := by
  cases k <;> decide

end FaultKind

namespace Browser

/-- A failure that is not a step fault comes from a rule of the world. -/
theorem World.exists_fault_of_not_isStepFault {w : World} {past : Log} {c : Call} {f : Failure}
    (h : w.respond past c = .error f) (hf : f.isStepFault = false) : ∃ kind message, f = .fault kind message := by
  unfold respond at h
  split at h
  · rename_i g hg
    obtain rfl := Except.error.inj h
    simp only [fault?, Option.map_eq_some_iff] at hg
    obtain ⟨rule, _, rfl⟩ := hg
    exact ⟨rule.kind, rule.message, rfl⟩
  · rw [isStepFault_of_content h] at hf
    cases hf

namespace Runner

/-- The command fails the plan: its action is not a tool, or its page call raises something other than a step fault. -/
inductive Fatal (r : Runner) (w : World) (past : Log) : Command → Failure → Prop
  | unknown (action : Text) : Fatal r w past (.unknown action) (.unknownAction action)
  | call {s : Step} {c : Call} {kind : FaultKind} {message : Text} :
      r.pageCall? s = some c → w.respond past c = .error (.fault kind message) →
      kind ∉ FaultKind.ofPage → kind ∉ FaultKind.ofSystem → kind ≠ .unsafeUrl →
      Fatal r w past (.step s) (.fault kind message)

/-- The first command that fails the plan, with the commands executed before it. -/
inductive Stops (r : Runner) (w : World) : Log → List Command → List Command → Command → Failure → Prop
  | here {past : Log} {c : Command} {f : Failure} (rest : List Command) :
      Fatal r w past c f → Stops r w past (c :: rest) [] c f
  | later {past : Log} {b c : Command} {rest before : List Command} {f : Failure} :
      (∀ g, ¬ Fatal r w past b g) → Stops r w (past ++ r.calls b) rest before c f →
      Stops r w past (b :: rest) (b :: before) c f

variable {r : Runner} {w : World} {past : Log} {c : Command} {f : Failure}

theorem report_eq_error_iff : r.report w past c = .error f ↔ Fatal r w past c f := by
  constructor
  · intro h
    cases c with
    | unknown action =>
      obtain rfl := Except.error.inj h
      exact .unknown action
    | step s =>
      obtain ⟨hf, c, hc, hr⟩ := exists_call_of_report_error h
      obtain ⟨kind, message, rfl⟩ := World.exists_fault_of_not_isStepFault hr hf
      obtain ⟨hp, hs, hu⟩ := (FaultKind.isStepFault_eq_false_iff kind).mp hf
      exact .call hc hr hp hs hu
  · intro h
    cases h with
    | unknown action => rfl
    | call hc hr hp hs hu =>
      have hf := (FaultKind.isStepFault_eq_false_iff _).mpr ⟨hp, hs, hu⟩
      simp only [report, outcome, hc, hr, Except.map, told, Failure.isStepFault, hf, Bool.false_eq_true, if_false]

theorem exists_report_of_not_fatal (h : ∀ g, ¬ Fatal r w past c g) : ∃ result, r.report w past c = .ok result := by
  cases hr : r.report w past c with
  | ok result => exact ⟨result, rfl⟩
  | error g => exact absurd (report_eq_error_iff.mp hr) (h g)

theorem Reports.stops {before : List Command} {results : List StepResult} (h : Reports r w past before results)
    (after : List Command) (hf : Fatal r w (past ++ before.flatMap r.calls) c f) :
    Stops r w past (before ++ c :: after) before c f := by
  induction h with
  | nil past => exact .here after (by simpa using hf)
  | cons hb _ ih =>
    refine .later (fun g hg => ?_) (ih (by simpa using hf))
    rw [report_eq_error_iff.mpr hg] at hb
    cases hb

theorem Stops.split {commands before : List Command} (h : Stops r w past commands before c f) :
    ∃ after, commands = before ++ c :: after ∧ Fatal r w (past ++ before.flatMap r.calls) c f := by
  induction h with
  | here rest hf => exact ⟨rest, rfl, by simpa using hf⟩
  | later _ _ ih =>
    obtain ⟨after, he, hf⟩ := ih
    exact ⟨after, by rw [he]; rfl, by simpa using hf⟩

theorem exists_stops {before : List Command} (after : List Command)
    (h : Fatal r w (past ++ before.flatMap r.calls) c f) :
    ∃ b e g, Stops r w past (before ++ c :: after) b e g := by
  induction before generalizing past with
  | nil => exact ⟨[], c, f, .here after (by simpa using h)⟩
  | cons b before ih =>
    by_cases hb : ∃ g, Fatal r w past b g
    · obtain ⟨g, hg⟩ := hb
      exact ⟨[], b, g, .here _ hg⟩
    · have hrest : Fatal r w (past ++ r.calls b ++ before.flatMap r.calls) c f := by simpa using h
      obtain ⟨bs, e, g, hs⟩ := ih hrest
      exact ⟨b :: bs, e, g, .later (fun g hg => hb ⟨g, hg⟩) hs⟩

/-- Commands are executed up to the first fatal one and raise its failure. -/
theorem run_executeCommands_of_stops {commands before : List Command} {d : Desk}
    (h : Stops r w d.log (Command.upToEnd commands) before c f) :
    (r.executeCommands w commands).run d =
      (.error f, { d with log := d.log ++ before.flatMap r.calls ++ r.calls c }) := by
  induction commands generalizing d before with
  | nil => cases h
  | cons e es ih =>
    rw [executeCommands, Attempt.run_bind, run_executeCommand]
    cases he : e.endsPlan with
    | true =>
      rw [Command.upToEnd, he, if_pos rfl] at h
      cases h with
      | here _ hf => simp [report_eq_error_iff.mpr hf]
      | later _ hs => cases hs
    | false =>
      rw [Command.upToEnd, he, if_neg Bool.false_ne_true] at h
      cases h with
      | here _ hf => simp [report_eq_error_iff.mpr hf]
      | later hn hs =>
        obtain ⟨result, hr⟩ := exists_report_of_not_fatal hn
        simp only [hr, Bool.false_eq_true, if_false, Attempt.run_bind]
        rw [ih (d := { d with log := d.log ++ r.calls e }) hs]
        simp

theorem exists_stops_of_error {commands : List Command} {d : Desk}
    (h : ((r.executeCommands w commands).run d).1 = .error f) :
    ∃ before c, Stops r w d.log (Command.upToEnd commands) before c f := by
  rcases r.run_executeCommands w commands d with ⟨results, _, he⟩ | ⟨before, c, after, results, g, hu, hr, hf, he⟩
  · rw [he] at h
    cases h
  · rw [he] at h
    obtain rfl := Except.error.inj h
    exact ⟨before, c, hu ▸ hr.stops after (report_eq_error_iff.mp hf)⟩

variable {session : Session} {d opened : Desk}

theorem log_of_opened (ho : (session.openUp w).run (fresh d) = (.ok (), opened)) :
    opened.log = d.log ++ .createSession :: session.opening := by
  obtain ⟨n, hl, hn⟩ := log_opened ho
  rw [hl, hn rfl]

/-- An open session is closed by one call, or by closing its browser and then stopping its driver. -/
theorem kinds_closing_of_opened (ho : (session.openUp w).run (fresh d) = (.ok (), opened)) :
    (session.closing opened.held).map Call.kind = [.closeSession] ∨
      (session.closing opened.held).map Call.kind = [.closeBrowser, .stop] := by
  cases session with
  | plain => exact .inl rfl
  | launching o =>
    obtain ⟨n, _, he, hn⟩ := Session.run_openUp_launching w o (fresh d)
    rw [ho] at he hn
    obtain rfl := hn.mp rfl
    obtain rfl := he
    exact .inr rfl

theorem execute_of_stops {commands before : List Command} (hs : r.sessions.made w d.log = .ok session)
    (ho : (session.openUp w).run (fresh d) = (.ok (), opened))
    (h : Stops r w opened.log (Command.upToEnd commands) before c f) :
    ((r.execute w commands).run d).1 = .error f ∧
      ((r.execute w commands).run d).2.log = d.log ++ .createSession ::
        (session.opening ++ before.flatMap r.calls ++ r.calls c ++ session.closing opened.held) := by
  rw [run_execute_of_opened hs ho, run_executeCommands_of_stops h]
  refine ⟨rfl, ?_⟩
  rw [Session.log_close, log_of_opened ho]
  simp

theorem execute_error_cases {commands : List Command} (h : ((r.execute w commands).run d).1 = .error f) :
    r.sessions.made w d.log = .error f ∨
      ∃ session opened before c, r.sessions.made w d.log = .ok session ∧
        (session.openUp w).run (fresh d) = (.ok (), opened) ∧
        Stops r w opened.log (Command.upToEnd commands) before c f := by
  cases hs : r.sessions.made w d.log with
  | error g =>
    rw [run_execute, hs] at h
    exact .inl (congrArg Except.error (Except.error.inj h))
  | ok session =>
    cases ho : (session.openUp w).run (fresh d) with
    | mk outcome opened =>
      cases outcome with
      | error g =>
        rw [run_execute_of_not_opened hs ho] at h
        cases h
      | ok u =>
        rw [run_execute_of_opened hs ho] at h
        obtain ⟨before, c, hstops⟩ := exists_stops_of_error h
        exact .inr ⟨session, opened, before, c, rfl, ho, hstops⟩

theorem kind_notMem_closing_of_mem_calls {call : Call} (h : call ∈ r.calls c) : call.kind ∉ CallKind.closing := by
  intro hm
  have hp := isOfPage_of_mem_calls h
  rw [CallKind.isOfPage_of_mem_closing _ hm] at hp
  cases hp

theorem kind_notMem_closing_of_mem_opening {call : Call} (h : call ∈ session.opening) :
    call.kind ∉ CallKind.closing :=
  CallKind.notMem_closing_of_mem_opening _ (Session.kind_of_mem_opening h)

/-- Executing a plan fails if and only if no session can be created, or the session opens and some command up to the
first `closeBrowser` is fatal. Without a session no other call is made. Otherwise the failure is that of the first
fatal command, no later command makes a call, and the session is closed once, at the end. A failed opening is
returned as a result, and faults while closing do not change the outcome. -/
theorem execute_fails_iff (r : Runner) (w : World) (commands : List Command) (d : Desk) :
    ((∃ f, ((r.execute w commands).run d).1 = .error f) ↔
      (∃ f, r.sessions.made w d.log = .error f) ∨
      ∃ session opened, r.sessions.made w d.log = .ok session ∧
        (session.openUp w).run (fresh d) = (.ok (), opened) ∧
        ∃ before c after f, Command.upToEnd commands = before ++ c :: after ∧
          Fatal r w (opened.log ++ before.flatMap r.calls) c f) ∧
    (∀ f, r.sessions.made w d.log = .error f →
      (r.execute w commands).run d = (.error f, { d with log := d.log ++ [.createSession] })) ∧
    (∀ session opened, r.sessions.made w d.log = .ok session → (session.openUp w).run (fresh d) = (.ok (), opened) →
      ∀ before c f, Stops r w opened.log (Command.upToEnd commands) before c f →
        ((r.execute w commands).run d).1 = .error f ∧
        ((r.execute w commands).run d).2.log = d.log ++ .createSession ::
          (session.opening ++ before.flatMap r.calls ++ r.calls c ++ session.closing opened.held) ∧
        (∀ call ∈ session.opening ++ before.flatMap r.calls ++ r.calls c, call.kind ∉ CallKind.closing) ∧
        ((session.closing opened.held).map Call.kind = [.closeSession] ∨
          (session.closing opened.held).map Call.kind = [.closeBrowser, .stop])) ∧
    (∀ session opened f, r.sessions.made w d.log = .ok session →
      (session.openUp w).run (fresh d) = (.error f, opened) →
      ((r.execute w commands).run d).1 = .ok [.failed initAction f.text]) ∧
    ∀ w', w.AgreesButClosing w' → ((r.execute w' commands).run d).1 = ((r.execute w commands).run d).1 := by
  refine ⟨⟨?_, ?_⟩, ?_, ?_, ?_, ?_⟩
  · rintro ⟨f, hf⟩
    rcases execute_error_cases hf with hs | ⟨session, opened, before, c, hs, ho, hstops⟩
    · exact .inl ⟨f, hs⟩
    · obtain ⟨after, he, hc⟩ := hstops.split
      exact .inr ⟨session, opened, hs, ho, before, c, after, f, he, hc⟩
  · rintro (⟨f, hs⟩ | ⟨session, opened, hs, ho, before, c, after, f, he, hc⟩)
    · exact ⟨f, by rw [run_execute, hs]⟩
    · obtain ⟨b, e, g, hstops⟩ := exists_stops after hc
      exact ⟨g, (execute_of_stops hs ho (he ▸ hstops)).1⟩
  · intro f hs
    rw [run_execute, hs]
  · intro session opened hs ho before c f hstops
    obtain ⟨hf, hl⟩ := execute_of_stops hs ho hstops
    refine ⟨hf, hl, fun call hc => ?_, kinds_closing_of_opened ho⟩
    rcases List.mem_append.mp hc with hc | hc
    · rcases List.mem_append.mp hc with hc | hc
      · exact kind_notMem_closing_of_mem_opening hc
      · obtain ⟨b, _, hc⟩ := List.mem_flatMap.mp hc
        exact kind_notMem_closing_of_mem_calls hc
    · exact kind_notMem_closing_of_mem_calls hc
  · intro session opened f hs ho
    rw [run_execute_of_not_opened hs ho]
  · intro w' h
    exact execute_congr h r commands d

end Runner
end Browser
end BrowserPilot
