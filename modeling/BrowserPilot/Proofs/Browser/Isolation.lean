import BrowserPilot.Proofs.Browser.Interruption

/-! Isolation of steps. A plan makes the same calls in every world that serves it, and the result of a step depends
only on the response to its own call. -/
namespace BrowserPilot

/-- The steps up to and including the first `closeBrowser`. -/
def Plan.attempted (p : Plan) : List Step := p.steps.take (p.steps.idxOf .closeBrowser + 1)

namespace Browser

def Call.timeout? : Call → Option Nat
  | .goto _ timeout | .click _ timeout | .waitFor _ timeout | .fill _ _ timeout | .innerText _ _ timeout
  | .screenshot _ timeout => some timeout
  | _ => none

/-- The same text, or failures with the same name and message. -/
inductive Alike : Except Failure Text → Except Failure Text → Prop
  | text (text : Text) : Alike (.ok text) (.ok text)
  | failure {f g : Failure} : f.name = g.name → f.message = g.message → Alike (.error f) (.error g)

namespace Runner

/-- A session can be created for the plan, it opens, and no page call fails the plan. -/
structure Serves (r : Runner) (w : World) (d : Desk) (plan : Plan) : Prop where
  opens : ∃ session opened, r.sessions.made w d.log = .ok session ∧
    (session.openUp w).run (fresh d) = (.ok (), opened)
  spares : w.Spares d.log ((r.execute w (Command.ofPlan plan)).run d).2.log

/-- The response to the page call of the step at index `k`, if it makes one, where the log is that before the first
step. -/
def answer? (r : Runner) (w : World) (past : Log) (steps : List Step) (k : Nat) : Option (Except Failure Text) :=
  (steps[k]?.bind r.pageCall?).map fun c => w.respond (past ++ (steps.take k).filterMap r.pageCall?) c

variable {r : Runner} {w w' : World} {d : Desk}

theorem pageCall?_eq_none_iff (s : Step) :
    r.pageCall? s = none ↔ s = .closeBrowser ∨ ∃ url refusal, s = .goto url ∧ Url.navigable url = .error refusal := by
  cases s with
  | goto url =>
    simp only [pageCall?]
    cases hn : Url.navigable url <;> simp [hn]
  | _ => simp [pageCall?]

theorem timeout?_of_pageCall? {s : Step} {c : Call} (h : r.pageCall? s = some c) :
    c.timeout? = some (if s.tool = .goto then navigationTimeout else stepTimeout) := by
  cases s <;> simp only [pageCall?, Option.some.injEq, reduceCtorEq] at h
  case goto url =>
    split at h
    · obtain rfl := Option.some.inj h
      rfl
    · cases h
  all_goals subst h; rfl

theorem actions_of_execute_plan {plan : Plan} {results : List StepResult}
    (h : ((r.execute w (Command.ofPlan plan)).run d).1 = .ok results) :
    (∃ error, results = [.failed initAction error]) ∨
      results.map (·.action) = plan.attempted.map Step.action := by
  refine (actions_of_execute h).imp_right fun ha => ha.trans ?_
  rw [Command.ofPlan, upToEnd_steps, List.map_map]
  rfl

theorem flatMap_calls_steps (steps : List Step) :
    (steps.map Command.step).flatMap r.calls = steps.filterMap r.pageCall? := by
  induction steps with
  | nil => rfl
  | cons s steps ih =>
    rw [List.map_cons, List.flatMap_cons, ih, List.filterMap_cons, calls]
    cases r.pageCall? s <;> rfl

theorem text_eq_of_alike {f g : Failure} (hn : f.name = g.name) (hm : f.message = g.message) : f.text = g.text := by
  unfold Failure.text
  rw [hn, hm]

/-- The result of a step is determined by the response to its own call. -/
theorem told_eq_of_alike {past : Log} {s : Step} {result result' : StepResult}
    (h : r.report w past (.step s) = .ok result) (h' : r.report w' past (.step s) = .ok result')
    (ha : Option.Rel Alike ((r.pageCall? s).map (w.respond past)) ((r.pageCall? s).map (w'.respond past))) :
    result' = result := by
  simp only [report, outcome] at h h'
  cases hc : r.pageCall? s with
  | none =>
    rw [hc] at h h'
    exact Except.ok.inj (h'.symm.trans h)
  | some c =>
    simp only [hc] at h h'
    simp only [hc, Option.map_some, Option.rel_some_some] at ha
    generalize w.respond past c = first, w'.respond past c = second at ha h h'
    cases ha with
    | text text => exact Except.ok.inj (h'.symm.trans h)
    | @failure f g hn hm =>
      simp only [Except.map, told] at h h'
      split at h
      · split at h'
        · obtain rfl := Except.ok.inj h
          obtain rfl := Except.ok.inj h'
          rw [text_eq_of_alike hn hm]
        · cases h'
      · cases h

theorem answer?_cons_succ (past : Log) (s : Step) (steps : List Step) (k : Nat) :
    r.answer? w past (s :: steps) (k + 1) = r.answer? w (past ++ r.calls (.step s)) steps k := by
  simp only [answer?, List.getElem?_cons_succ, List.take_succ_cons, List.filterMap_cons, calls]
  cases r.pageCall? s <;> simp

/-- The results at an index are equal if the responses to the calls at that index are alike. -/
theorem Reports.getElem?_eq {past : Log} {steps : List Step} {results results' : List StepResult}
    (h : Reports r w past (steps.map .step) results) (h' : Reports r w' past (steps.map .step) results') {k : Nat}
    (ha : Option.Rel Alike (r.answer? w past steps k) (r.answer? w' past steps k)) : results'[k]? = results[k]? := by
  -- on the steps, with the log general: in both worlds each step starts where the calls before it have ended
  induction steps generalizing past results results' k with
  | nil =>
    cases h
    cases h'
    rfl
  | cons s steps ih =>
    cases h with
    | cons hr hs =>
      cases h' with
      | cons hr' hs' =>
        cases k with
        | zero => simpa using told_eq_of_alike hr hr' (by simpa [answer?] using ha)
        | succ k =>
          rw [answer?_cons_succ, answer?_cons_succ] at ha
          exact ih hs hs' ha

theorem sessions_eq_of_made {past : Log} {session : Session} (h : r.sessions.made w past = .ok session) :
    r.sessions = .ready session := by
  unfold SessionSource.made at h
  cases hc : w.respond past .createSession with
  | error f => simp [hc, Except.bind] at h
  | ok text =>
    rw [hc] at h
    cases hs : r.sessions with
    | ready made =>
      rw [hs] at h
      exact congrArg _ (Except.ok.inj h)
    | unusable error => simp [hs, Except.bind] at h

/-- The closing calls of an open session depend only on the position at which it was opened. -/
theorem closing_of_opened {session : Session} {opened : Desk}
    (ho : (session.openUp w).run (fresh d) = (.ok (), opened)) :
    session.closing opened.held = session.closing (Held.nothing.gained (d.log.length + 1) 4) := by
  cases session with
  | plain => rfl
  | launching o =>
    obtain ⟨n, _, he, hn⟩ := Session.run_openUp_launching w o (fresh d)
    rw [ho] at he hn
    obtain rfl := hn.mp rfl
    obtain rfl := he
    simp [fresh]

/-- In a world that serves a plan the calls are those of the opening, of the attempted steps and of the closing, and
each attempted step has its result. -/
theorem execute_of_serves {plan : Plan} (h : r.Serves w d plan) :
    ∃ session results, r.sessions = .ready session ∧
      ((r.execute w (Command.ofPlan plan)).run d).1 = .ok results ∧
      Reports r w (d.log ++ .createSession :: session.opening) (plan.attempted.map .step) results ∧
      ((r.execute w (Command.ofPlan plan)).run d).2.log = d.log ++ .createSession ::
        (session.opening ++ plan.attempted.filterMap r.pageCall? ++
          session.closing (Held.nothing.gained (d.log.length + 1) 4)) := by
  obtain ⟨session, opened, hs, ho⟩ := h.opens
  have hr := run_execute_of_opened hs ho (Command.ofPlan plan)
  have hl := log_of_opened ho
  have hspares : w.Spares opened.log ((r.executeCommands w (Command.ofPlan plan)).run opened).2.log := by
    refine h.spares.mono ?_ ?_
    · rw [hl]
      exact List.prefix_append _ _
    · rw [hr, Session.log_close]
      exact List.prefix_append _ _
  obtain ⟨results, hres, hok⟩ := executeCommands_of_spares hspares
  have hu : Command.upToEnd (Command.ofPlan plan) = plan.attempted.map .step := upToEnd_steps plan.steps
  refine ⟨session, results, sessions_eq_of_made hs, by rw [hr]; exact hok, ?_, ?_⟩
  · rw [← hl, ← hu]
    exact hres
  · rcases r.run_executeCommands w (Command.ofPlan plan) opened with ⟨_, _, he⟩ | ⟨_, _, _, _, _, _, _, _, he⟩
    · rw [hr, Session.log_close, he, hu, flatMap_calls_steps, closing_of_opened ho, hl]
      simp
    · rw [Command.ofPlan] at he
      rw [he] at hok
      cases hok

/-- A plan served by two worlds makes the same calls in both. Each attempted step makes one page call, in order and
with its timeout, except for `closeBrowser` and URLs that are not allowed. The results at an index are equal if the
responses to the step's own call are alike, whatever the other calls return. -/
theorem execute_isolates_steps {plan : Plan} (hw : r.Serves w d plan) (hw' : r.Serves w' d plan) :
    ∃ session results results', r.sessions = .ready session ∧
      ((r.execute w (Command.ofPlan plan)).run d).1 = .ok results ∧
      ((r.execute w' (Command.ofPlan plan)).run d).1 = .ok results' ∧
      ((r.execute w' (Command.ofPlan plan)).run d).2.log = ((r.execute w (Command.ofPlan plan)).run d).2.log ∧
      (∃ closing, ((r.execute w (Command.ofPlan plan)).run d).2.log =
          d.log ++ .createSession :: (session.opening ++ plan.attempted.filterMap r.pageCall? ++ closing) ∧
        ∀ c ∈ closing, c.kind ∈ CallKind.closing) ∧
      (∀ s ∈ plan.attempted,
        (r.pageCall? s = none ↔ s = .closeBrowser ∨ ∃ url refusal, s = .goto url ∧ Url.navigable url = .error refusal) ∧
        ∀ c, r.pageCall? s = some c → c.timeout? = some (if s.tool = .goto then 30000 else 10000)) ∧
      results.length = plan.attempted.length ∧ results'.length = plan.attempted.length ∧
      ∀ k, Option.Rel Alike (r.answer? w (d.log ++ .createSession :: session.opening) plan.attempted k)
          (r.answer? w' (d.log ++ .createSession :: session.opening) plan.attempted k) →
        results'[k]? = results[k]? := by
  obtain ⟨session, results, hs, hok, hr, hl⟩ := execute_of_serves hw
  obtain ⟨session', results', hs', hok', hr', hl'⟩ := execute_of_serves hw'
  obtain rfl := SessionSource.ready.inj (hs'.symm.trans hs)
  refine ⟨session', results, results', hs, hok, hok', hl'.trans hl.symm,
    ⟨_, hl, fun c hc => Session.kind_of_mem_closing hc⟩, fun s _ => ⟨pageCall?_eq_none_iff s, ?_⟩, ?_, ?_, ?_⟩
  · exact fun c hc => timeout?_of_pageCall? hc
  · simpa using hr.length_eq
  · simpa using hr'.length_eq
  · exact fun k ha => hr.getElem?_eq hr' ha

/-- A click that finds nothing and one that fails with the same message, before a URL that is not allowed and a text
that differs. -/
theorem execute_isolates_steps_clicked :
    let r : Runner := ⟨.ready (.launching ⟨true, none⟩), ⟨.none, ["shots"]⟩⟩
    let w : World := ⟨[("body", "Hello")], some [], []⟩
    let w' : World := ⟨[("body", "Bye")], none,
      [⟨.click, some 1, .pageTimeout, "Timeout exceeded: no visible text matches"⟩,
      ⟨.stop, none, .runtime, "gone"⟩]⟩
    let plan : Plan := ⟨[.clickText "Go", .goto "file:///etc/passwd", .snapshotText, .closeBrowser, .clickText "Go"]⟩
    r.Serves w .clear plan ∧ r.Serves w' .clear plan ∧
      ((r.execute w' (Command.ofPlan plan)).run .clear).2.log = ((r.execute w (Command.ofPlan plan)).run .clear).2.log ∧
      ∃ results results', ((r.execute w (Command.ofPlan plan)).run .clear).1 = .ok results ∧
        ((r.execute w' (Command.ofPlan plan)).run .clear).1 = .ok results' ∧ results.length = 4 ∧
        results'[0]? = results[0]? ∧ results'[1]? = results[1]? ∧ results'[3]? = results[3]? := by
  intro r w w' plan
  have hw : r.Serves w .clear plan := ⟨⟨_, _, rfl, rfl⟩, World.spares_of_faults (by decide) _ _⟩
  have hw' : r.Serves w' .clear plan := ⟨⟨_, _, rfl, rfl⟩, World.spares_of_faults (by decide) _ _⟩
  obtain ⟨session, results, results', hs, hok, hok', hl, _, _, hn, _, hk⟩ := execute_isolates_steps hw hw'
  obtain rfl := SessionSource.ready.inj hs
  refine ⟨hw, hw', hl, results, results', hok, hok', hn, hk 0 (.some ?_), hk 1 .none, hk 3 .none⟩
  exact .failure rfl rfl

end Runner
end Browser
end BrowserPilot
