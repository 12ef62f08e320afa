import BrowserPilot.Proofs.Browser.Commands
import BrowserPilot.Proofs.Browser.Sessions

/-! The log of an executed plan, from the creation of its session to the release of its resources. -/
namespace BrowserPilot.Browser

/-- The session that is created after the calls of the log, or the failure to create it. -/
def SessionSource.made (w : World) (past : Log) (source : SessionSource) : Except Failure Session :=
  (w.respond past .createSession).bind fun _ =>
    match source with
    | ready session => .ok session
    | unusable error => .error (.settings error)

theorem SessionSource.run_create (w : World) (source : SessionSource) (d : Desk) :
    (source.create w).run d = (source.made w d.log, { d with log := d.log ++ [.createSession] }) := by
  simp only [create, made, Attempt.run_bind, run_perform_]
  cases w.respond d.log .createSession with
  | error f => rfl
  | ok text => cases source <;> rfl

namespace Runner

def fresh (d : Desk) : Desk := ⟨.nothing, d.log ++ [.createSession]⟩

theorem run_useSession (r : Runner) (w : World) (session : Session) (commands : List Command) (d : Desk) :
    (r.useSession w session commands).run d =
      match (session.openUp w).run d with
      | (.ok _, opened) => (r.executeCommands w commands).run opened
      | (.error f, opened) => (.ok [.failed initAction f.text], opened) := by
  simp only [useSession, Attempt.run_bind, Attempt.run_result]
  cases (session.openUp w).run d with
  | mk outcome opened => cases outcome <;> rfl

/-- A plan has the outcome of using its session; the closing only extends the log. -/
theorem run_execute (r : Runner) (w : World) (commands : List Command) (d : Desk) :
    (r.execute w commands).run d =
      match r.sessions.made w d.log with
      | .error f => (.error f, { d with log := d.log ++ [.createSession] })
      | .ok session =>
        let used := (r.useSession w session commands).run (fresh d)
        (used.1, ((session.close w).run used.2).2) := by
  simp only [execute, Attempt.run_bind, SessionSource.run_create, Attempt.run_modify, Attempt.run_result, fresh]
  cases r.sessions.made w d.log <;> rfl

variable {r : Runner} {w : World} {d opened : Desk} {session : Session}

theorem run_execute_of_opened (hs : r.sessions.made w d.log = .ok session)
    (ho : (session.openUp w).run (fresh d) = (.ok (), opened)) (commands : List Command) :
    (r.execute w commands).run d =
      (((r.executeCommands w commands).run opened).1,
        ((session.close w).run ((r.executeCommands w commands).run opened).2).2) := by
  simp only [run_execute, hs, run_useSession, ho]

theorem run_execute_of_not_opened {f : Failure} (hs : r.sessions.made w d.log = .ok session)
    (ho : (session.openUp w).run (fresh d) = (.error f, opened)) (commands : List Command) :
    (r.execute w commands).run d = (.ok [.failed initAction f.text], ((session.close w).run opened).2) := by
  simp only [run_execute, hs, run_useSession, ho]

/-- The log of a plan: the creation and the opening of its session, calls of the commands if the opening succeeded,
and the calls that release what was acquired. -/
theorem log_execute_of_made {outcome : Except Failure Unit} (hs : r.sessions.made w d.log = .ok session)
    (ho : (session.openUp w).run (fresh d) = (outcome, opened)) (commands : List Command) :
    ∃ page, ((r.execute w commands).run d).2.log = opened.log ++ page ++ session.closing opened.held ∧
      (∀ c ∈ page, ∃ command ∈ Command.upToEnd commands, c ∈ r.calls command) ∧ (outcome ≠ .ok () → page = []) := by
  cases outcome with
  | error f => exact ⟨[], by simp [run_execute_of_not_opened hs ho, Session.log_close]⟩
  | ok u =>
    obtain ⟨page, he, hm⟩ := r.log_executeCommands w commands opened
    exact ⟨page, by rw [run_execute_of_opened hs ho, Session.log_close, he], hm, fun h => absurd rfl h⟩

theorem log_opened {outcome : Except Failure Unit} (ho : (session.openUp w).run (fresh d) = (outcome, opened)) :
    ∃ n, opened.log = d.log ++ .createSession :: session.opening.take n ∧
      (outcome = .ok () → session.opening.take n = session.opening) := by
  obtain ⟨n, hl, hn⟩ := session.log_openUp_eq w (fresh d)
  rw [ho] at hl hn
  exact ⟨n, by simpa [fresh] using hl, hn⟩

theorem isOfPage_of_mem_opened {n : Nat} {c : Call} (h : c ∈ .createSession :: session.opening.take n) :
    c.kind.isOfPage = false := by
  rcases List.mem_cons.mp h with rfl | hc
  · rfl
  · exact CallKind.isOfPage_of_mem_opening _ (Session.kind_of_mem_opening (List.mem_of_mem_take hc))

theorem isOfPage_of_mem_closing {held : Held} {c : Call} (h : c ∈ session.closing held) : c.kind.isOfPage = false :=
  CallKind.isOfPage_of_mem_closing _ (Session.kind_of_mem_closing h)

theorem log_execute_of_not_opened {f : Failure} (hs : r.sessions.made w d.log = .ok session)
    (ho : (session.openUp w).run (fresh d) = (.error f, opened)) (commands : List Command) :
    ∃ made, ((r.execute w commands).run d).2.log = d.log ++ made ∧ ∀ c ∈ made, c.kind.isOfPage = false := by
  obtain ⟨n, hl, _⟩ := log_opened ho
  refine ⟨.createSession :: session.opening.take n ++ session.closing opened.held, ?_, fun c hc => ?_⟩
  · rw [run_execute_of_not_opened hs ho, Session.log_close, hl, List.append_assoc]
  · rcases List.mem_append.mp hc with hc | hc
    · exact isOfPage_of_mem_opened hc
    · exact isOfPage_of_mem_closing hc

/-- The same with the number of opening calls that succeed. -/
theorem log_execute_sections (hs : r.sessions.made w d.log = .ok session) (commands : List Command) :
    ∃ n page held, ((r.execute w commands).run d).2.log =
        d.log ++ .createSession :: (session.opening.take n ++ page ++ session.closing held) ∧
      ∀ c ∈ page, ∃ command ∈ Command.upToEnd commands, c ∈ r.calls command := by
  cases ho : (session.openUp w).run (fresh d) with
  | mk outcome opened =>
    obtain ⟨n, hl, _⟩ := log_opened ho
    obtain ⟨page, he, hpage, _⟩ := log_execute_of_made hs ho commands
    exact ⟨n, page, opened.held, by simp [he, hl], hpage⟩

/-- The page calls of a plan are calls of its commands. -/
theorem log_execute (r : Runner) (w : World) (commands : List Command) (d : Desk) :
    ∃ made, ((r.execute w commands).run d).2.log = d.log ++ made ∧
      ∀ c ∈ made, c.kind.isOfPage = true → ∃ command ∈ Command.upToEnd commands, c ∈ r.calls command := by
  cases hs : r.sessions.made w d.log with
  | error f => exact ⟨[.createSession], by rw [run_execute, hs], by simp [Call.kind, CallKind.isOfPage]⟩
  | ok session =>
    obtain ⟨n, page, held, he, hpage⟩ := log_execute_sections hs commands
    refine ⟨.createSession :: session.opening.take n ++ page ++ session.closing held, by simp [he], fun c hc hk => ?_⟩
    rcases List.mem_append.mp hc with hc | hc
    · rcases List.mem_append.mp hc with hc | hc
      · exact absurd hk (by simp [isOfPage_of_mem_opened hc])
      · exact hpage c hc
    · exact absurd hk (by simp [isOfPage_of_mem_closing hc])

/-- A session is created by the first call and by no other. -/
theorem log_execute_eq_cons (r : Runner) (w : World) (commands : List Command) (d : Desk) :
    ∃ rest, ((r.execute w commands).run d).2.log = d.log ++ .createSession :: rest ∧
      ∀ c ∈ rest, c.kind ≠ .createSession := by
  cases hs : r.sessions.made w d.log with
  | error f => exact ⟨[], by rw [run_execute, hs], by simp⟩
  | ok session =>
    obtain ⟨n, page, held, he, hpage⟩ := log_execute_sections hs commands
    refine ⟨_, he, fun c hc hk => ?_⟩
    rcases List.mem_append.mp hc with hc | hc
    · rcases List.mem_append.mp hc with hc | hc
      · have hm := Session.kind_of_mem_opening (List.mem_of_mem_take hc)
        rw [hk] at hm
        exact absurd hm (by decide)
      · obtain ⟨command, _, hc⟩ := hpage c hc
        have hm := isOfPage_of_mem_calls hc
        rw [hk] at hm
        cases hm
    · have hm := Session.kind_of_mem_closing hc
      rw [hk] at hm
      exact absurd hm (by decide)

/-- The log after executing the commands, if there are any. -/
def logAfter (r : Runner) (w : World) (past : Log) : Option (List Command) → Log
  | none => past
  | some commands => ((r.execute w commands).run ⟨.nothing, past⟩).2.log

theorem logAfter_eq (r : Runner) (w : World) (past : Log) (commands : Option (List Command)) :
    ∃ made, r.logAfter w past commands = past ++ made ∧
      ∀ c ∈ made, c.kind.isOfPage = true → ∃ command ∈ commands.getD [], c ∈ r.calls command := by
  cases commands with
  | none => exact ⟨[], by simp [logAfter]⟩
  | some commands =>
    obtain ⟨made, he, hm⟩ := r.log_execute w commands ⟨.nothing, past⟩
    refine ⟨made, he, fun c hc hk => ?_⟩
    obtain ⟨command, hu, hc⟩ := hm c hc hk
    exact ⟨command, Command.mem_of_mem_upToEnd hu, hc⟩

end Runner

/-- The calls that release what the first `reached` calls of an opening at `position` have acquired. -/
def teardown (position reached : Nat) : List Call :=
  (if 2 ≤ reached then [.closeBrowser (position + 1)] else []) ++ if 1 ≤ reached then [.stop position] else []

theorem closing_gained (o : LaunchOptions) (position reached : Nat) :
    (Session.launching o).closing (Held.nothing.gained position reached) = teardown position reached := by
  simp only [Session.closing, Held.gained, Held.nothing, teardown]
  split <;> split <;> rfl

theorem count_append (a b : Log) (kind : CallKind) : Log.count (a ++ b) kind = a.count kind + b.count kind :=
  List.countP_append

theorem count_eq_zero {log : Log} {kind : CallKind} (h : ∀ c ∈ log, c.kind ≠ kind) : log.count kind = 0 :=
  List.countP_eq_zero.mpr fun c hc he => h c hc (of_decide_eq_true he)

theorem Runner.count_createSession_execute (r : Runner) (w : World) (commands : List Command) (d : Desk) :
    ∃ made, ((r.execute w commands).run d).2.log = d.log ++ made ∧ Log.count made .createSession = 1 := by
  obtain ⟨rest, he, hr⟩ := r.log_execute_eq_cons w commands d
  have hz : Log.count rest .createSession = 0 := count_eq_zero hr
  refine ⟨_, he, ?_⟩
  rw [Log.count, List.countP_cons_of_pos (by rfl)]
  exact congrArg (· + 1) hz

theorem count_eq_zero_of_isOfPage {log : Log} {kind : CallKind} (h : ∀ c ∈ log, c.kind.isOfPage = true)
    (hk : kind.isOfPage = false) : log.count kind = 0 := by
  refine count_eq_zero fun c hc he => ?_
  rw [← he, h c hc] at hk
  cases hk

theorem count_opening {kind : CallKind} (hk : kind = .closeBrowser ∨ kind = .stop) (o : LaunchOptions) (n : Nat) :
    Log.count (.createSession :: o.opening.take n) kind = 0 := by
  refine count_eq_zero fun c hc => ?_
  have hm : c ∈ .createSession :: o.opening := by
    rcases List.mem_cons.mp hc with rfl | hc
    · exact List.mem_cons_self
    · exact List.mem_cons_of_mem _ (List.mem_of_mem_take hc)
  simp only [LaunchOptions.opening, LaunchOptions.call, List.mem_cons, List.not_mem_nil, or_false] at hm
  rcases hk with rfl | rfl <;> rcases hm with rfl | rfl | rfl | rfl | rfl <;> simp [Call.kind]

theorem count_teardown (position reached : Nat) :
    Log.count (teardown position reached) .closeBrowser = (if 2 ≤ reached then 1 else 0) ∧
      Log.count (teardown position reached) .stop = if 1 ≤ reached then 1 else 0 := by
  unfold teardown
  split <;> split <;> exact ⟨rfl, rfl⟩

/-- A plan creates a session, and if that succeeds, opens it up to the first failing call. The page is called only
if the whole opening succeeded. However the plan ends, the browser is closed if and only if it was launched, and
then the driver is stopped if and only if it was started, each once and by its own position; no call follows. -/
theorem session_ends_what_it_began (w : World) (o : LaunchOptions) (screenshots : FilePath) (commands : List Command)
    (d : Desk) :
    ∃ made, (((Runner.mk (.ready (.launching o)) screenshots).execute w commands).run d).2.log = d.log ++ made ∧
      (¬ w.Succeeds d.log .createSession → made = [.createSession]) ∧
      (w.Succeeds d.log .createSession → ∃ n page, w.Reaches (d.log ++ [.createSession]) o.opening n ∧
        made = .createSession :: (o.opening.take (n + 1) ++ page ++ teardown (d.log.length + 1) n) ∧
        (∀ c ∈ page, c.kind.isOfPage = true) ∧ (n ≠ 4 → page = []) ∧
        Log.count made .closeBrowser = (if 2 ≤ n then 1 else 0) ∧ Log.count made .stop = if 1 ≤ n then 1 else 0) := by
  cases hc : w.respond d.log .createSession with
  | error f =>
    refine ⟨[.createSession], ?_, fun _ => rfl, fun h => absurd h (World.not_succeeds hc)⟩
    rw [Runner.run_execute]
    simp [SessionSource.made, hc, Except.bind]
  | ok text =>
    obtain ⟨n, hn, he, hok⟩ := Session.run_openUp_launching w o (Runner.fresh d)
    cases ho : ((Session.launching o).openUp w).run (Runner.fresh d) with
    | mk outcome opened =>
      have hs : (SessionSource.ready (.launching o)).made w d.log = .ok (.launching o) := by
        simp [SessionSource.made, hc, Except.bind]
      obtain ⟨page, hl, hpage, hnone⟩ :=
        Runner.log_execute_of_made (r := ⟨.ready (.launching o), screenshots⟩) hs ho commands
      rw [ho] at he hok
      obtain rfl := he
      have hk : ∀ c ∈ page, c.kind.isOfPage = true := by
        intro c hm
        obtain ⟨command, _, hm⟩ := hpage c hm
        exact Runner.isOfPage_of_mem_calls hm
      refine ⟨_, ?_, fun h => absurd ⟨text, hc⟩ h, fun _ => ⟨n, page, hn, rfl, hk, ?_, ?_, ?_⟩⟩
      · simp only [hl, Runner.fresh, closing_gained]
        simp
      · exact fun h => hnone fun he => h (hok.mp he)
      · rw [← List.cons_append, ← List.cons_append, count_append, count_append, count_opening (.inl rfl),
          count_eq_zero_of_isOfPage hk rfl, (count_teardown _ n).1]
        simp
      · rw [← List.cons_append, ← List.cons_append, count_append, count_append, count_opening (.inr rfl),
          count_eq_zero_of_isOfPage hk rfl, (count_teardown _ n).2]
        simp

end BrowserPilot.Browser
