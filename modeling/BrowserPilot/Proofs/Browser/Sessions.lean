import BrowserPilot.Browser.Session

/-! The calls that opening and closing a session makes, and the resources held in between. -/
namespace BrowserPilot.Browser

def World.Succeeds (w : World) (past : Log) (c : Call) : Prop := ∃ text, w.respond past c = .ok text

/-- Of calls made one after the other, exactly the first `n` succeed. -/
inductive World.Reaches (w : World) : Log → List Call → Nat → Prop
  | done (past : Log) : Reaches w past [] 0
  | fails {past : Log} {c : Call} (cs : List Call) : ¬ w.Succeeds past c → Reaches w past (c :: cs) 0
  | succeeds {past : Log} {c : Call} {cs : List Call} {n : Nat} :
      w.Succeeds past c → Reaches w (past ++ [c]) cs n → Reaches w past (c :: cs) (n + 1)

theorem World.not_succeeds {w : World} {past : Log} {c : Call} {f : Failure} (h : w.respond past c = .error f) :
    ¬ w.Succeeds past c := by
  rintro ⟨text, ht⟩
  rw [h] at ht
  cases ht

/-- The calls that open a session with a browser. -/
def LaunchOptions.opening (o : LaunchOptions) : List Call := [.start, o.call, .newContext, .newPage]

/-- The resources held after the first `reached` calls of an opening, which starts at `position`. -/
def Held.gained (held : Held) (position reached : Nat) : Held where
  browser := if 2 ≤ reached then some (position + 1) else held.browser
  driver := if 1 ≤ reached then some position else held.driver

def CallKind.opening : List CallKind := [.openSession, .start, .launch, .newContext, .newPage]

def CallKind.closing : List CallKind := [.closeSession, .closeBrowser, .stop]

theorem CallKind.isOfPage_of_mem_opening : ∀ k ∈ opening, k.isOfPage = false := by decide

theorem CallKind.isOfPage_of_mem_closing : ∀ k ∈ closing, k.isOfPage = false := by decide

theorem CallKind.notMem_closing_of_mem_opening : ∀ k ∈ opening, k ∉ closing := by decide

namespace Session

/-- An opening makes its calls up to the first that fails and holds the resources acquired before it. -/
theorem run_openUp_launching (w : World) (o : LaunchOptions) (d : Desk) :
    ∃ n, w.Reaches d.log o.opening n ∧
      (((launching o).openUp w).run d).2 = ⟨d.held.gained d.log.length n, d.log ++ o.opening.take (n + 1)⟩ ∧
      ((((launching o).openUp w).run d).1 = .ok () ↔ n = 4) := by
  simp only [openUp, Attempt.run_bind, run_perform, run_perform_, Attempt.run_modify]
  cases h1 : w.respond d.log .start with
  | error f =>
    refine ⟨0, .fails _ (World.not_succeeds h1), ?_, ?_⟩ <;>
      simp [Except.map, Held.gained, LaunchOptions.opening]
  | ok t1 =>
    simp only [Except.map]
    cases h2 : w.respond (d.log ++ [.start]) o.call with
    | error f =>
      refine ⟨1, .succeeds ⟨t1, h1⟩ (.fails _ (World.not_succeeds h2)), ?_, ?_⟩ <;>
        simp [Held.gained, LaunchOptions.opening]
    | ok t2 =>
      simp only
      have reached {n : Nat} (h : w.Reaches (d.log ++ [.start] ++ [o.call]) [.newContext, .newPage] n) :
          w.Reaches d.log o.opening (n + 2) := .succeeds ⟨t1, h1⟩ (.succeeds ⟨t2, h2⟩ h)
      cases h3 : w.respond (d.log ++ [.start] ++ [o.call]) .newContext with
      | error f =>
        refine ⟨2, reached (.fails _ (World.not_succeeds h3)), ?_, ?_⟩ <;>
          simp [Held.gained, LaunchOptions.opening]
      | ok t3 =>
        simp only
        cases h4 : w.respond (d.log ++ [.start] ++ [o.call] ++ [.newContext]) .newPage with
        | error f =>
          refine ⟨3, reached (.succeeds ⟨t3, h3⟩ (.fails _ (World.not_succeeds h4))), ?_, ?_⟩ <;>
            simp [Held.gained, LaunchOptions.opening]
        | ok t4 =>
          refine ⟨4, reached (.succeeds ⟨t3, h3⟩ (.succeeds ⟨t4, h4⟩ (.done _))), ?_, ?_⟩ <;>
            simp [Held.gained, LaunchOptions.opening]

theorem run_openUp_plain (w : World) (d : Desk) :
    (plain.openUp w).run d =
      ((w.respond d.log .openSession).map fun _ => (), { d with log := d.log ++ [.openSession] }) :=
  run_perform_ w .openSession d

def closing (held : Held) : Session → List Call
  | plain => [.closeSession]
  | launching _ => (held.browser.map Call.closeBrowser).toList ++ (held.driver.map Call.stop).toList

theorem log_endBrowser (w : World) (browser : Option Nat) (d : Desk) :
    ((endBrowser w browser).run d).2 = { d with log := d.log ++ (browser.map Call.closeBrowser).toList } := by
  cases browser with
  | none => simp [endBrowser, Attempt.run_pure]
  | some position => rw [endBrowser, run_perform_]; rfl

theorem log_endDriver (w : World) (driver : Option Nat) (d : Desk) :
    ((endDriver w driver).run d).2 = { d with log := d.log ++ (driver.map Call.stop).toList } := by
  cases driver with
  | none => simp [endDriver, Attempt.run_pure]
  | some position => rw [endDriver, run_perform_]; rfl

private theorem run_get (d : Desk) : (get : Attempt Desk Desk).run d = (.ok d, d) := rfl

/-- The log of a closing, which makes all its calls whether or not they fail. -/
theorem log_close (w : World) (s : Session) (d : Desk) : ((s.close w).run d).2.log = d.log ++ s.closing d.held := by
  cases s with
  | plain => rw [close, run_perform_]; rfl
  | launching o =>
    have hd := log_endDriver w d.held.driver ⟨.nothing, d.log ++ (d.held.browser.map Call.closeBrowser).toList⟩
    simp only [close, Attempt.run_bind, run_get, Attempt.run_result, Attempt.run_modify, log_endBrowser, closing,
      ← List.append_assoc]
    split <;> rename_i he <;> rw [he] at hd <;> exact congrArg Desk.log hd

def opening : Session → List Call
  | plain => [.openSession]
  | launching o => o.opening

theorem kind_of_mem_opening {s : Session} {c : Call} (h : c ∈ s.opening) : c.kind ∈ CallKind.opening := by
  cases s with
  | plain =>
    obtain rfl := List.mem_singleton.mp h
    decide
  | launching o =>
    simp only [opening, LaunchOptions.opening, LaunchOptions.call, List.mem_cons, List.not_mem_nil, or_false] at h
    rcases h with rfl | rfl | rfl | rfl <;> simp [Call.kind, CallKind.opening]

theorem kind_of_mem_closing {s : Session} {held : Held} {c : Call} (h : c ∈ s.closing held) :
    c.kind ∈ CallKind.closing := by
  cases s with
  | plain =>
    obtain rfl := List.mem_singleton.mp h
    decide
  | launching o =>
    simp only [closing, List.mem_append, Option.mem_toList, Option.map_eq_some_iff] at h
    rcases h with ⟨_, _, rfl⟩ | ⟨_, _, rfl⟩ <;> simp [Call.kind, CallKind.closing]

theorem log_openUp_eq (w : World) (s : Session) (d : Desk) :
    ∃ n, ((s.openUp w).run d).2.log = d.log ++ s.opening.take n ∧
      (((s.openUp w).run d).1 = .ok () → s.opening.take n = s.opening) := by
  cases s with
  | plain => exact ⟨1, by rw [run_openUp_plain]; rfl, fun _ => rfl⟩
  | launching o =>
    obtain ⟨n, _, he, hn⟩ := run_openUp_launching w o d
    refine ⟨n + 1, by rw [he]; rfl, fun hok => ?_⟩
    rw [hn.mp hok]
    rfl

end Session

end BrowserPilot.Browser
