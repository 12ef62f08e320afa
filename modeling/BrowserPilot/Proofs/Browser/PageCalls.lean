import BrowserPilot.Proofs.Browser.Commands
import BrowserPilot.Proofs.Url.Addresses

/-! The page calls of a command: navigation only to allowed URLs, and screenshots only to safe names. -/
namespace BrowserPilot

namespace ScreenshotName

/-- A non-empty name of ASCII letters, digits, underscores, dots and hyphens that is not only dots. -/
structure Safe (name : Text) : Prop where
  allowed : ∀ c ∈ name.toList, c.isAlphanum = true ∨ c ∈ Text.toList "_.-"
  moreThanDots : ∃ c ∈ name.toList, c ≠ '.'

theorem safe_iff {name : Text} : Safe name ↔ isSafe name.toList = true := by
  simp only [isSafe, isAllowed, Bool.and_eq_true, List.all_eq_true, List.any_eq_true, Bool.or_eq_true, beq_iff_eq,
    bne_iff_ne]
  constructor
  · rintro ⟨ha, hd⟩
    refine ⟨fun c hc => ?_, hd⟩
    simpa [or_assoc] using ha c hc
  · rintro ⟨ha, hd⟩
    refine ⟨fun c hc => ?_, hd⟩
    simpa [or_assoc] using ha c hc

theorem safe_sanitize {name fallback : Text} (h : Safe fallback) : Safe (sanitize name fallback) := by
  rcases isSafe_sanitize_or name fallback with hs | he
  · exact safe_iff.mpr hs
  · rwa [he]

theorem safe_fallback : Safe fallback := safe_iff.mpr (by decide)

end ScreenshotName

namespace Browser.Runner
variable {r : Runner} {command : Command}

/-- The page navigates only for a `goto` step with an allowed URL. -/
theorem goto_of_mem_calls {url : Text} {timeout : Nat} (h : .goto url timeout ∈ r.calls command) :
    command = .step (.goto url) ∧ Url.navigable url = .ok url := by
  cases command with
  | unknown action => simp [calls] at h
  | step s =>
    simp only [calls, Option.mem_toList] at h
    cases s <;> simp only [pageCall?, Option.some.injEq, reduceCtorEq] at h
    case goto address =>
      split at h
      · rename_i out hn
        obtain ⟨rfl, -⟩ := Call.goto.inj (Option.some.inj h)
        exact ⟨rfl, Url.navigable_eq_self hn ▸ hn⟩
      · cases h

theorem step_of_screenshot_mem_calls {path : Text} {timeout : Nat}
    (h : .screenshot path timeout ∈ r.calls command) :
    ∃ name, command = .step (.screenshot name) ∧ path = r.screenshotPath name := by
  cases command with
  | unknown action => simp [calls] at h
  | step s =>
    simp only [calls, Option.mem_toList] at h
    cases s <;> simp only [pageCall?, Option.some.injEq, reduceCtorEq] at h
    case goto address => split at h <;> cases h
    case screenshot name =>
      obtain ⟨rfl, -⟩ := Call.screenshot.inj h
      exact ⟨name, rfl, rfl⟩

/-- A screenshot is written to a safe name in the directory of screenshots. -/
theorem screenshot_of_mem_calls {path : Text} {timeout : Nat} (h : .screenshot path timeout ∈ r.calls command) :
    ∃ name, ScreenshotName.Safe name ∧ path = (r.screenshots.child (name ++ ".png")).render := by
  obtain ⟨name, -, rfl⟩ := step_of_screenshot_mem_calls h
  exact ⟨_, ScreenshotName.safe_sanitize ScreenshotName.safe_fallback, rfl⟩

/-- A step with a URL that is not allowed makes no call and fails with the refusal. -/
theorem run_executeCommand_of_refused {url : Text} {refusal : Url.Refusal} (h : Url.navigable url = .error refusal)
    (r : Runner) (w : World) (d : Desk) :
    (r.executeCommand w (.step (.goto url))).run d = (.ok (.failed "goto" refusal.message), d) := by
  have hc : r.pageCall? (.goto url) = none := by rw [pageCall?, h]
  have ho : r.outcome w d.log (.goto url) = .error (.refusedUrl refusal) := by rw [outcome, hc, idle, h]
  have ht : (Failure.refusedUrl refusal).text = refusal.message :=
    if_neg fun he => refusal.message_ne_empty (Text.isEmpty_iff.mp he)
  rw [run_executeCommand, report, ho, calls, hc, told, ht]
  simp only [Failure.isStepFault, if_true, Option.toList_none, List.append_nil]
  rfl

end Browser.Runner

end BrowserPilot
