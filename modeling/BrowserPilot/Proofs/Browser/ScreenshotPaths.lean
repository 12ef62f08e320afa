import BrowserPilot.Proofs.Browser.Results
import BrowserPilot.Proofs.Browser.ScreenshotNames
import BrowserPilot.Proofs.FilePath.Normal

/-! Paths of screenshots. Every screenshot is a file directly in the screenshot directory, for every directory and
every name. -/
namespace BrowserPilot

theorem ScreenshotName.leads_fileName (name : Text) : FilePath.Leads (fileName name) := by
  have hs : Safe (sanitize name fallback) := safe_sanitize safe_fallback
  have ht : (fileName name).toList =
      (sanitize name fallback).toList ++ [.char '.', .char 'p', .char 'n', .char 'g'] := by
    rw [fileName, Text.toList_append]
    rfl
  refine ⟨?_, fun hm => ?_⟩
  · rw [ht]
    simp [FilePath.isPart, List.append_eq_singleton_iff]
  · rw [ht, List.mem_append] at hm
    rcases hm with hm | hm
    · exact absurd (hs.allowed '/' hm) (by decide)
    · exact absurd hm (by decide)

namespace Browser.Runner
variable {r : Runner} {w : World} {d : Desk} {name : Text}

/-- The path of a screenshot is that of its directory with one more name. -/
theorem parse_screenshotPath (h : r.screenshots.Normal) (name : Text) :
    FilePath.parse (r.screenshotPath name) = r.screenshots.child (ScreenshotName.fileName name) :=
  FilePath.parse_render (h.child (ScreenshotName.leads_fileName name))

theorem report_screenshot {past : Log} {result : StepResult}
    (h : r.report w past (.step (.screenshot name)) = .ok result) (hs : result.success = true) :
    result.data = some (r.screenshotPath name) := by
  simp only [report, told, outcome, pageCall?] at h
  cases hr : w.respond past (.screenshot (r.screenshotPath name) stepTimeout) with
  | ok text =>
    simp only [hr, Except.map] at h
    obtain rfl := Except.ok.inj h
    rfl
  | error f =>
    simp only [hr, Except.map] at h
    split at h
    · obtain rfl := Except.ok.inj h
      cases hs
    · cases h

/-- Every result of a plan is the failed opening of its session or the result of one of its commands. -/
theorem exists_report_of_execute {commands : List Command} {results : List StepResult}
    (h : ((r.execute w commands).run d).1 = .ok results) {result : StepResult} (hm : result ∈ results) :
    (∃ error, result = .failed initAction error) ∨
      ∃ command ∈ commands, ∃ past, r.report w past command = .ok result := by
  rcases reports_of_execute h with ⟨error, rfl⟩ | ⟨past, hr⟩
  · exact .inl ⟨error, List.mem_singleton.mp hm⟩
  · obtain ⟨command, hc, log, hp⟩ := hr.exists_report hm
    exact .inr ⟨command, Command.mem_of_mem_upToEnd hc, log, hp⟩

theorem eq_screenshot_of_action {s : Step} (h : s.action = "screenshot") : ∃ name, s = .screenshot name := by
  have ht : s.tool = .screenshot := Tool.name_injective h
  cases s <;> first | exact ⟨_, rfl⟩ | cases ht

-- two slashes are a root of their own, and a name with upward components stays in the directory
example : FilePath.parse (screenshotPath ⟨.ready .plain, FilePath.parse "//tmp/./..//shots/"⟩ "..\\..\\/etc/.pass wd") =
    ⟨.double, ["tmp", "..", "shots", ".passwd.png"]⟩ := by
  decide +kernel

end Browser.Runner
end BrowserPilot
