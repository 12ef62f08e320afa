import BrowserPilot.Proofs.Browser.Commands
import BrowserPilot.Proofs.Text.Patterns

/-! Steps that search for a text. If the visible texts are known, they succeed if and only if one of them contains
the text literally. -/
namespace BrowserPilot.Browser

/-- The steps that search for a text, with their calls. -/
def lookups (text : Text) : List (Step × Call) :=
  [(.clickText text, .click (TextPattern.ofText text) stepTimeout),
    (.waitForText text, .waitFor (TextPattern.ofText text) stepTimeout)]

theorem mem_lookups {text : Text} {s : Step} {c : Call} :
    (s, c) ∈ lookups text ↔ s = .clickText text ∧ c = .click (TextPattern.ofText text) stepTimeout ∨
      s = .waitForText text ∧ c = .waitFor (TextPattern.ofText text) stepTimeout := by
  simp only [lookups, List.mem_cons, Prod.mk.injEq, List.not_mem_nil, or_false]

theorem World.shows_ofText_iff {w : World} {visible : List Text} (hv : w.visible = some visible) (text : Text) :
    w.shows (TextPattern.ofText text) = true ↔ ∃ shown ∈ visible, text.toList <:+: shown.toList := by
  simp only [shows, hv, List.any_eq_true, TextPattern.finds_ofText_iff]

theorem World.content_of_mem_lookups {text : Text} {s : Step} {c : Call} (h : (s, c) ∈ lookups text) (w : World) :
    w.content c = if w.shows (TextPattern.ofText text) then .ok "" else .error .nothingVisible := by
  rcases mem_lookups.mp h with ⟨-, rfl⟩ | ⟨-, rfl⟩ <;> rfl

namespace Runner
variable {text : Text} {s : Step} {c : Call}

theorem pageCall?_of_mem_lookups (h : (s, c) ∈ lookups text) (r : Runner) : r.pageCall? s = some c := by
  rcases mem_lookups.mp h with ⟨rfl, rfl⟩ | ⟨rfl, rfl⟩ <;> rfl

theorem product_of_mem_lookups (h : (s, c) ∈ lookups text) (r : Runner) (got : Text) : r.product got s = none := by
  rcases mem_lookups.mp h with ⟨rfl, -⟩ | ⟨rfl, -⟩ <;> rfl

/-- Without a fault, such a step succeeds if and only if the page shows the text. -/
theorem report_of_mem_lookups {w : World} {past : Log} (h : (s, c) ∈ lookups text) (r : Runner)
    (hf : w.fault? c.kind (past.count c.kind + 1) = none) :
    r.report w past (.step s) = .ok (if w.shows (TextPattern.ofText text) then .succeeded s.action none
      else .failed s.action Failure.nothingVisible.text) := by
  have hr : w.respond past c = w.content c := by rw [World.respond, hf]
  rw [report, outcome, pageCall?_of_mem_lookups h]
  dsimp only
  rw [hr, World.content_of_mem_lookups h]
  cases w.shows (TextPattern.ofText text) with
  | true => simp only [if_true, Except.map, told, product_of_mem_lookups h]
  | false => rfl

/-- A step that searches for a text passes an escaped pattern to the page. If the visible texts are known and the
call has no fault, the step succeeds if and only if one of them contains the text. The pattern matches exactly where
the text occurs, and different texts have different patterns. -/
theorem text_is_found_where_it_stands (text : Text) :
    (∀ (r : Runner) (w : World) (d : Desk) (visible : List Text), ∀ p ∈ lookups text, w.visible = some visible →
      w.fault? p.2.kind (d.log.count p.2.kind + 1) = none →
      ∃ result, (r.executeCommand w (.step p.1)).run d = (.ok result, { d with log := d.log ++ [p.2] }) ∧
        (result.success = true ↔ ∃ shown ∈ visible, text.toList <:+: shown.toList)) ∧
    (∀ shown, TextPattern.finds (TextPattern.ofText text) shown = true ↔
      ∃ cs, cs <:+ shown.toList ∧ TextPattern.Matches (TextPattern.ofText text) cs) ∧
    (∀ cs, TextPattern.Matches (TextPattern.ofText text) cs ↔ text.toList <+: cs) ∧
    ∀ other, TextPattern.ofText other = TextPattern.ofText text → other = text := by
  refine ⟨?_, fun shown => TextPattern.finds_iff, fun cs => TextPattern.matches_ofText_iff,
    fun other h => TextPattern.ofText_injective h⟩
  rintro r w d visible ⟨s, c⟩ hp hv hf
  have hc : r.calls (.step s) = [c] := by rw [calls, pageCall?_of_mem_lookups hp, Option.toList_some]
  refine ⟨_, by rw [run_executeCommand, report_of_mem_lookups hp r hf, hc], ?_⟩
  rw [← World.shows_ofText_iff hv]
  cases w.shows (TextPattern.ofText text) with
  | true => exact iff_of_true rfl rfl
  | false => exact iff_of_false Bool.false_ne_true Bool.false_ne_true

/-- A text of operators, blanks and backslashes, and a page that shows it in other letters. -/
theorem text_is_found_where_it_stands_unescaped :
    let text : Text := "a.b (\\d+)?"
    let r : Runner := ⟨.ready .plain, ⟨.none, ["shots"]⟩⟩
    let w (shown : Text) : World := ⟨[], some ["", shown], [⟨.click, some 2, .timeout, ""⟩]⟩
    ∃ found missed, ((r.executeCommand (w "Say a.b (\\d+)? now") (.step (.clickText text))).run .clear).1 = .ok found ∧
      found.success = true ∧
      ((r.executeCommand (w "Say A.B (\\d+)? now") (.step (.clickText text))).run .clear).1 = .ok missed ∧
      missed.success = false := by
  intro text r w
  have hm : (Step.clickText text, Call.click (TextPattern.ofText text) stepTimeout) ∈ lookups text :=
    mem_lookups.mpr (.inl ⟨rfl, rfl⟩)
  obtain ⟨found, hr, hf⟩ := (text_is_found_where_it_stands text).1 r (w "Say a.b (\\d+)? now") .clear _ _ hm rfl rfl
  obtain ⟨missed, hn, hg⟩ := (text_is_found_where_it_stands text).1 r (w "Say A.B (\\d+)? now") .clear _ _ hm rfl rfl
  refine ⟨found, missed, by rw [hr], hf.mpr ?_, by rw [hn], eq_false_of_ne_true fun h => ?_⟩
  · exact ⟨"Say a.b (\\d+)? now", by simp, Text.toList "Say ", Text.toList " now", rfl⟩
  · have hd : ¬ ∃ shown ∈ (["", "Say A.B (\\d+)? now"] : List Text), text.toList <:+: shown.toList := by decide
    exact hd (hg.mp h)

end Runner
end BrowserPilot.Browser
