import BrowserPilot.Proofs.Browser.Results
import BrowserPilot.Proofs.Text.Lines
import Mathlib.Data.List.Forall2

/-! Decoding of reports. Each result has one line, from which its action, outcome and text can be decoded for all
texts of the page. -/
namespace BrowserPilot

/-- The content of a report line: action, outcome, and data or error. -/
structure Gist where
  action : Text
  success : Bool
  detail : Text
deriving DecidableEq, Repr

namespace Gist

/-- The word for the outcome. -/
def word : Bool → List CodePoint
  | true => ['s', 'u', 'c', 'c', 'e', 's', 's']
  | false => ['f', 'a', 'i', 'l', 'e', 'd']

/-- The blanks after the word, which make both words equally long. -/
def gap : Bool → List CodePoint
  | true => [' ']
  | false => [' ', ' ']

def line (g : Gist) : Text :=
  Text.ofList (g.action.toList ++ .char ':' :: .char ' ' ::
    (word g.success ++ if g.detail.toList = [] then [] else gap g.success ++ g.detail.toList))

def ofLine (line : Text) : Gist :=
  let action := Text.beforeColon line
  let rest := line.toList.drop (action.length + 2)
  ⟨Text.ofList action, rest.head? = some (.char 's'), Text.ofList (rest.drop 8)⟩

def ofReport (report : Text) : List Gist := (Text.lines report).map ofLine

theorem toList_line (g : Gist) : g.line.toList = g.action.toList ++ .char ':' :: .char ' ' ::
    (word g.success ++ if g.detail.toList = [] then [] else gap g.success ++ g.detail.toList) :=
  Text.toList_ofList _

theorem word_append (success : Bool) (cs : List CodePoint) :
    let rest := word success ++ if cs = [] then [] else gap success ++ cs
    decide (rest.head? = some (.char 's')) = success ∧ rest.drop 8 = cs := by
  cases success <;> cases cs <;> simp [word, gap]

/-- A line is decoded if its action contains no colon. -/
theorem ofLine_line {g : Gist} (h : .char ':' ∉ g.action.toList) : ofLine g.line = g := by
  obtain ⟨action, success, detail⟩ := g
  have ha : Text.beforeColon (line ⟨action, success, detail⟩) = action.toList := by
    rw [Text.beforeColon, toList_line]
    exact Text.takeWhile_colon h _
  obtain ⟨hw, hd⟩ := word_append success detail.toList
  have hr : (line ⟨action, success, detail⟩).toList.drop (action.toList.length + 2) =
      word success ++ if detail.toList = [] then [] else gap success ++ detail.toList := by
    rw [toList_line, ← List.drop_drop, List.drop_left]
    rfl
  rw [ofLine, ha, hr, hw, hd, Text.ofList_toList, Text.ofList_toList]

end Gist

namespace StepResult

/-- A result as plans have it: an action that is a tool or `browser-init`, a success without error or a failure with
a non-empty error and without data, and texts without line breaks. -/
structure Tellable (r : StepResult) : Prop where
  action : r.action = Browser.initAction ∨ r.action ∈ Tool.names
  success : r.success = true → r.error = none
  failure : r.success = false → r.data = none ∧ ∃ error, r.error = some error ∧ error ≠ ""
  oneLine : ∀ text, r.data = some text ∨ r.error = some text → .char '\n' ∉ text.toList

/-- The results have the same action and outcome and, up to trailing blanks, the same data and error. Missing texts
count as empty. -/
structure Agrees (r s : StepResult) : Prop where
  action : r.action = s.action
  success : r.success = s.success
  data : Text.stripRight (r.data.getD "") = Text.stripRight (s.data.getD "")
  error : Text.stripRight (r.error.getD "") = Text.stripRight (s.error.getD "")

def gist (r : StepResult) : Gist :=
  ⟨r.action, r.success, Text.stripRight ((if r.success then r.data else r.error).getD "")⟩

variable {r s : StepResult}

theorem Tellable.eq_succeeded_or_failed (h : r.Tellable) :
    (∃ data, r = .succeeded r.action data) ∨ ∃ error, r = .failed r.action error := by
  obtain ⟨action, success, data, error⟩ := r
  cases success with
  | true =>
    obtain rfl : error = none := h.success rfl
    exact .inl ⟨data, rfl⟩
  | false =>
    obtain ⟨rfl, error, rfl, -⟩ : data = none ∧ ∃ e, error = some e ∧ e ≠ "" := h.failure rfl
    exact .inr ⟨error, rfl⟩

theorem Tellable.spelled (h : r.Tellable) : .char ':' ∉ r.action.toList ∧ .char '\n' ∉ r.action.toList := by
  rcases h.action with ha | ha
  · rw [ha]
    decide
  · obtain ⟨tool, -, ht⟩ := List.mem_map.mp ha
    rw [← ht]
    exact ⟨tool.notMem_name rfl, tool.notMem_name rfl⟩

/-- Trimming a line leaves its word, which ends the line if the rest is blank. -/
theorem trimRight_line (action cs : List CodePoint) (success : Bool) :
    Text.trimRight (action ++ .char ':' :: .char ' ' :: (Gist.word success ++ (Gist.gap success ++ cs))) =
      action ++ .char ':' :: .char ' ' :: (Gist.word success ++
        if Text.trimRight cs = [] then [] else Gist.gap success ++ Text.trimRight cs) := by
  -- the word ends in a letter, so nothing in front of it is trimmed
  have hw : Text.trimRight (Gist.word success) = Gist.word success ∧ Gist.word success ≠ [] := by
    cases success <;> exact ⟨rfl, List.cons_ne_nil _ _⟩
  have hs : Text.trimRight ((action ++ [.char ':', .char ' ']) ++ Gist.word success) =
      (action ++ [.char ':', .char ' ']) ++ Gist.word success := by
    rw [Text.trimRight_append, hw.1, if_neg hw.2]
  have hg : ∀ c ∈ Gist.gap success, Text.isBlank c = true := by
    cases success <;> exact List.all_eq_true.mp rfl
  simpa using Text.trimRight_append_gap hs hg cs

theorem line_succeeded (action : Text) (data : Option Text) :
    (succeeded action data).line = (succeeded action data).gist.line := by
  have hb : Text.trimRight ((data.getD "").toList ++ [.char ' ']) = Text.trimRight (data.getD "").toList :=
    Text.trimRight_concat_of_isBlank rfl _
  have ht := trimRight_line action.toList ((data.getD "").toList ++ [.char ' ']) true
  rw [hb] at ht
  refine Text.toList_inj.mp ?_
  rw [Gist.toList_line, line, Text.stripRight, Text.toList_ofList, gist, Text.stripRight, Text.toList_ofList]
  simpa [succeeded, Gist.word, Gist.gap] using ht

theorem line_failed (action error : Text) : (failed action error).line = (failed action error).gist.line := by
  have ht := trimRight_line action.toList error.toList false
  refine Text.toList_inj.mp ?_
  rw [Gist.toList_line, line, Text.stripRight, Text.toList_ofList, gist, Text.stripRight, Text.toList_ofList]
  simpa [failed, Gist.word, Gist.gap] using ht

theorem Tellable.line_eq (h : r.Tellable) : r.line = r.gist.line := by
  rcases h.eq_succeeded_or_failed with ⟨data, he⟩ | ⟨error, he⟩
  · rw [he]
    exact line_succeeded r.action data
  · rw [he]
    exact line_failed r.action error

theorem Tellable.ofLine_line (h : r.Tellable) : Gist.ofLine r.line = r.gist := by
  rw [h.line_eq]
  exact Gist.ofLine_line h.spelled.1

/-- Two results have the same gist if and only if they agree. -/
theorem gist_eq_iff (hr : r.Tellable) (hs : s.Tellable) : r.gist = s.gist ↔ Agrees r s := by
  constructor
  · intro h
    have ha : r.action = s.action := congrArg Gist.action h
    have hk : r.success = s.success := congrArg Gist.success h
    have hd := congrArg Gist.detail h
    simp only [gist, ← hk] at hd
    cases hc : r.success with
    | true =>
      rw [hc] at hd hk
      exact ⟨ha, hc.trans hk, hd, by rw [hr.success hc, hs.success hk.symm]⟩
    | false =>
      rw [hc] at hd hk
      exact ⟨ha, hc.trans hk, by rw [(hr.failure hc).1, (hs.failure hk.symm).1], hd⟩
  · rintro ⟨ha, hk, hd, he⟩
    simp only [gist, Gist.mk.injEq, ← hk, ha, true_and]
    cases r.success with
    | true => exact hd
    | false => exact he

theorem Tellable.newline_notMem (h : r.Tellable) {o : Option Text} (ho : o = r.data ∨ o = r.error) :
    .char '\n' ∉ (o.getD "").toList := by
  cases o with
  | none => simp
  | some text => exact h.oneLine text (ho.imp Eq.symm Eq.symm)

theorem Tellable.newline_notMem_line (h : r.Tellable) : .char '\n' ∉ r.line.toList := by
  intro hm
  have hw : .char '\n' ∉ (Text.ofString (if r.success then "success" else "failed")).toList := by
    cases r.success <;> decide
  rw [line, Text.stripRight, Text.toList_ofList] at hm
  have hm := Text.mem_of_mem_trimRight hm
  simp only [Text.toList_append, List.mem_append, h.spelled.2, hw, h.newline_notMem (.inl rfl),
    h.newline_notMem (.inr rfl), or_false, false_or] at hm
  rcases hm with (hm | hm) | hm <;> exact absurd hm (by decide)

theorem lines_report {results : List StepResult} (hne : results ≠ []) (h : ∀ r ∈ results, r.Tellable) :
    Text.lines (report results) = results.map line :=
  Text.lines_joinLines (fun he => hne (List.map_eq_nil_iff.mp he))
    (List.forall_mem_map.mpr fun r hr => (h r hr).newline_notMem_line)

theorem ofReport_report {results : List StepResult} (hne : results ≠ []) (h : ∀ r ∈ results, r.Tellable) :
    Gist.ofReport (report results) = results.map gist := by
  rw [Gist.ofReport, lines_report hne h, List.map_map]
  exact List.map_congr_left fun r hr => (h r hr).ofLine_line

theorem map_gist_eq_iff {others results : List StepResult} (ho : ∀ r ∈ others, r.Tellable)
    (hr : ∀ r ∈ results, r.Tellable) : others.map gist = results.map gist ↔ List.Forall₂ Agrees others results := by
  induction others generalizing results with
  | nil => cases results <;> simp
  | cons r others ih =>
    cases results with
    | nil => simp
    | cons s results =>
      rw [List.forall_mem_cons] at ho hr
      rw [List.map_cons, List.map_cons, List.cons.injEq, gist_eq_iff ho.1 hr.1, ih ho.2 hr.2, List.forall₂_cons]

theorem report_eq_iff {others results : List StepResult} (hne : others ≠ []) (hn : results ≠ [])
    (ho : ∀ r ∈ others, r.Tellable) (hr : ∀ r ∈ results, r.Tellable) :
    report others = report results ↔ List.Forall₂ Agrees others results := by
  rw [← map_gist_eq_iff ho hr]
  constructor
  · intro h
    rw [← ofReport_report hne ho, ← ofReport_report hn hr, h]
  · intro h
    -- the lines of a report are those of the gists
    have hl {rs : List StepResult} (ht : ∀ r ∈ rs, r.Tellable) : rs.map line = (rs.map gist).map Gist.line := by
      rw [List.map_map]
      exact List.map_congr_left fun r hm => (ht r hm).line_eq
    rw [report, report, hl ho, hl hr, h]

theorem Agrees.isSome_data (h : Agrees r s) (hr : r.WellTold) (hs : s.WellTold) : r.data.isSome = s.data.isSome := by
  cases hc : r.success with
  | true =>
    rw [Bool.eq_iff_iff, (hr.success hc).2, (hs.success (h.success ▸ hc)).2, h.action]
  | false => rw [(hr.failure hc).1, (hs.failure (h.success ▸ hc)).1]

theorem map_isSome_data {others results : List StepResult} (h : List.Forall₂ Agrees others results)
    (ho : ∀ r ∈ others, r.WellTold) (hr : ∀ r ∈ results, r.WellTold) :
    others.map (·.data.isSome) = results.map (·.data.isSome) := by
  induction h with
  | nil => rfl
  | cons ha _ ih =>
    rw [List.forall_mem_cons] at ho hr
    rw [List.map_cons, List.map_cons, ha.isSome_data ho.1 hr.1, ih ho.2 hr.2]

/-- A report has one line for each result, from which action, outcome, data and error are decoded up to trailing
blanks. Two lists of results have the same report if and only if they agree result by result. Well told results that
agree also agree in which of them have data. -/
theorem reports_are_read_back {results : List StepResult} (hne : results ≠ []) (h : ∀ r ∈ results, r.Tellable) :
    (Text.lines (report results)).length = results.length ∧
    Text.lines (report results) = results.map line ∧
    Gist.ofReport (report results) = results.map gist ∧
    ∀ others : List StepResult, others ≠ [] → (∀ r ∈ others, r.Tellable) →
      (report others = report results ↔ List.Forall₂ Agrees others results) ∧
      ((∀ r ∈ others, r.WellTold) → (∀ r ∈ results, r.WellTold) → report others = report results →
        others.map (·.data.isSome) = results.map (·.data.isSome)) := by
  have hl := lines_report hne h
  refine ⟨by rw [hl, List.length_map], hl, ofReport_report hne h, fun others hn ho => ?_⟩
  have he := report_eq_iff hn hne ho h
  exact ⟨he, fun hwo hwr hr => map_isSome_data (he.mp hr) hwo hwr⟩

theorem tellable_succeeded {action text : Text} (ha : action ∈ Tool.names) (ht : .char '\n' ∉ text.toList) :
    (succeeded action (some text)).Tellable where
  action := .inr ha
  success _ := rfl
  failure h := by cases h
  oneLine := by
    rintro _ (h | h)
    · rwa [← Option.some.inj h]
    · cases h

theorem tellable_failed {action error : Text} (ha : action = Browser.initAction ∨ action ∈ Tool.names)
    (hn : error ≠ "") (he : .char '\n' ∉ error.toList) : (failed action error).Tellable where
  action := ha
  success h := by cases h
  failure _ := ⟨rfl, error, rfl, hn⟩
  oneLine := by
    rintro _ (h | h)
    · cases h
    · rwa [← Option.some.inj h]

/-- Data that looks like a line, an error of blanks, empty data, and an error that begins like a success. -/
theorem reports_are_read_back_imitated :
    let results := [succeeded "extractText" (some "goto: failed  no"), failed "goto" " \t",
      succeeded "snapshotText" (some ""), failed "browser-init" " success"]
    let others := [succeeded "extractText" (some "goto: failed  no\u2028"), failed "goto" "\u3000",
      succeeded "snapshotText" (some "\r"), failed "browser-init" " success "]
    (∀ r ∈ results, r.Tellable) ∧ (∀ r ∈ others, r.Tellable) ∧ report others = report results ∧
      (Text.lines (report others)).length = 4 ∧
      Gist.ofReport (report others) = [⟨"extractText", true, "goto: failed  no"⟩, ⟨"goto", false, ""⟩,
        ⟨"snapshotText", true, ""⟩, ⟨"browser-init", false, " success"⟩] := by
  intro results others
  have hr : ∀ r ∈ results, r.Tellable := by
    simp only [results, List.forall_mem_cons]
    exact ⟨tellable_succeeded (by decide) (by decide), tellable_failed (by decide) (by decide) (by decide),
      tellable_succeeded (by decide) (by decide), tellable_failed (by decide) (by decide) (by decide), by simp⟩
  have ho : ∀ r ∈ others, r.Tellable := by
    simp only [others, List.forall_mem_cons]
    exact ⟨tellable_succeeded (by decide) (by decide), tellable_failed (by decide) (by decide) (by decide),
      tellable_succeeded (by decide) (by decide), tellable_failed (by decide) (by decide) (by decide), by simp⟩
  have ha : List.Forall₂ Agrees others results := by
    refine .cons ⟨rfl, rfl, ?_, rfl⟩ (.cons ⟨rfl, rfl, rfl, ?_⟩ (.cons ⟨rfl, rfl, ?_, rfl⟩ (.cons ⟨rfl, rfl, rfl, ?_⟩
      .nil))) <;> decide
  have hne : results ≠ [] := List.cons_ne_nil _ _
  have hn : others ≠ [] := List.cons_ne_nil _ _
  obtain ⟨hlen, -, hread, -⟩ := reports_are_read_back hn ho
  refine ⟨hr, ho, ((reports_are_read_back hne hr).2.2.2 others hn ho).1.mpr ha, hlen, ?_⟩
  rw [hread]
  decide +kernel

end StepResult
end BrowserPilot
