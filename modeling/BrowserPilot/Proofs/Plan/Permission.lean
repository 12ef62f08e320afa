import BrowserPilot.Proofs.Plan.Report

/-! Enabled names act as a set, restricted to the actions of the plan, and enabling more names never rejects a plan.
The defects are not monotone: a step whose action is not enabled has only that defect, and enabling its action may
reveal others. -/
namespace BrowserPilot.Plan

/-- Some step of the plan has this action. -/
def Asks (raw : Json) (action : Text) : Prop :=
  ∃ items, raw.field? "steps" = some (.arr items) ∧ ∃ v ∈ items, v.field? "action" = some (.str action)

theorem validate_of_no_items {raw : Json} (h : ∀ items, raw.field? "steps" ≠ some (.arr items))
    (enabled others : List Text) : validate enabled raw = validate others raw := by
  unfold validate
  split
  · split
    · rename_i items hi
      exact absurd hi (h items)
    · rfl
  · rfl

theorem validate_of_asks {enabled others : List Text} {raw : Json}
    (h : ∀ action, Asks raw action → (action ∈ enabled ↔ action ∈ others)) :
    validate enabled raw = validate others raw := by
  by_cases hs : ∃ items, raw.field? "steps" = some (.arr items)
  · obtain ⟨items, hi⟩ := hs
    have hd (v : Json) (hv : v ∈ items) : stepDefects enabled v = stepDefects others v :=
      stepDefects_congr fun action ha => h action ⟨items, hi, v, hv, ha⟩
    exact validate_congr hi hi (List.forall₂_same.mpr hd) fun _ ht => ht
  · exact validate_of_no_items (fun items hi => hs ⟨items, hi⟩) enabled others

/-- A step fits a list of names if and only if it fits all tools and its action is in the list. -/
theorem stepFits_iff {enabled : List Text} {v : Json} :
    StepFits enabled v ↔
      StepFits Tool.names v ∧ ∀ action, v.field? "action" = some (.str action) → action ∈ enabled := by
  constructor
  · rintro ⟨fields, tool, hv, ha, he, hf⟩
    refine ⟨⟨fields, tool, hv, ha, List.mem_map_of_mem tool.mem_all, hf⟩, fun action hn => ?_⟩
    rw [ha] at hn
    obtain rfl := Json.str.inj (Option.some.inj hn)
    exact he
  · rintro ⟨⟨fields, tool, hv, ha, -, hf⟩, he⟩
    exact ⟨fields, tool, hv, ha, he tool.name ha, hf⟩

/-- A plan accepted for all tools is accepted for a list if and only if the list contains its actions. -/
theorem accepted_iff_asks {enabled : List Text} {raw : Json} {plan : Plan} :
    validate enabled raw = .ok (.accepted plan) ↔
      validate Tool.names raw = .ok (.accepted plan) ∧ ∀ action, Asks raw action → action ∈ enabled := by
  simp only [validate_eq_accepted_iff]
  constructor
  · rintro ⟨items, hi, hv, ht⟩
    refine ⟨⟨items, hi, fun v hm => (stepFits_iff.mp (hv v hm)).1, ht⟩, ?_⟩
    rintro action ⟨found, hf, v, hm, ha⟩
    obtain rfl := Json.arr.inj (Option.some.inj (hf.symm.trans hi))
    exact (stepFits_iff.mp (hv v hm)).2 action ha
  · rintro ⟨⟨items, hi, hv, ht⟩, he⟩
    exact ⟨items, hi, fun v hm => stepFits_iff.mpr ⟨hv v hm, fun action ha => he action ⟨items, hi, v, hm, ha⟩⟩, ht⟩

theorem accepted_of_subset {enabled others : List Text} {raw : Json} {plan : Plan} (hs : enabled ⊆ others)
    (h : validate enabled raw = .ok (.accepted plan)) : validate others raw = .ok (.accepted plan) := by
  obtain ⟨ha, he⟩ := accepted_iff_asks.mp h
  exact accepted_iff_asks.mpr ⟨ha, fun action hn => hs (he action hn)⟩

theorem accepted_of_shared {enabled others shared : List Text} {raw : Json} {plan other : Plan}
    (hs : ∀ name, name ∈ enabled → name ∈ others → name ∈ shared) (h : validate enabled raw = .ok (.accepted plan))
    (ho : validate others raw = .ok (.accepted other)) : validate shared raw = .ok (.accepted plan) := by
  obtain ⟨ha, he⟩ := accepted_iff_asks.mp h
  obtain ⟨-, hf⟩ := accepted_iff_asks.mp ho
  exact accepted_iff_asks.mpr ⟨ha, fun action hn => hs action (he action hn) (hf action hn)⟩

/-- The verdict depends only on which of the plan's actions are enabled. A plan accepted for a list is accepted with
the same result for every larger list, and for the intersection of two lists if and only if it is accepted for both.
It is accepted if and only if its steps fit all tools and its actions are enabled. -/
theorem enabled_names_act_as_set (raw : Json) :
    (∀ enabled others, (∀ action, Asks raw action → (action ∈ enabled ↔ action ∈ others)) →
      ∃ verdict, validate enabled raw = .ok verdict ∧ validate others raw = .ok verdict) ∧
    (∀ enabled others plan, enabled ⊆ others → validate enabled raw = .ok (.accepted plan) →
      validate others raw = .ok (.accepted plan)) ∧
    (∀ enabled others shared : List Text, (∀ name, name ∈ shared ↔ name ∈ enabled ∧ name ∈ others) →
      ((∃ plan, validate shared raw = .ok (.accepted plan)) ↔
        (∃ plan, validate enabled raw = .ok (.accepted plan)) ∧ ∃ plan, validate others raw = .ok (.accepted plan))) ∧
    (∀ enabled plan, validate enabled raw = .ok (.accepted plan) ↔
      validate Tool.names raw = .ok (.accepted plan) ∧ ∀ action, Asks raw action → action ∈ enabled) := by
  refine ⟨fun enabled others h => ?_, fun enabled others plan => accepted_of_subset, fun enabled others shared hs => ?_,
    fun enabled plan => accepted_iff_asks⟩
  · obtain ⟨verdict, hv⟩ := exists_verdict enabled raw
    exact ⟨verdict, hv, validate_of_asks h ▸ hv⟩
  · constructor
    · rintro ⟨plan, h⟩
      have he : shared ⊆ enabled := fun name hn => ((hs name).mp hn).1
      have ho : shared ⊆ others := fun name hn => ((hs name).mp hn).2
      exact ⟨⟨plan, accepted_of_subset he h⟩, ⟨plan, accepted_of_subset ho h⟩⟩
    · rintro ⟨⟨plan, h⟩, ⟨other, ho⟩⟩
      exact ⟨plan, accepted_of_shared (fun name he hf => (hs name).mpr ⟨he, hf⟩) h ho⟩

/-- A list with a repeated name and an unknown one, and a list with another tool. -/
theorem enabled_names_act_as_set_repeated :
    let raw : Json := .obj [("steps", .arr [.obj [("action", .str "closeBrowser")]])]
    let plan : Plan := ⟨[.closeBrowser]⟩
    validate ["teleport", "closeBrowser", "closeBrowser"] raw = .ok (.accepted plan) ∧
      validate ["closeBrowser"] raw = .ok (.accepted plan) ∧
      validate ["goto", "closeBrowser"] raw = .ok (.accepted plan) := by
  intro raw plan
  have hr : validate ["teleport", "closeBrowser", "closeBrowser"] raw = .ok (.accepted plan) := rfl
  obtain ⟨same, subset, -⟩ := enabled_names_act_as_set raw
  obtain ⟨verdict, hv, hw⟩ := same ["teleport", "closeBrowser", "closeBrowser"] ["closeBrowser"] (by
    rintro action ⟨items, hi, v, hv, ha⟩
    obtain rfl := Json.arr.inj (Option.some.inj hi)
    obtain rfl : v = .obj [("action", .str "closeBrowser")] := by simpa using hv
    obtain rfl := Json.str.inj (Option.some.inj ha)
    simp)
  obtain rfl : verdict = .accepted plan := Except.ok.inj (hv.symm.trans hr)
  exact ⟨hr, hw, subset ["closeBrowser"] ["goto", "closeBrowser"] plan (by simp) hw⟩

-- more names, more defects: the step's fields are looked at only once its action is enabled
example : stepDefects [] (.obj [("action", .str "type")]) = [.disabled .typeInto] ∧
    stepDefects ["type"] (.obj [("action", .str "type")]) =
      [.argument .typeInto ⟨.selector, true⟩, .argument .typeInto ⟨.value, false⟩] := by decide

end BrowserPilot.Plan
