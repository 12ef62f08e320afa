import BrowserPilot.Plan.Validation
import Mathlib.Data.List.Forall2

/-! Accepted plans. The table of requirements decides which plans fit, and the reader of typed steps, which does not
use the table, reads every plan that fits. -/
namespace BrowserPilot.Plan

/-- A string that is admissible for a field of the tool. Only the `value` of `type` may be empty. -/
def Suits (tool : Tool) (field : Field) (text : Text) : Prop :=
  (tool = .typeInto ∧ field = .value) ∨ text ≠ ""

/-- An object whose action is enabled and a tool, with an admissible string for every required field. -/
def StepFits (enabled : List Text) (v : Json) : Prop :=
  ∃ fields tool, v = .obj fields ∧ v.field? "action" = some (.str tool.name) ∧ tool.name ∈ enabled ∧
    ∀ field ∈ tool.requirements.map (·.field), ∃ text, v.field? field.key = some (.str text) ∧ Suits tool field text

/-- An object with an array of such steps. -/
def Fits (enabled : List Text) (raw : Json) : Prop :=
  ∃ fields items, raw = .obj fields ∧ raw.field? "steps" = some (.arr items) ∧ ∀ v ∈ items, StepFits enabled v

/-- The typed step has the action and the arguments of the value. -/
structure Transcribes (v : Json) (s : Step) : Prop where
  action : v.field? "action" = some (.str s.action)
  arguments : ∀ p ∈ s.arguments, v.field? p.1.key = some (.str p.2)

private theorem nonEmpty_eq_false_iff {tool : Tool} {r : Requirement} (h : r ∈ tool.requirements) :
    r.nonEmpty = false ↔ tool = .typeInto ∧ r.field = .value := by
  cases tool <;> simp only [Tool.requirements, List.mem_cons, List.not_mem_nil, or_false] at h
  case typeInto => rcases h with rfl | rfl <;> simp
  all_goals subst h; simp

theorem meets_iff {tool : Tool} {r : Requirement} (hr : r ∈ tool.requirements) (v : Json) :
    meets r v = true ↔ ∃ text, v.field? r.field.key = some (.str text) ∧ Suits tool r.field text := by
  unfold meets Suits
  rw [← nonEmpty_eq_false_iff hr]
  split
  · rename_i text he
    cases r.nonEmpty <;> simp [he]
  · rename_i hn
    simp only [Bool.false_eq_true, false_iff]
    rintro ⟨text, he, _⟩
    exact hn text he

theorem argumentDefects_eq_nil_iff (tool : Tool) (v : Json) :
    (tool.requirements.filter fun r => !meets r v).map (StepDefect.argument tool) = [] ↔
      ∀ field ∈ tool.requirements.map (·.field),
        ∃ text, v.field? field.key = some (.str text) ∧ Suits tool field text := by
  simp only [List.map_eq_nil_iff, List.filter_eq_nil_iff, Bool.not_eq_true', Bool.not_eq_false, List.forall_mem_map]
  exact forall₂_congr fun r hr => meets_iff hr v

/-- A step has no defects if and only if it fits. -/
theorem stepDefects_eq_nil_iff (enabled : List Text) (v : Json) :
    stepDefects enabled v = [] ↔ StepFits enabled v := by
  unfold stepDefects
  constructor
  · intro h
    split at h
    · rename_i fields
      split at h
      · rename_i action ha
        split at h
        · simp at h
        · rename_i tool ht
          obtain rfl := Tool.name_of_ofName? ht
          split at h
          · rename_i he
            exact ⟨fields, tool, rfl, ha, List.contains_iff_mem.mp he, (argumentDefects_eq_nil_iff tool _).mp h⟩
          · simp at h
      · simp at h
    · simp at h
  · rintro ⟨fields, tool, rfl, ha, he, hf⟩
    simp only [ha, Tool.ofName?_name, List.contains_iff_mem.mpr he, if_true]
    exact (argumentDefects_eq_nil_iff tool _).mpr hf

theorem defectsFrom_eq_nil_iff (enabled : List Text) (index : Nat) (vs : List Json) :
    defectsFrom enabled index vs = [] ↔ ∀ v ∈ vs, StepFits enabled v := by
  induction vs generalizing index with
  | nil => simp [defectsFrom]
  | cons v vs ih =>
    simp only [defectsFrom, List.append_eq_nil_iff, List.map_eq_nil_iff, stepDefects_eq_nil_iff, ih,
      List.forall_mem_cons]

theorem argument_of_field {field : Field} {v : Json} {text : Text} (h : v.field? field.key = some (.str text)) :
    argument field v = .ok text := by
  simp only [argument, h]

theorem readStep_of_transcribes {v : Json} {s : Step} (h : Transcribes v s) : readStep v = .ok s := by
  have hf : ∀ p ∈ s.arguments, argument p.1 v = .ok p.2 := fun p hp => argument_of_field (h.arguments p hp)
  have ht : ((v.field? "action").bind Json.str?).bind Tool.ofName? = some s.tool := by
    simp only [h.action, Option.bind_some, Json.str?, Step.action, Tool.ofName?_name]
  unfold readStep
  rw [ht]
  cases s <;> simp_all [Step.tool, Step.arguments, Functor.map, Except.map, Seq.seq, Except.bind]

theorem readSteps_of_transcribes {vs : List Json} {steps : List Step} (h : List.Forall₂ Transcribes vs steps) :
    readSteps vs = .ok steps := by
  induction h with
  | nil => rfl
  | cons hs _ ih =>
    rw [readSteps, readStep_of_transcribes hs, ih]
    rfl

theorem StepFits.exists_transcribes {enabled : List Text} {v : Json} (h : StepFits enabled v) :
    ∃ s, Transcribes v s := by
  obtain ⟨fields, tool, rfl, ha, _, hf⟩ := h
  have get : ∀ field, field ∈ tool.requirements.map (·.field) →
      ∃ text, (Json.obj fields).field? field.key = some (.str text) :=
    fun field hm => (hf field hm).imp fun _ ht => ht.1
  cases tool with
  | goto =>
    obtain ⟨url, hu⟩ := get .url (by decide)
    exact ⟨.goto url, ha, by simpa [Step.arguments] using hu⟩
  | clickText =>
    obtain ⟨text, ht⟩ := get .text (by decide)
    exact ⟨.clickText text, ha, by simpa [Step.arguments] using ht⟩
  | typeInto =>
    obtain ⟨selector, hs⟩ := get .selector (by decide)
    obtain ⟨value, hv⟩ := get .value (by decide)
    exact ⟨.typeInto selector value, ha, by simpa [Step.arguments] using ⟨hs, hv⟩⟩
  | waitForText =>
    obtain ⟨text, ht⟩ := get .text (by decide)
    exact ⟨.waitForText text, ha, by simpa [Step.arguments] using ht⟩
  | extractText =>
    obtain ⟨selector, hs⟩ := get .selector (by decide)
    exact ⟨.extractText selector, ha, by simpa [Step.arguments] using hs⟩
  | snapshotText => exact ⟨.snapshotText, ha, by simp [Step.arguments]⟩
  | screenshot =>
    obtain ⟨name, hn⟩ := get .name (by decide)
    exact ⟨.screenshot name, ha, by simpa [Step.arguments] using hn⟩
  | closeBrowser => exact ⟨.closeBrowser, ha, by simp [Step.arguments]⟩

theorem exists_forall₂_transcribes {enabled : List Text} {vs : List Json} (h : ∀ v ∈ vs, StepFits enabled v) :
    ∃ steps, List.Forall₂ Transcribes vs steps := by
  induction vs with
  | nil => exact ⟨[], .nil⟩
  | cons v vs ih =>
    obtain ⟨s, hs⟩ := (h v (by simp)).exists_transcribes
    obtain ⟨steps, hr⟩ := ih fun w hw => h w (by simp [hw])
    exact ⟨s :: steps, .cons hs hr⟩

/-- A plan that fits is accepted with the typed steps of its items. -/
theorem validate_of_fits {enabled : List Text} {raw : Json} {items : List Json}
    (hi : raw.field? "steps" = some (.arr items)) (h : ∀ v ∈ items, StepFits enabled v) :
    ∃ plan, validate enabled raw = .ok (.accepted plan) ∧ List.Forall₂ Transcribes items plan.steps := by
  obtain ⟨steps, hs⟩ := exists_forall₂_transcribes h
  refine ⟨⟨steps⟩, ?_, hs⟩
  cases raw with
  | obj fields =>
    simp only [validate, hi, (defectsFrom_eq_nil_iff enabled 0 items).mpr h, ofJson, readSteps_of_transcribes hs]
    rfl
  | _ => simp [Json.field?] at hi

/-- A plan that does not fit is rejected with at least one defect. -/
theorem validate_of_not_fits {enabled : List Text} {raw : Json} (h : ¬ Fits enabled raw) :
    ∃ defects, validate enabled raw = .ok (.rejected defects) ∧ defects ≠ [] := by
  unfold validate
  split
  · rename_i fields
    split
    · rename_i items hi
      have hd : defectsFrom enabled 0 items ≠ [] := fun he =>
        h ⟨fields, items, rfl, hi, (defectsFrom_eq_nil_iff enabled 0 items).mp he⟩
      split
      · rename_i he
        exact absurd he hd
      · exact ⟨_, rfl, hd⟩
    · exact ⟨_, rfl, by simp⟩
  · exact ⟨_, rfl, by simp⟩

theorem exists_verdict (enabled : List Text) (raw : Json) :
    ∃ verdict, validate enabled raw = .ok verdict := by
  by_cases h : Fits enabled raw
  · obtain ⟨_, items, rfl, hi, hv⟩ := h
    obtain ⟨plan, he, _⟩ := validate_of_fits hi hv
    exact ⟨.accepted plan, he⟩
  · obtain ⟨defects, he, _⟩ := validate_of_not_fits h
    exact ⟨.rejected defects, he⟩

theorem fits_of_accepted {enabled : List Text} {raw : Json} {plan : Plan}
    (h : validate enabled raw = .ok (.accepted plan)) : Fits enabled raw := by
  by_contra hn
  obtain ⟨defects, he, _⟩ := validate_of_not_fits hn
  rw [he] at h
  cases h

theorem ne_nil_of_rejected {enabled : List Text} {raw : Json} {defects : List Defect}
    (h : validate enabled raw = .ok (.rejected defects)) : defects ≠ [] := by
  by_cases hf : Fits enabled raw
  · obtain ⟨_, items, rfl, hi, hv⟩ := hf
    obtain ⟨plan, he, _⟩ := validate_of_fits hi hv
    rw [he] at h
    cases h
  · obtain ⟨found, he, hd⟩ := validate_of_not_fits hf
    rw [he] at h
    obtain rfl := Verdict.rejected.inj (Except.ok.inj h)
    exact hd

theorem eq_of_forall₂_transcribes {items : List Json} {steps others : List Step}
    (h : List.Forall₂ Transcribes items steps) (ho : List.Forall₂ Transcribes items others) : steps = others :=
  Except.ok.inj ((readSteps_of_transcribes h).symm.trans (readSteps_of_transcribes ho))

/-- A plan is accepted if and only if all its items fit and its steps transcribe them. -/
theorem validate_eq_accepted_iff {enabled : List Text} {raw : Json} {plan : Plan} :
    validate enabled raw = .ok (.accepted plan) ↔
      ∃ items, raw.field? "steps" = some (.arr items) ∧ (∀ v ∈ items, StepFits enabled v) ∧
        List.Forall₂ Transcribes items plan.steps := by
  constructor
  · intro h
    obtain ⟨_, items, rfl, hi, hv⟩ := fits_of_accepted h
    obtain ⟨accepted, he, hs⟩ := validate_of_fits hi hv
    rw [he] at h
    obtain rfl := Verdict.accepted.inj (Except.ok.inj h)
    exact ⟨items, hi, hv, hs⟩
  · rintro ⟨items, hi, hv, hs⟩
    obtain ⟨accepted, he, ha⟩ := validate_of_fits hi hv
    obtain rfl : accepted = plan := congrArg Plan.mk (eq_of_forall₂_transcribes ha hs)
    exact he

theorem StepFits.suits {enabled : List Text} {v : Json} {s : Step} (h : StepFits enabled v) (hs : Transcribes v s) :
    s.action ∈ enabled ∧ ∀ p ∈ s.arguments, Suits s.tool p.1 p.2 := by
  obtain ⟨_, tool, _, ha, ht, hf⟩ := h
  -- the action of the written step is known twice: as the name of its tool, and from the transcription
  have hn := hs.action.symm.trans ha
  simp only [Option.some.injEq, Json.str.injEq] at hn
  obtain rfl := Tool.name_injective hn
  refine ⟨ht, fun p hp => ?_⟩
  obtain ⟨text, he, hu⟩ := hf p.1 (s.arguments_fields ▸ List.mem_map_of_mem hp)
  have hp := (hs.arguments p hp).symm.trans he
  simp only [Option.some.injEq, Json.str.injEq] at hp
  rwa [hp]

theorem exists_item_of_mem {items : List Json} {steps : List Step} (h : List.Forall₂ Transcribes items steps)
    {s : Step} (hs : s ∈ steps) : ∃ v ∈ items, Transcribes v s := by
  induction h with
  | nil => simp at hs
  | @cons v t _ _ ht _ ih =>
    rcases List.mem_cons.mp hs with rfl | hs
    · exact ⟨v, by simp, ht⟩
    · obtain ⟨w, hw, hr⟩ := ih hs
      exact ⟨w, by simp [hw], hr⟩

theorem suits_of_accepted {enabled : List Text} {raw : Json} {plan : Plan}
    (h : validate enabled raw = .ok (.accepted plan)) :
    ∀ s ∈ plan.steps, s.action ∈ enabled ∧ ∀ p ∈ s.arguments, Suits s.tool p.1 p.2 := by
  intro s hs
  obtain ⟨items, _, hv, ht⟩ := validate_eq_accepted_iff.mp h
  obtain ⟨v, hm, hr⟩ := exists_item_of_mem ht hs
  exact (hv v hm).suits hr

theorem action_mem_of_accepted {enabled : List Text} {raw : Json} {plan : Plan}
    (h : validate enabled raw = .ok (.accepted plan)) : ∀ s ∈ plan.steps, s.action ∈ enabled :=
  fun s hs => (suits_of_accepted h s hs).1

theorem validate_of_defects {enabled : List Text} {raw : Json} {items : List Json}
    (hi : raw.field? "steps" = some (.arr items)) (hd : defectsFrom enabled 0 items ≠ []) :
    validate enabled raw = .ok (.rejected (defectsFrom enabled 0 items)) := by
  cases raw with
  | obj fields => simp only [validate, hi]
  | _ => simp [Json.field?] at hi

theorem defectsFrom_congr {enabled others : List Text} {vs ws : List Json}
    (h : List.Forall₂ (fun v w => stepDefects enabled v = stepDefects others w) vs ws) (index : Nat) :
    defectsFrom enabled index vs = defectsFrom others index ws := by
  induction h generalizing index with
  | nil => rfl
  | cons hv _ ih => rw [defectsFrom, defectsFrom, hv, ih]

/-- The verdict depends only on the defects of the items and the steps that they transcribe. -/
theorem validate_congr {enabled others : List Text} {v w : Json} {vs ws : List Json}
    (hv : v.field? "steps" = some (.arr vs)) (hw : w.field? "steps" = some (.arr ws))
    (hs : List.Forall₂ (fun v w => stepDefects enabled v = stepDefects others w) vs ws)
    (ht : ∀ steps, List.Forall₂ Transcribes vs steps → List.Forall₂ Transcribes ws steps) :
    validate enabled v = validate others w := by
  have hd : defectsFrom enabled 0 vs = defectsFrom others 0 ws := defectsFrom_congr hs 0
  by_cases he : defectsFrom enabled 0 vs = []
  · obtain ⟨plan, ha, hs⟩ := validate_of_fits hv ((defectsFrom_eq_nil_iff enabled 0 vs).mp he)
    have hf := (defectsFrom_eq_nil_iff others 0 ws).mp (hd ▸ he)
    rw [ha, validate_eq_accepted_iff.mpr ⟨ws, hw, hf, ht _ hs⟩]
  · rw [validate_of_defects hv he, validate_of_defects hw (hd ▸ he), hd]

/-- Validation is total. A value is accepted if and only if it fits the enabled tools; then there are no messages
and the plan has one typed step for each item, with the fields of its tool and nothing else. A rejected value has at
least one message and no plan. -/
theorem verdict_accepted_iff_fits (enabled : List Text) (raw : Json) :
    ∃ verdict, validate enabled raw = .ok verdict ∧
      ((∃ plan, verdict = .accepted plan) ↔ Fits enabled raw) ∧
      (∀ plan, verdict = .accepted plan →
        verdict.messages = [] ∧ verdict.toJson.field? "plan" = some plan.toJson ∧
        ∃ items, raw.field? "steps" = some (.arr items) ∧ ∃ same : plan.steps.length = items.length,
          ∀ k (hk : k < items.length), Transcribes items[k] plan.steps[k] ∧
            plan.steps[k].arguments.map Prod.fst = plan.steps[k].tool.requirements.map (·.field)) ∧
      (∀ defects, verdict = .rejected defects → verdict.messages ≠ [] ∧ verdict.toJson.field? "plan" = none) := by
  by_cases h : Fits enabled raw
  · have hw := h
    obtain ⟨_, items, rfl, hi, hv⟩ := h
    obtain ⟨plan, he, hs⟩ := validate_of_fits hi hv
    refine ⟨.accepted plan, he, iff_of_true ⟨plan, rfl⟩ hw, ?_, by simp⟩
    rintro _ ⟨⟩
    refine ⟨rfl, rfl, items, hi, hs.length_eq.symm, fun k hk => ⟨?_, Step.arguments_fields _⟩⟩
    exact hs.get hk (hs.length_eq ▸ hk)
  · obtain ⟨defects, he, hd⟩ := validate_of_not_fits h
    refine ⟨.rejected defects, he, iff_of_false (by simp) h, by simp, ?_⟩
    rintro _ ⟨⟩
    exact ⟨by simpa [Verdict.messages] using hd, rfl⟩

end BrowserPilot.Plan
