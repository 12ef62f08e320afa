import BrowserPilot.ModelReply
import BrowserPilot.Proofs.Json.RoundTrip
import BrowserPilot.Proofs.Plan.Acceptance
import BrowserPilot.Proofs.Text.Fenced

/-! A plan written by the model arrives as that plan, for all texts and all fences. -/
namespace BrowserPilot

namespace Plan

/-- All arguments that must not be empty are not. -/
def Filled (plan : Plan) : Prop :=
  ∀ s ∈ plan.steps, ∀ p ∈ s.arguments, Suits s.tool p.1 p.2

/-- No argument has a high surrogate directly before a low one, as no text without surrogates does. -/
def Unpaired (plan : Plan) : Prop :=
  ∀ s ∈ plan.steps, ∀ p ∈ s.arguments, Json.Unpaired p.2.toList

theorem transcribes_toJson (s : Step) : Transcribes s.toJson s where
  action := rfl
  arguments := by
    intro p hp
    cases s <;> simp only [Step.arguments, List.mem_cons, List.not_mem_nil, or_false] at hp
    case typeInto => rcases hp with rfl | rfl <;> rfl
    all_goals
      subst hp
      rfl

theorem stepFits_toJson {enabled : List Text} {s : Step} (he : s.action ∈ enabled)
    (hs : ∀ p ∈ s.arguments, Suits s.tool p.1 p.2) : StepFits enabled s.toJson := by
  refine ⟨_, s.tool, rfl, (transcribes_toJson s).action, he, ?_⟩
  rw [← s.arguments_fields]
  intro field hf
  obtain ⟨p, hp, rfl⟩ := List.mem_map.mp hf
  exact ⟨p.2, (transcribes_toJson s).arguments p hp, hs p hp⟩

/-- Validating the JSON of a plan gives back the plan. -/
theorem validate_toJson {enabled : List Text} {plan : Plan} (hf : plan.Filled)
    (he : ∀ s ∈ plan.steps, s.action ∈ enabled) : validate enabled plan.toJson = .ok (.accepted plan) := by
  have hd : defectsFrom enabled 0 (plan.steps.map Step.toJson) = [] := by
    rw [defectsFrom_eq_nil_iff, List.forall_mem_map]
    exact fun s hs => stepFits_toJson (he s hs) (hf s hs)
  have hi : plan.toJson.field? "steps" = some (.arr (plan.steps.map Step.toJson)) := rfl
  have ho := ofJson_toJson plan
  unfold toJson at hi ho ⊢
  simp only [validate, hi, hd, ho]
  rfl

end Plan

theorem Step.regular_toJson (depth : Nat) {s : Step} (h : ∀ p ∈ s.arguments, Json.Unpaired p.2.toList) :
    Json.Regular (depth + 1) s.toJson := by
  refine .obj ?_ ?_ ?_
  · cases s <;> simp [Step.arguments, Field.key]
  · refine List.forall_mem_cons.mpr ⟨Json.unpaired_ofString _, List.forall_mem_map.mpr fun a _ => ?_⟩
    cases a.1 <;> exact Json.unpaired_ofString _
  · refine List.forall_mem_cons.mpr ⟨.str ?_, List.forall_mem_map.mpr fun a ha => .str (h a ha)⟩
    cases s <;> exact Json.unpaired_ofString _

theorem Plan.regular_toJson (depth : Nat) {plan : Plan} (h : plan.Unpaired) : Json.Regular (depth + 3) plan.toJson := by
  have ha : Json.Regular (depth + 2) (.arr (plan.steps.map Step.toJson)) :=
    .arr (List.forall_mem_map.mpr fun s hs => s.regular_toJson depth (h s hs))
  refine .obj (by simp) ?_ ?_
  · exact List.forall_mem_singleton.mpr (Json.unpaired_ofString _)
  · exact List.forall_mem_singleton.mpr ha

theorem Plan.exists_print_toJson (plan : Plan) : ∃ cs, plan.toJson.print = .char '{' :: (cs ++ [.char '}']) :=
  ⟨Json.printString "steps" ++ .char ':' :: .char ' ' :: Json.print (.arr (plan.steps.map Step.toJson)), by
    simp [Plan.toJson, Json.print, Json.printFields]⟩

namespace ModelReply

/-- An answer that contains the compact JSON of a plan, fenced or not and with any blanks around it, is a plan
reply. Its validation gives back the plan if all actions are enabled and all arguments filled in. -/
theorem plan_of_compact {plan : Plan} {enabled : List Text} {before wrapped after : List CodePoint} (hf : plan.Filled)
    (hu : plan.Unpaired) (he : ∀ s ∈ plan.steps, s.action ∈ enabled)
    (hw : Fence.Encloses plan.toJson.compact.toList wrapped)
    (hb : ∀ c ∈ before, Text.isBlank c = true) (ha : ∀ c ∈ after, Text.isBlank c = true) :
    ofText (Text.ofList (before ++ wrapped ++ after)) = .ok (.plan plan.toJson) ∧
      Plan.validate enabled plan.toJson = .ok (.accepted plan) := by
  refine ⟨?_, Plan.validate_toJson hf he⟩
  rw [Json.compact, Text.toList_ofList] at hw
  obtain ⟨cs, hc⟩ := plan.exists_print_toJson
  have hs : Text.Solid plan.toJson.print := ⟨⟨'{', _, hc, rfl⟩, .char '{' :: cs, '}', hc, rfl⟩
  have hm : plan.toJson.print.head? ≠ some (.char '\x60') := by
    rw [hc]
    simp
  have hr : Json.readText plan.toJson.print = .ok plan.toJson :=
    (plan.regular_toJson 987 hu).readText_print
  have ht : ofText (Text.ofList (before ++ wrapped ++ after)) = .ok (ofJson plan.toJson) := by
    simp only [ofText, Text.trim_of_solid (hw.solid hs) hb ha, Fence.strip_of_encloses hs hm hw,
      hr]
  -- a plan has no other key than its steps
  exact ht

theorem plan_of_compact_fenced :
    let plan : Plan := ⟨[.typeInto "\x60\x60\x60" "", .clickText "😀\n\""]⟩
    let answer : Text := "\u3000\x60\x60\x60json \n\x7b\"steps\": [" ++
      "\x7b\"action\": \"type\", \"selector\": \"\x60\x60\x60\", \"value\": \"\"\x7d, " ++
      "\x7b\"action\": \"clickText\", \"text\": \"\\ud83d\\ude00\\n\\\"\"\x7d]\x7d\n\x60\x60\x60\u2028"
    ofText answer = .ok (.plan plan.toJson) ∧
      Plan.validate ["clickText", "goto", "type"] plan.toJson = .ok (.accepted plan) := by
  intro plan answer
  have hf : plan.Filled := by
    simp only [plan, Plan.Filled, Plan.Suits, Step.arguments, Step.tool, List.forall_mem_cons]
    decide
  have hw : Fence.Encloses plan.toJson.compact.toList
      (Fence.mark ++ Text.toList "json" ++ Text.toList " " ++ [.char '\n'] ++ plan.toJson.compact.toList ++
        [.char '\n'] ++ Fence.mark) :=
    .fenced (List.all_eq_true.mp rfl) (List.all_eq_true.mp rfl) (.inr rfl)
  have hu : plan.Unpaired := by
    simp only [plan, Plan.Unpaired, Step.arguments, List.forall_mem_cons]
    decide
  have ht : answer = Text.ofList (Text.toList "\u3000" ++ (Fence.mark ++ Text.toList "json" ++ Text.toList " " ++
      [.char '\n'] ++ plan.toJson.compact.toList ++ [.char '\n'] ++ Fence.mark) ++ Text.toList "\u2028") := by
    decide +kernel
  rw [ht]
  exact plan_of_compact hf hu (by decide) hw (List.all_eq_true.mp rfl) (List.all_eq_true.mp rfl)

end ModelReply

end BrowserPilot
