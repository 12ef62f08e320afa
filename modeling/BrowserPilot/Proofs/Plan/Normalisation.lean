import BrowserPilot.Proofs.Plan.Delivery
import BrowserPilot.Proofs.Plan.Report

/-! The parts of a plan that validation reads. An accepted plan written as JSON contains only these, and is accepted
again as itself. -/
namespace BrowserPilot.Plan

/-- The two values have the same string in a field, or none. -/
def SameText (key : Text) (v w : Json) : Prop :=
  ∀ text, v.field? key = some (.str text) ↔ w.field? key = some (.str text)

/-- Steps that are equal in what validation reads: neither is an object, or both are, with the same action and the
same strings in the fields that the action requires. -/
inductive Alike : Json → Json → Prop
  | strange {v w : Json} (hv : ∀ fields, v ≠ .obj fields) (hw : ∀ fields, w ≠ .obj fields) : Alike v w
  | objects {f g : List (Text × Json)} (ha : SameText "action" (.obj f) (.obj g))
      (hf : ∀ tool : Tool, f.lookup ("action" : Text) = some (.str tool.name) →
        ∀ field ∈ tool.requirements.map (·.field), SameText field.key (.obj f) (.obj g)) :
      Alike (.obj f) (.obj g)

theorem provides_congr {f g : List (Text × Json)} {r : Requirement}
    (h : SameText r.field.key (.obj f) (.obj g)) : Provides f r ↔ Provides g r :=
  exists_congr fun text => and_congr_left fun _ => h text

theorem Alike.faults {enabled : List Text} {v w : Json} {defects : List StepDefect} (h : Alike v w)
    (hd : Faults enabled v defects) : Faults enabled w defects := by
  cases h with
  | strange hv hw =>
    cases hd with
    | notObject => exact .notObject hw
    | _ => exact absurd rfl (hv _)
  | objects ha hf =>
    cases hd with
    | notObject h => exact absurd rfl (h _)
    | actionNotText h => exact .actionNotText fun action he => h action ((ha action).mpr he)
    | foreign hn ht he => exact .foreign ((ha _).mp hn) ht he
    | disabled hn he => exact .disabled ((ha _).mp hn) he
    | unknown hn ht he => exact .unknown ((ha _).mp hn) ht he
    | arguments hn he hs hl =>
      refine .arguments ((ha _).mp hn) he hs fun r hr => ?_
      rw [hl r hr, provides_congr (hf _ hn r.field (List.mem_map_of_mem hr))]

theorem Alike.stepDefects_eq {v w : Json} (h : Alike v w) (enabled : List Text) :
    stepDefects enabled v = stepDefects enabled w :=
  (stepDefects_eq_iff.mpr (h.faults (stepDefects_faults enabled v))).symm

theorem Alike.transcribes {v w : Json} {s : Step} (h : Alike v w) (hs : Transcribes v s) : Transcribes w s := by
  cases h with
  | strange hv hw =>
    have ha := hs.action
    cases v with
    | obj fields => exact absurd rfl (hv fields)
    | _ => simp [Json.field?] at ha
  | objects ha hf =>
    refine ⟨(ha _).mp hs.action, fun p hp => ?_⟩
    have hm : p.1 ∈ s.tool.requirements.map (·.field) := s.arguments_fields ▸ List.mem_map_of_mem hp
    exact (hf s.tool hs.action p.1 hm p.2).mp (hs.arguments p hp)

theorem transcribes_of_alike {vs ws : List Json} {steps : List Step} (h : List.Forall₂ Alike vs ws)
    (hs : List.Forall₂ Transcribes vs steps) : List.Forall₂ Transcribes ws steps := by
  induction h generalizing steps with
  | nil => exact hs
  | cons hv _ ih =>
    cases hs with
    | cons ht hr => exact .cons (hv.transcribes ht) (ih hr)

theorem validate_of_alike {v w : Json} {vs ws : List Json} (hv : v.field? "steps" = some (.arr vs))
    (hw : w.field? "steps" = some (.arr ws)) (h : List.Forall₂ Alike vs ws) (enabled : List Text) :
    validate enabled v = validate enabled w :=
  validate_congr hv hw (h.imp fun _ _ ha => ha.stepDefects_eq enabled) fun _ => transcribes_of_alike h

theorem validate_toJson_of_accepted {enabled : List Text} {raw : Json} {plan : Plan}
    (h : validate enabled raw = .ok (.accepted plan)) : validate enabled plan.toJson = .ok (.accepted plan) :=
  validate_toJson (fun s hs => (suits_of_accepted h s hs).2) (action_mem_of_accepted h)

/-- The JSON of an accepted plan is accepted as the same plan. Plans whose steps are alike one by one have the same
verdict, whatever the other fields and the order of fields. -/
theorem verdict_by_what_counts (enabled : List Text) :
    (∀ raw plan, validate enabled raw = .ok (.accepted plan) →
      ∃ verdict, validate enabled plan.toJson = .ok verdict ∧ verdict = .accepted plan ∧ verdict.messages = []) ∧
    (∀ v w vs ws, v.field? "steps" = some (.arr vs) → w.field? "steps" = some (.arr ws) →
      List.Forall₂ Alike vs ws →
      ∃ verdict, validate enabled v = .ok verdict ∧ validate enabled w = .ok verdict) := by
  constructor
  · intro raw plan h
    exact ⟨.accepted plan, validate_toJson_of_accepted h, rfl, rfl⟩
  · intro v w vs ws hv hw h
    obtain ⟨verdict, hr⟩ := exists_verdict enabled v
    exact ⟨verdict, hr, validate_of_alike hv hw h enabled ▸ hr⟩

/-- A step with a surplus field, and the same step with its fields in another order. -/
theorem verdict_by_what_counts_rearranged :
    let written : Json := .obj [("note", .null), ("steps", .arr [.obj [("value", .str ""), ("url", .int 5),
      ("action", .str "type"), ("selector", .str "#q")]])]
    let rearranged : Json := .obj [("steps", .arr [.obj [("action", .str "type"), ("selector", .str "#q"),
      ("value", .str ""), ("name", .arr [])]])]
    let plan : Plan := ⟨[.typeInto "#q" ""]⟩
    validate ["type"] written = .ok (.accepted plan) ∧ validate ["type"] plan.toJson = .ok (.accepted plan) ∧
      validate ["type"] rearranged = .ok (.accepted plan) := by
  intro written rearranged plan
  have hw : validate ["type"] written = .ok (.accepted plan) := rfl
  obtain ⟨verdict, hp, rfl, -⟩ := (verdict_by_what_counts ["type"]).1 written plan hw
  refine ⟨hw, hp, ?_⟩
  have ha : Alike (.obj [("value", .str ""), ("url", .int 5), ("action", .str "type"), ("selector", .str "#q")])
      (.obj [("action", .str "type"), ("selector", .str "#q"), ("value", .str ""), ("name", .arr [])]) := by
    refine .objects (fun _ => Iff.rfl) fun tool ht field hm => ?_
    obtain rfl : tool = .typeInto := Tool.name_injective (Json.str.inj (Option.some.inj ht)).symm
    simp only [Tool.requirements, List.map_cons, List.map_nil, List.mem_cons, List.not_mem_nil, or_false] at hm
    rcases hm with rfl | rfl <;> exact fun _ => Iff.rfl
  obtain ⟨same, hs, hr⟩ := (verdict_by_what_counts ["type"]).2 written rearranged _ _ rfl rfl (.cons ha .nil)
  rw [hr, ← hs, hw]

end BrowserPilot.Plan
