import BrowserPilot.Proofs.Plan.Acceptance
import Mathlib.Data.List.Basic
import Mathlib.Data.List.Nodup

/-! The defects of a plan. They are local to the steps, and different defects have different messages for all action
strings. -/
namespace BrowserPilot.Plan

/-- The defect with its step index increased by the offset. -/
def Defect.shift (offset : Nat) : Defect → Defect
  | .step index defect => .step (index + offset) defect
  | defect => defect

def Verdict.defects : Verdict → List Defect
  | accepted _ => []
  | rejected defects => defects

theorem Verdict.messages_eq_map_defects (verdict : Verdict) :
    verdict.messages = verdict.defects.map Defect.message := by
  cases verdict <;> rfl

/-- The fields satisfy the requirement. -/
def Provides (fields : List (Text × Json)) (r : Requirement) : Prop :=
  ∃ text, fields.lookup r.field.key = some (.str text) ∧ (r.nonEmpty = true → text ≠ "")

/-- The defects of a step: one of the step or its action, or else one for each required field that is not satisfied,
in the order of the requirements. -/
inductive Faults (enabled : List Text) : Json → List StepDefect → Prop
  | notObject {v : Json} (h : ∀ fields, v ≠ .obj fields) : Faults enabled v [.notObject]
  | actionNotText {fields : List (Text × Json)} (h : ∀ action, fields.lookup ("action" : Text) ≠ some (.str action)) :
      Faults enabled (.obj fields) [.actionNotText]
  | foreign {fields : List (Text × Json)} {action : Text} (ha : fields.lookup ("action" : Text) = some (.str action))
      (ht : action ∉ Tool.names) (he : action ∉ enabled) : Faults enabled (.obj fields) [.foreign action]
  | disabled {fields : List (Text × Json)} {tool : Tool} (ha : fields.lookup ("action" : Text) = some (.str tool.name))
      (he : tool.name ∉ enabled) : Faults enabled (.obj fields) [.disabled tool]
  | unknown {fields : List (Text × Json)} {action : Text} (ha : fields.lookup ("action" : Text) = some (.str action))
      (ht : action ∉ Tool.names) (he : action ∈ enabled) : Faults enabled (.obj fields) [.unknown action]
  | arguments {fields : List (Text × Json)} {tool : Tool} {lacking : List Requirement}
      (ha : fields.lookup ("action" : Text) = some (.str tool.name)) (he : tool.name ∈ enabled)
      (hs : lacking.Sublist tool.requirements) (hl : ∀ r ∈ tool.requirements, r ∈ lacking ↔ ¬ Provides fields r) :
      Faults enabled (.obj fields) (lacking.map (.argument tool))

theorem meets_iff_provides (fields : List (Text × Json)) (r : Requirement) :
    meets r (.obj fields) = true ↔ Provides fields r := by
  unfold meets Provides
  simp only [Json.field?]
  split
  · rename_i text he
    cases r.nonEmpty <;> simp [he]
  · rename_i hn
    simp only [Bool.false_eq_true, false_iff]
    rintro ⟨text, he, -⟩
    exact hn text he

theorem ofName?_eq_none_iff {action : Text} : Tool.ofName? action = none ↔ action ∉ Tool.names := by
  simp [Tool.ofName?, Tool.names]

theorem stepDefects_faults (enabled : List Text) (v : Json) : Faults enabled v (stepDefects enabled v) := by
  unfold stepDefects
  split
  · rename_i fields
    split
    · rename_i action ha
      have ha : fields.lookup ("action" : Text) = some (.str action) := ha
      split
      · rename_i ht
        rw [ofName?_eq_none_iff] at ht
        split
        · rename_i he
          exact .unknown ha ht (List.contains_iff_mem.mp he)
        · rename_i he
          exact .foreign ha ht (mt List.contains_iff_mem.mpr he)
      · rename_i tool ht
        obtain rfl := Tool.name_of_ofName? ht
        split
        · rename_i he
          refine .arguments ha (List.contains_iff_mem.mp he) List.filter_sublist fun r hr => ?_
          simp [List.mem_filter, hr, ← meets_iff_provides]
        · rename_i he
          exact .disabled ha (mt List.contains_iff_mem.mpr he)
    · rename_i hn
      exact .actionNotText hn
  · rename_i hn
    exact .notObject fun fields he => hn fields he

theorem filter_eq_of_sublist {tool : Tool} {lacking : List Requirement} {fields : List (Text × Json)}
    (hs : lacking.Sublist tool.requirements) (hl : ∀ r ∈ tool.requirements, r ∈ lacking ↔ ¬ Provides fields r) :
    (tool.requirements.filter fun r => !meets r (.obj fields)) = lacking := by
  have hn : tool.requirements.Nodup := by cases tool <;> decide
  have hk : lacking.filter (fun r => !meets r (.obj fields)) = lacking := by
    refine List.filter_eq_self.mpr fun r hr => ?_
    have hp := (hl r (hs.subset hr)).mp hr
    rw [← meets_iff_provides] at hp
    simpa using hp
  have hp : (tool.requirements.filter fun r => !meets r (.obj fields)).Perm lacking := by
    refine (List.perm_ext_iff_of_nodup (hn.filter _) (hn.sublist hs)).mpr fun r => ?_
    constructor
    · intro hr
      obtain ⟨hm, hr⟩ := List.mem_filter.mp hr
      rw [hl r hm, ← meets_iff_provides]
      simpa using hr
    · intro hr
      rw [← hk] at hr
      exact (hs.filter _).subset hr
  exact ((hk ▸ hs.filter _ : lacking.Sublist _).eq_of_length hp.length_eq.symm).symm

theorem stepDefects_eq_iff {enabled : List Text} {v : Json} {defects : List StepDefect} :
    stepDefects enabled v = defects ↔ Faults enabled v defects := by
  constructor
  · rintro rfl
    exact stepDefects_faults enabled v
  · intro h
    cases h with
    | notObject h =>
      cases v with
      | obj fields => exact absurd rfl (h fields)
      | _ => rfl
    | actionNotText h => simp [stepDefects, Json.field?]
    | foreign ha ht he => simp [stepDefects, Json.field?, ha, ofName?_eq_none_iff.mpr ht, he]
    | disabled ha he => simp [stepDefects, Json.field?, ha, Tool.ofName?_name, he]
    | unknown ha ht he => simp [stepDefects, Json.field?, ha, ofName?_eq_none_iff.mpr ht, he]
    | arguments ha he hs hl =>
      simp [stepDefects, Json.field?, ha, Tool.ofName?_name, he, filter_eq_of_sublist hs hl]

/-- The defects of a step depend only on whether its own action is enabled. -/
theorem stepDefects_congr {enabled others : List Text} {v : Json}
    (h : ∀ action, v.field? "action" = some (.str action) → (action ∈ enabled ↔ action ∈ others)) :
    stepDefects enabled v = stepDefects others v := by
  unfold stepDefects
  split
  · split
    · rename_i action ha
      have hc : enabled.contains action = others.contains action := by
        rw [Bool.eq_iff_iff, List.contains_iff_mem, List.contains_iff_mem]
        exact h action ha
      split
      · rw [hc]
      · rw [hc]
    · rfl
  · rfl

theorem defectsFrom_eq_flatMap (enabled : List Text) (index : Nat) (vs : List Json) :
    defectsFrom enabled index vs =
      (vs.zipIdx index).flatMap fun p => (stepDefects enabled p.1).map (.step p.2) := by
  induction vs generalizing index with
  | nil => rfl
  | cons v vs ih => rw [defectsFrom, ih, List.zipIdx_cons, List.flatMap_cons]

theorem defectsFrom_eq_map_shift (enabled : List Text) (index : Nat) (vs : List Json) :
    defectsFrom enabled index vs = (defectsFrom enabled 0 vs).map (Defect.shift index) := by
  have hs : ∀ offset k, defectsFrom enabled (k + offset) vs = (defectsFrom enabled k vs).map (Defect.shift offset) := by
    intro offset k
    induction vs generalizing k with
    | nil => rfl
    | cons v vs ih =>
      rw [defectsFrom, defectsFrom, List.map_append, List.map_map, Nat.add_right_comm, ih]
      rfl
  simpa using hs index 0

theorem exists_verdict_of_steps (enabled : List Text) {raw : Json} {items : List Json}
    (h : raw.field? "steps" = some (.arr items)) :
    ∃ verdict, validate enabled raw = .ok verdict ∧ verdict.defects = defectsFrom enabled 0 items := by
  obtain ⟨verdict, hv⟩ := exists_verdict enabled raw
  refine ⟨verdict, hv, ?_⟩
  cases raw with
  | obj fields =>
    simp only [validate, h] at hv
    split at hv
    · rename_i he
      cases verdict with
      | accepted plan => exact he.symm
      | rejected defects => cases hr : ofJson (.obj fields) <;> simp [hr] at hv
    · obtain rfl := Except.ok.inj hv
      rfl
  | _ => simp [Json.field?] at h

theorem append_cons_inj_of_notMem {mark : CodePoint} {a b s t : List CodePoint} (ha : mark ∉ a) (hb : mark ∉ b)
    (h : a ++ mark :: s = b ++ mark :: t) : a = b ∧ s = t := by
  induction a generalizing b with
  | nil =>
    cases b with
    | nil => exact ⟨rfl, (List.cons.inj h).2⟩
    | cons c b => exact absurd (List.cons.inj h).1 fun he => hb (by simp [he])
  | cons c a ih =>
    cases b with
    | nil => exact absurd (List.cons.inj h).1 fun he => ha (by simp [he])
    | cons d b =>
      obtain ⟨hc, hr⟩ := List.cons.inj h
      obtain ⟨hab, hst⟩ := ih (fun hm => ha (by simp [hm])) (fun hm => hb (by simp [hm])) hr
      exact ⟨by rw [hc, hab], hst⟩

theorem key_injective {f g : Field} (h : f.key = g.key) : f = g := by
  revert h
  cases f <;> cases g <;> decide

theorem argument_of_message {s t : Tool} {q r : Requirement}
    (h : (StepDefect.argument s q).message = (StepDefect.argument t r).message) : s = t ∧ q = r := by
  have h := congrArg Text.toList h
  unfold StepDefect.message at h
  simp only [Text.toList_append, List.append_assoc] at h
  obtain ⟨hn, ht⟩ := append_cons_inj_of_notMem (s.notMem_name rfl) (t.notMem_name rfl) (List.cons.inj h).2
  refine ⟨Tool.name_injective (Text.toList_inj.mp hn), ?_⟩
  obtain ⟨f, m⟩ := q
  obtain ⟨g, n⟩ := r
  have hm : m = n := by
    cases m <;> cases n <;> first | rfl | simp at ht
  subst hm
  have hk : f.key = g.key := by
    cases m <;> simpa [Text.toList_inj] using ht
  rw [key_injective hk]

theorem argument_message_ne (tool : Tool) (r : Requirement) :
    (StepDefect.argument tool r).message ≠ StepDefect.actionNotText.message := by
  intro h
  have hm : StepDefect.actionNotText.message.toList =
      .char '"' :: (Text.toList "action" ++ .char '"' :: Text.toList " must be a string") := rfl
  have h := (congrArg Text.toList h).trans hm
  unfold StepDefect.message at h
  simp only [Text.toList_append, List.append_assoc] at h
  obtain ⟨hn, -⟩ := append_cons_inj_of_notMem (tool.notMem_name rfl) (by decide) (List.cons.inj h).2
  cases tool <;> simp [Tool.name] at hn

/-- The two messages differ although an action may contain the words after the other one, because only one of them
ends in a quotation mark. -/
theorem foreign_message_ne (a b : Text) : (StepDefect.foreign a).message ≠ (StepDefect.unknown b).message := by
  intro h
  have hf : (StepDefect.foreign a).message.toList.getLast? = some (.char ')') := by
    unfold StepDefect.message
    rw [Text.toList_append, List.getLast?_append]
    rfl
  have hu : (StepDefect.unknown b).message.toList.getLast? = some (.char '"') := by
    unfold StepDefect.message
    rw [Text.toList_append, List.getLast?_append]
    rfl
  rw [h, hu] at hf
  exact absurd hf (by decide)

-- an action that ends the sentence by itself is still told from one that is not enabled
example : (StepDefect.unknown "go\" (not in the enabled tools list)").message =
    (StepDefect.foreign "go").message ++ "\"" := by decide

theorem StepDefect.message_injective : Function.Injective StepDefect.message := by
  intro d e h
  cases d <;> cases e
  case foreign.foreign =>
    unfold message at h
    simpa using h
  case unknown.unknown =>
    unfold message at h
    simpa using h
  case disabled.disabled =>
    unfold message at h
    simp only [Text.append_left_inj, Text.append_right_inj] at h
    rw [Tool.name_injective h]
  case argument.argument =>
    obtain ⟨rfl, rfl⟩ := argument_of_message h
    rfl
  case argument.actionNotText => exact absurd h (argument_message_ne _ _)
  case actionNotText.argument => exact absurd h.symm (argument_message_ne _ _)
  case foreign.unknown => exact absurd h (foreign_message_ne _ _)
  case unknown.foreign => exact absurd h.symm (foreign_message_ne _ _)
  -- the others begin with different letters
  all_goals
    unfold message at h
    first | rfl | simp [← Text.toList_inj] at h

theorem toString_injective {m n : Nat} (h : toString m = toString n) : m = n := by
  rw [Nat.toString_eq_repr, Nat.toString_eq_repr, ← String.toList_inj, Nat.toList_repr, Nat.toList_repr] at h
  have hv := congrArg (Nat.ofDigitChars 10 · 0) h
  simpa only [Nat.ofDigitChars_ten_toDigits] using hv

theorem colon_notMem_toString (n : Nat) : .char ':' ∉ Text.toList (toString n) := by
  rw [Text.toList_ofString, Nat.toString_eq_repr, Nat.toList_repr, List.mem_map]
  rintro ⟨c, hc, he⟩
  rw [CodePoint.char.inj he] at hc
  exact absurd (Nat.isDigit_of_mem_toDigits (by decide) (by decide) hc) (by decide)

theorem Defect.message_injective : Function.Injective Defect.message := by
  intro d e h
  cases d <;> cases e
  case step.step m d n e =>
    have h := congrArg Text.toList h
    simp only [message, Text.toList_append, List.append_assoc, List.append_right_inj] at h
    obtain ⟨hi, hd⟩ := append_cons_inj_of_notMem (colon_notMem_toString m) (colon_notMem_toString n) h
    rw [toString_injective (Text.ofString_inj.mp (Text.toList_inj.mp hi)),
      StepDefect.message_injective (Text.toList_inj.mp (List.cons.inj hd).2)]
  all_goals first | rfl | simp [message, ← Text.toList_inj] at h

/-- Every plan with these steps has a verdict with exactly these defects. -/
def Reports (enabled : List Text) (items : List Json) (defects : List Defect) : Prop :=
  ∀ raw : Json, raw.field? "steps" = some (.arr items) →
    ∃ verdict, validate enabled raw = .ok verdict ∧ verdict.messages = defects.map Defect.message

theorem reports_iff {enabled : List Text} {items : List Json} {defects : List Defect} :
    Reports enabled items defects ↔ defectsFrom enabled 0 items = defects := by
  constructor
  · intro h
    have hr : (Json.obj [("steps", .arr items)]).field? "steps" = some (.arr items) := rfl
    obtain ⟨verdict, hv, hm⟩ := h _ hr
    obtain ⟨_, hw, hd⟩ := exists_verdict_of_steps enabled hr
    obtain rfl := Except.ok.inj (hv.symm.trans hw)
    rw [Verdict.messages_eq_map_defects, hd] at hm
    exact Defect.message_injective.list_map hm
  · rintro rfl raw hr
    obtain ⟨verdict, hv, hd⟩ := exists_verdict_of_steps enabled hr
    exact ⟨verdict, hv, by rw [Verdict.messages_eq_map_defects, hd]⟩

/-- The defects of a plan are those of its steps, in order. The defects of a step depend neither on the other steps
nor on enabled names other than its action, so appended steps are reported as alone, with shifted indices. Different
defects have different messages. -/
theorem steps_are_reported (enabled : List Text) :
    (∀ items, Reports enabled items
      (items.zipIdx.flatMap fun p => (stepDefects enabled p.1).map (Defect.step p.2))) ∧
    (∀ v defects, stepDefects enabled v = defects ↔ Faults enabled v defects) ∧
    (∀ others v, (∀ action, v.field? "action" = some (.str action) → (action ∈ enabled ↔ action ∈ others)) →
      stepDefects enabled v = stepDefects others v) ∧
    (∀ vs ws first second, Reports enabled vs first → Reports enabled ws second →
      Reports enabled (vs ++ ws) (first ++ second.map (Defect.shift vs.length))) ∧
    Function.Injective Defect.message := by
  refine ⟨fun items => ?_, fun v defects => stepDefects_eq_iff, fun others v => stepDefects_congr,
    fun vs ws first second hf hs => ?_, Defect.message_injective⟩
  · exact reports_iff.mpr (defectsFrom_eq_flatMap enabled 0 items)
  · obtain rfl := reports_iff.mp hf
    obtain rfl := reports_iff.mp hs
    refine reports_iff.mpr ?_
    rw [defectsFrom_append, Nat.zero_add, defectsFrom_eq_map_shift enabled vs.length]

end BrowserPilot.Plan
