import BrowserPilot.Proofs.Agent.Requests
import BrowserPilot.Proofs.Plan.Permission
import BrowserPilot.Proofs.Text.Lines

/-! The system prompt describes exactly the tools that validation accepts. It has a line for each active tool, and
no other line is the description of a tool. -/
namespace BrowserPilot

namespace Tool

/-- A description is one line: the name of the tool, a colon, and an example in braces. -/
theorem description_spelled (t : Tool) :
    Text.beforeColon t.description = t.name.toList ∧ .char '\n' ∉ t.description.toList ∧
      .char '\x7d' ∈ t.description.toList := by
  cases t <;> decide +kernel

theorem ne_description {name : Text} (h : .char '\x7d' ∉ name.toList) (t : Tool) : name ≠ t.description := by
  rintro rfl
  exact h t.description_spelled.2.2

theorem description_injective : Function.Injective description := by
  intro s t h
  have hn : s.name.toList = t.name.toList := by
    rw [← s.description_spelled.1, ← t.description_spelled.1, h]
  exact name_injective (Text.toList_inj.mp hn)


end Tool

namespace Plan

/-- A step with the tool as its action and an admissible string for every required field. -/
def WrittenFor (tool : Tool) (v : Json) : Prop :=
  v.field? "action" = some (.str tool.name) ∧
    ∀ field ∈ tool.requirements.map (·.field), ∃ text, v.field? field.key = some (.str text) ∧ Suits tool field text

variable {tool : Tool} {v raw : Json} {enabled : List Text}

theorem stepFits_iff_of_writtenFor (h : WrittenFor tool v) : StepFits enabled v ↔ tool.name ∈ enabled := by
  obtain ⟨ha, hf⟩ := h
  constructor
  · rintro ⟨fields, other, -, ho, he, -⟩
    rw [ha] at ho
    rwa [Json.str.inj (Option.some.inj ho)]
  · intro he
    cases v with
    | obj fields => exact ⟨fields, tool, rfl, ha, he, hf⟩
    | _ => simp [Json.field?] at ha

/-- A plan of one such step is accepted if and only if its tool is enabled. -/
theorem accepted_iff_of_writtenFor (h : WrittenFor tool v) (hr : raw.field? "steps" = some (.arr [v])) :
    (∃ plan, validate enabled raw = .ok (.accepted plan)) ↔ tool.name ∈ enabled := by
  rw [← stepFits_iff_of_writtenFor h]
  constructor
  · rintro ⟨plan, hp⟩
    obtain ⟨items, hi, hf, -⟩ := validate_eq_accepted_iff.mp hp
    obtain rfl := Json.arr.inj (Option.some.inj (hr.symm.trans hi))
    exact hf v List.mem_cons_self
  · intro hf
    obtain ⟨plan, hp, -⟩ := validate_of_fits hr (List.forall_mem_singleton.mpr hf)
    exact ⟨plan, hp⟩

end Plan

namespace Prompt

/-- A name without line breaks that is not the description of a tool. -/
def Plain (name : Text) : Prop := .char '\n' ∉ name.toList ∧ ∀ tool : Tool, name ≠ tool.description

/-- The line of the prompt for an active name. -/
inductive Tells : Text → Text → Prop
  | tool (t : Tool) : Tells t.name t.description
  | other {name : Text} (h : name ∉ Tool.names) : Tells name name

theorem tells_describeName (name : Text) : Tells name (describeName name) := by
  unfold describeName
  split
  · rename_i t ht
    rw [← Tool.name_of_ofName? ht]
    exact .tool t
  · rename_i hn
    exact .other (Plan.ofName?_eq_none_iff.mp hn)

theorem plain_name (t : Tool) : Plain t.name := ⟨t.notMem_name rfl, Tool.ne_description (t.notMem_name rfl)⟩

theorem plain_of_active {selection : List Text} (h : ∀ name ∈ selection, Plain name) :
    ∀ name ∈ activeTools selection, Plain name := by
  unfold activeTools
  split
  · exact List.forall_mem_map.mpr fun t _ => plain_name t
  · exact h

theorem Tells.newline_notMem {name line : Text} (h : Tells name line) (hp : Plain name) : .char '\n' ∉ line.toList := by
  cases h with
  | tool t => exact t.description_spelled.2.1
  | other => exact hp.1

/-- The line of a plain name is the description of a tool only if the name is that tool. -/
theorem Tells.eq_description_iff {name line : Text} (h : Tells name line) (hp : Plain name) {tool : Tool} :
    line = tool.description ↔ name = tool.name := by
  cases h with
  | tool t =>
    constructor
    · intro he
      rw [Tool.description_injective he]
    · intro he
      rw [Tool.name_injective he]
  | other hn =>
    refine iff_of_false (hp.2 tool) fun he => hn ?_
    rw [he]
    exact List.mem_map_of_mem tool.mem_all

/-- Every fixed line of the prompt has a blank before its first colon, which the description of a tool has not. -/
theorem fixed_spelled :
    ∀ line ∈ preamble ++ closing, .char '\n' ∉ line.toList ∧ .char ' ' ∈ Text.beforeColon line := by
  decide +kernel

theorem description_notMem_fixed (tool : Tool) : tool.description ∉ preamble ++ closing := by
  intro h
  have hb : .char ' ' ∈ Text.beforeColon tool.description := (fixed_spelled _ h).2
  rw [tool.description_spelled.1] at hb
  exact tool.notMem_name rfl hb

/-- The lines of the prompt are the fixed ones with one line for each active name between them. -/
theorem lines_system {selection : List Text} (h : ∀ name ∈ selection, Plain name) :
    Text.lines (system selection) = preamble ++ (activeTools selection).map describeName ++ closing := by
  refine Text.lines_joinLines (by simp [closing]) fun line hl => ?_
  rcases List.mem_append.mp hl with hl | hl
  · rcases List.mem_append.mp hl with hl | hl
    · exact (fixed_spelled line (List.mem_append_left _ hl)).1
    · obtain ⟨name, hn, rfl⟩ := List.mem_map.mp hl
      exact (tells_describeName name).newline_notMem (plain_of_active h name hn)
  · exact (fixed_spelled line (List.mem_append_right _ hl)).1

theorem description_mem_lines_iff {selection : List Text} (h : ∀ name ∈ selection, Plain name) (tool : Tool) :
    tool.description ∈ Text.lines (system selection) ↔ tool.name ∈ activeTools selection := by
  obtain ⟨hf, hc⟩ := not_or.mp (mt List.mem_append.mpr (description_notMem_fixed tool))
  have ht : ∀ name ∈ activeTools selection, (describeName name = tool.description ↔ name = tool.name) :=
    fun name hn => (tells_describeName name).eq_description_iff (plain_of_active h name hn)
  rw [lines_system h, List.mem_append, List.mem_append, List.mem_map]
  constructor
  · rintro ((hm | ⟨name, hn, he⟩) | hm)
    · exact absurd hm hf
    · rwa [← (ht name hn).mp he]
    · exact absurd hm hc
  · intro hn
    exact .inl (.inr ⟨tool.name, hn, (ht _ hn).mpr rfl⟩)

end Prompt

namespace Agent

/-- For a selection of plain names, the system prompt describes a tool if and only if a plan of one step for it is
accepted. Between its fixed lines the prompt has one line for each active name, in order. An empty selection
describes and enables all tools. -/
theorem model_is_told_of_what_plans_may_use {selection : List Text} (h : ∀ name ∈ selection, Prompt.Plain name)
    (a : Agent) :
    let active := (a.select selection).active
    let lines := Text.lines (Prompt.system active)
    (∀ tool v raw, Plan.WrittenFor tool v → raw.field? "steps" = some (.arr [v]) →
      ∃ verdict, Plan.validate active raw = .ok verdict ∧
        ((∃ plan, verdict = .accepted plan) ↔ tool.description ∈ lines)) ∧
    (∃ told, lines = Prompt.preamble ++ told ++ Prompt.closing ∧ List.Forall₂ Prompt.Tells active told) ∧
    (selection ≠ [] → active = selection) ∧
    (selection = [] → ∀ tool : Tool, tool.description ∈ lines ∧
      ∀ v raw, Plan.WrittenFor tool v → raw.field? "steps" = some (.arr [v]) →
        ∃ plan, Plan.validate active raw = .ok (.accepted plan)) := by
  intro active lines
  have hl : lines = Text.lines (Prompt.system selection) := congrArg Text.lines (Prompt.system_activeTools selection)
  have hd (tool : Tool) : tool.description ∈ lines ↔ tool.name ∈ active := by
    rw [hl]
    exact Prompt.description_mem_lines_iff h tool
  refine ⟨fun tool v raw hw hr => ?_, ⟨_, hl.trans (Prompt.lines_system h), ?_⟩, fun hne => ?_, ?_⟩
  · obtain ⟨verdict, hv⟩ := Plan.exists_verdict active raw
    refine ⟨verdict, hv, ?_⟩
    rw [hd, ← Plan.accepted_iff_of_writtenFor hw hr, hv]
    simp
  · rw [List.forall₂_map_right_iff]
    exact List.forall₂_same.mpr fun name _ => Prompt.tells_describeName name
  · have he : ¬ selection.isEmpty = true := by simpa using hne
    exact if_neg he
  · rintro rfl tool
    have hm : tool.name ∈ active := List.mem_map_of_mem tool.mem_all
    exact ⟨(hd tool).mpr hm, fun v raw hw hr => (Plan.accepted_iff_of_writtenFor hw hr).mpr hm⟩

/-- A selection with a repeated name, an empty one, and names that begin like a tool or its description. -/
theorem model_is_told_of_what_plans_may_use_lookalikes :
    let selection : List Text := ["type", "", "goto ", "goto: \x7b", "type", "Available tools:"]
    let active := ((new [] (.ready [])).select selection).active
    let typing : Json := .obj [("action", .str "type"), ("selector", .str "#q"), ("value", .str ""), ("url", .null)]
    let going : Json := .obj [("url", .str "https://a.b"), ("action", .str "goto")]
    (∀ name ∈ selection, Prompt.Plain name) ∧
      Tool.typeInto.description ∈ Text.lines (Prompt.system active) ∧
      (∃ plan, Plan.validate active (.obj [("steps", .arr [typing])]) = .ok (.accepted plan)) ∧
      Tool.goto.description ∉ Text.lines (Prompt.system active) ∧
      ¬ ∃ plan, Plan.validate active (.obj [("steps", .arr [going])]) = .ok (.accepted plan) := by
  intro selection active typing going
  have hc : ∀ name ∈ selection, .char '\n' ∉ name.toList ∧ .char '\x7d' ∉ name.toList := by decide
  have hs : ∀ name ∈ selection, Prompt.Plain name := fun name hn => ⟨(hc name hn).1, Tool.ne_description (hc name hn).2⟩
  have hw : Plan.WrittenFor .typeInto typing := by
    refine ⟨rfl, fun field hf => ?_⟩
    have hf : field ∈ [Field.selector, Field.value] := hf
    simp only [List.mem_cons, List.not_mem_nil, or_false] at hf
    rcases hf with rfl | rfl
    · exact ⟨"#q", rfl, .inr (by decide)⟩
    · exact ⟨"", rfl, .inl ⟨rfl, rfl⟩⟩
  have hg : Plan.WrittenFor .goto going := by
    refine ⟨rfl, fun field hf => ?_⟩
    obtain rfl := List.mem_singleton.mp hf
    exact ⟨"https://a.b", rfl, .inr (by decide)⟩
  have hm := model_is_told_of_what_plans_may_use hs (new [] (.ready []))
  have hi : Tool.typeInto.description ∈ Text.lines (Prompt.system active) :=
    (Prompt.description_mem_lines_iff hs .typeInto).mpr (by decide)
  have hn : Tool.goto.description ∉ Text.lines (Prompt.system active) :=
    mt (Prompt.description_mem_lines_iff hs .goto).mp (by decide)
  obtain ⟨typed, ht, hti⟩ := hm.1 .typeInto typing (.obj [("steps", .arr [typing])]) hw rfl
  obtain ⟨gone, hv, hgo⟩ := hm.1 .goto going (.obj [("steps", .arr [going])]) hg rfl
  obtain ⟨plan, rfl⟩ := hti.mpr hi
  refine ⟨hs, hi, ⟨plan, ht⟩, hn, ?_⟩
  rintro ⟨plan, hp⟩
  exact hn (hgo.mp ⟨plan, Except.ok.inj (hv.symm.trans hp)⟩)

end Agent

end BrowserPilot
