import BrowserPilot.Proofs.Agent.Additions
import BrowserPilot.Proofs.Agent.Selection
import BrowserPilot.Proofs.Service.Containment

/-! The state of the service: a transcript of the messages since the last clearing, and the last selection. Requests
that only read, validate or execute change neither. -/
namespace BrowserPilot.Service
open Browser

/-- The effect of an accepted request on transcript and selection. -/
inductive Deed
  | converse (message : Text)
  | select (tools : List Text)
  | forget

namespace Deed

def perform (w : World) (runner : Runner) (a : Agent) : Deed → Agent
  | converse message => (a.run w runner (some message)).2
  | select tools => a.select tools
  | forget => a.clear

def tools? : Deed → Option (List Text)
  | select tools => some tools
  | _ => none

/-- The entries that the deed adds. -/
def additions (w : World) (runner : Runner) (a : Agent) : Deed → List Remark
  | converse message => a.additions w runner (some message)
  | _ => []

def forgets : Deed → Bool
  | forget => true
  | _ => false

end Deed

namespace Request

/-- The deed of a request. `/submit` and `/load` have the same one; requests that are not accepted have none. -/
def deed? (r : Request) : Option Deed :=
  match Route.find r.method r.target with
  | .ok .submit => (textPayload "text" r.body).toOption.map .converse
  | .ok .load => (textPayload "content" r.body).toOption.map .converse
  | .ok .selectTools => (textsPayload "enabled_tools" r.body).toOption.map .select
  | .ok .clearHistory => some .forget
  | _ => none

def tools? (r : Request) : Option (List Text) := r.deed?.bind Deed.tools?

def forgets (r : Request) : Bool := r.deed?.any Deed.forgets

/-- A request that is rejected for its path, method or body, or that only reads, validates or executes. -/
inductive Idle (r : Request) : Prop
  | astray {e : RouteError} : Route.find r.method r.target = .error e → Idle r
  | asks {route : Route} : Route.find r.method r.target = .ok route → route.method = "GET" → Idle r
  | judges : Route.find r.method r.target = .ok .validate → Idle r
  | executes : Route.find r.method r.target = .ok .execute → Idle r
  | unreadSubmission {e : PayloadError} : Route.find r.method r.target = .ok .submit →
      textPayload "text" r.body = .error e → Idle r
  | unreadInstructions {e : PayloadError} : Route.find r.method r.target = .ok .load →
      textPayload "content" r.body = .error e → Idle r
  | unreadSelection {e : PayloadError} : Route.find r.method r.target = .ok .selectTools →
      textsPayload "enabled_tools" r.body = .error e → Idle r

theorem Idle.deed?_eq_none {r : Request} (h : r.Idle) : r.deed? = none := by
  unfold deed?
  cases h with
  | astray hf => rw [hf]
  | @asks route hf hm =>
    rw [hf]
    cases route <;> first | rfl | simp [Route.method] at hm
  | judges hf => rw [hf]
  | executes hf => rw [hf]
  | unreadSubmission hf hb =>
    rw [hf, hb]
    rfl
  | unreadInstructions hf hb =>
    rw [hf, hb]
    rfl
  | unreadSelection hf hb =>
    rw [hf, hb]
    rfl

/-- Every request without a deed is idle. -/
theorem idle_of_deed?_eq_none {r : Request} (h : r.deed? = none) : r.Idle := by
  unfold deed? at h
  cases hf : Route.find r.method r.target with
  | error e => exact .astray hf
  | ok route =>
    rw [hf] at h
    cases route with
    | submit =>
      cases hb : textPayload "text" r.body with
      | error e => exact .unreadSubmission hf hb
      | ok message => simp [hb, Except.toOption] at h
    | load =>
      cases hb : textPayload "content" r.body with
      | error e => exact .unreadInstructions hf hb
      | ok message => simp [hb, Except.toOption] at h
    | selectTools =>
      cases hb : textsPayload "enabled_tools" r.body with
      | error e => exact .unreadSelection hf hb
      | ok tools => simp [hb, Except.toOption] at h
    | clearHistory => cases h
    | validate => exact .judges hf
    | execute => exact .executes hf
    | listTools => exact .asks hf rfl
    | exportTranscript => exact .asks hf rfl
    | describe => exact .asks hf rfl
    | page p => exact .asks hf rfl

end Request

/-- The agents are equal up to their logs. -/
def SameButLog (a b : Agent) : Prop := b = { a with log := b.log }

variable {w : World} {runner : Runner} {a : Agent} {r : Request}

theorem sameButLog_refl (a : Agent) : SameButLog a a := rfl

theorem sameButLog_executePlan (w : World) (runner : Runner) (a : Agent) (p : PlanPayload) :
    SameButLog a (executePlan w runner a p).2 := by
  unfold executePlan
  cases judge p with
  | error misfit => exact sameButLog_refl a
  | ok verdict =>
    cases verdict with
    | rejected defects => exact sameButLog_refl a
    | accepted plan => rfl

theorem sameButLog_withPayload {α : Type} (payload : Except PayloadError α) {f : α → Response × Agent}
    (h : ∀ p, SameButLog a (f p).2) : SameButLog a (withPayload payload a f).2 := by
  cases payload with
  | error e => exact sameButLog_refl a
  | ok p => exact h p

theorem withPayload_cases {α : Type} (payload : Except PayloadError α) (deed : α → Deed) {f : α → Response × Agent}
    (h : ∀ p, (f p).2 = (deed p).perform w runner a) :
    (∃ d, payload.toOption.map deed = some d ∧ (withPayload payload a f).2 = d.perform w runner a) ∨
      (payload.toOption.map deed = none ∧ SameButLog a (withPayload payload a f).2) := by
  cases payload with
  | error e => exact .inr ⟨rfl, sameButLog_refl a⟩
  | ok p => exact .inl ⟨deed p, rfl, h p⟩

/-- A request performs its deed, or changes nothing but the log. -/
theorem handle_cases (w : World) (runner : Runner) (r : Request) (a : Agent) :
    (∃ deed, r.deed? = some deed ∧ (handle w runner r a).2 = deed.perform w runner a) ∨
      (r.deed? = none ∧ SameButLog a (handle w runner r a).2) := by
  unfold Request.deed? handle
  cases Route.find r.method r.target with
  | error e => exact .inr ⟨rfl, sameButLog_refl a⟩
  | ok route =>
    cases route with
    | submit => exact withPayload_cases (textPayload "text" r.body) .converse fun _ => rfl
    | load => exact withPayload_cases (textPayload "content" r.body) .converse fun _ => rfl
    | selectTools => exact withPayload_cases (textsPayload "enabled_tools" r.body) .select fun _ => rfl
    | clearHistory => exact .inl ⟨.forget, rfl, rfl⟩
    | validate =>
      refine .inr ⟨rfl, sameButLog_withPayload (planPayload r.body) fun p => ?_⟩
      cases judge p <;> exact sameButLog_refl a
    | execute => exact .inr ⟨rfl, sameButLog_withPayload (planPayload r.body) (sameButLog_executePlan w runner a)⟩
    | exportTranscript =>
      refine .inr ⟨rfl, ?_⟩
      simp only [follow]
      cases a.transcript.toMarkdown <;> exact sameButLog_refl a
    | listTools => exact .inr ⟨rfl, sameButLog_refl a⟩
    | describe => exact .inr ⟨rfl, sameButLog_refl a⟩
    | page p => exact .inr ⟨rfl, sameButLog_refl a⟩

theorem sameButLog_of_idle (w : World) (runner : Runner) (a : Agent) (h : r.Idle) :
    SameButLog a (handle w runner r a).2 := by
  rcases handle_cases w runner r a with ⟨deed, hd, _⟩ | ⟨_, he⟩
  · rw [h.deed?_eq_none] at hd
    cases hd
  · exact he

/-- A request with its world and the agent that handles it. -/
structure Turn where
  world : World
  request : Request
  agent : Agent

def Turn.additions (runner : Runner) (t : Turn) : List Remark :=
  t.request.deed?.toList.flatMap (Deed.additions t.world runner t.agent)

theorem Turn.additions_of_forgets {t : Turn} (h : t.request.forgets = true) : t.additions runner = [] := by
  unfold Request.forgets at h
  unfold Turn.additions
  cases hd : t.request.deed? with
  | none => rfl
  | some deed =>
    cases deed with
    | forget => rfl
    | converse message => simp [hd, Deed.forgets] at h
    | select tools => simp [hd, Deed.forgets] at h

theorem remarks_handle (w : World) (runner : Runner) (r : Request) (a : Agent) :
    (handle w runner r a).2.transcript.entries.map Remark.ofEntry =
      (if r.forgets then [] else a.transcript.entries.map Remark.ofEntry) ++ Turn.additions runner ⟨w, r, a⟩ := by
  unfold Request.forgets Turn.additions
  rcases handle_cases w runner r a with ⟨deed, hd, he⟩ | ⟨hd, he⟩
  · rw [he, hd]
    cases deed with
    | converse message => simpa [Deed.perform, Deed.forgets, Deed.additions] using a.remarks_run w runner (some message)
    | select tools => simp [Deed.perform, Deed.forgets, Deed.additions, Agent.select]
    | forget => rfl
  · rw [he, hd]
    simp

theorem selection_handle (w : World) (runner : Runner) (r : Request) (a : Agent) :
    (handle w runner r a).2.selection = r.tools?.getD a.selection := by
  unfold Request.tools?
  rcases handle_cases w runner r a with ⟨deed, hd, he⟩ | ⟨hd, he⟩
  · rw [he, hd]
    cases deed with
    | converse message => exact a.selection_run w runner (some message)
    | select tools => rfl
    | forget => rfl
  · rw [he, hd]
    rfl

/-- The entries of a request can be exported. -/
theorem Turn.legible_of_mem_additions {t : Turn} {remark : Remark} (h : remark ∈ t.additions runner) :
    remark.Legible := by
  obtain ⟨deed, _, hm⟩ := List.mem_flatMap.mp h
  cases deed with
  | converse message => exact Agent.legible_of_mem_additions hm
  | select tools => cases hm
  | forget => cases hm

/-- The agent after a sequence of requests, each in its own world. -/
def served (runner : Runner) (a : Agent) (requests : List (World × Request)) : Agent :=
  requests.foldl (fun a p => (handle p.1 runner p.2 a).2) a

def turns (runner : Runner) : Agent → List (World × Request) → List Turn
  | _, [] => []
  | a, (w, r) :: requests => ⟨w, r, a⟩ :: turns runner (handle w runner r a).2 requests

/-- The entries added since the last clearing. -/
def said (runner : Runner) (a : Agent) (requests : List (World × Request)) : List Remark :=
  ((turns runner a requests).rtakeWhile fun t => !t.request.forgets).flatMap (Turn.additions runner)

/-- The list of the last accepted selection. -/
def selected (requests : List Request) : List Text := (requests.filterMap Request.tools?).getLast?.getD []

theorem served_concat (runner : Runner) (a : Agent) (requests : List (World × Request)) (w : World) (r : Request) :
    served runner a (requests ++ [(w, r)]) = (handle w runner r (served runner a requests)).2 := by
  rw [served, List.foldl_append]
  rfl

theorem turns_concat (runner : Runner) (a : Agent) (requests : List (World × Request)) (w : World) (r : Request) :
    turns runner a (requests ++ [(w, r)]) = turns runner a requests ++ [⟨w, r, served runner a requests⟩] := by
  induction requests generalizing a with
  | nil => rfl
  | cons p requests ih =>
    rw [List.cons_append, turns, turns, ih]
    rfl

theorem said_concat (runner : Runner) (a : Agent) (requests : List (World × Request)) (w : World) (r : Request) :
    said runner a (requests ++ [(w, r)]) =
      (if r.forgets then [] else said runner a requests) ++ Turn.additions runner ⟨w, r, served runner a requests⟩ := by
  rw [said, turns_concat, List.rtakeWhile_concat]
  cases hf : r.forgets with
  | true => simp [Turn.additions_of_forgets (t := ⟨w, r, served runner a requests⟩) hf]
  | false => simp [said]

theorem selected_concat (requests : List Request) (r : Request) :
    selected (requests ++ [r]) = r.tools?.getD (selected requests) := by
  rw [selected, List.filterMap_append]
  cases hr : r.tools? <;> simp [selected, hr]

/-- The transcript consists of the entries added since the last clearing. -/
theorem remarks_served (runner : Runner) {a : Agent} (h : a.transcript = .empty) (requests : List (World × Request)) :
    (served runner a requests).transcript.entries.map Remark.ofEntry = said runner a requests := by
  -- from the right, since it is the last request that decides what still stands of the earlier ones
  induction requests using List.reverseRecOn with
  | nil =>
    rw [served, List.foldl_nil, h]
    rfl
  | append_singleton requests p ih =>
    obtain ⟨w, r⟩ := p
    rw [served_concat, said_concat, remarks_handle, ih]

theorem selection_served (runner : Runner) {a : Agent} (h : a.selection = []) (requests : List (World × Request)) :
    (served runner a requests).selection = selected (requests.map Prod.snd) := by
  induction requests using List.reverseRecOn with
  | nil => exact h
  | append_singleton requests p ih =>
    obtain ⟨w, r⟩ := p
    rw [served_concat, selection_handle, ih, List.map_append, List.map_cons, List.map_nil, selected_concat]

theorem legible_of_mem_said {requests : List (World × Request)} {remark : Remark}
    (h : remark ∈ said runner a requests) : remark.Legible := by
  obtain ⟨t, _, hm⟩ := List.mem_flatMap.mp h
  exact t.legible_of_mem_additions hm

/-- The export is the markdown of those entries, and it always succeeds. -/
theorem handle_exportTranscript (w : World) (runner : Runner)
    (hf : Route.find r.method r.target = .ok .exportTranscript) {remarks : List Remark}
    (he : a.transcript.entries.map Remark.ofEntry = remarks) (hl : ∀ remark ∈ remarks, remark.Legible) :
    ∃ text, handle w runner r a = (⟨200, .markdown text⟩, a) ∧
      ∀ t : Transcript, t.entries.map Remark.ofEntry = remarks → t.toMarkdown = .ok text := by
  obtain ⟨text, ht⟩ := Transcript.exists_toMarkdown (t := a.transcript) (he ▸ hl)
  refine ⟨text, ?_, fun t h => ?_⟩
  · rw [handle_of_find hf, follow, ht]
    simp only [Response.markdown, if_pos (Transcript.isEncodable_of_toMarkdown ht)]
  · rw [← ht]
    exact Transcript.toMarkdown_eq_of_map_ofEntry_eq (h.trans he.symm)

theorem isSendable_toolsJson (a : Agent) : Response.isSendable (toolsJson a) = a.active.all Text.isEncodable := by
  have hn : Response.isSendable (.arr (Tool.names.map .str)) = true := by decide +kernel
  have hd : Response.isSendable (.obj (Tool.all.map fun t => (t.name, .str t.description))) = true := by decide +kernel
  have ha : Response.isSendable (.arr (a.active.map .str)) = _ := Response.isSendable_texts id a.active
  rw [toolsJson]
  simp only [Response.isSendable, Response.areFieldsSendable, Text.isEncodable_ofString] at hn hd ha ⊢
  simp [hn, hd, ha]

/-- The active tools are shown if their names can be encoded. -/
theorem handle_listTools (w : World) (runner : Runner) (a : Agent)
    (hf : Route.find r.method r.target = .ok .listTools) :
    ∃ v, handle w runner r a = (if a.active.all Text.isEncodable then ⟨200, .json v⟩ else .failed, a) ∧
      v.field? "enabled" = some (.arr (a.active.map .str)) := by
  refine ⟨toolsJson a, ?_, rfl⟩
  rw [handle_of_find hf, follow, Response.ok, Response.json, isSendable_toolsJson]

theorem handle_selectTools {tools : List Text} (hf : Route.find r.method r.target = .ok .selectTools)
    (hb : textsPayload "enabled_tools" r.body = .ok tools) :
    handle w runner r a =
      (if (activeTools tools).all Text.isEncodable then
        ⟨200, .json (.obj [("enabled", .arr ((activeTools tools).map .str))])⟩ else .failed, a.select tools) := by
  have hs : Response.isSendable (.arr ((activeTools tools).map .str)) = (activeTools tools).all Text.isEncodable :=
    Response.isSendable_texts id (activeTools tools)
  rw [handle_of_find hf, follow, hb, ← hs, ← Response.ok_field]
  rfl

theorem tools?_of_selectTools {tools : List Text} (hf : Route.find r.method r.target = .ok .selectTools)
    (hb : textsPayload "enabled_tools" r.body = .ok tools) : r.tools? = some tools := by
  unfold Request.tools? Request.deed?
  rw [hf, hb]
  rfl

theorem handle_of_converse {message : Text} (w : World) (runner : Runner) (a : Agent)
    (h : r.deed? = some (.converse message)) : handle w runner r a = converse w runner a message := by
  have accepted {key : Text} (hd : (textPayload key r.body).toOption.map Deed.converse = some (.converse message)) :
      textPayload key r.body = .ok message := by
    cases hb : textPayload key r.body with
    | error e => simp [hb, Except.toOption] at hd
    | ok text => simpa [hb, Except.toOption] using hd
  unfold Request.deed? at h
  cases hf : Route.find r.method r.target with
  | error e =>
    rw [hf] at h
    cases h
  | ok route =>
    rw [hf] at h
    rw [handle_of_find hf]
    cases route with
    | submit => rw [follow, accepted h, withPayload]
    | load => rw [follow, accepted h, withPayload]
    | selectTools => simp at h
    | _ => cases h

theorem deed?_of_submit {message : Text} (hf : Route.find r.method r.target = .ok .submit)
    (hb : textPayload "text" r.body = .ok message) : r.deed? = some (.converse message) := by
  unfold Request.deed?
  rw [hf, hb]
  rfl

theorem deed?_of_load {message : Text} (hf : Route.find r.method r.target = .ok .load)
    (hb : textPayload "content" r.body = .ok message) : r.deed? = some (.converse message) := by
  unfold Request.deed?
  rw [hf, hb]
  rfl

/-- A message whose task can be encoded adds the task and the entries of its outcome, which is the answer, or the
entries before a failure whose text cannot be encoded. -/
theorem told_of_converse {message : Text} (w : World) (runner : Runner) (a : Agent)
    (h : r.deed? = some (.converse message)) (ht : (Text.strip message).isEncodable = true) :
    ∃ remarks, Turn.additions runner ⟨w, r, a⟩ = .ofUser (Text.strip message) :: remarks ∧
      ((∃ outcome, (handle w runner r a).1 = .ok outcome.toJson ∧ Agent.Told w runner a outcome remarks) ∨
        ∃ f, (handle w runner r a).1 = .failed ∧ Agent.Meets w runner a f remarks ∧ f.text.isEncodable = false) := by
  have ht : (Agent.taskOf (some message)).isEncodable = true := ht
  obtain ⟨remarks, he, hr⟩ := a.told_additions w runner ht
  refine ⟨remarks, ?_, ?_⟩
  · rw [Turn.additions, h, Option.toList_some, List.flatMap_singleton]
    exact he
  · rw [handle_of_converse w runner a h, converse]
    obtain ⟨outcome, ho, hr⟩ | ⟨f, hm, hn, ho⟩ := hr
    · exact .inl ⟨outcome, by simp only [ho, Response.ofOutcome], hr⟩
    · exact .inr ⟨f, by simp only [ho, Response.ofOutcome], hm, hn⟩

theorem handle_of_unencodable {message : Text} (w : World) (runner : Runner) (a : Agent)
    (h : r.deed? = some (.converse message)) (ht : (Text.strip message).isEncodable = false) :
    handle w runner r a = (.failed, a) ∧ Turn.additions runner ⟨w, r, a⟩ = [] := by
  have ht : (Agent.taskOf (some message)).isEncodable = false := ht
  constructor
  · rw [handle_of_converse w runner a h, converse, Agent.run_of_unencodable w runner a ht]
    rfl
  · rw [Turn.additions, h]
    simpa [Deed.additions] using Agent.additions_of_unencodable w runner a ht

/-- After any sequence of requests from an empty state, the export is the markdown of the entries added by accepted
messages since the last clearing, and the active tools are the last selection, or all tools if it is empty.
`enabled` is shown if the names can be encoded; otherwise the answer is 500, also to the request that selects them.
`/submit` and `/load` have the same answer and effect: the task and the entries of its outcome, or nothing if the
task cannot be encoded. Every other request leaves transcript and selection unchanged, whatever its answer. -/
theorem requests_keep_transcript_and_selection (runner : Runner) (model : ChatModel) (log : Log)
    (requests : List (World × Request)) :
    let start : Agent := ⟨[], .empty, model, log⟩
    let a := served runner start requests
    let remarks := said runner start requests
    let inUse (chosen : List Text) : List Text := if chosen = [] then Tool.names else chosen
    let tools := inUse (selected (requests.map Prod.snd))
    a.transcript.entries.map Remark.ofEntry = remarks ∧ a.active = tools ∧
      ∀ w r,
        (Route.find r.method r.target = .ok .exportTranscript →
          ∃ text, (handle w runner r a).1 = ⟨200, .markdown text⟩ ∧
            ∀ t : Transcript, t.entries.map Remark.ofEntry = remarks → t.toMarkdown = .ok text) ∧
        (Route.find r.method r.target = .ok .listTools →
          ∃ v, (handle w runner r a).1 = (if tools.all Text.isEncodable then ⟨200, .json v⟩ else .failed) ∧
            v.field? "enabled" = some (.arr (tools.map .str))) ∧
        (∀ chosen, Route.find r.method r.target = .ok .selectTools →
          textsPayload "enabled_tools" r.body = .ok chosen →
          (handle w runner r a).1 = (if (inUse chosen).all Text.isEncodable then
            ⟨200, .json (.obj [("enabled", .arr ((inUse chosen).map .str))])⟩ else .failed) ∧
          selected (requests.map Prod.snd ++ [r]) = chosen) ∧
        (∀ r' message, Route.find r.method r.target = .ok .submit → Route.find r'.method r'.target = .ok .load →
          textPayload "text" r.body = .ok message → textPayload "content" r'.body = .ok message →
          handle w runner r a = handle w runner r' a) ∧
        (∀ message, r.deed? = some (.converse message) →
          ((Text.strip message).isEncodable = true →
            ∃ added, Turn.additions runner ⟨w, r, a⟩ = .ofUser (Text.strip message) :: added ∧
              ((∃ outcome, (handle w runner r a).1 = .ok outcome.toJson ∧ Agent.Told w runner a outcome added) ∨
                ∃ f, (handle w runner r a).1 = .failed ∧ Agent.Meets w runner a f added ∧
                  f.text.isEncodable = false)) ∧
          ((Text.strip message).isEncodable = false →
            handle w runner r a = (.failed, a) ∧ Turn.additions runner ⟨w, r, a⟩ = [])) ∧
        (r.Idle ↔ r.deed? = none) ∧
        (r.Idle → (handle w runner r a).2.transcript = a.transcript ∧
          (handle w runner r a).2.selection = a.selection) := by
  intro start a remarks inUse tools
  have hr : a.transcript.entries.map Remark.ofEntry = remarks := remarks_served runner rfl requests
  have hu (chosen : List Text) : activeTools chosen = inUse chosen := activeTools_eq chosen
  have ht : a.active = tools :=
    (congrArg activeTools (selection_served runner rfl requests)).trans (hu _)
  refine ⟨hr, ht, fun w r => ⟨?_, ?_, ?_, ?_, ?_, ?_, ?_⟩⟩
  · intro hf
    obtain ⟨text, hh, he⟩ := handle_exportTranscript w runner hf hr fun _ => legible_of_mem_said
    exact ⟨text, by rw [hh], he⟩
  · intro hf
    obtain ⟨v, hh, he⟩ := handle_listTools w runner a hf
    exact ⟨v, by rw [hh, ht], ht ▸ he⟩
  · intro chosen hf hb
    refine ⟨by rw [handle_selectTools hf hb, hu], ?_⟩
    rw [selected_concat, tools?_of_selectTools hf hb, Option.getD_some]
  · intro r' message hf hf' hb hb'
    have hd := handle_of_converse w runner a (deed?_of_submit hf hb)
    exact hd.trans (handle_of_converse w runner a (deed?_of_load hf' hb')).symm
  · exact fun message hd => ⟨told_of_converse w runner a hd, handle_of_unencodable w runner a hd⟩
  · exact ⟨Request.Idle.deed?_eq_none, Request.idle_of_deed?_eq_none⟩
  · intro hi
    rw [sameButLog_of_idle w runner a hi]
    exact ⟨rfl, rfl⟩

/-- A selected name that is a lone surrogate. Both requests are answered 500. -/
theorem selection_is_not_shown_with_half_pair :
    let runner : Runner := ⟨.ready .plain, ⟨.none, ["shots"]⟩⟩
    let w : World := ⟨[], none, []⟩
    let selection : Request := ⟨"PUT", "/tools", "\x7b\"enabled_tools\": [\"\\ud800\"]\x7d".toUTF8.toList, none⟩
    let question : Request := ⟨"GET", "/tools", [], none⟩
    let a := served runner (.new [] (.ready [])) [(w, selection)]
    selection.tools? = some [Text.ofList [.ofNat 0xD800]] ∧
      (handle w runner selection (.new [] (.ready []))).1.status = 500 ∧
      (handle w runner question a).1.status = 500 := by
  decide +kernel

example :
    let submission : Request := ⟨"POST", "/submit", "\x7b\"text\": \"hi\"\x7d".toUTF8.toList, none⟩
    let clearing : Request := ⟨"DELETE", "/history", [], none⟩
    said ⟨.ready .plain, ⟨.none, ["shots"]⟩⟩ ⟨[], .empty, .ready [], []⟩
      ([submission, submission, clearing, submission].map fun r => (⟨[], none, []⟩, r)) =
      [⟨"user", "hi", none⟩, ⟨"llm", "Error: no more replies", none⟩] := by
  decide +kernel

end BrowserPilot.Service
