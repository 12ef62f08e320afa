import BrowserPilot.Proofs.Agent.Additions
import BrowserPilot.Proofs.Agent.Requests

/-! The transcript is write-only. Agents that are equal up to their transcripts have the same outcomes, requests and
calls for any operations, whenever their transcripts are cleared. -/
namespace BrowserPilot
open Browser

namespace Agent

/-- The agents are equal up to their transcripts. -/
def SameButTranscript (a b : Agent) : Prop := b = { a with transcript := b.transcript }

namespace SameButTranscript
variable {a b : Agent}

theorem refl (a : Agent) : SameButTranscript a a := rfl

theorem symm (h : SameButTranscript a b) : SameButTranscript b a := by
  rw [SameButTranscript, h]

theorem trans {c : Agent} (h : SameButTranscript a b) (h' : SameButTranscript b c) : SameButTranscript a c := by
  rw [SameButTranscript, h', h]

theorem with_transcript (h : SameButTranscript a b) (t t' : Transcript) :
    SameButTranscript { a with transcript := t } { b with transcript := t' } := by
  rw [SameButTranscript, h]

theorem selection_eq (h : SameButTranscript a b) : b.selection = a.selection := by rw [h]

theorem model_eq (h : SameButTranscript a b) : b.model = a.model := by rw [h]

theorem log_eq (h : SameButTranscript a b) : b.log = a.log := by rw [h]

theorem with_model (h : SameButTranscript a b) (m : ChatModel) :
    SameButTranscript { a with model := m } { b with model := m } := by
  rw [SameButTranscript, h]

theorem with_log (h : SameButTranscript a b) (log : Log) :
    SameButTranscript { a with log := log } { b with log := log } := by
  rw [SameButTranscript, h]

theorem select (h : SameButTranscript a b) (tools : List Text) :
    SameButTranscript (a.select tools) (b.select tools) := by
  rw [SameButTranscript, h]
  rfl

end SameButTranscript

/-- Run from agents that are equal up to their transcripts, the attempt has the same result, adds the same entries
and leads to agents that are again equal up to their transcripts. -/
def Blind {α : Type} (x : Attempt Agent α) : Prop :=
  ∀ a b, SameButTranscript a b → (x.run b).1 = (x.run a).1 ∧ SameButTranscript (x.run a).2 (x.run b).2 ∧
    ∃ remarks, a.transcript.Grows (x.run a).2.transcript remarks ∧ b.transcript.Grows (x.run b).2.transcript remarks

namespace Blind
variable {α β : Type}

theorem pure (r : α) : Blind (pure r : Attempt Agent α) :=
  fun _ _ h => ⟨rfl, h, [], .refl _, .refl _⟩

theorem throw (f : Failure) : Blind (throw f : Attempt Agent α) :=
  fun _ _ h => ⟨rfl, h, [], .refl _, .refl _⟩

theorem bind {x : Attempt Agent α} {k : α → Attempt Agent β} (hx : Blind x) (hk : ∀ r, Blind (k r)) :
    Blind (x >>= k) := by
  intro a b h
  obtain ⟨he, hs, before, ha, hb⟩ := hx a b h
  rw [Attempt.run_bind, Attempt.run_bind]
  cases hra : x.run a with
  | mk ra a' =>
    cases hrb : x.run b with
    | mk rb b' =>
      rw [hra, hrb] at he hs
      rw [hra] at ha
      rw [hrb] at hb
      obtain rfl : rb = ra := he
      cases rb with
      | error f => exact ⟨rfl, hs, before, ha, hb⟩
      | ok r =>
        obtain ⟨he', hs', after, ha', hb'⟩ := hk r a' b' hs
        exact ⟨he', hs', before ++ after, ha.trans ha', hb.trans hb'⟩

/-- An attempt may depend on every field of the agent but the transcript. -/
theorem get_bind {k : Agent → Attempt Agent α} (hk : ∀ a, Blind (k a))
    (hs : ∀ a b, SameButTranscript a b → k b = k a) : Blind (get >>= k) := by
  intro a b h
  have hg (c : Agent) : (get : Attempt Agent Agent).run c = (.ok c, c) := rfl
  rw [Attempt.run_bind, Attempt.run_bind, hg, hg]
  simp only [hs a b h]
  exact hk a a b h

theorem record (role : String) (text : Text) : Blind (record role text none) := by
  intro a b h
  rw [run_record, run_record]
  cases ht : text.isEncodable with
  | true => exact ⟨rfl, h.with_transcript _ _, _, .noted _ role ht, .noted _ role ht⟩
  | false =>
    rw [noted_of_unencodable a role ht, noted_of_unencodable b role ht]
    exact ⟨rfl, h, [], .refl _, .refl _⟩

theorem withModel (x : Attempt ChatModel α) : Blind (withModel x) := by
  intro a b h
  rw [run_withModel, run_withModel, h.model_eq]
  exact ⟨rfl, h.with_model _, [], .refl _, .refl _⟩

theorem withBrowser (x : Attempt Desk α) : Blind (withBrowser x) := by
  intro a b h
  rw [run_withBrowser, run_withBrowser, h.log_eq]
  exact ⟨rfl, h.with_log _, [], .refl _, .refl _⟩

theorem recordResults (results : List StepResult) : Blind (recordResults results) := by
  intro a b h
  rw [run_recordResults, run_recordResults]
  exact ⟨rfl, h.with_transcript _ _, _, .addResults _ results, .addResults _ results⟩

theorem carryOut (w : World) (runner : Runner) (system : Text) (plan : Plan) :
    Blind (carryOut w runner system plan) :=
  (record _ _).bind fun _ => (withBrowser _).bind fun results => (recordResults results).bind fun _ =>
    (withModel _).bind fun _ => (record _ _).bind fun _ => pure _

theorem follow (w : World) (runner : Runner) (system : Text) (reply : ModelReply) :
    Blind (follow w runner system reply) := by
  cases reply with
  | question text => exact (record _ _).bind fun _ => pure _
  | plan raw =>
    refine get_bind (fun a => ?_) fun a b h => ?_
    · split
      · exact throw _
      · exact (record _ _).bind fun _ => pure _
      · exact carryOut w runner system _
    · rw [active, active, h.selection_eq]

theorem pursue (w : World) (runner : Runner) (task : Text) : Blind (pursue w runner task) := by
  refine get_bind (fun a => (withModel _).bind fun answer => ?_) fun a b h => ?_
  · split
    · exact throw _
    · exact follow w runner _ _
  · rw [h.selection_eq]

end Blind

section
variable {a b : Agent} (h : SameButTranscript a b) (w : World) (runner : Runner)
include h

theorem SameButTranscript.closed (result : Except Failure Outcome) :
    SameButTranscript (a.closed result) (b.closed result) ∧
      ∃ last, a.transcript.Grows (a.closed result).transcript last ∧
        b.transcript.Grows (b.closed result).transcript last := by
  cases result with
  | ok outcome => exact ⟨h, [], .refl _, .refl _⟩
  | error f =>
    have hr (c : Agent) : ((Agent.record modelRole ("Error: " ++ f.text) none).run c).2 = c.closed (.error f) := by
      rw [run_record]
      rfl
    rw [← hr a, ← hr b]
    exact (Blind.record modelRole ("Error: " ++ f.text) a b h).2

/-- A run has the same outcome and adds the same entries for both agents. -/
theorem SameButTranscript.grow_alike (message : Option Text) :
    ∃ remarks, a.transcript.Grows (a.run w runner message).2.transcript remarks ∧
      b.transcript.Grows (b.run w runner message).2.transcript remarks ∧
      (b.run w runner message).1 = (a.run w runner message).1 ∧
      SameButTranscript (a.run w runner message).2 (b.run w runner message).2 := by
  cases ht : (taskOf message).isEncodable with
  | false =>
    rw [run_of_unencodable w runner a ht, run_of_unencodable w runner b ht]
    exact ⟨[], .refl _, .refl _, rfl, h⟩
  | true =>
    rw [run_of_encodable w runner a ht, run_of_encodable w runner b ht]
    generalize taskOf message = task at ht ⊢
    have hua := Transcript.Grows.noted a.transcript userRole ht
    have hub := Transcript.Grows.noted b.transcript userRole ht
    obtain ⟨he, hs, remarks, ha, hb⟩ :=
      Blind.pursue w runner task (a.noted userRole task) (b.noted userRole task) (h.with_transcript _ _)
    cases hra : (Agent.pursue w runner task).run (a.noted userRole task) with
    | mk ra a' =>
      cases hrb : (Agent.pursue w runner task).run (b.noted userRole task) with
      | mk rb b' =>
        rw [hra, hrb] at he hs
        rw [hra] at ha
        rw [hrb] at hb
        obtain rfl : rb = ra := he
        obtain ⟨hsc, last, hca, hcb⟩ := hs.closed rb
        exact ⟨_, hua.trans (ha.trans hca), hub.trans (hb.trans hcb), rfl, hsc⟩

theorem SameButTranscript.run (message : Option Text) :
    (b.run w runner message).1 = (a.run w runner message).1 ∧
      SameButTranscript (a.run w runner message).2 (b.run w runner message).2 ∧
      b.additions w runner message = a.additions w runner message := by
  obtain ⟨remarks, ha, hb, he, hs⟩ := h.grow_alike w runner message
  exact ⟨he, hs, by rw [additions, additions, ha.map_drop, hb.map_drop]⟩

end

/-! ### Operations -/

def Operation.clears : Operation → Bool
  | .clear => true
  | _ => false

/-- What can be observed of an operation: its outcome, the requests to the model, the calls, and the added entries. -/
structure Effect where
  outcome : Option (Except Failure Outcome)
  requests : List (List Message)
  calls : Log
  remarks : List Remark

def effect (w : World) (runner : Runner) (a : Agent) (op : Operation) : Effect :=
  let ended := a.act w runner op
  { outcome := ended.1
    requests := ended.2.model.requests.drop a.model.requests.length
    calls := ended.2.log.drop a.log.length
    remarks := (ended.2.transcript.entries.drop a.transcript.entries.length).map Remark.ofEntry }

/-- The effects of a sequence of operations, each in its own world. Clearing the transcript has none. -/
def effects (runner : Runner) : Agent → List (World × Operation) → List Effect
  | _, [] => []
  | a, (w, op) :: ops =>
    (if op.clears then [] else [a.effect w runner op]) ++ effects runner (a.act w runner op).2 ops

/-- An operation appends its effect to the requests, the log and the transcript. -/
theorem effect_adds (w : World) (runner : Runner) (a : Agent) {op : Operation} (h : op.clears = false) :
    (a.act w runner op).2.model.requests = a.model.requests ++ (a.effect w runner op).requests ∧
      (a.act w runner op).2.log = a.log ++ (a.effect w runner op).calls ∧
      a.transcript.Grows (a.act w runner op).2.transcript (a.effect w runner op).remarks := by
  have hd {α : Type} {l l' : List α} (hp : l <+: l') : l' = l ++ l'.drop l.length :=
    (List.prefix_iff_eq_append.mp hp).symm
  cases op with
  | run message =>
    obtain ⟨made, hl, _⟩ := runner.logAfter_eq w a.log (a.commandsFor? message)
    refine ⟨hd ?_, hd ⟨made, (hl.symm.trans (log_run w runner message a).symm)⟩, a.grows_run w runner message⟩
    change _ <+: (a.run w runner message).2.model.requests
    cases ht : (taskOf message).isEncodable with
    | true =>
      obtain ⟨later, hq, _⟩ := requests_run w runner a ht
      exact ⟨_, hq.symm⟩
    | false =>
      exact ⟨[], by rw [run_of_unencodable w runner a ht, List.append_nil]⟩
  | select tools =>
    exact ⟨hd List.prefix_rfl, hd List.prefix_rfl, [], by simp [act, select], by simp [effect, act, select]⟩
  | replaceModel answers =>
    exact ⟨hd List.prefix_rfl, hd List.prefix_rfl, [], by simp [act], by simp [effect, act]⟩
  | clear => cases h

theorem SameButTranscript.act {a b : Agent} (h : SameButTranscript a b) (w : World) (runner : Runner) {op : Operation}
    (hc : op.clears = false) :
    b.effect w runner op = a.effect w runner op ∧ SameButTranscript (a.act w runner op).2 (b.act w runner op).2 := by
  cases op with
  | run message =>
    obtain ⟨ho, hs, hm⟩ := h.run w runner message
    refine ⟨?_, hs⟩
    simp only [effect, Agent.act]
    rw [← additions, ← additions, ho, hm, hs.model_eq, hs.log_eq, h.model_eq, h.log_eq]
  | select tools => exact ⟨by simp [effect, Agent.act, Agent.select], h.select tools⟩
  | replaceModel answers =>
    refine ⟨by simp [effect, Agent.act, ChatModel.replace], ?_⟩
    rw [Agent.act, Agent.act, h.model_eq]
    exact h.with_model _
  | clear => cases hc

/-- Clearing the transcript can be left out without changing the effects of the other operations. -/
theorem SameButTranscript.without_clears (runner : Runner) (ops : List (World × Operation)) :
    ∀ {a b : Agent}, SameButTranscript a b →
      b.effects runner (ops.filter fun op => !op.2.clears) = a.effects runner ops ∧
      SameButTranscript (a.after runner ops) (b.after runner (ops.filter fun op => !op.2.clears)) := by
  -- for all agents at once, since each operation leaves other ones behind
  induction ops with
  | nil => exact fun h => ⟨rfl, h⟩
  | cons op ops ih =>
    obtain ⟨w, op⟩ := op
    intro a b h
    cases hc : op.clears with
    | true =>
      rw [List.filter_cons_of_neg (by simp [hc]), effects, if_pos hc]
      cases op with
      | clear => exact ih (h.with_transcript a.transcript.clear b.transcript)
      | _ => cases hc
    | false =>
      obtain ⟨he, hs⟩ := h.act w runner hc
      obtain ⟨hes, hss⟩ := ih hs
      have hn : ¬ op.clears = true := by simp [hc]
      rw [List.filter_cons_of_pos (by simp [hc]), effects, effects, if_neg hn, if_neg hn, he, hes]
      exact ⟨rfl, hss⟩

/-- Two agents that are equal up to their transcripts perform the same operations, with the transcript cleared at
different points. Then the outcomes, the requests, the calls and the added entries are the same. These are all
effects: an operation other than a clearing only appends them to the state. -/
theorem transcript_has_no_influence (runner : Runner) {a b : Agent} (h : SameButTranscript a b)
    {ops ops' : List (World × Operation)}
    (hops : (ops.filter fun op => !op.2.clears) = ops'.filter fun op => !op.2.clears) :
    b.effects runner ops' = a.effects runner ops ∧
      SameButTranscript (a.after runner ops) (b.after runner ops') ∧
      ∀ w (c : Agent) op, op.clears = false →
        (c.act w runner op).2.model.requests = c.model.requests ++ (c.effect w runner op).requests ∧
        (c.act w runner op).2.log = c.log ++ (c.effect w runner op).calls ∧
        c.transcript.Grows (c.act w runner op).2.transcript (c.effect w runner op).remarks := by
  obtain ⟨he, hs⟩ := h.without_clears runner ops
  obtain ⟨he', hs'⟩ := (SameButTranscript.refl b).without_clears runner ops'
  rw [← hops] at he' hs'
  exact ⟨he'.symm.trans he, hs.trans hs'.symm, fun w c op hc => c.effect_adds w runner hc⟩

/-- An agent with an earlier entry, and a transcript that is cleared at different points. -/
theorem transcript_has_no_influence_told_before :
    let runner : Runner := ⟨.ready .plain, ⟨.none, ["shots"]⟩⟩
    let w : World := ⟨[], none, []⟩
    let a := new [] (.ready [.content (.str "Which page?"), .fails .runtime "gone"])
    let b := { a with transcript := a.transcript.after (.add (some userRole) (some "The password is 1234") none) }
    let ops := [(w, .run (some "Log in")), (w, .clear), (w, .select ["goto"]), (w, .run none)]
    let ops' := [(w, .clear), (w, .run (some "Log in")), (w, .select ["goto"]), (w, .run none), (w, .clear)]
    (ops.filter fun op => !op.2.clears) = (ops'.filter fun op => !op.2.clears) ∧
      b.effects runner ops' = a.effects runner ops ∧ (a.effects runner ops).length = 3 := by
  intro runner w a b ops ops'
  have hab : SameButTranscript a b := rfl
  have hops : (ops.filter fun op => !op.2.clears) = ops'.filter fun op => !op.2.clears := rfl
  exact ⟨hops, (transcript_has_no_influence runner hab hops).1, rfl⟩

end Agent

end BrowserPilot
