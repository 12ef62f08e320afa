import BrowserPilot.ModelReply
import BrowserPilot.Proofs.Json.Limits
import BrowserPilot.Proofs.Text.Fenced

/-! Classification of answers by the JSON grammar, and the answers that have none because they exceed a limit of the
reader. -/
namespace BrowserPilot.ModelReply

theorem ofText_of_read {text : Text} {v : Json}
    (h : Json.readText (Fence.strip (Text.trim text.toList)) = .ok v) : ofText text = .ok (ofJson v) := by
  simp only [ofText, h]

theorem ofText_of_not_read {text : Text} (hl : Json.WithinLimits (Fence.strip (Text.trim text.toList)))
    (h : ∀ v, Json.readText (Fence.strip (Text.trim text.toList)) ≠ .ok v) :
    ofText text = .ok (.question (Text.ofList (Text.trim text.toList))) := by
  cases hr : Json.readText (Fence.strip (Text.trim text.toList)) with
  | ok v => exact absurd hr (h v)
  | error e =>
    cases e with
    | malformed => simp only [ofText, hr]
    | tooManyDigits count => exact absurd hl (Json.exhausts_readText_iff.mp ⟨_, .digits count, hr⟩)
    | tooDeep container => exact absurd hl (Json.exhausts_readText_iff.mp ⟨_, .depth container, hr⟩)

theorem ofText_of_exhausts {text : Text} {e : Json.ReadError} (he : e.IsLimit)
    (h : Json.readText (Fence.strip (Text.trim text.toList)) = .error e) : ofText text = .error e := by
  cases he <;> simp only [ofText, h]

/-- The answer without the blanks around it; a missing answer is empty. -/
def trimmed (answer : Option Text) : List CodePoint := Text.trim (answer.getD "").toList

/-- An answer is classified without an error if and only if the text inside its fence is within the limits of the
reader; then a text that is not JSON is a question with the stripped answer. Otherwise the error reports the
exceeded limit. -/
theorem ofAnswer_understands_iff (answer : Option Text) :
    (((∃ reply, ofAnswer answer = .ok reply) ∧
        ((∀ v, Json.readText (Fence.strip (trimmed answer)) ≠ .ok v) →
          ofAnswer answer = .ok (.question (Text.ofList (trimmed answer))))) ↔
      Json.WithinLimits (Fence.strip (trimmed answer))) ∧
    (¬ Json.WithinLimits (Fence.strip (trimmed answer)) →
      ∃ e : Json.ReadError, e.IsLimit ∧ ofAnswer answer = .error e) := by
  have hf : ¬ Json.WithinLimits (Fence.strip (trimmed answer)) →
      ∃ e : Json.ReadError, e.IsLimit ∧ ofAnswer answer = .error e := by
    intro hl
    obtain ⟨e, he, hr⟩ := Json.exhausts_readText_iff.mpr hl
    exact ⟨e, he, ofText_of_exhausts he hr⟩
  refine ⟨⟨?_, fun hl => ⟨?_, ofText_of_not_read hl⟩⟩, hf⟩
  · rintro ⟨⟨reply, hr⟩, -⟩
    by_contra hl
    obtain ⟨e, -, he⟩ := hf hl
    rw [he] at hr
    cases hr
  · by_cases hr : ∃ v, Json.readText (Fence.strip (trimmed answer)) = .ok v
    · obtain ⟨v, hv⟩ := hr
      exact ⟨_, ofText_of_read hv⟩
    · exact ⟨_, ofText_of_not_read hl fun v hv => hr ⟨v, hv⟩⟩

theorem readValue_brackets (depth : Nat) (s : List CodePoint) :
    Json.readValue depth (List.replicate (depth + 1) (.char '[') ++ s) = .error (.tooDeep .array) := by
  induction depth with
  | zero => rfl
  | succ depth ih =>
    have hs : Json.skipSpace (List.replicate (depth + 1) (.char '[') ++ s) =
        List.replicate (depth + 1) (.char '[') ++ s :=
      Json.skipSpace_cons (by decide) _
    rw [List.replicate_succ, List.cons_append, Json.readValue_array, hs]
    · rw [List.length_append, List.length_replicate, Nat.add_right_comm, Json.readEntries_of_error ih]
      rfl
    · intro r he
      rw [hs] at he
      exact absurd (List.cons.inj he).1 (by decide)

theorem strip_brackets {n : Nat} (h : 0 < n) :
    Fence.strip (Text.trim (List.replicate n (.char '['))) = List.replicate n (.char '[') ∧
      Text.trim (List.replicate n (.char '[')) = List.replicate n (.char '[') := by
  obtain ⟨n, rfl⟩ := Nat.exists_eq_add_one.mpr h
  have hs : Text.Solid (List.replicate (n + 1) (.char '[')) :=
    ⟨⟨_, _, List.replicate_succ, rfl⟩, ⟨_, _, List.replicate_succ', rfl⟩⟩
  have ht : Text.trim (List.replicate (n + 1) (.char '[')) = List.replicate (n + 1) (.char '[') := by
    simpa using Text.trim_of_solid hs (List.forall_mem_nil _) (List.forall_mem_nil _)
  rw [ht]
  exact ⟨Fence.strip_of_encloses hs (by simp [List.replicate_succ]) .bare, rfl⟩

theorem readText_brackets {n : Nat} (h : Json.depthLimit < n) :
    Json.readText (List.replicate n (.char '[')) = .error (.tooDeep .array) := by
  obtain ⟨k, rfl⟩ := Nat.exists_eq_add_of_lt h
  have hb := readValue_brackets Json.depthLimit (List.replicate k (.char '['))
  rw [List.replicate_append_replicate, Nat.add_right_comm] at hb
  rw [List.replicate_succ] at hb ⊢
  rw [Json.readText_of_ne fun r he => absurd (List.cons.inj he).1 (by decide), Json.readDocument,
    Json.skipSpace_cons (by decide), hb]
  rfl

/-- Five thousand opening brackets, which are not JSON but raise an error. -/
theorem brackets_not_understood :
    let answer := Text.ofList (List.replicate 5000 (.char '['))
    Text.strip answer = answer ∧ (∀ v, Json.readText (Fence.strip (Text.trim answer.toList)) ≠ .ok v) ∧
      ofAnswer (some answer) = .error (.tooDeep .array) ∧ ofAnswer (some answer) ≠ .ok (.question answer) := by
  intro answer
  obtain ⟨hs, ht⟩ := strip_brackets (by decide : 0 < 5000)
  have hr : Json.readText (Fence.strip (Text.trim answer.toList)) = .error (.tooDeep .array) := by
    rw [Text.toList_ofList, hs]
    exact readText_brackets (by decide)
  have he : ofAnswer (some answer) = .error (.tooDeep .array) := ofText_of_exhausts (.depth .array) hr
  refine ⟨?_, fun v hv => ?_, he, fun hq => ?_⟩
  · rw [Text.strip, Text.toList_ofList, ht]
  · rw [hr] at hv
    cases hv
  · rw [he] at hq
    cases hq

/-- Within the limits, an answer is classified by the grammar. Let `s` be the stripped text and `u` its content if
it is fenced, however the fence is split. If `u` is a JSON text, an object with the key `clarification` is a
question with the text of that value, and any other value is a plan. If not, `s` is a question. -/
theorem ofText_by_grammar {text : Text} (h : Json.WithinLimits (Fence.strip (Text.trim text.toList))) :
    let trimmed := Text.trim text.toList
    let content := Fence.strip trimmed
    (∀ body, Fence.Frames body trimmed → content = Text.trim body) ∧
    ((∀ body, ¬ Fence.Frames body trimmed) → content = trimmed) ∧
    (∀ v, Json.readText content = .ok v ↔ Json.Document v content) ∧
    (∀ fields asked, Json.Document (.obj fields) content → fields.lookup ("clarification" : Text) = some asked →
      ofText text = .ok (.question asked.display)) ∧
    (∀ v, Json.Document v content → (∀ fields, v = .obj fields → ("clarification" : Text) ∉ fields.map Prod.fst) →
      ofText text = .ok (.plan v)) ∧
    ((∀ v, ¬ Json.Document v content) → ofText text = .ok (.question (Text.ofList trimmed))) := by
  intro trimmed content
  have hr : ∀ v, Json.readText content = .ok v ↔ Json.Document v content := fun v =>
    Json.readText_eq_ok_iff.trans (and_iff_left h)
  refine ⟨fun body => Fence.strip_of_frames, Fence.strip_of_not_frames, hr, ?_, ?_, ?_⟩
  · intro fields asked hd ha
    rw [ofText_of_read ((hr _).mpr hd), ofJson]
    simp only [Json.field?, ha]
  · intro v hd hk
    have hn : v.field? "clarification" = none := by
      cases v with
      | obj fields =>
        rw [Json.field?, List.lookup_eq_none_iff]
        intro p hp
        rw [bne_iff_ne]
        intro he
        exact hk fields rfl (he ▸ List.mem_map_of_mem hp)
      | _ => rfl
    rw [ofText_of_read ((hr _).mpr hd), ofJson]
    simp only [hn]
  · exact fun hd => ofText_of_not_read h fun v hv => hd v ((hr v).mp hv)

theorem ofText_by_grammar_repeated :
    let text : Text := "\u2003\x60\x60\x60json \n\x7b\"clarification\": 1, \"steps\": [], " ++
      "\"clarification\": [\"\x60\x60\x60\", -0]\x7d\n\x60\x60\x60\n"
    Json.WithinLimits (Fence.strip (Text.trim text.toList)) ∧
      ofText text = .ok (.question "['\x60\x60\x60', 0]") := by
  intro text
  have hr : Json.readText (Fence.strip (Text.trim text.toList)) =
      .ok (.obj [("clarification", .arr [.str "\x60\x60\x60", .int 0]), ("steps", .arr [])]) := by
    dsimp only [text]
    rfl
  have hd := Json.readText_eq_ok_iff.mp hr
  have ha : (Json.arr [.str "\x60\x60\x60", .int 0]).display = "['\x60\x60\x60', 0]" := by
    decide +kernel
  refine ⟨hd.2, ?_⟩
  rw [← ha]
  exact (ofText_by_grammar hd.2).2.2.2.1 _ _ hd.1 rfl

/-- No JSON text is a fence. -/
theorem strip_of_read {s : List CodePoint} {v : Json} (h : Json.readText s = .ok v) : Fence.strip s = s := by
  refine Fence.strip_of_not_frames fun body hf => ?_
  obtain ⟨c, r, rfl, -⟩ := hf.solid.first
  obtain rfl := Option.some.inj (Fence.head?_of_frames hf)
  exact ((Json.document_of_readText h).head_of_cons rfl).elim (by decide) fun hc => hc.tick rfl

/-- A fence around a JSON text, and blanks around either, do not change the classification. -/
theorem ofText_of_framed {body framed before after : List CodePoint} {v : Json}
    (hr : Json.readText (Text.trim body) = .ok v)
    (hf : Fence.Frames body framed) (hb : ∀ c ∈ before, Text.isBlank c = true)
    (ha : ∀ c ∈ after, Text.isBlank c = true) :
    ofText (Text.ofList body) = .ok (ofJson v) ∧
      ofText (Text.ofList (before ++ framed ++ after)) = ofText (Text.ofList body) ∧
      ofText (Text.ofList (before ++ body ++ after)) = ofText (Text.ofList body) := by
  have hp : ofText (Text.ofList body) = .ok (ofJson v) := by
    apply ofText_of_read
    rw [Text.toList_ofList, strip_of_read hr, hr]
  rw [hp]
  refine ⟨rfl, ofText_of_read ?_, ofText_of_read ?_⟩
  · rw [Text.toList_ofList, Text.trim_of_solid hf.solid hb ha, Fence.strip_of_frames hf, hr]
  · rw [Text.toList_ofList, Text.trim_append hb ha, strip_of_read hr, hr]

theorem ofText_of_framed_ticks :
    let body : Text := "\n[\"\x60\x60\x60\",\n1]\u2003"
    let answer : Text := "\u3000\x60\x60\x60JSON \n\n\n[\"\x60\x60\x60\",\n1]\u2003\n\x60\x60\x60\x1c"
    Json.readText (Text.trim body.toList) = .ok (.arr [.str "\x60\x60\x60", .int 1]) ∧ ofText answer = ofText body := by
  intro body answer
  have hr : Json.readText (Text.trim body.toList) = .ok (.arr [.str "\x60\x60\x60", .int 1]) := by
    dsimp only [body]
    rfl
  have hf : Fence.Frames body.toList
      (Fence.mark ++ Text.toList "JSON" ++ Text.toList " \n" ++ [.char '\n'] ++ body.toList ++
        [.char '\n'] ++ Fence.mark) :=
    ⟨_, _, _, List.all_eq_true.mp rfl, List.all_eq_true.mp rfl, .inr rfl, rfl⟩
  have ht : answer = Text.ofList (Text.toList "\u3000" ++ (Fence.mark ++ Text.toList "JSON" ++ Text.toList " \n" ++
      [.char '\n'] ++ body.toList ++ [.char '\n'] ++ Fence.mark) ++ Text.toList "\x1c") := by
    decide +kernel
  refine ⟨hr, ?_⟩
  rw [ht]
  have hb : Text.ofList body.toList = body := Text.ofList_toList body
  exact (ofText_of_framed hr hf (List.all_eq_true.mp rfl) (List.all_eq_true.mp rfl)).2.1.trans (by rw [hb])

end BrowserPilot.ModelReply
