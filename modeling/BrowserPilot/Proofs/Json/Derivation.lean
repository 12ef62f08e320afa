import BrowserPilot.Proofs.Json.Entries
import BrowserPilot.Proofs.Json.NumberTexts
import BrowserPilot.Proofs.Json.StringTexts

/-! Soundness and completeness of the reader for the grammar, up to the limits of the reader. -/
namespace BrowserPilot.Json

/-! ### Values without parts -/

theorem front_of_isDigit {c : CodePoint} (h : c.isDigit = true) : Front c := by
  constructor
  · intro hm
    have hd : ∀ a ∈ Text.toList " \t\n\r", a.isDigit = false := by decide
    rw [hd c hm] at h
    cases h
  all_goals exact ne_of_isDigit h rfl

theorem NumberText.exists_front {v : Json} {t : List CodePoint} (h : NumberText v t) :
    ∃ c s, t = c :: s ∧ (c.isDigit = true ∨ c = CodePoint.char '-' ∧ ∃ d u, s = d :: u ∧ d.isDigit = true) := by
  have hm : ∀ (negative : Bool) {ds : List CodePoint}, Whole ds → ∀ r, ∃ c s, minusText negative ++ (ds ++ r) = c :: s ∧
      (c.isDigit = true ∨ c = CodePoint.char '-' ∧ ∃ d u, s = d :: u ∧ d.isDigit = true) := by
    intro negative ds hw r
    obtain ⟨c, cs, rfl, hc⟩ := hw.exists_digit
    cases negative with
    | true => exact ⟨'-', _, rfl, .inr ⟨rfl, c, _, rfl, hc⟩⟩
    | false => exact ⟨c, _, rfl, .inl hc⟩
  cases h with
  | whole negative hw => simpa using hm negative hw []
  | fraction negative hw => exact hm negative hw _

theorem NumberText.readLeaf_append {v : Json} {t : List CodePoint} (h : NumberText v t) (r : List CodePoint) :
    readLeaf (t ++ r) = readNumber (t ++ r) := by
  obtain ⟨c, s, rfl, hc | ⟨rfl, d, u, rfl, hd⟩⟩ := h.exists_front
  · exact readLeaf_digit hc _
  · exact readLeaf_minus hd _

theorem StringText.readLeaf_append {x : Text} {t : List CodePoint} (h : StringText x t) (r : List CodePoint) :
    readLeaf (t ++ r) = .ok (.str x, r) := by
  obtain ⟨s, hs, rfl⟩ := h
  have he : .char '"' :: (s ++ [.char '"']) ++ r = .char '"' :: (s ++ .char '"' :: r) := by simp
  rw [he, readLeaf, hs.readString_append]
  simp only [Except.map, Text.ofList_toList]

theorem StringText.readKey_append {x : Text} {t : List CodePoint} (h : StringText x t) (r : List CodePoint) :
    readKey (t ++ r) = .ok (x, r) := by
  obtain ⟨s, hs, rfl⟩ := h
  have he : .char '"' :: (s ++ [.char '"']) ++ r = .char '"' :: (s ++ .char '"' :: r) := by simp
  rw [he, readKey, hs.readString_append]
  simp only [Except.map, Text.ofList_toList]

theorem stringText_of_readString {opening : Nat} {s cs r : List CodePoint} (h : readString opening s = .ok (cs, r)) :
    ∃ t, StringText (Text.ofList cs) t ∧ .char '"' :: s = t ++ r := by
  obtain ⟨t, ht, rfl⟩ := characters_of_readString h
  exact ⟨_, ⟨t, by rwa [Text.toList_ofList], rfl⟩, by simp⟩

theorem stringText_of_readKey {s r : List CodePoint} {x : Text} (h : readKey s = .ok (x, r)) :
    ∃ t, StringText x t ∧ s = t ++ r := by
  unfold readKey at h
  split at h
  · obtain ⟨p, hp, he⟩ := map_eq_ok h
    obtain ⟨rfl, rfl⟩ := Prod.mk.inj he
    exact stringText_of_readString hp
  · cases h

theorem not_exhausts_readString (opening : Nat) (s : List CodePoint) : ¬ Exhausts (readString opening s) := by
  rintro ⟨e, hl, he⟩
  obtain ⟨fault, n, rfl⟩ := readString_malformed he
  cases hl

theorem not_exhausts_readKey (s : List CodePoint) : ¬ Exhausts (readKey s) := by
  unfold readKey
  split
  · rw [exhausts_map_iff]
    exact not_exhausts_readString _ _
  · exact not_exhausts_malformed _ _

theorem written_of_readLeaf {s r : List CodePoint} {v : Json} (h : readLeaf s = .ok (v, r)) :
    ∃ t, Written v t ∧ s = t ++ r := by
  unfold readLeaf at h
  split at h
  case h_1 =>
    obtain ⟨p, hp, he⟩ := map_eq_ok h
    obtain ⟨rfl, rfl⟩ := Prod.mk.inj he
    obtain ⟨t, ht, hs⟩ := stringText_of_readString hp
    exact ⟨t, .string ht, hs⟩
  case h_8 =>
    obtain ⟨t, ht, hs⟩ := numberText_of_readNumber h
    exact ⟨t, .number ht, hs⟩
  all_goals obtain ⟨rfl, rfl⟩ := Prod.mk.inj (Except.ok.inj h)
  · exact ⟨_, .null, rfl⟩
  · exact ⟨_, .trueWord, rfl⟩
  · exact ⟨_, .falseWord, rfl⟩
  · exact ⟨_, .nan, rfl⟩
  · exact ⟨_, .infinity false, rfl⟩
  · exact ⟨_, .infinity true, rfl⟩

theorem Written.exists_front {v : Json} {t : List CodePoint} (h : Written v t) : ∃ c s, t = c :: s ∧ Front c := by
  have hw : ∀ c ∈ Text.toList "ntfNI-\"[\x7b", Front c := by
    intro c hc
    simp only [Text.toList_ofString, String.reduceToList, List.map_cons, List.map_nil, List.mem_cons, List.not_mem_nil,
      or_false] at hc
    rcases hc with rfl | rfl | rfl | rfl | rfl | rfl | rfl | rfl | rfl <;> constructor <;> decide
  cases h with
  | null => exact ⟨_, _, rfl, hw _ (by decide)⟩
  | trueWord => exact ⟨_, _, rfl, hw _ (by decide)⟩
  | falseWord => exact ⟨_, _, rfl, hw _ (by decide)⟩
  | nan => exact ⟨_, _, rfl, hw _ (by decide)⟩
  | infinity negative => cases negative <;> exact ⟨_, _, rfl, hw _ (by decide)⟩
  | number h =>
    obtain ⟨c, s, rfl, hc | ⟨rfl, -⟩⟩ := h.exists_front
    · exact ⟨c, s, rfl, front_of_isDigit hc⟩
    · exact ⟨_, s, rfl, hw _ (by decide)⟩
  | string h =>
    obtain ⟨s, -, rfl⟩ := h
    exact ⟨_, _, rfl, hw _ (by decide)⟩
  | emptyArray => exact ⟨_, _, rfl, hw _ (by decide)⟩
  | array => exact ⟨_, _, rfl, hw _ (by decide)⟩
  | emptyObject => exact ⟨_, _, rfl, hw _ (by decide)⟩
  | object => exact ⟨_, _, rfl, hw _ (by decide)⟩

theorem StringText.exists_front {x : Text} {t : List CodePoint} (h : StringText x t) : ∃ c s, t = c :: s ∧ Front c :=
  (Written.string h).exists_front

/-! ### Members -/

/-- The text of a member without the whitespace around it. -/
def MemberText (p : Text × Json) (t : List CodePoint) : Prop :=
  ∃ keyText between space text, StringText p.1 keyText ∧ Spaces between ∧ Spaces space ∧ Written p.2 text ∧
    t = keyText ++ (between ++ .char ':' :: (space ++ text))

namespace Member

/-- A member as a padded entry. -/
def padded (m : Member) : Padded (Text × Json) :=
  ⟨m.before, m.pair, m.keyText ++ (m.between ++ .char ':' :: (m.item.before ++ m.item.text)), m.item.after⟩

theorem written_padded (m : Member) : m.padded.written = m.written := by
  simp [padded, written, Padded.written]

theorem map_value_padded (ms : List Member) : (ms.map padded).map Padded.value = ms.map pair := by
  rw [List.map_map]
  rfl

theorem flatMap_comma_padded (ms : List Member) :
    (ms.map padded).flatMap (fun p => .char ',' :: p.written) = ms.flatMap fun m => .char ',' :: m.written := by
  simp [List.flatMap_map, written_padded]

theorem flatMap_padded_comma (ms : List Member) :
    (ms.map padded).flatMap (fun p => p.written ++ [.char ',']) = ms.flatMap fun m => m.written ++ [.char ','] := by
  simp [List.flatMap_map, written_padded]

end Member

theorem exists_members {ps : List (Padded (Text × Json))} (h : ∀ p ∈ ps, p.Spaced ∧ MemberText p.value p.text) :
    ∃ ms : List Member, (∀ m ∈ ms, m.Keyed ∧ Written m.item.value m.item.text) ∧ ms.map Member.padded = ps := by
  induction ps with
  | nil => exact ⟨[], by simp, rfl⟩
  | cons p ps ih =>
    rw [List.forall_mem_cons] at h
    obtain ⟨⟨⟨hb, ha⟩, keyText, between, space, text, hk, hc, hs, hw, ht⟩, hp⟩ := h
    obtain ⟨ms, hm, rfl⟩ := ih hp
    refine ⟨⟨p.before, p.value.1, keyText, between, space, p.value.2, text, p.after⟩ :: ms, ?_, ?_⟩
    · exact List.forall_mem_cons.mpr ⟨⟨⟨hb, hk, hc, hs, ha⟩, hw⟩, hm⟩
    · rw [List.map_cons, Member.padded, ← ht]
      rfl

section
variable {value : Reader Json} {s : List CodePoint}

theorem readMember_append {key : Text} {keyText between space : List CodePoint} (hk : StringText key keyText)
    (hc : Spaces between) (ha : Spaces space) (hs : ∃ c t, s = c :: t ∧ Front c) :
    readMember value (keyText ++ (between ++ .char ':' :: (space ++ s))) =
      (value s).map fun p => ((key, p.1), p.2) := by
  have hr := hk.readKey_append (between ++ .char ':' :: (space ++ s))
  have hm : skipSpace (between ++ .char ':' :: (space ++ s)) = .char ':' :: (space ++ s) := by
    rw [skipSpace_append hc, skipSpace_cons (by decide)]
  have hf : skipSpace (space ++ s) = s := by
    rw [skipSpace_append ha]
    simpa using skipSpace_of_front hs []
  cases hv : value s with
  | error e => exact readMember_of_error hr hm (hf.symm ▸ hv)
  | ok p => exact readMember_of_ok hr hm (hf.symm ▸ hv)

/-- A member is malformed up to its colon, or the result is that of reading its value. -/
theorem readMember_cases (value : Reader Json) (s : List CodePoint) :
    (∃ e : ReadError, ¬ e.IsLimit ∧ readMember value s = .error e) ∨
      ∃ key keyText between space w, StringText key keyText ∧ Spaces between ∧ Spaces space ∧
        s = keyText ++ (between ++ .char ':' :: (space ++ w)) ∧
        readMember value s = (value w).map fun p => ((key, p.1), p.2) := by
  cases hk : readKey s with
  | error e =>
    have hn := not_exhausts_readKey s
    rw [hk, exhausts_error_iff] at hn
    exact .inl ⟨e, hn, readMember_of_key_error hk⟩
  | ok p =>
    by_cases hc : ∃ u, skipSpace p.2 = .char ':' :: u
    · obtain ⟨u, hc⟩ := hc
      obtain ⟨keyText, hkt, hs⟩ := stringText_of_readKey hk
      obtain ⟨between, hb, ht⟩ := exists_spaces p.2
      obtain ⟨space, ha, hu⟩ := exists_spaces u
      refine .inr ⟨p.1, keyText, between, space, skipSpace u, hkt, hb, ha, by rw [← hu, ← hc, ← ht, hs], ?_⟩
      cases hv : value (skipSpace u) with
      | error e => exact readMember_of_error hk hc hv
      | ok q => exact readMember_of_ok hk hc hv
    · have hc : ∀ u, skipSpace p.2 ≠ .char ':' :: u := fun u hu => hc ⟨u, hu⟩
      exact .inl ⟨_, by rintro ⟨⟩, readMember_of_no_colon hk hc⟩

theorem sound_readMember (hv : Sound Written value) : Sound MemberText (readMember value) := by
  intro s p r h
  rcases readMember_cases value s with ⟨e, -, he⟩ | ⟨key, keyText, between, space, w, hk, hc, ha, rfl, he⟩
  · rw [he] at h
    cases h
  · rw [he] at h
    obtain ⟨q, hq, hqe⟩ := map_eq_ok h
    obtain ⟨rfl, rfl⟩ := Prod.mk.inj hqe
    obtain ⟨text, ht, rfl⟩ := hv w q.1 q.2 hq
    exact ⟨_, ⟨keyText, between, space, text, hk, hc, ha, ht, rfl⟩, by simp⟩

theorem value_exhausts_of_readMember (h : Exhausts (readMember value s)) :
    ∃ key keyText between space w, StringText key keyText ∧ Spaces between ∧ Spaces space ∧ Exhausts (value w) ∧
      s = keyText ++ (between ++ .char ':' :: (space ++ w)) := by
  rcases readMember_cases value s with ⟨e, hn, he⟩ | ⟨key, keyText, between, space, w, hk, hc, ha, hs, he⟩
  · rw [he, exhausts_error_iff] at h
    exact absurd h hn
  · rw [he, exhausts_map_iff] at h
    exact ⟨key, keyText, between, space, w, hk, hc, ha, h, hs⟩

theorem Member.Keyed.readable {m : Member} (h : m.Keyed) (hf : ∃ c s, m.item.text = c :: s ∧ Front c)
    (ht : Takes value m.item.value m.item.text) : m.padded.Readable (readMember value) := by
  refine ⟨⟨h.before, h.item.2⟩, ?_, fun r hr => ?_⟩
  · obtain ⟨c, s, hs, hc⟩ := h.key.exists_front
    exact ⟨c, _, by rw [padded, hs, List.cons_append], hc⟩
  · have he : m.padded.text ++ r = m.keyText ++ (m.between ++ .char ':' :: (m.item.before ++ (m.item.text ++ r))) := by
      simp [padded]
    obtain ⟨c, s, hs, hc⟩ := hf
    rw [he, readMember_append h.key h.between h.item.1 ⟨c, s ++ r, by rw [hs, List.cons_append], hc⟩, exhausts_map_iff]
    refine (ht r hr).imp_left fun hv => ?_
    rw [hv]
    rfl

end

/-! ### Values -/

section
variable {depth : Nat} {s r : List CodePoint}

theorem readValue_emptyArray (h : skipSpace s = .char ']' :: r) :
    readValue (depth + 1) (.char '[' :: s) = .ok (.arr [], r) := by
  simp only [readValue, h]

theorem readValue_array (h : ∀ r, skipSpace s ≠ .char ']' :: r) :
    readValue (depth + 1) (.char '[' :: s) =
      (readEntries (readValue depth) ']' .noValue (skipSpace s).length (skipSpace s)).map fun p => (.arr p.1, p.2) := by
  rw [readValue]
  split
  · exact absurd ‹_› (h _)
  · rw [readItems_eq]

theorem readValue_emptyObject (h : skipSpace s = .char '}' :: r) :
    readValue (depth + 1) (.char '{' :: s) = .ok (.obj [], r) := by
  simp only [readValue, h]

theorem readValue_object (h : ∀ r, skipSpace s ≠ .char '}' :: r) :
    readValue (depth + 1) (.char '{' :: s) =
      (readEntries (readMember (readValue depth)) '}' .noKey (skipSpace s).length (skipSpace s)).map
        fun p => (ofPairs p.1, p.2) := by
  rw [readValue]
  split
  · exact absurd ‹_› (h _)
  · rw [readFields_eq]

theorem readValue_leaf (depth : Nat) (ha : ∀ r, s ≠ .char '[' :: r) (ho : ∀ r, s ≠ .char '{' :: r) :
    readValue depth s = readLeaf s := by
  cases s with
  | nil => cases depth <;> rfl
  | cons c s => exact readValue_of_ne depth (fun h => ha s (h ▸ rfl)) (fun h => ho s (h ▸ rfl)) s

theorem exhausts_readValue_zero {c : CodePoint} (h : c = '[' ∨ c = '{') (s : List CodePoint) :
    Exhausts (readValue 0 (c :: s)) := by
  rcases h with rfl | rfl
  · exact ⟨_, .depth .array, rfl⟩
  · exact ⟨_, .depth .object, rfl⟩

end

theorem takes_array {depth : Nat} {first : Padded Json} {rest : List (Padded Json)}
    (hp : ∀ p ∈ first :: rest, p.Readable (readValue depth)) :
    Takes (readValue (depth + 1)) (.arr ((first :: rest).map Padded.value))
      (.char '[' :: (first.written ++ (rest.flatMap (fun p => .char ',' :: p.written) ++ [.char ']']))) := by
  intro r _
  have hf := hp first List.mem_cons_self
  simp only [List.cons_append, List.append_assoc, List.nil_append]
  rw [readValue_array]
  · rcases readEntries_written (by decide : .char ']' ∈ _) hp r le_rfl with he | he
    · rw [he]
      exact .inl rfl
    · exact .inr (exhausts_map_iff.mpr he)
  · intro u he
    rw [hf.skipSpace_written] at he
    obtain ⟨c, s, hc, hfr⟩ := hf.front
    rw [hc] at he
    exact hfr.bracket (List.cons.inj he).1

theorem takes_object {depth : Nat} {first : Member} {rest : List Member}
    (hm : ∀ m ∈ first :: rest, m.padded.Readable (readMember (readValue depth))) :
    Takes (readValue (depth + 1)) (.obj (merge ((first :: rest).map Member.pair)))
      (.char '{' :: (first.written ++ (rest.flatMap (fun m => .char ',' :: m.written) ++ [.char '}']))) := by
  intro r _
  have hf := hm first List.mem_cons_self
  simp only [List.cons_append, List.append_assoc, List.nil_append]
  rw [← first.written_padded, ← Member.flatMap_comma_padded, readValue_object]
  · rcases readEntries_written (by decide : .char '}' ∈ _) (List.forall_mem_map.mpr hm) r le_rfl with he | he
    · rw [he, ← List.map_cons, Member.map_value_padded]
      exact .inl (by rw [Except.map, ofPairs_eq_merge])
    · exact .inr (exhausts_map_iff.mpr he)
  · intro u he
    rw [hf.skipSpace_written] at he
    obtain ⟨c, s, hc, hfr⟩ := hf.front
    rw [hc] at he
    exact hfr.brace (List.cons.inj he).1

/-- The text of a derivation is read as its value unless a limit is exceeded. -/
theorem Written.takes {v : Json} {t : List CodePoint} (h : Written v t) (depth : Nat) :
    Takes (readValue depth) v t := by
  -- on the derivation, for every depth: the parts of a container are read with one level less
  induction h generalizing depth with
  | null => exact fun r _ => .inl (readValue_of_ne depth (by decide) (by decide) _)
  | trueWord => exact fun r _ => .inl (readValue_of_ne depth (by decide) (by decide) _)
  | falseWord => exact fun r _ => .inl (readValue_of_ne depth (by decide) (by decide) _)
  | nan => exact fun r _ => .inl (readValue_of_ne depth (by decide) (by decide) _)
  | infinity negative =>
    intro r _
    cases negative <;> exact .inl (readValue_of_ne depth (by decide) (by decide) _)
  | @number v t h =>
    intro r hr
    have hv : readValue depth (t ++ r) = readNumber (t ++ r) := by
      rw [← h.readLeaf_append]
      obtain ⟨c, s, rfl, hc⟩ := h.exists_front
      refine readValue_of_ne depth ?_ ?_ _ <;> rintro rfl <;> simp [CodePoint.isDigit] at hc
    rw [hv]
    exact (h.readNumber_append hr).imp_right fun ⟨count, he⟩ => ⟨_, .digits count, he⟩
  | @string x t h =>
    intro r _
    left
    rw [← h.readLeaf_append]
    obtain ⟨s, -, rfl⟩ := h
    exact readValue_of_ne depth (by decide) (by decide) _
  | @emptyArray s h =>
    intro r _
    cases depth with
    | zero => exact .inr (exhausts_readValue_zero (.inl rfl) _)
    | succ depth =>
      left
      rw [List.cons_append, List.append_assoc]
      exact readValue_emptyArray ((skipSpace_append h _).trans (skipSpace_cons (by decide) _))
  | @array first rest hs hw ih =>
    cases depth with
    | zero => exact fun r _ => .inr (exhausts_readValue_zero (.inl rfl) _)
    | succ depth => exact takes_array fun p hp => ⟨hs p hp, (hw p hp).exists_front, ih p hp depth⟩
  | @emptyObject s h =>
    intro r _
    cases depth with
    | zero => exact .inr (exhausts_readValue_zero (.inr rfl) _)
    | succ depth =>
      left
      rw [List.cons_append, List.append_assoc]
      exact readValue_emptyObject ((skipSpace_append h _).trans (skipSpace_cons (by decide) _))
  | @object first rest hs hw ih =>
    cases depth with
    | zero => exact fun r _ => .inr (exhausts_readValue_zero (.inr rfl) _)
    | succ depth =>
      exact takes_object fun m hm => (hs m hm).readable (hw m hm).exists_front (ih m hm depth)

/-- Whatever is read as a value has a derivation for that value. -/
theorem sound_readValue (depth : Nat) : Sound Written (readValue depth) := by
  -- the readers of items and of members are sound because they are made from the reader of one level less
  induction depth with
  | zero =>
    intro s v r h
    by_cases hc : ∃ c u, (c = CodePoint.char '[' ∨ c = .char '{') ∧ s = c :: u
    · obtain ⟨c, u, hc, rfl⟩ := hc
      obtain ⟨e, -, he⟩ := exhausts_readValue_zero hc u
      rw [he] at h
      cases h
    · rw [readValue_leaf 0 (fun u hu => hc ⟨_, u, .inl rfl, hu⟩) (fun u hu => hc ⟨_, u, .inr rfl, hu⟩)] at h
      exact written_of_readLeaf h
  | succ depth ih =>
    intro s v r h
    by_cases ha : ∃ u, s = .char '[' :: u
    · obtain ⟨u, rfl⟩ := ha
      obtain ⟨a, hs, hu⟩ := exists_spaces u
      by_cases he : ∃ w, skipSpace u = .char ']' :: w
      · obtain ⟨w, hw⟩ := he
        rw [readValue_emptyArray hw] at h
        obtain ⟨rfl, rfl⟩ := Prod.mk.inj (Except.ok.inj h)
        exact ⟨_, .emptyArray hs, by rw [hu, hw]; simp⟩
      · rw [readValue_array fun w hw => he ⟨w, hw⟩] at h
        obtain ⟨p, hp, hpe⟩ := map_eq_ok h
        obtain ⟨rfl, rfl⟩ := Prod.mk.inj hpe
        obtain ⟨first, rest, hr, hvs, hw⟩ := entries_of_readEntries ih (by decide) hs hp
        rw [hvs]
        exact ⟨_, .array (fun q hq => (hr q hq).1) fun q hq => (hr q hq).2, by rw [hu, hw]; simp⟩
    · by_cases ho : ∃ u, s = .char '{' :: u
      · obtain ⟨u, rfl⟩ := ho
        obtain ⟨a, hs, hu⟩ := exists_spaces u
        by_cases he : ∃ w, skipSpace u = .char '}' :: w
        · obtain ⟨w, hw⟩ := he
          rw [readValue_emptyObject hw] at h
          obtain ⟨rfl, rfl⟩ := Prod.mk.inj (Except.ok.inj h)
          exact ⟨_, .emptyObject hs, by rw [hu, hw]; simp⟩
        · rw [readValue_object fun w hw => he ⟨w, hw⟩] at h
          obtain ⟨p, hp, hpe⟩ := map_eq_ok h
          obtain ⟨rfl, rfl⟩ := Prod.mk.inj hpe
          obtain ⟨first, rest, hr, hfs, hw⟩ := entries_of_readEntries (sound_readMember ih) (by decide) hs hp
          obtain ⟨ms, hm, he⟩ := exists_members hr
          obtain ⟨m, ms, rfl, rfl, rfl⟩ := List.map_eq_cons_iff.mp he
          rw [← List.map_cons, Member.map_value_padded] at hfs
          rw [Member.flatMap_comma_padded, m.written_padded] at hw
          rw [hfs, ofPairs_eq_merge]
          exact ⟨_, .object (fun q hq => (hm q hq).1) fun q hq => (hm q hq).2, by rw [hu, hw]; simp⟩
      · rw [readValue_leaf _ (fun u hu => ha ⟨u, hu⟩) fun u hu => ho ⟨u, hu⟩] at h
        exact written_of_readLeaf h

/-! ### Documents -/

theorem readText_of_ne {s : List CodePoint} (h : ∀ r, s ≠ .char '\ufeff' :: r) : readText s = readDocument s := by
  unfold readText
  split
  · exact absurd rfl (h _)
  · rfl

end BrowserPilot.Json
