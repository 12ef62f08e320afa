import BrowserPilot.Proofs.Json.Derivation

/-! The limits of the reader in terms of the grammar. The reader exceeds a limit if and only if, after a prefix of
the grammar, containers nest too deeply or an integer is too long. -/
namespace BrowserPilot.Json

/-- The prefixes after which the grammar allows a value, by the number of open containers. -/
inductive Opens : Nat → List CodePoint → Prop
  | here : Opens 0 []
  | item {n : Nat} {items : List (Padded Json)} {space s : List CodePoint} (hs : ∀ p ∈ items, p.Spaced)
      (hw : ∀ p ∈ items, Written p.value p.text) (ha : Spaces space) (ho : Opens n s) :
      Opens (n + 1) (.char '[' :: (items.flatMap (fun p => p.written ++ [.char ',']) ++ (space ++ s)))
  | member {n : Nat} {members : List Member} {before keyText between space s : List CodePoint} {key : Text}
      (hs : ∀ m ∈ members, m.Keyed) (hw : ∀ m ∈ members, Written m.item.value m.item.text) (hb : Spaces before)
      (hk : StringText key keyText) (hc : Spaces between) (ha : Spaces space) (ho : Opens n s) :
      Opens (n + 1) (.char '{' :: (members.flatMap (fun m => m.written ++ [.char ',']) ++
        (before ++ (keyText ++ (between ++ .char ':' :: (space ++ s))))))

/-- Wherever a value may stand, no container exceeds the depth limit and no integer the digit limit. -/
structure WithinLimits (s : List CodePoint) : Prop where
  depth : ∀ {space p r : List CodePoint} {n : Nat} {c : CodePoint}, Spaces space → Opens n p → (c = '[' ∨ c = '{') →
    s = space ++ (p ++ c :: r) → n < depthLimit
  digits : ∀ {space p ds r : List CodePoint} {n : Nat} (negative : Bool), Spaces space → Opens n p → Whole ds →
    EndsWhole r → s = space ++ (p ++ (minusText negative ++ (ds ++ r))) → ds.length ≤ digitLimit

/-- A container beyond the depth limit, or an integer beyond the digit limit. -/
inductive Excess : (room : Nat) → (opened : Nat) → List CodePoint → Prop
  | container {room opened : Nat} {c : CodePoint} {r : List CodePoint} (h : room ≤ opened) (hc : c = '[' ∨ c = '{') :
      Excess room opened (c :: r)
  | number {room opened : Nat} {ds r : List CodePoint} (negative : Bool) (hw : Whole ds) (hr : EndsWhole r)
      (h : digitLimit < ds.length) : Excess room opened (minusText negative ++ (ds ++ r))

def Overruns (room : Nat) (s : List CodePoint) : Prop :=
  ∃ n p r, Opens n p ∧ Excess room n r ∧ s = p ++ r

theorem Excess.exists_front {room opened : Nat} {r : List CodePoint} (h : Excess room opened r) :
    ∃ c s, r = c :: s ∧ Front c := by
  cases h with
  | container _ hc => rcases hc with rfl | rfl <;> exact ⟨_, _, rfl, by constructor <;> decide⟩
  | @number ds s negative hw =>
    obtain ⟨c, t, hn, hf⟩ := (Written.number (.whole negative hw)).exists_front
    exact ⟨c, t ++ s, by rw [← List.append_assoc, hn, List.cons_append], hf⟩

theorem excess_succ_iff {room opened : Nat} {r : List CodePoint} :
    Excess (room + 1) (opened + 1) r ↔ Excess room opened r := by
  constructor
  · intro h
    cases h with
    | container h hc => exact .container (Nat.le_of_succ_le_succ h) hc
    | number negative hw hr h => exact .number negative hw hr h
  · intro h
    cases h with
    | container h hc => exact .container (Nat.succ_le_succ h) hc
    | number negative hw hr h => exact .number negative hw hr h

theorem Opens.exists_front {room opened : Nat} {s r : List CodePoint} (h : Opens opened s) (hr : Excess room opened r) :
    ∃ c t, s ++ r = c :: t ∧ Front c := by
  cases h with
  | here => exact hr.exists_front
  | item => exact ⟨_, _, rfl, by constructor <;> decide⟩
  | member => exact ⟨_, _, rfl, by constructor <;> decide⟩

theorem Overruns.exists_front {room : Nat} {s : List CodePoint} (h : Overruns room s) :
    ∃ c t, s = c :: t ∧ Front c := by
  obtain ⟨n, p, r, ho, he, rfl⟩ := h
  exact ho.exists_front he

/-! ### What is too much is given up -/

theorem exhausts_readNumber (negative : Bool) {ds r : List CodePoint} (hw : Whole ds) (hr : EndsWhole r)
    (h : digitLimit < ds.length) : Exhausts (readNumber (minusText negative ++ (ds ++ r))) := by
  rw [readNumber_minusText negative hw, readUnsigned_whole negative _ hw hr, exhausts_map_iff]
  rcases wholeNumber_cases negative ds with ⟨-, he⟩ | ⟨hle, -⟩
  · exact ⟨_, .digits _, he⟩
  · omega

theorem exhausts_of_excess {depth : Nat} {r : List CodePoint} (h : Excess depth 0 r) :
    Exhausts (readValue depth r) := by
  cases h with
  | container hd hc =>
    obtain rfl := Nat.le_zero.mp hd
    exact exhausts_readValue_zero hc _
  | @number ds r negative hw hr hl =>
    have hn := exhausts_readNumber negative hw hr hl
    have ht : NumberText _ (minusText negative ++ ds) := .whole negative hw
    rw [← List.append_assoc] at hn ⊢
    rw [← ht.readLeaf_append] at hn
    obtain ⟨c, s, hs, hc⟩ := ht.exists_front
    rw [hs] at hn ⊢
    rw [List.cons_append] at hn ⊢
    rwa [readValue_of_ne depth]
    all_goals
      rintro rfl
      simp [CodePoint.isDigit] at hc

/-- After a prefix of the grammar, an excess makes the reader exceed its limit. -/
theorem Opens.exhausts {n : Nat} {p : List CodePoint} (h : Opens n p) {depth : Nat} {r : List CodePoint}
    (he : Excess depth n r) :
    Exhausts (readValue depth (p ++ r)) := by
  -- with each container that is opened, both the levels that are left and those that are counted are one less
  induction h generalizing depth with
  | here => exact exhausts_of_excess he
  | @item n items space s hs hw ha ho ih =>
    cases depth with
    | zero => exact exhausts_readValue_zero (.inl rfl) _
    | succ depth =>
      rw [excess_succ_iff] at he
      have hi : ∀ p ∈ items, p.Readable (readValue depth) :=
        fun p hp => ⟨hs p hp, (hw p hp).exists_front, (hw p hp).takes depth⟩
      have hf := ho.exists_front he
      simp only [List.cons_append, List.append_assoc]
      rw [readValue_array, exhausts_map_iff]
      · exact readEntries_exhausts (by decide) hi ha hf (ih he) le_rfl
      · intro u hu
        obtain ⟨c, t, ht, hc⟩ := exists_front_entries hi ha hf
        rw [hu] at ht
        exact hc.bracket (List.cons.inj ht).1.symm
  | @member n members before keyText between space s key hs hw hb hk hc ha ho ih =>
    cases depth with
    | zero => exact exhausts_readValue_zero (.inr rfl) _
    | succ depth =>
      rw [excess_succ_iff] at he
      have hm : ∀ p ∈ members.map Member.padded, p.Readable (readMember (readValue depth)) :=
        List.forall_mem_map.mpr fun m hm => (hs m hm).readable (hw m hm).exists_front ((hw m hm).takes depth)
      have hx : Exhausts (readMember (readValue depth) (keyText ++ (between ++ .char ':' :: (space ++ (s ++ r))))) := by
        rw [readMember_append hk hc ha (ho.exists_front he), exhausts_map_iff]
        exact ih he
      have hf : ∃ c t, keyText ++ (between ++ .char ':' :: (space ++ (s ++ r))) = c :: t ∧ Front c := by
        obtain ⟨c, t, rfl, hc⟩ := hk.exists_front
        exact ⟨c, _, rfl, hc⟩
      simp only [List.cons_append, List.append_assoc]
      rw [← Member.flatMap_padded_comma, readValue_object, exhausts_map_iff]
      · exact readEntries_exhausts (by decide) hm hb hf hx le_rfl
      · intro u hu
        obtain ⟨c, t, ht, hc⟩ := exists_front_entries hm hb hf
        rw [hu] at ht
        exact hc.brace (List.cons.inj ht).1.symm

/-! ### Only what is too much is given up -/

theorem not_exhausts_readLeaf_of_ne {s : List CodePoint} (h : ¬ Exhausts (readNumber s)) : ¬ Exhausts (readLeaf s) := by
  unfold readLeaf
  split
  case h_1 =>
    rw [exhausts_map_iff]
    exact not_exhausts_readString _ _
  case h_8 => exact h
  all_goals exact not_exhausts_ok _

theorem excess_of_readNumber {s : List CodePoint} (h : Exhausts (readNumber s)) (room opened : Nat) :
    Excess room opened s := by
  obtain ⟨negative, s', rfl, he⟩ := exists_minusText s
  rw [he] at h
  rcases readUnsigned_cases negative (minusText negative ++ s').length s' with
    hn | ⟨ds, r, hw, hr, rfl, hn⟩ | ⟨x, t, r, -, -, hn⟩ <;> rw [hn] at h
  · exact absurd h (not_exhausts_malformed _ _)
  · rw [exhausts_map_iff] at h
    rcases wholeNumber_cases negative ds with ⟨hl, -⟩ | ⟨-, hc⟩
    · refine .number negative hw (hr.resolve_left ?_) hl
      rintro rfl
      exact absurd hl (by decide)
    · rw [hc] at h
      exact absurd h (not_exhausts_ok _)
  · exact absurd h (not_exhausts_ok _)

theorem overruns_of_readLeaf {s : List CodePoint} (h : Exhausts (readLeaf s)) (room : Nat) : Overruns room s :=
  ⟨0, [], s, .here, excess_of_readNumber (not_not.mp fun hn => not_exhausts_readLeaf_of_ne hn h) room 0, rfl⟩

theorem overruns_of_bracket {c : CodePoint} (hc : c = '[' ∨ c = '{') (s : List CodePoint) : Overruns 0 (c :: s) :=
  ⟨0, [], c :: s, .here, .container (Nat.le_refl 0) hc, rfl⟩

/-- If the reader exceeds a limit, the text has a prefix of the grammar followed by an excess. -/
theorem overruns_of_exhausts {depth : Nat} {s : List CodePoint} (h : Exhausts (readValue depth s)) :
    Overruns depth s := by
  induction depth generalizing s with
  | zero =>
    by_cases hc : ∃ c u, (c = CodePoint.char '[' ∨ c = .char '{') ∧ s = c :: u
    · obtain ⟨c, u, hc, rfl⟩ := hc
      exact overruns_of_bracket hc u
    · rw [readValue_leaf 0 (fun u hu => hc ⟨_, u, .inl rfl, hu⟩) (fun u hu => hc ⟨_, u, .inr rfl, hu⟩)] at h
      exact overruns_of_readLeaf h 0
  | succ depth ih =>
    by_cases ha : ∃ u, s = .char '[' :: u
    · obtain ⟨u, rfl⟩ := ha
      by_cases he : ∃ w, skipSpace u = .char ']' :: w
      · obtain ⟨w, hw⟩ := he
        rw [readValue_emptyArray hw] at h
        exact absurd h (not_exhausts_ok _)
      · rw [readValue_array fun w hw => he ⟨w, hw⟩, exhausts_map_iff] at h
        obtain ⟨a, hs, hu⟩ := exists_spaces u
        obtain ⟨items, space, w, hi, hsp, hw, hx⟩ :=
          entry_exhausts_of_readEntries (sound_readValue depth) (by decide) hs h
        obtain ⟨n, p, r, ho, hr, rfl⟩ := ih hw
        refine ⟨n + 1, _, r, .item (fun q hq => (hi q hq).1) (fun q hq => (hi q hq).2) hsp ho,
          excess_succ_iff.mpr hr, ?_⟩
        rw [hu, hx]
        simp
    · by_cases ho : ∃ u, s = .char '{' :: u
      · obtain ⟨u, rfl⟩ := ho
        by_cases he : ∃ w, skipSpace u = .char '}' :: w
        · obtain ⟨w, hw⟩ := he
          rw [readValue_emptyObject hw] at h
          exact absurd h (not_exhausts_ok _)
        · rw [readValue_object fun w hw => he ⟨w, hw⟩, exhausts_map_iff] at h
          obtain ⟨a, hs, hu⟩ := exists_spaces u
          obtain ⟨ps, before, m, hp, hb, hm, hx⟩ :=
            entry_exhausts_of_readEntries (sound_readMember (sound_readValue depth)) (by decide) hs h
          obtain ⟨members, hms, rfl⟩ := exists_members hp
          obtain ⟨key, keyText, between, space, w, hk, hc, hsp, hw, rfl⟩ := value_exhausts_of_readMember hm
          obtain ⟨n, p, r, ho, hr, rfl⟩ := ih hw
          refine ⟨n + 1, _, r, .member (fun q hq => (hms q hq).1) (fun q hq => (hms q hq).2) hb hk hc hsp ho,
            excess_succ_iff.mpr hr, ?_⟩
          rw [hu, hx, Member.flatMap_padded_comma]
          simp
      · rw [readValue_leaf _ (fun u hu => ha ⟨u, hu⟩) fun u hu => ho ⟨u, hu⟩] at h
        exact overruns_of_readLeaf h _

theorem exhausts_readValue_iff {depth : Nat} {s : List CodePoint} :
    Exhausts (readValue depth s) ↔ Overruns depth s := by
  constructor
  · exact overruns_of_exhausts
  · rintro ⟨n, p, r, ho, hr, rfl⟩
    exact ho.exhausts hr

/-! ### Documents -/

theorem not_overruns_iff {s : List CodePoint} : ¬ Overruns depthLimit (skipSpace s) ↔ WithinLimits s := by
  constructor
  · intro h
    have hs : ∀ {space p r : List CodePoint} {n : Nat}, Spaces space → Opens n p → Excess depthLimit n r →
        s ≠ space ++ (p ++ r) := by
      rintro space p r n ha ho hr rfl
      apply h
      rw [skipSpace_append ha]
      have hf := skipSpace_of_front (ho.exists_front hr) []
      simp only [List.append_nil] at hf
      exact ⟨n, p, r, ho, hr, hf⟩
    constructor
    · intro space p r n c ha ho hc he
      by_contra hn
      exact hs ha ho (.container (Nat.le_of_not_lt hn) hc) he
    · intro space p ds r n negative ha ho hw hr he
      by_contra hn
      exact hs ha ho (.number negative hw hr (Nat.lt_of_not_le hn)) he
  · rintro h ⟨n, p, r, ho, hr, he⟩
    obtain ⟨a, ha, hs⟩ := exists_spaces s
    rw [he] at hs
    cases hr with
    | container hd hc => exact absurd (h.depth ha ho hc hs) (Nat.not_lt.mpr hd)
    | number negative hw hr hl => exact absurd (h.digits negative ha ho hw hr hs) (Nat.not_le.mpr hl)

theorem exhausts_readDocument_iff {s : List CodePoint} :
    Exhausts (readDocument s) ↔ Exhausts (readValue depthLimit (skipSpace s)) := by
  unfold readDocument
  cases hv : readValue depthLimit (skipSpace s) with
  | error e => exact exhausts_error_iff.trans exhausts_error_iff.symm
  | ok p =>
    refine iff_of_false ?_ (not_exhausts_ok _)
    simp only [bind, Except.bind]
    split
    · exact not_exhausts_ok _
    · exact not_exhausts_malformed _ _

/-- The reader exceeds a limit if and only if the text is not within the limits. -/
theorem exhausts_readText_iff {s : List CodePoint} : Exhausts (readText s) ↔ ¬ WithinLimits s := by
  rw [← not_overruns_iff, not_not]
  by_cases hm : ∃ r, s = .char '\ufeff' :: r
  · obtain ⟨r, rfl⟩ := hm
    refine iff_of_false (not_exhausts_malformed _ _) fun h => ?_
    rw [skipSpace_cons (by decide)] at h
    obtain ⟨c, t, he, hc⟩ := h.exists_front
    exact hc.mark (List.cons.inj he).1.symm
  · rw [readText_of_ne fun r hr => hm ⟨r, hr⟩, exhausts_readDocument_iff, exhausts_readValue_iff]

theorem document_of_readText {s : List CodePoint} {v : Json} (h : readText s = .ok v) : Document v s := by
  rw [readText_of_ne (by rintro r rfl; cases h)] at h
  unfold readDocument at h
  cases hv : readValue depthLimit (skipSpace s) with
  | error e =>
    rw [hv] at h
    cases h
  | ok p =>
    obtain ⟨text, hw, ht⟩ := sound_readValue depthLimit _ p.1 p.2 hv
    obtain ⟨before, hb, hs⟩ := exists_spaces s
    obtain ⟨after, ha, hp⟩ := exists_spaces p.2
    simp only [hv, bind, Except.bind] at h
    split at h
    · rename_i hn
      obtain rfl := Except.ok.inj h
      rw [hn, List.append_nil] at hp
      exact ⟨before, text, after, hb, hw, ha, by rw [← hp, ← ht, ← hs]⟩
    · cases h

theorem Document.head_of_cons {s r : List CodePoint} {v : Json} {c : CodePoint} (h : Document v s) (he : s = c :: r) :
    c ∈ Text.toList " \t\n\r" ∨ Front c := by
  obtain ⟨before, text, after, hb, hw, -, rfl⟩ := h
  cases before with
  | nil =>
    obtain ⟨d, t, rfl, hd⟩ := hw.exists_front
    exact .inr ((List.cons.inj he).1 ▸ hd)
  | cons b before => exact .inl ((List.cons.inj he).1 ▸ hb b List.mem_cons_self)

theorem Document.readText {s : List CodePoint} {v : Json} (h : Document v s) :
    readText s = .ok v ∨ Exhausts (readText s) := by
  have hne : ∀ r, s ≠ .char '\ufeff' :: r := fun r he =>
    (h.head_of_cons he).elim (by decide) fun hc => hc.mark rfl
  obtain ⟨before, text, after, hb, hw, ha, rfl⟩ := h
  have hf := hw.exists_front
  have hr : EndsNumeral after := by simpa using ha.endsNumeral_append endsNumeral_nil
  have hs : skipSpace after = [] := by
    rw [← List.append_nil after, skipSpace_append ha]
    rfl
  rw [readText_of_ne hne, exhausts_readDocument_iff, readDocument, skipSpace_append hb, skipSpace_of_front hf]
  refine (hw.takes depthLimit after hr).imp_left fun he => ?_
  simp only [he, bind, Except.bind, hs]
  rfl

/-- The reader accepts a text for a value if and only if it is a document of that value within the limits. -/
theorem readText_eq_ok_iff {s : List CodePoint} {v : Json} : readText s = .ok v ↔ Document v s ∧ WithinLimits s := by
  constructor
  · intro h
    refine ⟨document_of_readText h, not_not.mp fun hn => ?_⟩
    rw [← exhausts_readText_iff, h] at hn
    exact not_exhausts_ok _ hn
  · rintro ⟨hd, hl⟩
    exact hd.readText.resolve_right fun he => exhausts_readText_iff.mp he hl

end BrowserPilot.Json
