import BrowserPilot.Proofs.Json.Grammar
import BrowserPilot.Proofs.Json.Leaves
import Mathlib.Data.List.TakeWhile

/-! Comma separated entries, which items and members both are. Soundness and completeness of the reader of one entry
carry over to the reader of all. -/
namespace BrowserPilot.Json

/-! ### Limits -/

/-- The errors that report an exceeded limit. -/
inductive ReadError.IsLimit : ReadError → Prop
  | digits (count : Nat) : IsLimit (.tooManyDigits count)
  | depth (container : Container) : IsLimit (.tooDeep container)

section
variable {α β : Type}

def Exhausts (x : Except ReadError α) : Prop := ∃ e : ReadError, e.IsLimit ∧ x = .error e

theorem not_exhausts_ok (a : α) : ¬ Exhausts (.ok a) := by
  rintro ⟨_, _, h⟩
  cases h

theorem exhausts_error_iff {e : ReadError} : Exhausts (.error e : Except ReadError α) ↔ e.IsLimit :=
  ⟨fun ⟨_, hl, h⟩ => Except.error.inj h ▸ hl, fun hl => ⟨e, hl, rfl⟩⟩

theorem not_exhausts_malformed (fault : SyntaxFault) (n : Nat) :
    ¬ Exhausts (.error (.malformed fault n) : Except ReadError α) := by
  rw [exhausts_error_iff]
  rintro ⟨⟩

theorem exhausts_map_iff {f : α → β} {x : Except ReadError α} : Exhausts (x.map f) ↔ Exhausts x := by
  cases x with
  | ok a => exact iff_of_false (not_exhausts_ok _) (not_exhausts_ok a)
  | error e => exact exhausts_error_iff.trans exhausts_error_iff.symm

theorem map_eq_ok {f : α → β} {x : Except ReadError α} {b : β} (h : x.map f = .ok b) : ∃ a, x = .ok a ∧ f a = b := by
  cases x with
  | ok a => exact ⟨a, rfl, Except.ok.inj h⟩
  | error e => cases h

end

/-! ### Space -/

theorem isSpace_iff {c : CodePoint} : isSpace c = true ↔ c ∈ Text.toList " \t\n\r" := by
  simp [isSpace, or_assoc]

theorem skipSpace_append {a : List CodePoint} (h : Spaces a) (s : List CodePoint) : skipSpace (a ++ s) = skipSpace s :=
  List.dropWhile_append_of_pos fun c hc => isSpace_iff.mpr (h c hc)

theorem skipSpace_cons {c : CodePoint} (h : c ∉ Text.toList " \t\n\r") (s : List CodePoint) :
    skipSpace (c :: s) = c :: s :=
  skipSpace_of_not_isSpace (by simpa using isSpace_iff.not.mpr h) s

theorem exists_spaces (s : List CodePoint) : ∃ a, Spaces a ∧ s = a ++ skipSpace s :=
  ⟨s.takeWhile isSpace, fun _ hc => isSpace_iff.mp (List.mem_takeWhile_imp hc), List.takeWhile_append_dropWhile.symm⟩

theorem length_skipSpace_le (s : List CodePoint) : (skipSpace s).length ≤ s.length :=
  (List.dropWhile_suffix isSpace).length_le

theorem Spaces.endsNumeral_append {a r : List CodePoint} (h : Spaces a) (hr : EndsNumeral r) :
    EndsNumeral (a ++ r) := by
  cases a with
  | nil => exact hr
  | cons c a =>
    refine endsNumeral_cons ?_ _
    have hc : c = ' ' ∨ c = '\t' ∨ c = '\n' ∨ c = '\r' := by simpa using h c List.mem_cons_self
    rcases hc with rfl | rfl | rfl | rfl <;> decide

/-- A character that a value can begin with. -/
structure Front (c : CodePoint) : Prop where
  space : c ∉ Text.toList " \t\n\r"
  bracket : c ≠ ']'
  brace : c ≠ '}'
  mark : c ≠ '\ufeff'
  tick : c ≠ '\x60'

theorem skipSpace_of_front {t : List CodePoint} (h : ∃ c s, t = c :: s ∧ Front c) (r : List CodePoint) :
    skipSpace (t ++ r) = t ++ r := by
  obtain ⟨c, s, rfl, hc⟩ := h
  exact skipSpace_cons hc.space _

/-! ### Entries -/

/-- Reads entries separated by commas up to a closing character. -/
def readEntries {α : Type} (entry : Reader α) (closing : CodePoint) (missing : SyntaxFault) :
    (rounds : Nat) → Reader (List α)
  | 0, s => .error (.malformed missing s.length)
  | rounds + 1, s => do
    let (a, r) ← entry s
    match skipSpace r with
    | c :: r =>
      if c = closing then return ([a], r)
      else if c = ',' then
        let (rest, r) ← readEntries entry closing missing rounds (skipSpace r)
        return (a :: rest, r)
      else throw (.malformed .noComma (r.length + 1))
    | [] => throw (.malformed .noComma 0)

/-- The reader reads `t` as `a` before any text that may follow, or exceeds a limit. -/
def Takes {α : Type} (entry : Reader α) (a : α) (t : List CodePoint) : Prop :=
  ∀ r, EndsNumeral r → entry (t ++ r) = .ok (a, r) ∨ Exhausts (entry (t ++ r))

/-- The reader accepts only texts of a grammar. -/
def Sound {α : Type} (text : α → List CodePoint → Prop) (entry : Reader α) : Prop :=
  ∀ s a r, entry s = .ok (a, r) → ∃ t, text a t ∧ s = t ++ r

/-- A padded entry that the reader accepts. -/
structure Padded.Readable {α : Type} (entry : Reader α) (p : Padded α) : Prop where
  spaced : p.Spaced
  front : ∃ c s, p.text = c :: s ∧ Front c
  takes : Takes entry p.value p.text

variable {α : Type} {entry : Reader α} {closing : CodePoint} {missing : SyntaxFault} {rounds : Nat} {a : α}
  {s r u : List CodePoint} {e : ReadError} {p : Padded α}

theorem readEntries_of_error (h : entry s = .error e) :
    readEntries entry closing missing (rounds + 1) s = .error e := by
  simp only [readEntries, h, bind, Except.bind]

theorem readEntries_close (h : entry s = .ok (a, r)) (hr : skipSpace r = closing :: u) :
    readEntries entry closing missing (rounds + 1) s = .ok ([a], u) := by
  simp only [readEntries, h, hr, bind, Except.bind, if_true]
  rfl

theorem readEntries_comma (hc : closing ≠ ',') (h : entry s = .ok (a, r)) (hr : skipSpace r = .char ',' :: u) :
    readEntries entry closing missing (rounds + 1) s =
      (readEntries entry closing missing rounds (skipSpace u)).map fun p => (a :: p.1, p.2) := by
  simp only [readEntries, h, hr, bind, Except.bind, if_neg hc.symm, if_true]
  rfl

theorem readEntries_stop (h : entry s = .ok (a, r)) (hr : ∀ u, skipSpace r ≠ closing :: u)
    (hc : ∀ u, skipSpace r ≠ .char ',' :: u) :
    readEntries entry closing missing (rounds + 1) s = .error (.malformed .noComma (skipSpace r).length) := by
  simp only [readEntries, h, bind, Except.bind]
  split
  · rename_i c u hu
    have hcl : c ≠ closing := fun he => hr u (he ▸ hu)
    have hcm : c ≠ ',' := fun he => hc u (he ▸ hu)
    rw [if_neg hcl, if_neg hcm, hu]
    rfl
  · rename_i hu
    rw [hu]
    rfl

/-- The rounds of `readEntries` are enough if there is one for each character. -/
theorem exists_round (hs : s.length < u.length) (hn : u.length ≤ rounds) :
    ∃ k, rounds = k + 1 ∧ (skipSpace s).length ≤ k := by
  have hle := length_skipSpace_le s
  exact ⟨rounds - 1, by omega, by omega⟩

theorem Padded.Readable.skipSpace_written (h : p.Readable entry) (s : List CodePoint) :
    skipSpace (p.written ++ s) = p.text ++ (p.after ++ s) := by
  rw [written, List.append_assoc, List.append_assoc, skipSpace_append h.spaced.1, skipSpace_of_front h.front]

theorem Padded.Readable.entry_append {c : CodePoint} (h : p.Readable entry)
    (hc : c ∈ [CodePoint.char ',', .char ']', .char '}']) (s : List CodePoint) :
    (entry (p.text ++ (p.after ++ c :: s)) = .ok (p.value, p.after ++ c :: s) ∧
        skipSpace (p.after ++ c :: s) = c :: s) ∨
      Exhausts (entry (p.text ++ (p.after ++ c :: s))) := by
  simp only [List.mem_cons, List.not_mem_nil, or_false] at hc
  refine (h.takes _ (h.spaced.2.endsNumeral_append (endsNumeral_cons ?_ s))).imp_left fun he => ⟨he, ?_⟩
  · rcases hc with rfl | rfl | rfl <;> decide
  · rw [skipSpace_append h.spaced.2, skipSpace_cons]
    rcases hc with rfl | rfl | rfl <;> decide

section
variable (hc : closing ∈ [CodePoint.char ']', .char '}'])
include hc

theorem closing_ne_comma : closing ≠ ',' := by
  rintro rfl
  simp at hc

theorem readEntries_written {first : Padded α} {rest : List (Padded α)} (h : ∀ p ∈ first :: rest, p.Readable entry)
    (r : List CodePoint)
    (hn : (skipSpace (first.written ++ (rest.flatMap (fun p => .char ',' :: p.written) ++
        closing :: r))).length ≤ rounds) :
    readEntries entry closing missing rounds
          (skipSpace (first.written ++ (rest.flatMap (fun p => .char ',' :: p.written) ++ closing :: r))) =
        .ok ((first :: rest).map Padded.value, r) ∨
      Exhausts (readEntries entry closing missing rounds
        (skipSpace (first.written ++ (rest.flatMap (fun p => .char ',' :: p.written) ++ closing :: r)))) := by
  -- each round moves on by one entry, so the first one and the number of rounds are general
  induction rest generalizing first rounds with
  | nil =>
    have hf := h first List.mem_cons_self
    rw [List.flatMap_nil, List.nil_append, hf.skipSpace_written] at hn ⊢
    obtain ⟨rounds, rfl, -⟩ := exists_round (s := r) (by simp; omega) hn
    rcases hf.entry_append (List.mem_cons_of_mem _ hc) r with ⟨he, hs⟩ | ⟨e, hl, he⟩
    · exact .inl (readEntries_close he hs)
    · exact .inr ⟨e, hl, readEntries_of_error he⟩
  | cons q rest ih =>
    have hf := h first List.mem_cons_self
    rw [List.flatMap_cons, List.cons_append, List.cons_append, List.append_assoc, hf.skipSpace_written] at hn ⊢
    obtain ⟨rounds, rfl, hk⟩ :=
      exists_round (s := q.written ++ (rest.flatMap (fun p => .char ',' :: p.written) ++ closing :: r))
        (by simp; omega) hn
    rcases hf.entry_append List.mem_cons_self _ with ⟨he, hs⟩ | ⟨e, hl, he⟩
    · rw [readEntries_comma (closing_ne_comma hc) he hs]
      rcases ih (fun p hp => h p (List.mem_cons_of_mem _ hp)) hk with hi | hi
      · rw [hi]
        exact .inl rfl
      · exact .inr (exhausts_map_iff.mpr hi)
    · exact .inr ⟨e, hl, readEntries_of_error he⟩

/-- After entries that end in commas, an entry that exceeds a limit makes the whole reading exceed it. -/
theorem readEntries_exhausts {entries : List (Padded α)} {space s : List CodePoint}
    (hi : ∀ p ∈ entries, p.Readable entry)
    (ha : Spaces space) (hs : ∃ c t, s = c :: t ∧ Front c) (he : Exhausts (entry s))
    (hn : (skipSpace (entries.flatMap (fun p => p.written ++ [.char ',']) ++ (space ++ s))).length ≤ rounds) :
    Exhausts (readEntries entry closing missing rounds
      (skipSpace (entries.flatMap (fun p => p.written ++ [.char ',']) ++ (space ++ s)))) := by
  induction entries generalizing rounds with
  | nil =>
    have hf : skipSpace s = s := by simpa using skipSpace_of_front hs []
    rw [List.flatMap_nil, List.nil_append, skipSpace_append ha, hf] at hn ⊢
    obtain ⟨c, t, rfl, -⟩ := hs
    obtain ⟨rounds, rfl, -⟩ := exists_round (s := t) (by simp) hn
    obtain ⟨e, hl, hv⟩ := he
    exact ⟨e, hl, readEntries_of_error hv⟩
  | cons p entries ih =>
    have hp := hi p List.mem_cons_self
    rw [List.flatMap_cons, List.append_assoc, List.append_assoc, List.singleton_append, hp.skipSpace_written] at hn ⊢
    obtain ⟨rounds, rfl, hk⟩ :=
      exists_round (s := entries.flatMap (fun p => p.written ++ [.char ',']) ++ (space ++ s)) (by simp; omega) hn
    rcases hp.entry_append List.mem_cons_self _ with ⟨hv, hr⟩ | ⟨e, hl, hv⟩
    · rw [readEntries_comma (closing_ne_comma hc) hv hr, exhausts_map_iff]
      exact ih (fun q hq => hi q (List.mem_cons_of_mem p hq)) hk
    · exact ⟨e, hl, readEntries_of_error hv⟩

end

theorem exists_front_entries {entries : List (Padded α)} {space s : List CodePoint}
    (hi : ∀ p ∈ entries, p.Readable entry)
    (ha : Spaces space) (hs : ∃ c t, s = c :: t ∧ Front c) :
    ∃ c t, skipSpace (entries.flatMap (fun p => p.written ++ [.char ',']) ++ (space ++ s)) = c :: t ∧ Front c := by
  cases entries with
  | nil =>
    have hf : skipSpace s = s := by simpa using skipSpace_of_front hs []
    rw [List.flatMap_nil, List.nil_append, skipSpace_append ha, hf]
    exact hs
  | cons p entries =>
    have hp := hi p List.mem_cons_self
    obtain ⟨c, t, ht, hc⟩ := hp.front
    rw [List.flatMap_cons, List.append_assoc, List.append_assoc, hp.skipSpace_written, ht]
    exact ⟨c, _, rfl, hc⟩

section
variable {text : α → List CodePoint → Prop} {before : List CodePoint}

theorem padded_of_entry (he : Sound text entry) (hb : Spaces before) (h : entry s = .ok (a, r)) :
    ∃ p : Padded α, p.Spaced ∧ p.value = a ∧ text p.value p.text ∧ before ++ s = p.written ++ skipSpace r := by
  obtain ⟨t, ht, rfl⟩ := he s a r h
  obtain ⟨after, ha, hr⟩ := exists_spaces r
  refine ⟨⟨before, a, t, after⟩, ⟨hb, ha⟩, rfl, ht, ?_⟩
  rw [Padded.written, List.append_assoc, List.append_assoc, ← hr]

/-- Accepted entries are entries of the grammar. -/
theorem entries_of_readEntries (he : Sound text entry) (hc : closing ≠ ',') (hb : Spaces before) {as : List α}
    (h : readEntries entry closing missing rounds s = .ok (as, r)) :
    ∃ first rest, (∀ p ∈ first :: rest, p.Spaced ∧ text p.value p.text) ∧ as = (first :: rest).map Padded.value ∧
      before ++ s = first.written ++ (rest.flatMap (fun p => .char ',' :: p.written) ++ closing :: r) := by
  induction rounds generalizing s before as with
  | zero => cases h
  | succ rounds ih =>
    cases hs : entry s with
    | error e =>
      rw [readEntries_of_error hs] at h
      cases h
    | ok p =>
      obtain ⟨first, hf, hfv, hft, hw⟩ := padded_of_entry he hb hs
      by_cases hr : ∃ u, skipSpace p.2 = closing :: u
      · obtain ⟨u, hr⟩ := hr
        rw [readEntries_close hs hr] at h
        obtain ⟨rfl, rfl⟩ := Prod.mk.inj (Except.ok.inj h)
        refine ⟨first, [], by simp [hf, hft], by simp [hfv], ?_⟩
        rw [hw, hr]
        rfl
      · by_cases hm : ∃ u, skipSpace p.2 = .char ',' :: u
        · obtain ⟨u, hm⟩ := hm
          rw [readEntries_comma hc hs hm] at h
          obtain ⟨q, hq, hqe⟩ := map_eq_ok h
          obtain ⟨rfl, rfl⟩ := Prod.mk.inj hqe
          obtain ⟨space, ha, hu⟩ := exists_spaces u
          obtain ⟨second, rest, hp, has, hsr⟩ := ih ha hq
          refine ⟨first, second :: rest, List.forall_mem_cons.mpr ⟨⟨hf, hft⟩, hp⟩, by simp [hfv, has], ?_⟩
          rw [hw, hm, hu, hsr]
          simp
        · rw [readEntries_stop hs (fun u hu => hr ⟨u, hu⟩) fun u hu => hm ⟨u, hu⟩] at h
          cases h

/-- If reading entries exceeds a limit, one entry does, after entries of the grammar. -/
theorem entry_exhausts_of_readEntries (he : Sound text entry) (hc : closing ≠ ',') (hb : Spaces before)
    (h : Exhausts (readEntries entry closing missing rounds s)) :
    ∃ (entries : List (Padded α)) (space w : List CodePoint), (∀ p ∈ entries, p.Spaced ∧ text p.value p.text) ∧
      Spaces space ∧ Exhausts (entry w) ∧
      before ++ s = entries.flatMap (fun p => p.written ++ [.char ',']) ++ (space ++ w) := by
  induction rounds generalizing s before with
  | zero => exact absurd h (not_exhausts_malformed _ _)
  | succ rounds ih =>
    cases hs : entry s with
    | error e =>
      rw [readEntries_of_error hs, exhausts_error_iff] at h
      exact ⟨[], before, s, by simp, hb, ⟨e, h, hs⟩, rfl⟩
    | ok p =>
      obtain ⟨first, hf, -, hft, hw⟩ := padded_of_entry he hb hs
      by_cases hr : ∃ u, skipSpace p.2 = closing :: u
      · obtain ⟨u, hr⟩ := hr
        rw [readEntries_close hs hr] at h
        exact absurd h (not_exhausts_ok _)
      · by_cases hm : ∃ u, skipSpace p.2 = .char ',' :: u
        · obtain ⟨u, hm⟩ := hm
          rw [readEntries_comma hc hs hm, exhausts_map_iff] at h
          obtain ⟨a, ha, hu⟩ := exists_spaces u
          obtain ⟨entries, space, w, hp, hsp, hx, hsr⟩ := ih ha h
          refine ⟨first :: entries, space, w, List.forall_mem_cons.mpr ⟨⟨hf, hft⟩, hp⟩, hsp, hx, ?_⟩
          rw [hw, hm, hu, hsr]
          simp
        · rw [readEntries_stop hs (fun u hu => hr ⟨u, hu⟩) fun u hu => hm ⟨u, hu⟩] at h
          exact absurd h (not_exhausts_malformed _ _)

end

/-- `readItems` is `readEntries` of values. -/
theorem readItems_eq (value : Reader Json) (rounds : Nat) (s : List CodePoint) :
    readItems value rounds s = readEntries value ']' .noValue rounds s := by
  induction rounds generalizing s with
  | zero => rfl
  | succ rounds ih =>
    cases hv : value s with
    | error e =>
      rw [readEntries_of_error hv]
      simp only [readItems, hv, bind, Except.bind]
    | ok p =>
      simp only [readItems, hv, bind, Except.bind]
      split
      · rename_i hr
        rw [readEntries_close hv hr]
        rfl
      · rename_i hr
        rw [readEntries_comma (by decide) hv hr, ih]
        rfl
      · rename_i hb hm
        rw [readEntries_stop hv hb hm]
        rfl

def readMember (value : Reader Json) : Reader (Text × Json) := fun s => do
  let (key, r) ← readKey s
  match skipSpace r with
  | .char ':' :: r =>
    let (v, r) ← value (skipSpace r)
    return ((key, v), r)
  | r => throw (.malformed .noColon r.length)

section
variable {value : Reader Json} {key : Text} {t : List CodePoint} {v : Json}

theorem readMember_of_key_error (h : readKey s = .error e) : readMember value s = .error e := by
  simp only [readMember, h, bind, Except.bind]

theorem readMember_of_no_colon (hk : readKey s = .ok (key, t)) (hc : ∀ u, skipSpace t ≠ .char ':' :: u) :
    readMember value s = .error (.malformed .noColon (skipSpace t).length) := by
  simp only [readMember, hk, bind, Except.bind]
  rfl

theorem readMember_of_error (hk : readKey s = .ok (key, t)) (hc : skipSpace t = .char ':' :: u)
    (hv : value (skipSpace u) = .error e) : readMember value s = .error e := by
  simp only [readMember, hk, hc, hv, bind, Except.bind]

theorem readMember_of_ok (hk : readKey s = .ok (key, t)) (hc : skipSpace t = .char ':' :: u)
    (hv : value (skipSpace u) = .ok (v, r)) : readMember value s = .ok ((key, v), r) := by
  simp only [readMember, hk, hc, hv, bind, Except.bind]
  rfl

end

/-- `readFields` is `readEntries` of members. -/
theorem readFields_eq (value : Reader Json) (rounds : Nat) (s : List CodePoint) :
    readFields value rounds s = readEntries (readMember value) '}' .noKey rounds s := by
  induction rounds generalizing s with
  | zero => rfl
  | succ rounds ih =>
    cases hk : readKey s with
    | error e =>
      rw [readEntries_of_error (readMember_of_key_error hk)]
      simp only [readFields, hk, bind, Except.bind]
    | ok p =>
      by_cases hc : ∃ u, skipSpace p.2 = .char ':' :: u
      · obtain ⟨u, hc⟩ := hc
        cases hv : value (skipSpace u) with
        | error e =>
          rw [readEntries_of_error (readMember_of_error hk hc hv)]
          simp only [readFields, hk, hc, hv, bind, Except.bind]
        | ok q =>
          have hm := readMember_of_ok hk hc hv
          simp only [readFields, hk, hc, hv, bind, Except.bind]
          split
          · rename_i hr
            rw [readEntries_close hm hr]
            rfl
          · rename_i hr
            rw [readEntries_comma (by decide) hm hr, ih]
            rfl
          · rename_i hb hn
            rw [readEntries_stop hm hb hn]
            rfl
      · have hc : ∀ u, skipSpace p.2 ≠ .char ':' :: u := fun u hu => hc ⟨u, hu⟩
        rw [readEntries_of_error (readMember_of_no_colon hk hc)]
        simp only [readFields, hk, bind, Except.bind]
        rfl

end BrowserPilot.Json
