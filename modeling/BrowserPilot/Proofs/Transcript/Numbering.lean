import BrowserPilot.Proofs.Json.Printing
import BrowserPilot.Transcript
import Mathlib.Data.List.DropRight

/-! The transcript refines a list: its entries are the accepted additions since the last clearing, numbered from 1
without gaps. -/
namespace BrowserPilot

/-- An entry without its id. -/
structure Remark where
  role : Text
  text : Text
  result : Option Text
deriving DecidableEq, Repr

def Remark.ofEntry (e : Entry) : Remark := ⟨e.role, e.text, e.result.map Text.ofString⟩

namespace Transcript

/-! ### Additions -/

/-- The given texts can be encoded and the result can be dumped. -/
structure Storable (role text : Option Text) (result : Option Json) : Prop where
  role : role.all Text.isEncodable = true
  text : text.all Text.isEncodable = true
  result : result.all (fun v => (v.printError? Json.depthLimit).isNone) = true

instance (role text : Option Text) (result : Option Json) : Decidable (Storable role text result) :=
  decidable_of_iff (_ ∧ _ ∧ _) ⟨fun h => ⟨h.1, h.2.1, h.2.2⟩, fun h => ⟨h.role, h.text, h.result⟩⟩

theorem written_cases (result : Option Json) :
    (result.all (fun v => (v.printError? Json.depthLimit).isNone) = true ∧
      ∃ stored : Option String, written result = .ok (stored.map Text.ofString) ∧
        stored.map Text.ofString = result.map Json.compact) ∨
    (result.all (fun v => (v.printError? Json.depthLimit).isNone) = false ∧
      ∃ e, written result = .error (.unwritable e)) := by
  cases result with
  | none => exact .inl ⟨rfl, none, rfl, rfl⟩
  | some v =>
    simp only [written, Json.dump, Option.all_some]
    cases v.printError? Json.depthLimit with
    | none =>
      obtain ⟨s, hs⟩ := Text.isEncodable_iff.mp v.isEncodable_compact
      exact .inl ⟨rfl, some s, by simp [hs], by simp [hs]⟩
    | some e => exact .inr ⟨rfl, e, rfl⟩

theorem encode?_cases (o : Option Text) :
    (o.all Text.isEncodable = true ∧ ∃ s : Option String, encode? o = .ok s ∧ s.map Text.ofString = o) ∨
    (o.all Text.isEncodable = false ∧ ∃ text, encode? o = .error (.unencodable text)) := by
  cases o with
  | none => exact .inl ⟨rfl, none, rfl, rfl⟩
  | some text =>
    cases he : text.isEncodable with
    | true =>
      obtain ⟨s, rfl⟩ := Text.isEncodable_iff.mp he
      exact .inl ⟨he, some s, by rw [encode?, encode, Text.string?_ofString]; rfl, rfl⟩
    | false => exact .inr ⟨he, text, by rw [encode?, encode, Text.string?_eq_none_iff.mpr he]; rfl⟩

theorem encode?_map_ofString (o : Option String) : encode? (o.map Text.ofString) = .ok o := by
  cases o with
  | none => rfl
  | some s => rw [Option.map_some, encode?, encode, Text.string?_ofString]; rfl

variable {t t' : Transcript} {role text : Option Text} {result : Option Json} {e : Entry}

/-- An addition appends an entry, or is refused because it cannot be stored or lacks a part. -/
theorem add?_cases (t : Transcript) (role text : Option Text) (result : Option Json) :
    (¬ Storable role text result ∧ ∃ error, error ≠ .incomplete ∧ t.add? role text result = .error error) ∨
    (Storable role text result ∧ (role = none ∨ text = none) ∧ t.add? role text result = .error .incomplete) ∨
    (Storable role text result ∧ ∃ e : Entry, t.add? role text result = .ok (e, ⟨t.entries ++ [e]⟩) ∧
      e.id = t.nextId ∧ role = some ↑e.role ∧ text = some ↑e.text ∧
      e.result.map Text.ofString = result.map Json.compact) := by
  unfold add?
  rcases written_cases result with ⟨hw, stored, hs, hc⟩ | ⟨hw, e, hs⟩
  · rcases encode?_cases role with ⟨hr, role, hre, rfl⟩ | ⟨hr, bad, hre⟩
    · rcases encode?_cases text with ⟨ht, text, hte, rfl⟩ | ⟨ht, bad, hte⟩
      · have hst : Storable (role.map Text.ofString) (text.map Text.ofString) result := ⟨hr, ht, hw⟩
        simp only [hs, hre, hte, encode?_map_ofString, bind, Except.bind]
        cases role with
        | none => exact .inr (.inl ⟨hst, .inl rfl, rfl⟩)
        | some role =>
          cases text with
          | none => exact .inr (.inl ⟨hst, .inr rfl, rfl⟩)
          | some text => exact .inr (.inr ⟨hst, _, rfl, rfl, rfl, rfl, hc⟩)
      · refine .inl ⟨fun h => by simp [h.text] at ht, .unencodable bad, by simp, ?_⟩
        simp only [hs, hre, hte, bind, Except.bind]
    · refine .inl ⟨fun h => by simp [h.role] at hr, .unencodable bad, by simp, ?_⟩
      simp only [hs, hre, bind, Except.bind]
  · refine .inl ⟨fun h => by simp [h.result] at hw, .unwritable e, by simp, ?_⟩
    simp only [hs, bind, Except.bind]

theorem add?_accepts_iff (t : Transcript) (role text : Option Text) (result : Option Json) :
    (∃ added, t.add? role text result = .ok added) ↔ role ≠ none ∧ text ≠ none ∧ Storable role text result := by
  rcases t.add?_cases role text result with ⟨hs, error, -, ha⟩ | ⟨-, hn, ha⟩ | ⟨hs, e, ha, -, rfl, rfl, -⟩
  · simp [ha, hs]
  · rcases hn with rfl | rfl <;> simp [ha]
  · simp [ha, hs]

theorem add?_incomplete_iff (t : Transcript) (role text : Option Text) (result : Option Json) :
    t.add? role text result = .error .incomplete ↔ (role = none ∨ text = none) ∧ Storable role text result := by
  rcases t.add?_cases role text result with ⟨hs, error, hn, ha⟩ | ⟨hs, hn, ha⟩ | ⟨-, e, ha, -, rfl, rfl, -⟩
  · simp [ha, hs, hn]
  · simp [ha, hs, hn]
  · simp [ha]

theorem of_add?_eq_ok (h : t.add? role text result = .ok (e, t')) :
    t' = ⟨t.entries ++ [e]⟩ ∧ e.id = t.nextId ∧ role = some ↑e.role ∧ text = some ↑e.text ∧
      e.result.map Text.ofString = result.map Json.compact := by
  rcases t.add?_cases role text result with ⟨-, error, -, ha⟩ | ⟨-, -, ha⟩ | ⟨-, f, ha, hi⟩
  · rw [ha] at h; cases h
  · rw [ha] at h; cases h
  · rw [ha] at h
    obtain ⟨rfl, rfl⟩ := Prod.mk.inj (Except.ok.inj h)
    exact ⟨rfl, hi⟩

theorem add_of_storable (t : Transcript) {role text : Text} (h : Storable (some role) (some text) result) :
    t.add role text result = .ok (t.after (.add (some role) (some text) result)) := by
  obtain ⟨⟨e, t'⟩, ha⟩ := (t.add?_accepts_iff (some role) (some text) result).mpr ⟨by simp, by simp, h⟩
  rw [add, after, ha]
  rfl

theorem add?_of_unencodable (t : Transcript) (role : String) {text : Text} (h : text.isEncodable = false) :
    t.add? (some ↑role) (some text) none = .error (.unencodable text) := by
  simp only [add?, written, encode?, encode, Text.string?_ofString, Text.string?_eq_none_iff.mpr h]
  rfl

/-- The entries of the second transcript are those of the first, followed by the remarks. -/
def Grows (t t' : Transcript) (remarks : List Remark) : Prop :=
  ∃ added, t'.entries = t.entries ++ added ∧ added.map Remark.ofEntry = remarks

namespace Grows
variable {t t' t'' : Transcript} {before after : List Remark}

theorem refl (t : Transcript) : t.Grows t [] := ⟨[], by simp⟩

theorem trans (h : t.Grows t' before) (h' : t'.Grows t'' after) : t.Grows t'' (before ++ after) := by
  obtain ⟨first, he, rfl⟩ := h
  obtain ⟨second, he', rfl⟩ := h'
  exact ⟨first ++ second, by rw [he', he, List.append_assoc], List.map_append⟩

theorem map_ofEntry (h : t.Grows t' after) :
    t'.entries.map Remark.ofEntry = t.entries.map Remark.ofEntry ++ after := by
  obtain ⟨added, he, rfl⟩ := h
  rw [he, List.map_append]

end Grows

theorem grows_of_add? (h : t.add? role text result = .ok (e, t')) :
    t.Grows t' [⟨e.role, e.text, result.map Json.compact⟩] := by
  obtain ⟨rfl, -, -, -, hr⟩ := of_add?_eq_ok h
  exact ⟨[e], rfl, by rw [← hr]; rfl⟩

/-! ### Numbers -/

/-- The ids of the entries are 1, 2, and so on. -/
def Numbered (t : Transcript) : Prop := t.entries.map (·.id) = List.range' 1 t.entries.length

theorem foldl_max_range' (n : Nat) : (List.range' 1 n).foldl max 0 = n := by
  induction n with
  | zero => rfl
  | succ n ih =>
    rw [List.range'_concat, List.foldl_append, ih, List.foldl_cons, List.foldl_nil]
    omega

theorem Numbered.nextId_eq (h : t.Numbered) : t.nextId = t.entries.length + 1 := by
  rw [nextId, h, foldl_max_range']

theorem Numbered.concat (h : t.Numbered) (he : e.id = t.nextId) : Numbered ⟨t.entries ++ [e]⟩ := by
  rw [Numbered, List.map_append, h, List.length_append, List.length_singleton, List.range'_concat]
  simp [he, h.nextId_eq, Nat.add_comm]

namespace Operation

/-- The remark of an accepted addition. -/
def remark? : Operation → Option Remark
  | .add (some role) (some text) result =>
    if Storable (some role) (some text) result then some ⟨role, text, result.map Json.compact⟩ else none
  | _ => none

def clears : Operation → Bool
  | .clear => true
  | _ => false

/-- The remarks of the accepted additions since the last clearing. -/
def standing (ops : List Operation) : List Remark := (ops.rtakeWhile fun op => !op.clears).filterMap remark?

theorem standing_concat_clear (ops : List Operation) : standing (ops ++ [.clear]) = [] := by
  rw [standing, List.rtakeWhile_concat]
  rfl

theorem standing_concat {op : Operation} (h : op.clears = false) (ops : List Operation) :
    standing (ops ++ [op]) = standing ops ++ op.remark?.toList := by
  rw [standing, List.rtakeWhile_concat, h, Bool.not_false, if_pos rfl, List.filterMap_append]
  cases hr : op.remark? <;> simp [standing, hr]

end Operation

def afterAll (t : Transcript) (ops : List Operation) : Transcript := ops.foldl after t

/-- An operation other than a clearing appends its remark, with the next id, or changes nothing. -/
theorem grows_after {op : Operation} (hc : op.clears = false) (t : Transcript) :
    t.Grows (t.after op) op.remark?.toList ∧ (t.Numbered → (t.after op).Numbered) := by
  cases op with
  | add role text result =>
    rcases t.add?_cases role text result with ⟨hs, error, -, ha⟩ | ⟨-, hn, ha⟩ | ⟨hs, e, ha, hi, rfl, rfl, -⟩
    · have hr : (Operation.add role text result).remark? = none := by
        cases role <;> cases text <;> simp [Operation.remark?, hs]
      simp only [after, ha, hr]
      exact ⟨.refl t, id⟩
    · have hr : (Operation.add role text result).remark? = none := by
        rcases hn with rfl | rfl
        · rfl
        · cases role <;> rfl
      simp only [after, ha, hr]
      exact ⟨.refl t, id⟩
    · simp only [after, ha, Operation.remark?, if_pos hs]
      exact ⟨grows_of_add? ha, fun h => h.concat hi⟩
  | clear => cases hc
  | prepare => exact ⟨.refl t, id⟩
  | look => exact ⟨.refl t, id⟩

theorem grows_of_storable (t : Transcript) {role text : Text} (h : Storable (some role) (some text) result) :
    t.Grows (t.after (.add (some role) (some text) result)) [⟨role, text, result.map Json.compact⟩] := by
  have hc : (Operation.add (some role) (some text) result).clears = false := rfl
  have hg := (grows_after hc t).1
  rwa [Operation.remark?, if_pos h] at hg

theorem afterAll_concat (t : Transcript) (ops : List Operation) (op : Operation) :
    t.afterAll (ops ++ [op]) = (t.afterAll ops).after op := by
  rw [afterAll, List.foldl_append]
  rfl

theorem afterAll_standing (ops : List Operation) :
    (empty.afterAll ops).entries.map Remark.ofEntry = Operation.standing ops ∧ (empty.afterAll ops).Numbered := by
  -- from the right, since it is the last operation that decides what still stands of the earlier ones
  induction ops using List.reverseRecOn with
  | nil => exact ⟨rfl, rfl⟩
  | append_singleton ops op ih =>
    rw [afterAll_concat]
    cases hc : op.clears with
    | true =>
      cases op with
      | clear =>
        rw [Operation.standing_concat_clear]
        exact ⟨rfl, rfl⟩
      | _ => cases hc
    | false =>
      obtain ⟨hg, hn⟩ := grows_after hc (empty.afterAll ops)
      exact ⟨by rw [hg.map_ofEntry, ih.1, Operation.standing_concat hc], hn ih.2⟩

/-- After any operations on an empty transcript, the entries are the accepted additions since the last clearing,
with ids from 1 on. An addition is accepted if and only if it has a role and a text and can be stored; one that can
be stored but lacks a part is refused as incomplete. A refusal changes nothing, and neither do creating the table
and reading it. An accepted addition returns the entry that is then the last one. -/
theorem operations_number_additions (ops : List Operation) :
    let t := empty.afterAll ops
    let standing := Operation.standing ops
    t.entries.map Remark.ofEntry = standing ∧ t.entries.map (·.id) = List.range' 1 standing.length ∧
      t.nextId = standing.length + 1 ∧
      (∀ role text result,
        ((∃ added, t.add? role text result = .ok added) ↔ role ≠ none ∧ text ≠ none ∧ Storable role text result) ∧
        (t.add? role text result = .error .incomplete ↔
          (role = none ∨ text = none) ∧ Storable role text result) ∧
        (∀ error, t.add? role text result = .error error → t.after (.add role text result) = t)) ∧
      (∀ role text result e t', t.add? role text result = .ok (e, t') →
        t.after (.add role text result) = t' ∧ t'.entries = t.entries ++ [e] ∧ t'.entries.getLast? = some e ∧
        e.id = standing.length + 1 ∧ role = some ↑e.role ∧ text = some ↑e.text ∧
        e.result.map Text.ofString = result.map Json.compact) ∧
      t.after .prepare = t ∧ t.after .look = t := by
  intro t standing
  obtain ⟨hs, hn⟩ : t.entries.map Remark.ofEntry = standing ∧ t.Numbered := afterAll_standing ops
  have hl : standing.length = t.entries.length := by rw [← hs, List.length_map]
  refine ⟨hs, by rw [hl]; exact hn, by rw [hl, hn.nextId_eq], ?_, ?_, rfl, rfl⟩
  · intro role text result
    refine ⟨t.add?_accepts_iff role text result, t.add?_incomplete_iff role text result, fun error h => ?_⟩
    rw [after, h]
  · intro role text result e t' h
    obtain ⟨rfl, hi, hr, ht, hres⟩ := of_add?_eq_ok h
    exact ⟨by rw [after, h], rfl, List.getLast?_concat, by rw [hi, hn.nextId_eq, hl], hr, ht, hres⟩

/-- An addition without a role whose text is a lone surrogate. The text is refused first. -/
theorem half_pair_is_refused_before_missing_role :
    let text := Text.ofList [.ofNat 0xD800]
    empty.add? none (some text) none = .error (.unencodable text) ∧
      empty.add? none (some text) none ≠ .error .incomplete := by
  decide +kernel

end Transcript

end BrowserPilot
