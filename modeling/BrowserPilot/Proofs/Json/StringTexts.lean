import BrowserPilot.Json.Reader
import BrowserPilot.Proofs.Json.Grammar
import Mathlib.Tactic.IntervalCases

/-! Soundness and completeness of the reader of strings. -/
namespace BrowserPilot.Json

theorem readString_quote (opening : Nat) (r : List CodePoint) : readString opening (.char '"' :: r) = .ok ([], r) := by
  simp [readString]

theorem readString_plain (opening : Nat) {c : CodePoint} (hq : c ≠ '"') (hb : c ≠ '\\') (hc : 0x20 ≤ c.toNat)
    (r : List CodePoint) : readString opening (c :: r) = (readString opening r).map fun p => (c :: p.1, p.2) := by
  rw [readString]
  · rw [if_neg (by omega)]
  all_goals simp_all

theorem readString_letter (opening : Nat) {a c : CodePoint} (h : unescape? a = some c) (r : List CodePoint) :
    readString opening (.char '\\' :: a :: r) = (readString opening r).map fun p => (c :: p.1, p.2) := by
  rw [readString]
  · simp only [h]
  all_goals
    intros
    simp_all [unescape?]

theorem readString_unit (opening : Nat) {a b c d e : CodePoint} {n : Nat} (h : unit? a b c d = some n)
    (hn : isHighSurrogate n = false) (r : List CodePoint) :
    readString opening (.char '\\' :: .char 'u' :: a :: b :: c :: d :: e :: r) =
      (readString opening (e :: r)).map fun p => (CodePoint.ofNat n :: p.1, p.2) := by
  rw [readString]
  simp [h, hn]

theorem readString_pair (opening : Nat) {a b c d a' b' c' d' e : CodePoint} {n m : Nat} (h : unit? a b c d = some n)
    (h' : unit? a' b' c' d' = some m) (hn : isHighSurrogate n = true) (hm : isLowSurrogate m = true)
    (r : List CodePoint) :
    readString opening (.char '\\' :: .char 'u' :: a :: b :: c :: d ::
      .char '\\' :: .char 'u' :: a' :: b' :: c' :: d' :: e :: r) =
      (readString opening (e :: r)).map fun p => (joinSurrogates n m :: p.1, p.2) := by
  rw [readString]
  simp [h, h', hn, hm]

theorem Hexadecimal.lt {n : Nat} {c : CodePoint} (h : Hexadecimal n c) : n < 16 := by
  rcases h with h | h <;> exact (List.getElem?_eq_some_iff.mp h).1

theorem hexValue?_eq_some_iff {c : CodePoint} {n : Nat} : Text.hexValue? c = some n ↔ Hexadecimal n c := by
  constructor
  · intro h
    rw [← CodePoint.ofNat_toNat c]
    unfold Text.hexValue? at h
    generalize c.toNat = k at h
    simp only [Bool.and_eq_true, decide_eq_true_eq] at h
    split_ifs at h with hd hl hu <;> obtain rfl := Option.some.inj h
    · obtain ⟨ha, hb⟩ := hd
      interval_cases k <;> exact .inl rfl
    · obtain ⟨ha, hb⟩ := hl
      interval_cases k <;> exact .inl rfl
    · obtain ⟨ha, hb⟩ := hu
      interval_cases k <;> exact .inr rfl
  · intro h
    have hn := h.lt
    rcases h with h | h <;> interval_cases n <;> obtain rfl := Option.some.inj h <;> rfl

theorem Quad.exists_digits {n : Nat} {u : List CodePoint} (h : Quad n u) :
    ∃ a b c d, u = [a, b, c, d] ∧ unit? a b c d = some n := by
  cases h with
  | @digits i j k l a b c d ha hb hc hd =>
    refine ⟨a, b, c, d, rfl, ?_⟩
    simp only [unit?, hexValue?_eq_some_iff.mpr ha, hexValue?_eq_some_iff.mpr hb, hexValue?_eq_some_iff.mpr hc,
      hexValue?_eq_some_iff.mpr hd]
    rfl

theorem quad_of_unit? {a b c d : CodePoint} {n : Nat} (h : unit? a b c d = some n) : Quad n [a, b, c, d] := by
  simp only [unit?, Option.bind_eq_bind, Option.bind_eq_some_iff] at h
  obtain ⟨i, ha, j, hb, k, hc, l, hd, he⟩ := h
  obtain rfl := Option.some.inj he
  exact .digits (hexValue?_eq_some_iff.mp ha) (hexValue?_eq_some_iff.mp hb) (hexValue?_eq_some_iff.mp hc)
    (hexValue?_eq_some_iff.mp hd)

theorem Quad.lt {n : Nat} {u : List CodePoint} (h : Quad n u) : n < 0x10000 := by
  cases h with
  | digits ha hb hc hd =>
    have := ha.lt
    have := hb.lt
    have := hc.lt
    have := hd.lt
    omega

theorem unescape?_eq_some_iff {a c : CodePoint} : unescape? a = some c ↔ (a, c) ∈ letterEscapes := by
  constructor
  · intro h
    unfold unescape? at h
    split at h
    case h_9 => cases h
    all_goals
      obtain rfl := Option.some.inj h
      decide
  · intro h
    simp only [letterEscapes, List.mem_cons, Prod.mk.injEq, List.not_mem_nil, or_false] at h
    rcases h with ⟨rfl, rfl⟩ | ⟨rfl, rfl⟩ | ⟨rfl, rfl⟩ | ⟨rfl, rfl⟩ | ⟨rfl, rfl⟩ | ⟨rfl, rfl⟩ | ⟨rfl, rfl⟩ |
      ⟨rfl, rfl⟩ <;> rfl

theorem isHighSurrogate_iff {n : Nat} : isHighSurrogate n = true ↔ 0xD800 ≤ n ∧ n ≤ 0xDBFF := by
  simp [isHighSurrogate]

theorem isLowSurrogate_iff {n : Nat} : isLowSurrogate n = true ↔ 0xDC00 ≤ n ∧ n ≤ 0xDFFF := by
  simp [isLowSurrogate]

/-- A unit that does not begin a surrogate pair denotes a code point. -/
theorem characters_unit {n : Nat} {u cs s : List CodePoint} (h : Quad n u)
    (ha : isHighSurrogate n = true → ∀ m w t, Quad m w → isLowSurrogate m = true →
      s ≠ .char '\\' :: .char 'u' :: (w ++ t))
    (hs : Characters cs s) : Characters (.ofNat n :: cs) (.char '\\' :: .char 'u' :: (u ++ s)) := by
  have hn : (CodePoint.ofNat n).toNat = n := CodePoint.toNat_ofNat (by have := h.lt; omega)
  cases hc : (CodePoint.ofNat n).isChar with
  | true => exact .unit (hn.symm ▸ h) hc hs
  | false =>
    have hd := CodePoint.isChar_eq_false_iff.mp hc
    refine .half (hn.symm ▸ h) hc (fun hh m w t hw hl hu => ?_) hs
    exact ha (isHighSurrogate_iff.mpr (by omega)) m w t hw (isLowSurrogate_iff.mpr ⟨hl, hu⟩)

theorem characters_pair {n m : Nat} {u w cs s : List CodePoint} (hu : Quad n u) (hw : Quad m w)
    (hn : isHighSurrogate n = true) (hm : isLowSurrogate m = true) (hs : Characters cs s) :
    Characters (joinSurrogates n m :: cs) (.char '\\' :: .char 'u' :: (u ++ .char '\\' :: .char 'u' :: (w ++ s))) := by
  rw [isHighSurrogate_iff] at hn
  rw [isLowSurrogate_iff] at hm
  have hc : (joinSurrogates n m).toNat = 0x10000 + (n - 0xD800) * 0x400 + (m - 0xDC00) :=
    CodePoint.toNat_ofNat (by omega)
  have hh : 0xD800 + ((joinSurrogates n m).toNat - 0x10000) / 0x400 = n := by omega
  have hl : 0xDC00 + ((joinSurrogates n m).toNat - 0x10000) % 0x400 = m := by omega
  exact .pair (by omega) (hh.symm ▸ hu) (hl.symm ▸ hw) hs

theorem map_cons_eq_ok {c : CodePoint} {x : Except ReadError (List CodePoint × List CodePoint)} {cs r : List CodePoint}
    (h : x.map (fun p => (c :: p.1, p.2)) = .ok (cs, r)) : ∃ ds, x = .ok (ds, r) ∧ cs = c :: ds := by
  cases x with
  | error e => cases h
  | ok p =>
    obtain ⟨rfl, rfl⟩ := Prod.mk.inj (Except.ok.inj h)
    exact ⟨p.1, rfl, rfl⟩

/-- What is read up to the quotation mark is derived in the grammar. -/
theorem characters_of_readString {opening : Nat} {s cs r : List CodePoint} (h : readString opening s = .ok (cs, r)) :
    ∃ t, Characters cs t ∧ s = t ++ .char '"' :: r := by
  fun_induction readString opening s generalizing cs with
  | case2 t =>
    obtain ⟨rfl, rfl⟩ := Prod.mk.inj (Except.ok.inj h)
    exact ⟨[], .nil, rfl⟩
  -- the two halves of a pair
  | case6 a b c d n hu hn a' b' c' d' e t m hw hm ih =>
    obtain ⟨cs, hr, rfl⟩ := map_cons_eq_ok h
    obtain ⟨t, ht, he⟩ := ih hr
    exact ⟨_, characters_pair (quad_of_unit? hu) (quad_of_unit? hw) hn hm ht, by simp [he]⟩
  -- a first half before a unit that is no second half
  | case7 a b c d n hu hn a' b' c' d' e t m hw hm ih =>
    obtain ⟨cs, hr, rfl⟩ := map_cons_eq_ok h
    obtain ⟨t, ht, he⟩ := ih hr
    refine ⟨_, characters_unit (quad_of_unit? hu) ?_ ht, by simp [he]⟩
    rintro - k w t hk hl rfl
    obtain ⟨_, _, _, _, rfl, hv⟩ := hk.exists_digits
    simp only [List.cons_append, List.cons.injEq] at he
    obtain ⟨-, -, rfl, rfl, rfl, rfl, -⟩ := he
    rw [hw] at hv
    exact hm (Option.some.inj hv ▸ hl)
  -- a first half before no unit at all
  | case8 a b c d n hu hn e s hne ih =>
    obtain ⟨cs, hr, rfl⟩ := map_cons_eq_ok h
    obtain ⟨t, ht, he⟩ := ih hr
    refine ⟨_, characters_unit (quad_of_unit? hu) ?_ ht, by simp [he]⟩
    rintro - k w t hk - rfl
    obtain ⟨a', b', c', d', rfl, -⟩ := hk.exists_digits
    obtain ⟨e', s', hs⟩ : ∃ e' s', t ++ .char '"' :: r = e' :: s' := List.exists_cons_of_ne_nil (by simp)
    simp only [List.cons_append, List.nil_append, hs, List.cons.injEq] at he
    exact hne a' b' c' d' e' s' he.1 he.2
  -- a unit that is no first half
  | case9 a b c d e s n hu hn ih =>
    obtain ⟨cs, hr, rfl⟩ := map_cons_eq_ok h
    obtain ⟨t, ht, he⟩ := ih hr
    exact ⟨_, characters_unit (quad_of_unit? hu) (fun hh => absurd hh hn) ht, by simp [he]⟩
  | case12 a s _ _ c ha ih =>
    obtain ⟨cs, hr, rfl⟩ := map_cons_eq_ok h
    obtain ⟨t, ht, rfl⟩ := ih hr
    exact ⟨_, .letter (unescape?_eq_some_iff.mp ha) ht, rfl⟩
  | case14 c s hq hb _ _ hb' hc ih =>
    obtain ⟨cs, hr, rfl⟩ := map_cons_eq_ok h
    obtain ⟨t, ht, rfl⟩ := ih hr
    refine ⟨_, .plain hq (fun he => ?_) (by omega) ht, rfl⟩
    obtain ⟨e, u, hu⟩ : ∃ e u, t ++ .char '"' :: r = e :: u := List.exists_cons_of_ne_nil (by simp)
    exact hb' e u he hu
  | _ => cases h

/-- A string never exceeds a limit of the reader. -/
theorem readString_malformed {opening : Nat} {s : List CodePoint} {e : ReadError}
    (h : readString opening s = .error e) :
    ∃ fault remaining, e = .malformed fault remaining := by
  have hm : ∀ {c : CodePoint} {x : Except ReadError (List CodePoint × List CodePoint)},
      x.map (fun p => (c :: p.1, p.2)) = .error e → x = .error e := by
    intro c x hx
    cases x with
    | error e' => exact congrArg Except.error (Except.error.inj hx)
    | ok p => cases hx
  fun_induction readString opening s with
  | case2 => cases h
  | case6 | case7 | case8 | case9 | case12 | case14 => exact ‹_ → _› (hm h)
  | _ => exact ⟨_, _, (Except.error.inj h).symm⟩

theorem readString_alone {opening : Nat} {a b c d : CodePoint} {n : Nat} {s : List CodePoint}
    {p : List CodePoint × List CodePoint}
    (hu : unit? a b c d = some n) (hs : readString opening s = .ok p)
    (ha : isHighSurrogate n = true → ∀ m w t, Quad m w → isLowSurrogate m = true →
      s ≠ .char '\\' :: .char 'u' :: (w ++ t)) :
    readString opening (.char '\\' :: .char 'u' :: a :: b :: c :: d :: s) = .ok (CodePoint.ofNat n :: p.1, p.2) := by
  cases s with
  | nil => cases hs
  | cons e s =>
    by_cases hn : isHighSurrogate n = true
    · rw [readString]
      simp only [hu, hn, if_true]
      split
      · rename_i a' b' c' d' e' s'
        split
        · rename_i hw
          rw [readString] at hs
          simp only [hw] at hs
          cases hs
        · rename_i m hw
          rw [if_neg fun hm => ha hn m [a', b', c', d'] (e' :: s') (quad_of_unit? hw) hm rfl, hs]
          rfl
      · rw [hs]
        rfl
    · rw [readString_unit opening hu (by simpa using hn), hs]
      rfl

theorem joinSurrogates_halves {c : CodePoint} (h : 0x10000 ≤ c.toNat) :
    joinSurrogates (0xD800 + (c.toNat - 0x10000) / 0x400) (0xDC00 + (c.toNat - 0x10000) % 0x400) = c := by
  have hk : 0x10000 + (0xD800 + (c.toNat - 0x10000) / 0x400 - 0xD800) * 0x400 +
      (0xDC00 + (c.toNat - 0x10000) % 0x400 - 0xDC00) = c.toNat := by omega
  rw [joinSurrogates, hk, CodePoint.ofNat_toNat]

/-- Whether an escape follows does not depend on the text after the closing mark. -/
theorem Characters.unit_of_append {cs s r w t : List CodePoint} {m : Nat} (h : Characters cs s) (hw : Quad m w)
    (he : s ++ .char '"' :: r = .char '\\' :: .char 'u' :: (w ++ t)) :
    ∃ t', s = .char '\\' :: .char 'u' :: (w ++ t') := by
  obtain ⟨a, b, c, d, rfl, -⟩ := hw.exists_digits
  have hq : ∀ {n u s'}, Quad n u → s = .char '\\' :: .char 'u' :: (u ++ s') →
      ∃ t', s = .char '\\' :: .char 'u' :: ([a, b, c, d] ++ t') := by
    rintro n u s' hu rfl
    obtain ⟨_, _, _, _, rfl, -⟩ := hu.exists_digits
    simp only [List.cons_append, List.cons.injEq] at he
    obtain ⟨-, -, rfl, rfl, rfl, rfl, -⟩ := he
    exact ⟨_, rfl⟩
  cases h with
  | nil => cases he
  | plain _ hb => exact absurd (List.cons.inj he).1 hb
  | letter ha =>
    obtain rfl := (List.cons.inj (List.cons.inj he).2).1
    simp [letterEscapes] at ha
  | unit hu => exact hq hu rfl
  | pair _ hu => exact hq hu rfl
  | half hu => exact hq hu rfl

/-- The contents of a string literal are read as the code points they denote. -/
theorem Characters.readString_append {cs t : List CodePoint} (h : Characters cs t) (opening : Nat)
    (r : List CodePoint) :
    readString opening (t ++ .char '"' :: r) = .ok (cs, r) := by
  induction h with
  | nil => exact readString_quote opening r
  | plain hq hb hc _ ih =>
    rw [List.cons_append, readString_plain opening hq hb hc, ih]
    rfl
  | letter ha _ ih =>
    rw [List.cons_append, List.cons_append, readString_letter opening (unescape?_eq_some_iff.mpr ha), ih]
    rfl
  | @unit c cs u s hu hc _ ih =>
    obtain ⟨_, _, _, _, rfl, hv⟩ := hu.exists_digits
    have hr := readString_alone hv ih fun hh => by
      have hd := isHighSurrogate_iff.mp hh
      rw [CodePoint.isChar_eq_false_iff.mpr (by omega)] at hc
      cases hc
    rwa [CodePoint.ofNat_toNat] at hr
  | @pair c cs u w s hc hu hw _ ih =>
    have hv := c.toNat_lt
    obtain ⟨_, _, _, _, rfl, hn⟩ := hu.exists_digits
    obtain ⟨_, _, _, _, rfl, hm⟩ := hw.exists_digits
    obtain ⟨e, s', hs⟩ : ∃ e s', s ++ .char '"' :: r = e :: s' := List.exists_cons_of_ne_nil (by simp)
    have hr := readString_pair opening hn hm (isHighSurrogate_iff.mpr (by omega)) (isLowSurrogate_iff.mpr (by omega))
      (e := e) s'
    rw [← hs, ih, joinSurrogates_halves hc] at hr
    simpa [Except.map] using hr
  | @half c cs u s hu _ ha hs ih =>
    obtain ⟨_, _, _, _, rfl, hv⟩ := hu.exists_digits
    have hr := readString_alone hv ih fun hh m w t hw hm he => by
      obtain ⟨t', rfl⟩ := hs.unit_of_append hw he
      exact ha (isHighSurrogate_iff.mp hh).2 m w t' hw (isLowSurrogate_iff.mp hm).1 (isLowSurrogate_iff.mp hm).2 rfl
    rwa [CodePoint.ofNat_toNat] at hr

end BrowserPilot.Json
