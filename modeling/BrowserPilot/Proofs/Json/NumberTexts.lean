import BrowserPilot.Proofs.Json.Grammar
import BrowserPilot.Proofs.Json.Numerals
import Mathlib.Data.List.TakeWhile

/-! The reader of numbers reads the longest number of the grammar, and exceeds a limit only at an integer that is
too long. -/
namespace BrowserPilot.Json

variable {r s : List CodePoint}

theorem EndsNumeral.endsDigits (h : EndsNumeral r) : EndsDigits r := fun c s he => (h c s he).1

theorem endsDigits_cons {c : CodePoint} (h : c.isDigit = false) (r : List CodePoint) : EndsDigits (c :: r) := by
  rintro c s ⟨⟩
  exact h

theorem digits_spec (s : List CodePoint) :
    s = (digits s).1 ++ (digits s).2 ∧ (∀ c ∈ (digits s).1, c.isDigit = true) ∧ EndsDigits (digits s).2 := by
  refine ⟨List.takeWhile_append_dropWhile.symm, fun c hc => List.mem_takeWhile_imp hc, ?_⟩
  intro c t he
  have hh := List.head?_dropWhile_not CodePoint.isDigit s
  rw [show s.dropWhile CodePoint.isDigit = c :: t from he] at hh
  exact hh

theorem wholePart_append {ds : List CodePoint} (hw : Whole ds) (h : EndsDigits r) : wholePart (ds ++ r) = (ds, r) := by
  cases hw with
  | zero => rfl
  | @digits c ds hz hd =>
    have he := digits_append hd h
    rw [List.cons_append] at he ⊢
    rw [wholePart, he]
    exact fun s hs => hz (List.cons.inj hs).1

/-- The integer part that is read is one of the grammar, and only a lone zero is followed by a digit. -/
theorem wholePart_spec (s : List CodePoint) :
    s = (wholePart s).1 ++ (wholePart s).2 ∧
      ((wholePart s).1 ≠ [] → Whole (wholePart s).1 ∧
        ((wholePart s).1 = [.char '0'] ∨ EndsDigits (wholePart s).2)) := by
  unfold wholePart
  split
  · exact ⟨rfl, fun _ => ⟨.zero, .inl rfl⟩⟩
  · rename_i hz
    obtain ⟨he, hd, hr⟩ := digits_spec s
    refine ⟨he, fun hn => ⟨?_, .inr hr⟩⟩
    obtain ⟨c, ds, hc⟩ := List.exists_cons_of_ne_nil hn
    rw [hc] at he hd ⊢
    refine .digits ?_ hd
    rintro rfl
    exact hz _ he

theorem fractionPart_present {ds : List CodePoint} (hn : ds ≠ []) (hd : ∀ c ∈ ds, c.isDigit = true) (h : EndsDigits r) :
    fractionPart (.char '.' :: (ds ++ r)) = some (ds, r) := by
  simp [fractionPart, digits_append hd h, hn]

theorem fractionPart_eq_some {p : List CodePoint × List CodePoint} (h : fractionPart s = some p) :
    ∃ f, FractionText p.1 f ∧ f ≠ [] ∧ s = f ++ p.2 := by
  unfold fractionPart at h
  split at h
  · rename_i t
    split_ifs at h with hn
    obtain ⟨he, hd, -⟩ := digits_spec t
    obtain rfl := Option.some.inj h
    exact ⟨_, .present (by simpa using hn) hd, by simp, by rw [List.cons_append, ← he]⟩
  · cases h

theorem signPart_append {negative : Bool} {sign ds : List CodePoint} (hs : SignText negative sign) (hn : ds ≠ [])
    (hd : ∀ c ∈ ds, c.isDigit = true) (r : List CodePoint) : signPart (sign ++ (ds ++ r)) = (negative, ds ++ r) := by
  cases hs with
  | absent =>
    obtain ⟨c, cs, rfl⟩ := List.exists_cons_of_ne_nil hn
    have hc := hd c List.mem_cons_self
    unfold signPart
    split
    · rename_i hs
      obtain rfl := (List.cons.inj hs).1
      cases hc
    · rename_i hs
      obtain rfl := (List.cons.inj hs).1
      cases hc
    · rfl
  | plus => rfl
  | minus => rfl

theorem signPart_spec (s : List CodePoint) : ∃ sign, SignText (signPart s).1 sign ∧ s = sign ++ (signPart s).2 := by
  unfold signPart
  split
  · exact ⟨['-'], .minus, rfl⟩
  · exact ⟨['+'], .plus, rfl⟩
  · exact ⟨[], .absent, rfl⟩

theorem exponentPart_present {mark : CodePoint} {negative : Bool} {sign ds : List CodePoint}
    (hm : mark ∈ Text.toList "eE")
    (hs : SignText negative sign) (hn : ds ≠ []) (hd : ∀ c ∈ ds, c.isDigit = true) (h : EndsDigits r) :
    exponentPart (mark :: (sign ++ ds) ++ r) = some (negative, ds, r) := by
  have hm : mark = 'e' ∨ mark = 'E' := by simpa using hm
  rcases hm with rfl | rfl <;>
    simp [exponentPart, signPart_append hs hn hd, digits_append hd h, hn]

theorem exponentPart_eq_some {p : Bool × List CodePoint × List CodePoint} (h : exponentPart s = some p) :
    ∃ e, ExponentText p.1 p.2.1 e ∧ e ≠ [] ∧ s = e ++ p.2.2 := by
  have hm : ∃ mark t, mark ∈ Text.toList "eE" ∧ s = mark :: t ∧ (digits (signPart t).2).1 ≠ [] ∧
      p = ((signPart t).1, digits (signPart t).2) := by
    unfold exponentPart at h
    split at h
    case h_3 => cases h
    all_goals
      simp only at h
      split_ifs at h with hn
      exact ⟨_, _, by simp, rfl, by simpa using hn, (Option.some.inj h).symm⟩
  obtain ⟨mark, t, hm, rfl, hn, rfl⟩ := hm
  obtain ⟨sign, hg, ht⟩ := signPart_spec t
  obtain ⟨he, hd, -⟩ := digits_spec (signPart t).2
  exact ⟨_, .present hm hg hn hd, by simp, by rw [List.cons_append, List.append_assoc, ← he, ← ht]⟩

theorem fractionPart_eq_none_iff : fractionPart r = none ↔ ∀ ds f s, FractionText ds f → r = f ++ s → f = [] := by
  constructor
  · rintro h ds f s hf rfl
    cases hf with
    | absent => rfl
    | present hn hd =>
      obtain ⟨c, cs, rfl⟩ := List.exists_cons_of_ne_nil hn
      simp [fractionPart, digits, hd c List.mem_cons_self] at h
  · intro h
    by_contra hn
    obtain ⟨p, hp⟩ := Option.ne_none_iff_exists'.mp hn
    obtain ⟨f, hf, hne, he⟩ := fractionPart_eq_some hp
    exact hne (h _ f _ hf he)

theorem exponentPart_eq_none_iff :
    exponentPart r = none ↔ ∀ down ds e s, ExponentText down ds e → r = e ++ s → e = [] := by
  constructor
  · rintro h down ds e s he rfl
    cases he with
    | absent => rfl
    | @present mark _ sign ds hm hs hn hd =>
      -- the digits that are read are at least the given ones
      obtain ⟨hr, hd', hr'⟩ := digits_spec s
      have hn' : ds ++ (digits s).1 ≠ [] := by simp [hn]
      have hp := exponentPart_present hm hs hn'
        (fun c hc => (List.mem_append.mp hc).elim (hd c) (hd' c)) hr'
      rw [← List.append_assoc, ← List.cons_append, List.append_assoc, ← hr, h] at hp
      cases hp
  · intro h
    by_contra hn
    obtain ⟨p, hp⟩ := Option.ne_none_iff_exists'.mp hn
    obtain ⟨e, he, hne, hs⟩ := exponentPart_eq_some hp
    exact hne (h _ _ e _ he hs)

/-- The part of `readNumber` after the sign. -/
def readUnsigned (negative : Bool) (size : Nat) (s : List CodePoint) : Except ReadError (Json × List CodePoint) :=
  if (wholePart s).1.isEmpty then .error (.malformed .noValue size)
  else
    match fractionPart (wholePart s).2, exponentPart ((fractionPart (wholePart s).2).elim (wholePart s).2 Prod.snd) with
    | none, none => (wholeNumber negative (wholePart s).1).map fun v => (v, (wholePart s).2)
    | fraction, exponent =>
      .ok (.float (Binary64.Fraction.toBinary64
        ⟨negative, (wholePart s).1, fraction.elim [] Prod.fst, exponent.elim false Prod.fst, exponent.elim [] (·.2.1)⟩),
        exponent.elim (fraction.elim (wholePart s).2 Prod.snd) (·.2.2))

theorem readNumber_of_ne (h : ∀ r, s ≠ .char '-' :: r) : readNumber s = readUnsigned false s.length s := by
  unfold readNumber
  split
  rename_i negative r hs
  split at hs
  · exact absurd rfl (h _)
  · obtain ⟨rfl, rfl⟩ := Prod.mk.inj hs
    rfl

theorem exists_minusText (s : List CodePoint) :
    ∃ negative r, s = minusText negative ++ r ∧ readNumber s = readUnsigned negative s.length r := by
  by_cases h : ∃ r, s = .char '-' :: r
  · obtain ⟨r, rfl⟩ := h
    exact ⟨true, r, rfl, rfl⟩
  · exact ⟨false, s, rfl, readNumber_of_ne fun r he => h ⟨r, he⟩⟩

theorem Whole.exists_digit {ds : List CodePoint} (h : Whole ds) : ∃ c cs, ds = c :: cs ∧ c.isDigit = true := by
  cases h with
  | zero => exact ⟨_, _, rfl, rfl⟩
  | digits _ hd => exact ⟨_, _, rfl, hd _ List.mem_cons_self⟩

theorem readNumber_minusText (negative : Bool) {ds : List CodePoint} (h : Whole ds) (r : List CodePoint) :
    readNumber (minusText negative ++ (ds ++ r)) =
      readUnsigned negative (minusText negative ++ (ds ++ r)).length (ds ++ r) := by
  cases negative with
  | true => rfl
  | false =>
    obtain ⟨c, cs, rfl, hc⟩ := h.exists_digit
    refine readNumber_of_ne fun s he => ?_
    obtain rfl := (List.cons.inj he).1
    cases hc

theorem readUnsigned_whole (negative : Bool) (size : Nat) {ds : List CodePoint} (hw : Whole ds) (h : EndsWhole r) :
    readUnsigned negative size (ds ++ r) = (wholeNumber negative ds).map fun v => (v, r) := by
  have hd : ds.isEmpty = false := by
    obtain ⟨c, cs, rfl, -⟩ := hw.exists_digit
    rfl
  simp only [readUnsigned, wholePart_append hw h.digit, hd, fractionPart_eq_none_iff.mpr h.fraction, Option.elim_none,
    exponentPart_eq_none_iff.mpr h.exponent, Bool.false_eq_true, if_false]

theorem ExponentText.endsDigits_append {down : Bool} {es e : List CodePoint} (he : ExponentText down es e)
    (h : EndsNumeral r) : EndsDigits (e ++ r) := by
  cases he with
  | absent => exact h.endsDigits
  | @present mark _ _ _ hm =>
    have hm : mark = 'e' ∨ mark = 'E' := by simpa using hm
    rcases hm with rfl | rfl <;> exact endsDigits_cons rfl _

theorem ExponentText.fractionPart_append {down : Bool} {es e : List CodePoint} (he : ExponentText down es e)
    (h : EndsNumeral r) : fractionPart (e ++ r) = none := by
  cases he with
  | absent => exact fractionPart_eq_none h
  | @present mark _ _ _ hm =>
    have hm : mark = 'e' ∨ mark = 'E' := by simpa using hm
    rcases hm with rfl | rfl <;> rfl

theorem readUnsigned_fraction (negative : Bool) (size : Nat) {ds fs f es e : List CodePoint} {down : Bool}
    (hw : Whole ds)
    (hf : FractionText fs f) (he : ExponentText down es e) (hp : f ≠ [] ∨ e ≠ []) (h : EndsNumeral r) :
    readUnsigned negative size (ds ++ (f ++ (e ++ r))) =
      .ok (.float (Binary64.Fraction.toBinary64 ⟨negative, ds, fs, down, es⟩), r) := by
  have hd : ds.isEmpty = false := by
    obtain ⟨c, cs, rfl, -⟩ := hw.exists_digit
    rfl
  have hn := he.endsDigits_append h
  have hwp : wholePart (ds ++ (f ++ (e ++ r))) = (ds, f ++ (e ++ r)) := by
    refine wholePart_append hw ?_
    cases hf with
    | absent => exact hn
    | present => exact endsDigits_cons rfl _
  have hep : e ≠ [] → exponentPart (e ++ r) = some (down, es, r) := by
    intro hne
    cases he with
    | absent => exact absurd rfl hne
    | present hm hs hes hd => exact exponentPart_present hm hs hes hd h.endsDigits
  simp only [readUnsigned, hwp, hd, Bool.false_eq_true, if_false]
  cases hf with
  | absent =>
    have hne := hp.resolve_left fun hn => hn rfl
    simp only [List.nil_append, he.fractionPart_append h, Option.elim_none, hep hne, Option.elim_some]
  | present hfn hfd =>
    simp only [List.cons_append, fractionPart_present hfn hfd hn, Option.elim_some]
    cases he with
    | absent => simp only [List.nil_append, exponentPart_eq_none h, Option.elim_none]
    | present => simp only [hep (by simp), Option.elim_some]

/-- The results of reading a number: an integer, which may be too long, a fraction, or a syntax error. -/
theorem readUnsigned_cases (negative : Bool) (size : Nat) (s : List CodePoint) :
    readUnsigned negative size s = .error (.malformed .noValue size) ∨
      (∃ ds r, Whole ds ∧ (ds = [.char '0'] ∨ EndsWhole r) ∧ s = ds ++ r ∧
        readUnsigned negative size s = (wholeNumber negative ds).map fun v => (v, r)) ∨
      ∃ x t r, NumberText x (minusText negative ++ t) ∧ s = t ++ r ∧ readUnsigned negative size s = .ok (x, r) := by
  obtain ⟨hs, hw⟩ := wholePart_spec s
  unfold readUnsigned
  by_cases he : (wholePart s).1 = []
  · rw [he]
    exact .inl rfl
  · obtain ⟨hw, hr⟩ := hw he
    rw [if_neg (by simpa using he)]
    refine .inr ?_
    cases hf : fractionPart (wholePart s).2 with
    | none =>
      simp only [Option.elim_none]
      cases hx : exponentPart (wholePart s).2 with
      | none =>
        refine .inl ⟨_, _, hw, hr.imp_right fun hd => ?_, hs, rfl⟩
        exact ⟨hd, fractionPart_eq_none_iff.mp hf, exponentPart_eq_none_iff.mp hx⟩
      | some p =>
        obtain ⟨e, he, hne, hp⟩ := exponentPart_eq_some hx
        refine .inr ⟨_, (wholePart s).1 ++ e, p.2.2, .fraction negative hw .absent he (.inr hne), ?_, rfl⟩
        rw [List.append_assoc, ← hp, ← hs]
    | some q =>
      obtain ⟨f, hft, hfn, hq⟩ := fractionPart_eq_some hf
      simp only [Option.elim_some]
      cases hx : exponentPart q.2 with
      | none =>
        refine .inr ⟨_, (wholePart s).1 ++ (f ++ []), q.2, .fraction negative hw hft .absent (.inl hfn), ?_, rfl⟩
        rw [List.append_nil, List.append_assoc, ← hq, ← hs]
      | some p =>
        obtain ⟨e, he, hne, hp⟩ := exponentPart_eq_some hx
        refine .inr ⟨_, (wholePart s).1 ++ (f ++ e), p.2.2, .fraction negative hw hft he (.inl hfn), ?_, rfl⟩
        rw [List.append_assoc, List.append_assoc, ← hp, ← hq, ← hs]

theorem wholeNumber_cases (negative : Bool) (ds : List CodePoint) :
    (digitLimit < ds.length ∧ wholeNumber negative ds = .error (.tooManyDigits ds.length)) ∨
      ds.length ≤ digitLimit ∧
        wholeNumber negative ds = .ok (.int (if negative then -(Decimal.value ds : Int) else Decimal.value ds)) := by
  unfold wholeNumber
  split
  · exact .inl ⟨‹_›, rfl⟩
  · exact .inr ⟨Nat.le_of_not_lt ‹_›, rfl⟩

/-- A number of the grammar is read unless it is an integer that is too long. -/
theorem NumberText.readNumber_append {v : Json} {t : List CodePoint} (h : NumberText v t) (hr : EndsNumeral r) :
    readNumber (t ++ r) = .ok (v, r) ∨ ∃ count, readNumber (t ++ r) = .error (.tooManyDigits count) := by
  cases h with
  | @whole negative ds hw =>
    have he : EndsWhole r :=
      ⟨hr.endsDigits, fractionPart_eq_none_iff.mp (fractionPart_eq_none hr),
        exponentPart_eq_none_iff.mp (exponentPart_eq_none hr)⟩
    rw [List.append_assoc, readNumber_minusText negative hw, readUnsigned_whole negative _ hw he]
    rcases wholeNumber_cases negative ds with ⟨-, hn⟩ | ⟨-, hn⟩ <;> rw [hn]
    · exact .inr ⟨_, rfl⟩
    · exact .inl rfl
  | fraction negative hw hf hx hp =>
    rw [List.append_assoc, List.append_assoc, List.append_assoc, readNumber_minusText negative hw]
    exact .inl (readUnsigned_fraction negative _ hw hf hx hp hr)

theorem numberText_of_readNumber {v : Json} (h : readNumber s = .ok (v, r)) : ∃ t, NumberText v t ∧ s = t ++ r := by
  obtain ⟨negative, s', rfl, he⟩ := exists_minusText s
  rw [he] at h
  rcases readUnsigned_cases negative (minusText negative ++ s').length s' with
    hn | ⟨ds, r', hw, -, rfl, hn⟩ | ⟨x, t, r', hx, rfl, hn⟩
  · rw [hn] at h
    cases h
  · rw [hn] at h
    rcases wholeNumber_cases negative ds with ⟨-, hc⟩ | ⟨-, hc⟩ <;> rw [hc] at h
    · cases h
    · obtain ⟨rfl, rfl⟩ := Prod.mk.inj (Except.ok.inj h)
      exact ⟨_, .whole negative hw, (List.append_assoc ..).symm⟩
  · rw [hn] at h
    obtain ⟨rfl, rfl⟩ := Prod.mk.inj (Except.ok.inj h)
    exact ⟨_, hx, (List.append_assoc ..).symm⟩

end BrowserPilot.Json
