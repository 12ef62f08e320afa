import BrowserPilot.Json.Printer
import BrowserPilot.Proofs.Json.StringTexts
import Mathlib.Data.List.Chain

/-! Written strings. Reading gives a string back unless a high surrogate stands directly before a low one, which are
read as one code point. -/
namespace BrowserPilot

namespace Text

/-- No code point is a surrogate. -/
def Plain (cs : List CodePoint) : Prop := ∀ c ∈ cs, c.isChar = true

theorem isEncodable_iff_plain {t : Text} : t.isEncodable = true ↔ Plain t.toList := List.all_eq_true

variable {c : CodePoint} {s t : List CodePoint}

@[simp] theorem plain_nil : Plain [] := List.forall_mem_nil _

@[simp] theorem plain_cons : Plain (c :: s) ↔ c.isChar = true ∧ Plain s := List.forall_mem_cons

@[simp] theorem plain_append : Plain (s ++ t) ↔ Plain s ∧ Plain t := List.forall_mem_append

@[simp] theorem plain_replicate (n : Nat) (a : Char) : Plain (List.replicate n (.char a)) := by
  intro c hc
  rw [List.eq_of_mem_replicate hc]
  rfl

theorem Plain.sublist (h : Plain t) (hs : s.Sublist t) : Plain s := fun c hc => h c (hs.subset hc)

end Text

namespace Json
open Text (Plain)

/-- No high surrogate stands directly before a low one. -/
def Unpaired (cs : List CodePoint) : Prop :=
  cs.IsChain fun c d => ¬ (isHighSurrogate c.toNat = true ∧ isLowSurrogate d.toNat = true)

theorem unpaired_cons_of_isChar {c : CodePoint} {cs : List CodePoint} (hc : c.isChar = true) (h : Unpaired cs) :
    Unpaired (c :: cs) := by
  refine List.isChain_cons.mpr ⟨fun d _ ⟨hh, _⟩ => ?_, h⟩
  rw [isHighSurrogate_iff] at hh
  rw [CodePoint.isChar_eq_false_iff.mpr ⟨hh.1, by omega⟩] at hc
  cases hc

instance (cs : List CodePoint) : Decidable (Unpaired cs) := inferInstanceAs (Decidable (cs.IsChain _))

theorem unpaired_of_plain {cs : List CodePoint} (h : Plain cs) : Unpaired cs := by
  induction cs with
  | nil => exact .nil
  | cons c cs ih =>
    obtain ⟨hc, hs⟩ := Text.plain_cons.mp h
    exact unpaired_cons_of_isChar hc (ih hs)

theorem unpaired_ofString (s : String) : Unpaired (Text.ofString s).toList :=
  unpaired_of_plain (List.forall_mem_map.mpr fun _ _ => rfl)

theorem hexadecimal_hexDigit (k : Nat) : Hexadecimal (k % 16) (Text.hexDigit (k % 16)) :=
  hexValue?_eq_some_iff.mp (Text.hexValue?_hexDigit _ (Nat.mod_lt k (by decide)))

theorem quad_hexFixed {n : Nat} (h : n < 0x10000) : Quad n (Text.hexFixed 4 n) := by
  have hd := Quad.digits (hexadecimal_hexDigit (n / 16 / 16 / 16)) (hexadecimal_hexDigit (n / 16 / 16))
    (hexadecimal_hexDigit (n / 16)) (hexadecimal_hexDigit n)
  have hn : ((n / 16 / 16 / 16 % 16 * 16 + n / 16 / 16 % 16) * 16 + n / 16 % 16) * 16 + n % 16 = n := by omega
  rwa [hn] at hd

theorem Quad.unique {n m : Nat} {u w s t : List CodePoint} (hu : Quad n u) (hw : Quad m w) (h : u ++ s = w ++ t) :
    n = m := by
  obtain ⟨a, b, c, d, rfl, hn⟩ := hu.exists_digits
  obtain ⟨_, _, _, _, rfl, hm⟩ := hw.exists_digits
  simp only [List.cons_append, List.cons.injEq] at h
  obtain ⟨rfl, rfl, rfl, rfl, -⟩ := h
  exact Option.some.inj (hn.symm.trans hm)

theorem exists_letter_of_mem {c : CodePoint} (h : c ∈ Text.toList "\"\\\n\r\t\x08\x0c") :
    ∃ a, escape c = [.char '\\', a] ∧ (a, c) ∈ letterEscapes := by
  simp only [Text.toList_ofString, String.reduceToList, List.map_cons, List.map_nil, List.mem_cons, List.not_mem_nil,
    or_false] at h
  rcases h with rfl | rfl | rfl | rfl | rfl | rfl | rfl <;> exact ⟨_, rfl, by decide⟩

/-- The forms of an escaped code point. -/
inductive Escaped (c : CodePoint) : Prop
  | plain (he : escape c = [c]) (hq : c ≠ '"') (hb : c ≠ '\\') (hc : 0x20 ≤ c.toNat ∧ c.toNat ≤ 0x7E)
  | letter (a : CodePoint) (he : escape c = [.char '\\', a]) (ha : (a, c) ∈ letterEscapes)
  | unit (he : escape c = unitEscape c.toNat) (hc : c.toNat < 0x10000)
  | pair (he : escape c = unitEscape (0xD800 + (c.toNat - 0x10000) / 0x400) ++
      unitEscape (0xDC00 + (c.toNat - 0x10000) % 0x400)) (hc : 0x10000 ≤ c.toNat)

theorem escaped (c : CodePoint) : Escaped c := by
  by_cases hl : c ∈ Text.toList "\"\\\n\r\t\x08\x0c"
  · obtain ⟨a, he, ha⟩ := exists_letter_of_mem hl
    exact .letter a he ha
  · simp only [Text.toList_ofString, String.reduceToList, List.map_cons, List.map_nil, List.mem_cons,
      List.not_mem_nil, or_false, not_or] at hl
    obtain ⟨hq, hb, hn, hr, ht, hx, hf⟩ := hl
    have he : escape c = if 0x20 ≤ c.toNat && c.toNat ≤ 0x7E then [c]
        else if c.toNat < 0x10000 then unitEscape c.toNat
        else unitEscape (0xD800 + (c.toNat - 0x10000) / 0x400) ++
          unitEscape (0xDC00 + (c.toNat - 0x10000) % 0x400) := by
      simp only [escape, beq_iff_eq, hq, hb, hn, hr, ht, hx, hf, if_false]
    split_ifs at he with hv hu
    · simp only [Bool.and_eq_true, decide_eq_true_eq] at hv
      exact .plain he hq hb hv
    · exact .unit he hu
    · exact .pair he (by omega)

/-- An escape that is a low surrogate is written only for that surrogate. -/
theorem isLowSurrogate_of_escape {cs t w : List CodePoint} {m : Nat} (hw : Quad m w) (hm : isLowSurrogate m = true)
    (h : cs.flatMap escape = .char '\\' :: .char 'u' :: (w ++ t)) : ∃ c, cs.head? = some c ∧ c.toNat = m := by
  cases cs with
  | nil => cases h
  | cons c cs =>
    refine ⟨c, rfl, ?_⟩
    rw [List.flatMap_cons] at h
    cases escaped c with
    | plain he _ hb =>
      rw [he] at h
      exact absurd (List.cons.inj h).1 hb
    | letter a he ha =>
      rw [he] at h
      obtain rfl := (List.cons.inj (List.cons.inj h).2).1
      simp [letterEscapes] at ha
    | unit he hc =>
      rw [he] at h
      exact (quad_hexFixed hc).unique hw (List.cons.inj (List.cons.inj h).2).2
    | pair he hc =>
      rw [he, List.append_assoc] at h
      have hv := c.toNat_lt
      have hn := (quad_hexFixed (by omega)).unique hw (List.cons.inj (List.cons.inj h).2).2
      rw [isLowSurrogate_iff] at hm
      omega

/-- The escaped text denotes the text. -/
theorem characters_escape {cs : List CodePoint} (h : Unpaired cs) : Characters cs (cs.flatMap escape) := by
  induction cs with
  | nil => exact .nil
  | cons c cs ih =>
    have hs := ih (List.IsChain.tail h)
    rw [List.flatMap_cons]
    cases escaped c with
    | plain he hq hb hc => exact he ▸ .plain hq hb hc.1 hs
    | letter a he ha => exact he ▸ .letter ha hs
    | unit he hc =>
      rw [he]
      cases hh : c.isChar with
      | true => exact .unit (quad_hexFixed hc) hh hs
      | false =>
        refine .half (quad_hexFixed hc) hh (fun hl m w t hw hm hm' ht => ?_) hs
        have hlow := isLowSurrogate_iff.mpr ⟨hm, hm'⟩
        obtain ⟨d, hd, rfl⟩ := isLowSurrogate_of_escape hw hlow ht
        refine (List.isChain_cons.mp h).1 d hd ⟨isHighSurrogate_iff.mpr ⟨?_, hl⟩, hlow⟩
        exact (CodePoint.isChar_eq_false_iff.mp hh).1
    | pair he hc =>
      have hv := c.toNat_lt
      rw [he]
      simpa [unitEscape] using Characters.pair hc (quad_hexFixed (by omega)) (quad_hexFixed (by omega)) hs

theorem stringText_printString {x : Text} (h : Unpaired x.toList) : StringText x (printString x) :=
  ⟨_, characters_escape h, rfl⟩

theorem isChar_of_mem_letterEscapes {a c : CodePoint} (h : (a, c) ∈ letterEscapes) :
    a.isChar = true ∧ c.isChar = true := by
  have hl : ∀ p ∈ letterEscapes, p.1.isChar = true ∧ p.2.isChar = true := by decide
  exact hl _ h

theorem isChar_of_large {c : CodePoint} (h : 0x10000 ≤ c.toNat) : c.isChar = true := by
  by_contra hc
  have := (CodePoint.isChar_eq_false_iff.mp (eq_false_of_ne_true hc)).2
  omega

/-- Between plain characters only a numeric escape denotes a surrogate. -/
theorem Characters.exists_unit {c : CodePoint} {cs t : List CodePoint} (h : Characters (c :: cs) t)
    (ht : Plain t) (hc : c.isChar = false) :
    ∃ w s, Quad c.toNat w ∧ t = .char '\\' :: .char 'u' :: (w ++ s) := by
  cases h with
  | plain => exact absurd (ht c List.mem_cons_self) (by simp [hc])
  | letter ha => exact absurd (isChar_of_mem_letterEscapes ha).2 (by simp [hc])
  | unit _ hh => exact absurd hh (by simp [hc])
  | pair hl => exact absurd (isChar_of_large hl) (by simp [hc])
  | half hu => exact ⟨_, _, hu, rfl⟩

/-- The code points that plain characters denote contain no surrogate pair. -/
theorem unpaired_of_characters {cs t : List CodePoint} (h : Characters cs t) (ht : Plain t) :
    Unpaired cs := by
  induction h with
  | nil => exact .nil
  | plain _ _ _ _ ih =>
    rw [Text.plain_cons] at ht
    exact unpaired_cons_of_isChar ht.1 (ih ht.2)
  | letter ha _ ih =>
    simp only [Text.plain_cons] at ht
    exact unpaired_cons_of_isChar (isChar_of_mem_letterEscapes ha).2 (ih ht.2.2)
  | unit _ hc _ ih =>
    simp only [Text.plain_cons, Text.plain_append] at ht
    exact unpaired_cons_of_isChar hc (ih ht.2.2.2)
  | pair hc _ _ _ ih =>
    simp only [Text.plain_cons, Text.plain_append] at ht
    exact unpaired_cons_of_isChar (isChar_of_large hc) (ih ht.2.2.2.2.2.2)
  | half _ _ ha hs ih =>
    simp only [Text.plain_cons, Text.plain_append] at ht
    refine List.isChain_cons.mpr ⟨fun d hd ⟨hh, hl⟩ => ?_, ih ht.2.2.2⟩
    obtain ⟨cs, rfl⟩ := List.head?_eq_some_iff.mp hd
    rw [isHighSurrogate_iff] at hh
    rw [isLowSurrogate_iff] at hl
    obtain ⟨w, t, hw, rfl⟩ := hs.exists_unit ht.2.2.2 (CodePoint.isChar_eq_false_iff.mpr (by omega))
    exact ha hh.2 _ w t hw hl.1 hl.2 rfl

theorem plain_hexFixed (width n : Nat) : Plain (Text.hexFixed width n) := by
  have hd : ∀ k < 16, (Text.hexDigit k).isChar = true := by decide
  induction width generalizing n with
  | zero => exact Text.plain_nil
  | succ width ih => simp [Text.hexFixed, ih, hd _ (Nat.mod_lt n (by decide))]

theorem plain_escape (c : CodePoint) : Plain (escape c) := by
  cases escaped c with
  | plain he _ _ hc =>
    rw [he]
    by_contra hn
    have := (CodePoint.isChar_eq_false_iff (c := c)).mp (by simpa using hn)
    omega
  | letter a he ha => simp [he, (isChar_of_mem_letterEscapes ha).1]
  | unit he _ => simp [he, unitEscape, plain_hexFixed]
  | pair he _ => simp [he, unitEscape, plain_hexFixed]

theorem plain_flatMap_escape (cs : List CodePoint) : Plain (cs.flatMap escape) := by
  induction cs with
  | nil => exact Text.plain_nil
  | cons c cs ih => simp [plain_escape, ih]

theorem escape_of_surrogate {c : CodePoint} (h : 0xD800 ≤ c.toNat ∧ c.toNat < 0xE000) :
    escape c = unitEscape c.toNat := by
  cases escaped c with
  | plain _ _ _ hc => omega
  | letter _ _ ha => simpa [CodePoint.isChar_eq_false_iff.mpr h] using isChar_of_mem_letterEscapes ha
  | unit he => exact he
  | pair _ hc => omega

/-- A code point is escaped as the two surrogates of its pair are. -/
theorem escape_joinSurrogates {high low : CodePoint} (hh : isHighSurrogate high.toNat = true)
    (hl : isLowSurrogate low.toNat = true) :
    escape (joinSurrogates high.toNat low.toNat) = escape high ++ escape low := by
  rw [isHighSurrogate_iff] at hh
  rw [isLowSurrogate_iff] at hl
  have hj : (joinSurrogates high.toNat low.toNat).toNat =
      0x10000 + (high.toNat - 0xD800) * 0x400 + (low.toNat - 0xDC00) := CodePoint.toNat_ofNat (by omega)
  rw [escape_of_surrogate (c := high) (by omega), escape_of_surrogate (c := low) (by omega)]
  generalize joinSurrogates high.toNat low.toNat = c at hj ⊢
  cases escaped c with
  | plain _ _ _ hp => omega
  | letter _ _ ha =>
    have hs : ∀ p ∈ letterEscapes, p.2.toNat < 0x10000 := by decide
    have hc : c.toNat < 0x10000 := hs _ ha
    omega
  | unit _ hu => omega
  | pair he =>
    have hn : 0xD800 + (c.toNat - 0x10000) / 0x400 = high.toNat := by omega
    have hm : 0xDC00 + (c.toNat - 0x10000) % 0x400 = low.toNat := by omega
    rw [he, hn, hm]

/-- Joining the surrogate pairs of a text does not change how it is written. -/
theorem exists_unpaired (cs : List CodePoint) :
    ∃ ds, Unpaired ds ∧ ds.flatMap escape = cs.flatMap escape ∧
      ∀ d, ds.head? = some d → isLowSurrogate d.toNat = true → cs.head? = some d := by
  induction cs using List.twoStepInduction with
  | nil => exact ⟨[], .nil, rfl, by simp⟩
  | singleton c => exact ⟨[c], .singleton c, rfl, by simp⟩
  | cons_cons c d cs ih ihs =>
    by_cases hp : isHighSurrogate c.toNat = true ∧ isLowSurrogate d.toNat = true
    · obtain ⟨ds, hu, he, -⟩ := ih
      have hj : (joinSurrogates c.toNat d.toNat).isChar = true := by
        have hh := isHighSurrogate_iff.mp hp.1
        have hl := isLowSurrogate_iff.mp hp.2
        refine isChar_of_large ?_
        rw [joinSurrogates, CodePoint.toNat_ofNat (by omega)]
        omega
      refine ⟨joinSurrogates c.toNat d.toNat :: ds, unpaired_cons_of_isChar hj hu, ?_, ?_⟩
      · simp [escape_joinSurrogates hp.1 hp.2, he]
      · intro e he hl
        obtain rfl := Option.some.inj he
        rw [isLowSurrogate_iff] at hl
        rw [CodePoint.isChar_eq_false_iff.mpr (by omega)] at hj
        cases hj
    · obtain ⟨ds, hu, he, hs⟩ := ihs d
      refine ⟨c :: ds, List.isChain_cons.mpr ⟨?_, hu⟩, by simp [he], fun _ h _ => h⟩
      rintro e hd ⟨hh, hl⟩
      obtain rfl := Option.some.inj (hs e hd hl)
      exact hp ⟨hh, hl⟩

theorem exists_unpaired_printString (s : Text) : ∃ t : Text, Unpaired t.toList ∧ printString t = printString s := by
  obtain ⟨ds, hu, he, -⟩ := exists_unpaired s.toList
  exact ⟨Text.ofList ds, hu, by rw [printString, printString, Text.toList_ofList, he]⟩

/-- The texts that a string literal can denote. -/
theorem unpaired_iff {cs : List CodePoint} :
    Unpaired cs ↔ ∃ t, Characters cs t ∧ Plain t := by
  constructor
  · exact fun h => ⟨_, characters_escape h, plain_flatMap_escape cs⟩
  · rintro ⟨t, h, ht⟩
    exact unpaired_of_characters h ht

end Json

end BrowserPilot
