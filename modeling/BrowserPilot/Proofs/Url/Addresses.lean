import BrowserPilot.Failure
import BrowserPilot.Proofs.Text.Letters
import Mathlib.Data.List.TakeWhile

/-! The URLs that are accepted, by the way they are written. Leading controls and spaces, and tabs and line breaks
anywhere, make no difference. -/
namespace BrowserPilot.Url
open Text

/-- An authority without square brackets, or with both of them around an admissible host, and without characters
whose NFKC form contains a delimiter. -/
structure Authority.Passes (authority : List CodePoint) : Prop where
  brackets : (.char '[' ∉ authority ∧ .char ']' ∉ authority) ∨
    (.char '[' ∈ authority ∧ .char ']' ∈ authority ∧ bracketFault? authority = none)
  normal : ∀ c ∈ authority, hidesDelimiter c = false

/-- The parts of a web address after cleaning. -/
structure WebAddress (url scheme authority rest : List CodePoint) : Prop where
  written : (url.dropWhile fun c => c.toNat ≤ 0x20).filter (fun c => c ∉ Text.toList "\t\n\r") =
    scheme ++ .char ':' :: .char '/' :: .char '/' :: (authority ++ rest)
  scheme : Spells (Text.toList "http") scheme ∨ Spells (Text.toList "https") scheme
  named : authority ≠ []
  undivided : ∀ c ∈ authority, c ∉ Text.toList "/?#"
  divided : ∀ c ∈ rest.head?, c ∈ Text.toList "/?#"
  passes : Authority.Passes authority

theorem isScheme_of_isAlpha {cs : List CodePoint} (hne : cs ≠ []) (h : ∀ c ∈ cs, c.isAlpha = true) :
    isScheme cs = true := by
  obtain ⟨c, cs, rfl⟩ := List.exists_cons_of_ne_nil hne
  refine Bool.and_eq_true_iff.mpr ⟨h c (by simp), List.all_eq_true.mpr fun d hd => ?_⟩
  have hn : d.isAlphanum = true := Bool.or_eq_true_iff.mpr (.inl (h d (by simp [hd])))
  rw [isSchemeChar, hn]
  rfl

theorem splitScheme_append {scheme : List CodePoint} (h : isScheme scheme = true) (rest : List CodePoint) :
    splitScheme (scheme ++ .char ':' :: rest) = (scheme.map CodePoint.toLower, rest) := by
  have hn : ∀ c ∈ scheme, (c != ':') = true := by
    intro c hc
    rw [bne_iff_ne]
    rintro rfl
    cases scheme with
    | nil => cases hc
    | cons d scheme =>
      obtain ⟨hd, ha⟩ := Bool.and_eq_true_iff.mp h
      rcases List.mem_cons.mp hc with rfl | hc
      · cases hd
      · cases List.all_eq_true.mp ha _ hc
  simp [splitScheme, List.dropWhile_append_of_pos hn, List.takeWhile_append_of_pos hn, h]

theorem eq_append_of_splitScheme {cs scheme rest : List CodePoint} (h : splitScheme cs = (scheme, rest))
    (hs : scheme ≠ []) :
    ∃ written, cs = written ++ .char ':' :: rest ∧ written.map CodePoint.toLower = scheme := by
  have hc := List.takeWhile_append_dropWhile (p := (· != CodePoint.char ':')) (l := cs)
  unfold splitScheme at h
  split at h
  · rename_i after ha
    dsimp only at h
    split at h
    · obtain ⟨rfl, rfl⟩ := Prod.mk.inj h
      exact ⟨_, by rw [← ha, hc], rfl⟩
    · exact absurd (Prod.mk.inj h).1.symm hs
  · exact absurd (Prod.mk.inj h).1.symm hs

theorem isDelimiter_iff {c : CodePoint} : isDelimiter c = true ↔ c ∈ Text.toList "/?#" := by
  simp [isDelimiter, or_assoc]

theorem authorityOf_append {authority rest : List CodePoint} (ha : ∀ c ∈ authority, c ∉ Text.toList "/?#")
    (hr : ∀ c ∈ rest.head?, c ∈ Text.toList "/?#") :
    authorityOf (.char '/' :: .char '/' :: (authority ++ rest)) = authority := by
  have hn : ∀ c ∈ authority, (!isDelimiter c) = true := by
    intro c hc
    rw [Bool.not_eq_true', ← Bool.not_eq_true, isDelimiter_iff]
    exact ha c hc
  have hs : rest.takeWhile (fun c => !isDelimiter c) = [] := by
    cases rest with
    | nil => rfl
    | cons c rest => simp [isDelimiter_iff.mpr (hr c rfl)]
  rw [authorityOf, List.takeWhile_append_of_pos hn, hs, List.append_nil]

theorem eq_append_of_authorityOf {cs : List CodePoint} (h : authorityOf cs ≠ []) :
    ∃ rest, cs = .char '/' :: .char '/' :: (authorityOf cs ++ rest) ∧ (∀ c ∈ authorityOf cs, c ∉ Text.toList "/?#") ∧
      ∀ c ∈ rest.head?, c ∈ Text.toList "/?#" := by
  unfold authorityOf at h
  split at h
  · rename_i after
    rw [authorityOf]
    refine ⟨after.dropWhile fun c => !isDelimiter c, by rw [List.takeWhile_append_dropWhile], fun c hc => ?_,
      fun c hc => ?_⟩
    · rw [← isDelimiter_iff]
      simpa using List.mem_takeWhile_imp hc
    · have hd := List.head?_dropWhile_not (fun c => !isDelimiter c) after
      rw [hc] at hd
      exact isDelimiter_iff.mp (by simpa using hd)
  · exact absurd rfl h

theorem Authority.fault?_eq_none_iff {authority : List CodePoint} : fault? authority = none ↔ Passes authority := by
  have hp : Passes authority ↔ ((.char '[' ∉ authority ∧ .char ']' ∉ authority) ∨
      (.char '[' ∈ authority ∧ .char ']' ∈ authority ∧ bracketFault? authority = none)) ∧
      ∀ c ∈ authority, hidesDelimiter c = false :=
    ⟨fun h => ⟨h.brackets, h.normal⟩, fun h => ⟨h.1, h.2⟩⟩
  have hn : (∀ c ∈ authority, hidesDelimiter c = false) ↔ authority.any hidesDelimiter = false := by
    simp only [List.any_eq_false, Bool.not_eq_true]
  rw [hp, hn, ← List.contains_iff_mem, ← List.contains_iff_mem, fault?]
  -- both sides depend only on these four values
  generalize authority.contains '[' = opened, authority.contains ']' = closed, authority.any hidesDelimiter = hidden,
    bracketFault? authority = inside
  cases opened <;> cases closed <;> cases hidden <;> cases inside <;> simp

theorem clean_eq (cs : List CodePoint) : clean cs = (cs.filter fun c => !isIgnored c).dropWhile isLeading := by
  have hl {c : CodePoint} (h : isIgnored c = true) : isLeading c = true := by
    simp only [isIgnored, Bool.or_eq_true, beq_iff_eq] at h
    rcases h with (rfl | rfl) | rfl <;> rfl
  induction cs with
  | nil => rfl
  | cons c cs ih =>
    rw [clean] at ih ⊢
    cases hc : isLeading c with
    | true =>
      rw [List.dropWhile_cons_of_pos hc, ih]
      cases hi : isIgnored c <;> simp [hi, hc]
    | false =>
      have hi : isIgnored c = false := by
        rw [← Bool.not_eq_true]
        exact fun hi => by rw [hl hi] at hc; cases hc
      simp [hc, hi]

theorem isIgnored_eq (c : CodePoint) : (!isIgnored c) = decide (c ∉ Text.toList "\t\n\r") := by
  rw [Bool.eq_iff_iff]
  simp [isIgnored, and_assoc]

theorem clean_eq_written (cs : List CodePoint) :
    clean cs = (cs.dropWhile fun c => c.toNat ≤ 0x20).filter (fun c => c ∉ Text.toList "\t\n\r") :=
  List.filter_congr fun c _ => isIgnored_eq c

theorem mem_allowedSchemes {word : List CodePoint} :
    Text.ofList word ∈ allowedSchemes ↔ word = Text.toList "http" ∨ word = Text.toList "https" := by
  simp only [allowedSchemes, List.mem_cons, List.not_mem_nil, or_false, ← toList_inj]

theorem spells_allowed_iff {cs : List CodePoint} :
    Spells (Text.toList "http") cs ∨ Spells (Text.toList "https") cs ↔
      ofList (cs.map CodePoint.toLower) ∈ allowedSchemes := by
  rw [mem_allowedSchemes, spells_iff (by simp), spells_iff (by simp)]

theorem isScheme_of_spells {cs : List CodePoint}
    (h : Spells (Text.toList "http") cs ∨ Spells (Text.toList "https") cs) :
    isScheme cs = true := by
  refine isScheme_of_isAlpha ?_ ?_
  · rintro rfl
    simp [Spells] at h
  · rcases h with h | h
    · exact h.isAlpha (by simp)
    · exact h.isAlpha (by simp)

/-- The parts of a web address are found by `split`. -/
theorem WebAddress.split_eq {url scheme authority rest : List CodePoint} (h : WebAddress url scheme authority rest) :
    split url = ⟨scheme.map CodePoint.toLower, authority⟩ := by
  rw [split, clean_eq_written, h.written, splitScheme_append (isScheme_of_spells h.scheme)]
  dsimp only
  rw [authorityOf_append h.undivided h.divided]

/-- Conversely, the parts found are those of a web address if the scheme is allowed and the authority passes. -/
theorem exists_webAddress {url : List CodePoint} (hs : ofList (split url).scheme ∈ allowedSchemes)
    (ha : (split url).authority ≠ [])
    (hp : Authority.Passes (split url).authority) : ∃ scheme authority rest, WebAddress url scheme authority rest := by
  cases he : splitScheme (clean url) with
  | mk lowered after =>
    have hu : split url = ⟨lowered, authorityOf after⟩ := by rw [split, he]
    rw [hu] at hs ha hp
    have hne : lowered ≠ [] := by
      rintro rfl
      exact absurd hs (show ofList [] ∉ allowedSchemes by decide)
    obtain ⟨scheme, hc, rfl⟩ := eq_append_of_splitScheme he hne
    obtain ⟨rest, hr, hn, hd⟩ := eq_append_of_authorityOf ha
    rw [clean_eq_written, hr] at hc
    exact ⟨scheme, _, rest, hc, spells_allowed_iff.mpr hs, ha, hn, hd, hp⟩

theorem navigable_eq_ok_iff {url out : Text} :
    navigable url = .ok out ↔
      out = url ∧ Authority.fault? (split url.toList).authority = none ∧
        ofList (split url.toList).scheme ∈ allowedSchemes ∧ (split url.toList).authority ≠ [] := by
  simp only [navigable]
  generalize split url.toList = parts, allowedSchemes = schemes
  cases Authority.fault? parts.authority with
  | some fault => simp
  | none =>
    by_cases hs : ofList parts.scheme ∈ schemes
    · by_cases ha : parts.authority = []
      · simp [hs, ha]
      · simpa [hs, ha] using eq_comm
    · simp [hs]

private theorem append_ne_empty {a b : Text} (h : a ≠ "") : a ++ b ≠ "" :=
  fun he => h (Text.append_eq_empty_iff.mp he).1

theorem Refusal.message_ne_empty (refusal : Refusal) : refusal.message ≠ "" := by
  cases refusal with
  | malformed url fault => exact append_ne_empty (append_ne_empty (append_ne_empty (by decide)))
  | scheme got => exact append_ne_empty (append_ne_empty (by decide))
  | noHost url => exact append_ne_empty (append_ne_empty (by decide))

theorem navigable_iff_webAddress {url out : Text} :
    navigable url = .ok out ↔ out = url ∧ ∃ scheme authority rest, WebAddress url.toList scheme authority rest := by
  rw [navigable_eq_ok_iff]
  refine and_congr_right fun _ => ⟨?_, ?_⟩
  · rintro ⟨hf, hs, ha⟩
    exact exists_webAddress hs ha (Authority.fault?_eq_none_iff.mp hf)
  · rintro ⟨scheme, authority, rest, h⟩
    rw [h.split_eq]
    exact ⟨Authority.fault?_eq_none_iff.mpr h.passes, spells_allowed_iff.mp h.scheme, h.named⟩

theorem Authority.passes_of_plain {authority : List CodePoint}
    (h : ∀ c ∈ authority, c.toNat < 128 ∧ c ≠ '[' ∧ c ≠ ']') :
    Passes authority where
  brackets := .inl ⟨fun hm => (h _ hm).2.1 rfl, fun hm => (h _ hm).2.2 rfl⟩
  normal := by
    intro c hc
    rw [← Bool.not_eq_true]
    intro hh
    have hl : ∀ n ∈ hiddenDelimiters, 128 ≤ n := by decide
    have hn := hl c.toNat (List.contains_iff_mem.mp hh)
    have := (h c hc).1
    omega

theorem navigable_congr {url other : Text} (h : clean other.toList = clean url.toList) :
    navigable other = .ok other ↔ navigable url = .ok url := by
  have hs : split other.toList = split url.toList := by rw [split, h, split]
  simp only [navigable_eq_ok_iff, hs, true_and]

/-- A URL is accepted, and returned unchanged, if and only if it is written as a web address; any other is refused.
An ASCII authority without square brackets always passes. Tabs and line breaks anywhere, and leading controls and
spaces, make no difference. -/
theorem navigable_iff_written (url : Text) :
    (∀ out, navigable url = .ok out ↔
      out = url ∧ ∃ scheme authority rest, WebAddress url.toList scheme authority rest) ∧
    ((¬ ∃ scheme authority rest, WebAddress url.toList scheme authority rest) →
      ∃ refusal, navigable url = .error refusal ∧ (Failure.refusedUrl refusal).name = "UnsafeUrlError") ∧
    (∀ authority : List CodePoint, (∀ c ∈ authority, c.toNat < 128 ∧ c ≠ '[' ∧ c ≠ ']') → Authority.Passes authority) ∧
    (∀ other : Text, other.toList.filter (fun c => c ∉ Text.toList "\t\n\r") =
        url.toList.filter (fun c => c ∉ Text.toList "\t\n\r") →
      (navigable other = .ok other ↔ navigable url = .ok url)) ∧
    (∀ (before : List CodePoint) (other : Text), (∀ c ∈ before, c.toNat ≤ 0x20) → other.toList = before ++ url.toList →
      (navigable other = .ok other ↔ navigable url = .ok url)) := by
  refine ⟨fun out => navigable_iff_webAddress, fun h => ?_, fun authority => Authority.passes_of_plain,
    fun other h => ?_, fun before other hb ho => ?_⟩
  · cases hn : navigable url with
    | ok out => exact absurd (navigable_iff_webAddress.mp hn).2 h
    | error refusal => exact ⟨refusal, rfl, rfl⟩
  · simp only [← isIgnored_eq] at h
    exact navigable_congr (by rw [clean_eq, h, ← clean_eq])
  · exact navigable_congr (by rw [ho, clean, List.dropWhile_append_of_pos (by simpa [isLeading] using hb), ← clean])

/-- A scheme in mixed case with a tab inside, a host in brackets after a user, line breaks elsewhere, and a leading
control and space. -/
theorem navigable_iff_written_obscured :
    let url : Text := "HT\ttPs://user@[::1]:80?q"
    let broken : Text := "HTtPs:/\n/user@[::1]:80?q\r"
    let preceded : Text := "\x00 HT\ttPs://user@[::1]:80?q"
    navigable url = .ok url ∧ navigable broken = .ok broken ∧ navigable preceded = .ok preceded := by
  intro url broken preceded
  have hw : WebAddress url.toList (Text.toList "HTtPs") (Text.toList "user@[::1]:80") (Text.toList "?q") := by
    refine ⟨by decide, .inr ?_, by simp, by simp, by simp, .inr ⟨by simp, by simp, by decide⟩, ?_⟩
    · exact (spells_iff (by simp)).mpr (by decide)
    · simp [Authority.hidesDelimiter, Authority.hiddenDelimiters]
  obtain ⟨written, -, -, inserted, preceding⟩ := navigable_iff_written url
  have hu := (written url).mpr ⟨rfl, _, _, _, hw⟩
  have hp : preceded.toList = [.char '\x00', .char ' '] ++ url.toList := by simp [url, preceded]
  exact ⟨hu, (inserted broken (by decide)).mpr hu, (preceding _ preceded (by simp) hp).mpr hu⟩

end BrowserPilot.Url
