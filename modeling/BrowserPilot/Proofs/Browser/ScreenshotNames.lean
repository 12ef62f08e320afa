import BrowserPilot.Proofs.Browser.PageCalls
import Mathlib.Data.List.TakeWhile

/-! File names of screenshots. Sanitizing gives a safe name, fixes the safe names, and depends only on the last
component. -/
namespace BrowserPilot.ScreenshotName

/-- The text after the last slash or backslash of a name. -/
def LastPart (name part : List CodePoint) : Prop :=
  (.char '/' ∉ part ∧ .char '\\' ∉ part) ∧
    (name = part ∨ ∃ before, name = before ++ .char '/' :: part ∨ name = before ++ .char '\\' :: part)

variable {c : CodePoint} {cs : List CodePoint} {name : Text}

theorem isSeparator_iff : isSeparator c = true ↔ c = '/' ∨ c = '\\' := by
  simp [isSeparator]

theorem isSeparator_of_isAllowed (h : isAllowed c = true) : isSeparator c = false := by
  refine eq_false_of_ne_true fun hs => ?_
  rcases isSeparator_iff.mp hs with rfl | rfl <;> exact absurd h (by decide)

theorem lastPart_append (h : isSeparator c = true) (before : List CodePoint) :
    lastPart (before ++ c :: cs) = lastPart cs := by
  have hc : ((c :: before.reverse).takeWhile fun d => !isSeparator d) = [] :=
    List.takeWhile_cons_of_neg (by simp [h])
  have hr : (before ++ c :: cs).reverse = cs.reverse ++ c :: before.reverse := by simp
  rw [lastPart, lastPart, hr, List.takeWhile_append, hc, List.append_nil]
  split
  · rename_i hl
    rw [(List.takeWhile_prefix _).eq_of_length hl]
  · rfl

theorem lastPart_of_no_separator (h : ∀ c ∈ cs, isSeparator c = false) : lastPart cs = cs := by
  have hk : cs.reverse.takeWhile (fun c => !isSeparator c) = cs.reverse :=
    List.takeWhile_eq_self_iff.mpr fun c hc => by simp [h c (List.mem_reverse.mp hc)]
  rw [lastPart, hk, List.reverse_reverse]

theorem lastPart_spec (cs : List CodePoint) : LastPart cs (lastPart cs) := by
  have hn : ∀ c ∈ lastPart cs, isSeparator c = false := by
    intro c hc
    simpa using List.mem_takeWhile_imp (List.mem_reverse.mp hc)
  refine ⟨⟨fun hm => absurd (hn _ hm) (by decide), fun hm => absurd (hn _ hm) (by decide)⟩, ?_⟩
  -- the reversed name is the reversed last component followed by a rest that begins with a separator
  have he : cs = (cs.reverse.dropWhile fun c => !isSeparator c).reverse ++ lastPart cs := by
    rw [lastPart, ← List.reverse_append, List.takeWhile_append_dropWhile, List.reverse_reverse]
  cases hd : cs.reverse.dropWhile fun c => !isSeparator c with
  | nil =>
    rw [hd] at he
    exact .inl he
  | cons c rest =>
    have hs : isSeparator c = true := by
      have hh := List.head_dropWhile_not (fun c => !isSeparator c) (l := cs.reverse) (by simp [hd])
      simpa [hd] using hh
    rw [hd, List.reverse_cons, List.append_assoc, List.singleton_append] at he
    rcases isSeparator_iff.mp hs with rfl | rfl
    · exact .inr ⟨_, .inl he⟩
    · exact .inr ⟨_, .inr he⟩

/-- A directory before a name does not change the result. -/
theorem sanitize_append {stroke : Text} (hc : stroke.toList = [c]) (h : isSeparator c = true)
    (before name other : Text) : sanitize (before ++ stroke ++ name) other = sanitize name other := by
  have hl : lastPart (before ++ stroke ++ name).toList = lastPart name.toList := by
    rw [Text.toList_append, Text.toList_append, hc, List.append_assoc]
    exact lastPart_append h before.toList
  rw [sanitize, sanitize, hl]

/-- The result is the allowed characters of the last component, if they are safe, or the fallback. -/
theorem sanitize_cases (name : Text) :
    (Safe (Text.ofList ((lastPart name.toList).filter isAllowed)) ∧
      ∀ other, sanitize name other = Text.ofList ((lastPart name.toList).filter isAllowed)) ∨
    ∀ other, sanitize name other = other := by
  by_cases hk : ((lastPart name.toList).filter isAllowed).any (· != CodePoint.char '.') = true
  · have ha : ∀ other, sanitize name other = Text.ofList ((lastPart name.toList).filter isAllowed) :=
      fun _ => if_pos hk
    refine .inl ⟨?_, ha⟩
    rw [← ha fallback]
    exact safe_sanitize safe_fallback
  · exact .inr fun _ => if_neg hk

theorem sanitize_of_safe (h : Safe name) (other : Text) : sanitize name other = name := by
  obtain ⟨ha, hd⟩ := Bool.and_eq_true_iff.mp (safe_iff.mp h)
  have hk : lastPart name.toList = name.toList :=
    lastPart_of_no_separator fun c hc => isSeparator_of_isAllowed (List.all_eq_true.mp ha c hc)
  simp only [sanitize, hk, List.filter_eq_self.mpr (List.all_eq_true.mp ha), hd, if_true, Text.ofList_toList]

theorem sanitize_eq_self_iff : sanitize name fallback = name ↔ Safe name := by
  constructor
  · intro h
    rw [← h]
    exact safe_sanitize safe_fallback
  · intro h
    exact sanitize_of_safe h fallback

theorem isAllowed_iff : isAllowed c = true ↔ c.isAlphanum = true ∨ c ∈ Text.toList "_.-" := by
  simp [isAllowed, or_assoc]

/-- Every name is mapped to a safe one, and exactly the safe names are fixed, so sanitizing is idempotent. A
directory before a name does not change the result, which is the allowed characters of the last component or the
fallback. Another fallback gives the same name or that fallback. -/
theorem sanitize_gives_safe_names (name : Text) :
    Safe (sanitize name "screenshot") ∧
    (sanitize name "screenshot" = name ↔ Safe name) ∧
    sanitize (sanitize name "screenshot") "screenshot" = sanitize name "screenshot" ∧
    (∀ before, sanitize (before ++ "/" ++ name) "screenshot" = sanitize name "screenshot" ∧
      sanitize (before ++ "\\" ++ name) "screenshot" = sanitize name "screenshot") ∧
    (∃ part, LastPart name.toList part ∧ (sanitize name "screenshot" ≠ "screenshot" →
      (sanitize name "screenshot").toList = part.filter fun c => c.isAlphanum ∨ c ∈ Text.toList "_.-")) ∧
    ∀ other, Safe (sanitize name other) ∧ sanitize name other = sanitize name "screenshot" ∨
      sanitize name other = other ∧ sanitize name "screenshot" = "screenshot" := by
  have hs : Safe (sanitize name "screenshot") := safe_sanitize safe_fallback
  refine ⟨hs, sanitize_eq_self_iff, sanitize_of_safe hs _,
    fun before => ⟨sanitize_append rfl rfl before name _, sanitize_append rfl rfl before name _⟩,
    ⟨_, lastPart_spec name.toList, fun hn => ?_⟩, fun other => ?_⟩
  · have hf : isAllowed = fun c => decide (c.isAlphanum ∨ c ∈ Text.toList "_.-") :=
      funext fun c => Bool.eq_iff_iff.mpr (isAllowed_iff.trans decide_eq_true_iff.symm)
    rw [← hf]
    rcases sanitize_cases name with ⟨-, hk⟩ | hk
    · rw [hk, Text.toList_ofList]
    · exact absurd (hk _) hn
  · rcases sanitize_cases name with ⟨hk, he⟩ | he
    · rw [he, he]
      exact .inl ⟨hk, rfl⟩
    · exact .inr ⟨he other, he _⟩

-- a directory that leads upwards, and a name of which only dots are left
example : sanitize "..\\shots/../../a b<1>.png" fallback = "ab1.png" ∧ sanitize "a/b\\..<>." fallback = fallback := by
  decide +kernel

end BrowserPilot.ScreenshotName
