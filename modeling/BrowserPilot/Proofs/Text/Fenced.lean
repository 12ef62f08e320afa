import BrowserPilot.Fence
import BrowserPilot.Proofs.Text.Letters
import BrowserPilot.Proofs.Text.Lines
import Mathlib.Data.List.Basic

/-! Fences and blanks around a text, which can be removed again. -/
namespace BrowserPilot

namespace Text

/-- A text that neither begins nor ends with a blank and is not empty. -/
structure Solid (cs : List CodePoint) : Prop where
  first : ∃ c r, cs = c :: r ∧ isBlank c = false
  last : ∃ r c, cs = r ++ [c] ∧ isBlank c = false

variable {before body after : List CodePoint}

theorem trim_of_solid (h : Solid body) (hb : ∀ c ∈ before, isBlank c = true) (ha : ∀ c ∈ after, isBlank c = true) :
    trim (before ++ body ++ after) = body := by
  have hl : trimLeft (before ++ body ++ after) = body ++ after := by
    obtain ⟨c, r, rfl, hc⟩ := h.first
    rw [trimLeft, List.append_assoc, List.dropWhile_append_of_pos hb]
    simp [hc]
  obtain ⟨r, c, hr, hc⟩ := h.last
  rw [trim, hl, trimRight_append_of_blanks ha, hr]
  exact trimRight_concat_of_not_isBlank hc r

/-- Blanks around a text do not change its trimmed text. -/
theorem trim_append (hb : ∀ c ∈ before, isBlank c = true) (ha : ∀ c ∈ after, isBlank c = true) (body : List CodePoint) :
    trim (before ++ body ++ after) = trim body := by
  rw [trim, trimLeft, List.append_assoc, List.dropWhile_append_of_pos hb, List.dropWhile_append]
  split
  · rename_i he
    have hl : trimLeft body = [] := List.isEmpty_iff.mp he
    have hd : after.dropWhile isBlank = [] := by simpa using ha
    rw [hd, trim, hl]
  · exact trimRight_append_of_blanks ha _

theorem not_isAlpha_of_isBlank {c : CodePoint} (h : isBlank c = true) : c.isAlpha = false := by
  rw [← Bool.not_eq_true]
  intro ha
  have hr := isAlpha_iff.mp ha
  simp only [isBlank, Bool.or_eq_true, Bool.and_eq_true, decide_eq_true_eq, beq_iff_eq] at h
  omega

end Text

namespace Fence

/-- The body as it is, or in a fence with a language of letters, blanks before the line break, and an optional line
break before the closing mark. -/
inductive Encloses (body : List CodePoint) : List CodePoint → Prop
  | bare : Encloses body body
  | fenced {word blanks ending : List CodePoint} (hw : ∀ c ∈ word, c.isAlpha = true)
      (hb : ∀ c ∈ blanks, Text.isBlank c = true) (he : ending = [] ∨ ending = [.char '\n']) :
      Encloses body (mark ++ word ++ blanks ++ [.char '\n'] ++ body ++ ending ++ mark)

variable {word blanks body text : List CodePoint}

theorem beforeMark?_append (s : List CodePoint) : beforeMark? (s ++ mark) = some s := by
  simp [beforeMark?, mark]

theorem content?_fenced (hw : ∀ c ∈ word, c.isAlpha = true) (hb : ∀ c ∈ blanks, Text.isBlank c = true)
    (rest : List CodePoint) :
    content? (mark ++ word ++ blanks ++ [.char '\n'] ++ rest ++ mark) =
      some (Text.trim (blanks ++ [.char '\n'] ++ rest)) := by
  have hd : (word ++ (blanks ++ [CodePoint.char '\n'] ++ rest ++ mark)).dropWhile CodePoint.isAlpha =
      blanks ++ [.char '\n'] ++ rest ++ mark := by
    rw [List.dropWhile_append_of_pos hw]
    cases blanks with
    | nil => rfl
    | cons c blanks => simp [Text.not_isAlpha_of_isBlank (hb c List.mem_cons_self)]
  have ht : ((blanks ++ [CodePoint.char '\n'] ++ rest ++ mark).takeWhile Text.isBlank).contains '\n' = true := by
    rw [List.append_assoc, List.append_assoc, List.takeWhile_append_of_pos hb]
    simp [show Text.isBlank '\n' = true from rfl]
  have hm : mark ++ word ++ blanks ++ [.char '\n'] ++ rest ++ mark =
      .char '\x60' :: .char '\x60' :: .char '\x60' :: (word ++ (blanks ++ [.char '\n'] ++ rest ++ mark)) := by
    simp only [mark, List.append_assoc, List.cons_append, List.nil_append]
  rw [hm]
  simp only [content?, hd, ht, if_true]
  rw [beforeMark?_append]
  rfl

/-- The text is a fence around the body. The same text may be split in several ways. -/
def Frames (body text : List CodePoint) : Prop :=
  ∃ word blanks ending : List CodePoint, (∀ c ∈ word, c.isAlpha = true) ∧ (∀ c ∈ blanks, Text.isBlank c = true) ∧
    (ending = [] ∨ ending = [.char '\n']) ∧ text = mark ++ word ++ blanks ++ [.char '\n'] ++ body ++ ending ++ mark

/-- All splits have the same trimmed body. -/
theorem content?_of_frames (h : Frames body text) : content? text = some (Text.trim body) := by
  obtain ⟨word, blanks, ending, hw, hb, he, rfl⟩ := h
  have hl : ∀ c ∈ blanks ++ [.char '\n'], Text.isBlank c = true := by
    simp only [List.mem_append, List.mem_singleton]
    rintro c (hc | rfl)
    · exact hb c hc
    · rfl
  have hr : ∀ c ∈ ending, Text.isBlank c = true := by
    rcases he with rfl | rfl <;> simp [show Text.isBlank '\n' = true from rfl]
  have hc := content?_fenced hw hb (body ++ ending)
  rwa [← List.append_assoc _ body ending, ← List.append_assoc _ body ending, Text.trim_append hl hr] at hc

theorem eq_append_of_beforeMark? {s r : List CodePoint} (h : beforeMark? s = some r) : s = r ++ mark := by
  unfold beforeMark? at h
  split at h
  · rename_i t ht
    obtain rfl := Option.some.inj h
    rw [← List.reverse_reverse s, ht]
    simp [mark]
  · cases h

theorem frames_of_content? {content : List CodePoint} (h : content? text = some content) :
    ∃ body, Frames body text ∧ content = Text.trim body := by
  unfold content? at h
  split at h
  case h_2 => cases h
  rename_i r
  simp only at h
  split_ifs at h with hn
  obtain ⟨x, hx, rfl⟩ := Option.map_eq_some_iff.mp h
  have hx := eq_append_of_beforeMark? hx
  -- a mark is not blank, so the run of blanks with the line break ends before the closing one
  have hb : (r.dropWhile CodePoint.isAlpha).takeWhile Text.isBlank = x.takeWhile Text.isBlank := by
    rw [hx, List.takeWhile_append]
    split
    · rename_i hl
      rw [(List.takeWhile_prefix Text.isBlank).eq_of_length hl]
      exact List.append_nil x
    · rfl
  rw [hb, List.contains_iff_mem] at hn
  obtain ⟨blanks, rest, he⟩ := List.append_of_mem hn
  have hxe : x = blanks ++ [.char '\n'] ++ (rest ++ x.dropWhile Text.isBlank) := by
    conv_lhs => rw [← List.takeWhile_append_dropWhile (p := Text.isBlank) (l := x), he]
    simp
  have hbl : ∀ c ∈ blanks ++ [.char '\n'], Text.isBlank c = true := by
    intro c hc
    refine List.mem_takeWhile_imp (l := x) ?_
    rw [he]
    rcases List.mem_append.mp hc with hc | hc
    · exact List.mem_append_left _ hc
    · exact List.mem_append_right _ (List.mem_singleton.mp hc ▸ List.mem_cons_self)
  refine ⟨rest ++ x.dropWhile Text.isBlank, ⟨r.takeWhile CodePoint.isAlpha, blanks, [],
    fun c hc => List.mem_takeWhile_imp hc, fun c hc => hbl c (List.mem_append_left _ hc), .inl rfl, ?_⟩, ?_⟩
  · have hr : r = r.takeWhile CodePoint.isAlpha ++ (x ++ mark) := by
      rw [← hx, List.takeWhile_append_dropWhile]
    conv_lhs => rw [hr, hxe]
    simp [mark]
  · conv_lhs => rw [hxe]
    simpa using Text.trim_append hbl (List.forall_mem_nil _) (rest ++ x.dropWhile Text.isBlank)

theorem strip_of_frames (h : Frames body text) : strip text = Text.trim body := by
  rw [strip, content?_of_frames h, Option.getD_some]

theorem strip_of_not_frames (h : ∀ body, ¬ Frames body text) : strip text = text := by
  cases hc : content? text with
  | none => rw [strip, hc, Option.getD_none]
  | some content =>
    obtain ⟨body, hf, -⟩ := frames_of_content? hc
    exact absurd hf (h body)

theorem head?_of_frames (h : Frames body text) : text.head? = some (.char '\x60') := by
  obtain ⟨word, blanks, ending, -, -, -, rfl⟩ := h
  rfl

theorem Frames.solid (h : Frames body text) : Text.Solid text := by
  obtain ⟨word, blanks, ending, -, -, -, rfl⟩ := h
  refine ⟨⟨_, _, rfl, rfl⟩, mark ++ word ++ blanks ++ [.char '\n'] ++ body ++ ending ++ [.char '\x60', .char '\x60'],
    '\x60', ?_, rfl⟩
  simp only [mark, List.append_assoc, List.cons_append, List.nil_append]

theorem strip_of_encloses (hs : Text.Solid body) (hm : body.head? ≠ some (.char '\x60')) (h : Encloses body text) :
    strip text = body := by
  cases h with
  | bare => exact strip_of_not_frames fun _ hf => hm (head?_of_frames hf)
  | @fenced word blanks ending hw hb he =>
    have ht := Text.trim_of_solid hs (List.forall_mem_nil _) (List.forall_mem_nil _)
    rw [strip_of_frames ⟨word, blanks, ending, hw, hb, he, rfl⟩]
    simpa using ht

theorem Encloses.solid (h : Encloses body text) (hs : Text.Solid body) : Text.Solid text := by
  cases h with
  | bare => exact hs
  | @fenced word blanks ending hw hb he => exact Frames.solid ⟨word, blanks, ending, hw, hb, he, rfl⟩

end Fence

end BrowserPilot
