import BrowserPilot.Fence
import BrowserPilot.Proofs.Json.Layout
import BrowserPilot.Proofs.Transcript.Export
import Mathlib.Data.List.Forall2

/-! Results are stored without loss: the stored text and the block in the export both read back as the result, and
nothing in the result ends the block. -/
namespace BrowserPilot

namespace Fence

/-- The lines of a text before the first one that is exactly the closing mark. -/
def block (text : Text) : Text :=
  Text.ofList (Text.joinPieces '\n' ((Text.pieces '\n' text.toList).takeWhile (· ≠ mark)))

def beyond (text : Text) : List (List CodePoint) := (Text.pieces '\n' text.toList).dropWhile (· ≠ mark)

theorem pieces_closed (s : List CodePoint) :
    Text.pieces '\n' (s ++ .char '\n' :: (mark ++ [.char '\n'])) = Text.pieces '\n' s ++ [mark, []] := by
  rw [Text.pieces_append_cons, Text.pieces_append (by decide)]
  rfl

/-- A text with no line that begins with a backtick is the whole block. -/
theorem block_of_unticked {s : List CodePoint} (h : Text.Unticked s) :
    block (Text.ofList s ++ "\n\x60\x60\x60\n") = Text.ofList s ∧
      beyond (Text.ofList s ++ "\n\x60\x60\x60\n") = [mark, []] := by
  have hl : ∀ line ∈ Text.pieces '\n' s, decide (line ≠ mark) = true := by
    intro line hm
    refine decide_eq_true fun he => h.head?_ne hm ?_
    rw [he]
    rfl
  have hs : (Text.ofList s ++ "\n\x60\x60\x60\n").toList = s ++ .char '\n' :: (mark ++ [.char '\n']) := by
    rw [Text.toList_append, Text.toList_ofList]
    rfl
  rw [block, beyond, hs, pieces_closed, List.takeWhile_append_of_pos hl, List.dropWhile_append_of_pos hl]
  simp [Text.joinPieces_pieces]

end Fence

/-- An entry with a section in the export. -/
def Entry.Shown (e : Entry) : Prop :=
  e.role = userRole ∨ e.role = modelRole ∨ e.role = resultRole ∧ e.result.isSome

instance (e : Entry) : Decidable e.Shown := inferInstanceAs (Decidable (_ ∨ _ ∨ _ ∧ _))

/-- The stored result, if there is one, is the text of a lossless value. -/
def Entry.Faithful (e : Entry) : Prop :=
  ∀ text, e.result = some text → ∃ v : Json, v.Regular Json.depthLimit ∧ Text.ofString text = v.compact

/-- The section of an entry. -/
inductive Entry.ShownAs (e : Entry) : Text → Prop
  | user (h : e.role = userRole) : ShownAs e ("## User\n\n" ++ e.text ++ "\n")
  | model (h : e.role = modelRole) : ShownAs e ("## Assistant\n\n" ++ e.text ++ "\n")
  | result {stored : String} {v : Json} (h : e.role = resultRole) (hr : e.result = some stored)
      (hv : Json.read stored = .ok v) :
      ShownAs e ("## Execution Result\n\n\x60\x60\x60json\n" ++ v.pretty ++ "\n\x60\x60\x60\n")

namespace Transcript
variable {e : Entry}

theorem sectionOf_of_shown (h : e.Shown) (hf : e.Faithful) :
    ∃ part, sectionOf e = .ok (some part) ∧ e.ShownAs part := by
  rcases h with h | h | ⟨h, hs⟩
  · exact ⟨_, by simp [sectionOf, h], .user h⟩
  · exact ⟨_, by simp [sectionOf, h, userRole, modelRole], .model h⟩
  · obtain ⟨text, ht⟩ := Option.isSome_iff_exists.mp hs
    obtain ⟨v, hv, he⟩ := hf text ht
    have hr : Json.read text = .ok v := he ▸ hv.read_compact
    refine ⟨_, ?_, .result h ht hr⟩
    simp [sectionOf, h, userRole, modelRole, resultRole, ht, hr, Except.map]

theorem sectionOf_of_not_shown (h : ¬ e.Shown) : sectionOf e = .ok none := by
  simp only [Entry.Shown, not_or, not_and] at h
  obtain ⟨hu, hm, hr⟩ := h
  simp only [sectionOf, beq_iff_eq, hu, hm, if_false]
  split
  · have hn : e.result = none := by simpa using hr ‹_›
    rw [hn]
  · rfl

theorem exists_sections_of_faithful {es : List Entry} (h : ∀ e ∈ es, e.Faithful) :
    ∃ parts, sections es = .ok parts ∧ List.Forall₂ Entry.ShownAs (es.filter fun e => e.Shown) parts := by
  induction es with
  | nil => exact ⟨[], rfl, .nil⟩
  | cons e es ih =>
    rw [List.forall_mem_cons] at h
    obtain ⟨parts, hp, hs⟩ := ih h.2
    by_cases he : e.Shown
    · obtain ⟨part, hpe, hse⟩ := sectionOf_of_shown he h.1
      refine ⟨part :: parts, by rw [sections, hpe, hp]; rfl, ?_⟩
      rw [List.filter_cons_of_pos (by simpa using he)]
      exact .cons hse hs
    · refine ⟨parts, by rw [sections, sectionOf_of_not_shown he, hp]; rfl, ?_⟩
      rwa [List.filter_cons_of_neg (by simpa using he)]

theorem sections_concat {es : List Entry} {parts : List Text} {part : Text} (h : sections es = .ok parts)
    (hp : sectionOf e = .ok (some part)) : sections (es ++ [e]) = .ok (parts ++ [part]) := by
  induction es generalizing parts with
  | nil =>
    obtain rfl : [] = parts := Except.ok.inj h
    rw [List.nil_append, sections, hp]
    rfl
  | cons first es ih =>
    rw [sections] at h
    rw [List.cons_append, sections]
    cases hf : sectionOf first with
    | error f =>
      rw [hf] at h
      cases h
    | ok part' =>
      cases hs : sections es with
      | error f =>
        rw [hf, hs] at h
        cases h
      | ok rest =>
        rw [hf, hs] at h
        rw [ih hs]
        obtain rfl := Except.ok.inj h
        exact congrArg Except.ok (List.append_assoc _ _ _).symm

variable {t : Transcript}

theorem toMarkdown_of_entries_concat {t' : Transcript} {before part : Text} (h : t.toMarkdown = .ok before)
    (he : t'.entries = t.entries ++ [e]) (hp : sectionOf e = .ok (some part)) :
    t'.toMarkdown = .ok (before ++ "\n" ++ part) := by
  rw [toMarkdown] at h ⊢
  cases hs : sections t.entries with
  | error f =>
    rw [hs] at h
    cases h
  | ok parts =>
    rw [hs] at h
    obtain rfl := Except.ok.inj h
    rw [he, sections_concat hs hp]
    exact congrArg Except.ok (Text.joinLines_concat (List.cons_ne_nil _ parts) part)

end Transcript

end BrowserPilot
