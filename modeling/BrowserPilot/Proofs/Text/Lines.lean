import BrowserPilot.Text.Blank
import BrowserPilot.Text.Pieces
import Mathlib.Data.List.TakeWhile

/-! The lines of a text, and trimming at the end of a line. -/
namespace BrowserPilot.Text

def lines (s : Text) : List Text := (pieces '\n' s.toList).map Text.ofList

def beforeColon (line : Text) : List CodePoint := line.toList.takeWhile (· ≠ CodePoint.char ':')

theorem takeWhile_colon {cs : List CodePoint} (h : .char ':' ∉ cs) (rest : List CodePoint) :
    (cs ++ .char ':' :: rest).takeWhile (· ≠ CodePoint.char ':') = cs := by
  have hc : ∀ c ∈ cs, decide (c ≠ ':') = true := fun c hm => decide_eq_true fun he => h (he ▸ hm)
  rw [List.takeWhile_append_of_pos hc]
  simp

theorem toList_joinLines (ls : List Text) :
    (joinLines ls).toList = joinPieces '\n' (ls.map Text.toList) :=
  Text.toList_intercalate _ _

/-- Splitting inverts joining for lines without line breaks. -/
theorem lines_joinLines {ls : List Text} (hne : ls ≠ []) (h : ∀ line ∈ ls, .char '\n' ∉ line.toList) :
    lines (joinLines ls) = ls := by
  rw [lines, toList_joinLines, pieces_joinPieces_toList hne h, map_ofList_toList]

theorem trimRight_append (a b : List CodePoint) :
    trimRight (a ++ b) = if trimRight b = [] then trimRight a else a ++ trimRight b := by
  simp only [trimRight, List.reverse_append, List.dropWhile_append, List.reverse_eq_nil_iff, List.isEmpty_iff]
  split
  · rfl
  · rw [List.reverse_append, List.reverse_reverse]

theorem trimRight_eq_nil_iff {cs : List CodePoint} : trimRight cs = [] ↔ ∀ c ∈ cs, isBlank c = true := by
  simp [trimRight]

theorem trimRight_append_of_blanks {blanks : List CodePoint} (h : ∀ c ∈ blanks, isBlank c = true)
    (cs : List CodePoint) :
    trimRight (cs ++ blanks) = trimRight cs := by
  rw [trimRight_append, if_pos (trimRight_eq_nil_iff.mpr h)]

/-- Trimming at the end keeps a gap only if something follows it. -/
theorem trimRight_append_gap {stem gap : List CodePoint} (hs : trimRight stem = stem) (hg : ∀ c ∈ gap, isBlank c = true)
    (cs : List CodePoint) :
    trimRight (stem ++ (gap ++ cs)) = stem ++ if trimRight cs = [] then [] else gap ++ trimRight cs := by
  rw [trimRight_append, trimRight_append gap, trimRight_eq_nil_iff.mpr hg]
  by_cases hc : trimRight cs = []
  · simp [hc, hs]
  · simp [hc]

theorem mem_of_mem_trimRight {c : CodePoint} {cs : List CodePoint} (h : c ∈ trimRight cs) : c ∈ cs := by
  rw [trimRight, List.mem_reverse] at h
  exact List.mem_reverse.mp ((List.dropWhile_sublist isBlank).subset h)

end BrowserPilot.Text
