import BrowserPilot.TextPattern
import Mathlib.Data.List.Infix

/-! Escaped texts as patterns: they match exactly the text. -/
namespace BrowserPilot.TextPattern

/-- The pattern matches a prefix of the text. -/
def Matches (pattern : Text) (cs : List CodePoint) : Prop :=
  ∃ atoms, read pattern.toList = some atoms ∧ accepts atoms cs = true

theorem not_isAlphanum_of_isProtected {c : CodePoint} (h : isProtected c = true) : c.isAlphanum = false := by
  have ha : (Text.toList "()[]\x7b\x7d?*+-|^$\\.&~# \t\n\r\x0b\x0c").all (fun c => !c.isAlphanum) = true := rfl
  have hn : (!c.isAlphanum) = true := List.all_eq_true.mp ha c (of_decide_eq_true h)
  simpa using hn

theorem isProtected_of_isOperator {c : CodePoint} (h : isOperator c = true) : isProtected c = true := by
  have ha : (Text.toList "()[]\x7b\x7d?*+|^$").all isProtected = true := rfl
  exact List.all_eq_true.mp ha c (of_decide_eq_true h)

theorem read_protected {c : CodePoint} (h : isProtected c = true) (cs : List CodePoint) :
    read (.char '\\' :: c :: cs) = (read cs).map (.char c :: ·) := by
  simp [read, not_isAlphanum_of_isProtected h]

theorem read_plain {c : CodePoint} (h : isProtected c = false) (cs : List CodePoint) :
    read (c :: cs) = (read cs).map (.char c :: ·) := by
  have hb : c ≠ '\\' := by
    rintro rfl
    cases h
  have hd : c ≠ '.' := by
    rintro rfl
    cases h
  have ho : isOperator c = false := by
    cases hc : isOperator c with
    | true => rw [isProtected_of_isOperator hc] at h; cases h
    | false => rfl
  simp [read, hb, hd, ho]

theorem escape_cons (c : CodePoint) (cs : List CodePoint) :
    escape (c :: cs) = if isProtected c then .char '\\' :: c :: escape cs else c :: escape cs := by
  rw [escape, List.flatMap_cons]
  split <;> rfl

theorem read_escape (cs : List CodePoint) : read (escape cs) = some (cs.map .char) := by
  induction cs with
  | nil => rfl
  | cons c cs ih =>
    rw [escape_cons]
    split
    · rename_i hc
      rw [read_protected hc, ih]
      rfl
    · rename_i hc
      rw [read_plain (eq_false_of_ne_true hc), ih]
      rfl

theorem read_ofText (text : Text) : read (ofText text).toList = some (text.toList.map .char) := by
  rw [ofText, Text.toList_ofList, read_escape]

theorem accepts_map_char (cs ds : List CodePoint) : accepts (cs.map .char) ds = true ↔ cs <+: ds := by
  induction cs generalizing ds with
  | nil => simp [accepts]
  | cons c cs ih =>
    cases ds with
    | nil => simp [accepts]
    | cons d ds => simp [accepts, Atom.accepts, ih, List.cons_prefix_cons]

theorem occurs_iff {atoms : List Atom} {cs : List CodePoint} :
    occurs atoms cs = true ↔ ∃ ds, ds <:+ cs ∧ accepts atoms ds = true := by
  induction cs with
  | nil => simp [occurs]
  | cons c cs ih => simp [occurs, ih, List.suffix_cons_iff, or_and_right, exists_or]

/-- A pattern is found in a text if and only if it matches at some position. -/
theorem finds_iff {pattern text : Text} :
    finds pattern text = true ↔ ∃ cs, cs <:+ text.toList ∧ Matches pattern cs := by
  unfold finds Matches
  cases read pattern.toList with
  | none => simp
  | some atoms => simp [occurs_iff]

theorem matches_ofText_iff {text : Text} {cs : List CodePoint} : Matches (ofText text) cs ↔ text.toList <+: cs := by
  simp only [Matches, read_ofText, Option.some.injEq, exists_eq_left', accepts_map_char]

theorem finds_ofText_iff {text other : Text} :
    finds (ofText text) other = true ↔ text.toList <:+: other.toList := by
  simp only [finds_iff, matches_ofText_iff, List.infix_iff_prefix_suffix, and_comm]

theorem ofText_injective : Function.Injective ofText := by
  intro text other h
  have hr : some (text.toList.map Atom.char) = some (other.toList.map Atom.char) := by
    rw [← read_ofText, ← read_ofText, h]
  have hm := List.map_injective_iff.mpr (fun _ _ => Atom.char.inj) (Option.some.inj hr)
  exact Text.toList_inj.mp hm

end BrowserPilot.TextPattern
