import BrowserPilot.Text.Basic
import Mathlib.Data.List.Forall2

/-! ASCII letters, and words in either case. -/
namespace BrowserPilot.Text

variable {c : CodePoint}

theorem isUpper_iff : c.isUpper = true ↔ 65 ≤ c.toNat ∧ c.toNat ≤ 90 := by
  simp [CodePoint.isUpper]

theorem isLower_iff : c.isLower = true ↔ 97 ≤ c.toNat ∧ c.toNat ≤ 122 := by
  simp [CodePoint.isLower]

theorem isAlpha_iff : c.isAlpha = true ↔ (65 ≤ c.toNat ∧ c.toNat ≤ 90) ∨ (97 ≤ c.toNat ∧ c.toNat ≤ 122) := by
  rw [CodePoint.isAlpha, Bool.or_eq_true_iff, isUpper_iff, isLower_iff]

theorem toLower_of_not_upper (h : ¬ (65 ≤ c.toNat ∧ c.toNat ≤ 90)) : c.toLower = c :=
  if_neg (mt isUpper_iff.mp h)

theorem toNat_toLower (h : 65 ≤ c.toNat ∧ c.toNat ≤ 90) : c.toLower.toNat = c.toNat + 32 := by
  rw [CodePoint.toLower, if_pos (isUpper_iff.mpr h), CodePoint.toNat_ofNat (by omega)]

theorem toNat_toUpper (h : 97 ≤ c.toNat ∧ c.toNat ≤ 122) : c.toUpper.toNat = c.toNat - 32 := by
  rw [CodePoint.toUpper, if_pos (isLower_iff.mpr h), CodePoint.toNat_ofNat (by omega)]

theorem toLower_eq_iff {letter : CodePoint} (h : 97 ≤ letter.toNat ∧ letter.toNat ≤ 122) :
    c.toLower = letter ↔ c = letter ∨ c = letter.toUpper := by
  have hu := toNat_toUpper h
  simp only [← CodePoint.toNat_inj, hu]
  by_cases hc : 65 ≤ c.toNat ∧ c.toNat ≤ 90
  · rw [toNat_toLower hc]
    omega
  · rw [toLower_of_not_upper hc]
    omega

/-- The word in letters of either case. -/
def Spells (word cs : List CodePoint) : Prop :=
  List.Forall₂ (fun letter c => c = letter ∨ c = letter.toUpper) word cs

theorem spells_iff {word cs : List CodePoint} (hw : ∀ letter ∈ word, 97 ≤ letter.toNat ∧ letter.toNat ≤ 122) :
    Spells word cs ↔ cs.map CodePoint.toLower = word := by
  induction word generalizing cs with
  | nil => cases cs <;> simp [Spells]
  | cons letter word ih =>
    cases cs with
    | nil => simp [Spells]
    | cons c cs =>
      have hi : Spells word cs ↔ cs.map CodePoint.toLower = word := ih fun l hl => hw l (by simp [hl])
      rw [Spells] at hi
      simp [Spells, toLower_eq_iff (hw letter (by simp)), hi]

theorem Spells.isAlpha {word cs : List CodePoint} (hw : ∀ letter ∈ word, 97 ≤ letter.toNat ∧ letter.toNat ≤ 122)
    (h : Spells word cs) : ∀ c ∈ cs, c.isAlpha = true := by
  induction h with
  | nil => simp
  | @cons letter c _ _ hc _ ih =>
    have hl := hw letter (by simp)
    rw [List.forall_mem_cons]
    refine ⟨isAlpha_iff.mpr ?_, ih fun l hm => hw l (by simp [hm])⟩
    rcases hc with rfl | rfl
    · exact .inr hl
    · have hu := toNat_toUpper hl
      omega

end BrowserPilot.Text
