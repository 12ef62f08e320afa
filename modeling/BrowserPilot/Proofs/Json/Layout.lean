import BrowserPilot.Proofs.Json.RoundTrip
import BrowserPilot.Text.Pieces
import Mathlib.Data.List.Chain

/-! The lines of an indented value. None begins with a backtick, whatever its strings contain. -/
namespace BrowserPilot

def Text.Unticked (s : List CodePoint) : Prop :=
  (CodePoint.char '\n' :: s).IsChain fun a b => a = CodePoint.char '\n' → b ≠ CodePoint.char '\x60'

namespace Text.Unticked
variable {s t : List CodePoint}

theorem of_notMem (h : .char '\x60' ∉ s) : Unticked s := by
  refine List.isChain_cons.mpr ⟨fun b hb _ he => h (he ▸ List.mem_of_mem_head? hb), ?_⟩
  exact (List.isChain_isInfix s).imp fun a b hi _ he => h (he ▸ hi.subset (by simp))

theorem of_one_line (hf : s.head? ≠ some (.char '\x60')) (h : .char '\n' ∉ s) : Unticked s := by
  refine List.isChain_cons.mpr ⟨fun b hb _ he => hf (he ▸ hb), ?_⟩
  exact (List.isChain_isInfix s).imp fun a b hi he _ => h (he ▸ hi.subset (by simp))

theorem append (hs : Unticked s) (ht : Unticked t) : Unticked (s ++ t) := by
  obtain ⟨hh, hc⟩ := List.isChain_cons.mp ht
  exact List.IsChain.append hs hc fun a _ b hb _ => hh b hb rfl

theorem flatMap {α : Type} {text : α → List CodePoint} {l : List α} (h : ∀ a ∈ l, Unticked (text a)) :
    Unticked (l.flatMap text) := by
  induction l with
  | nil => exact of_notMem List.not_mem_nil
  | cons a l ih =>
    rw [List.forall_mem_cons] at h
    exact h.1.append (ih h.2)

theorem head?_ne (h : Unticked s) {line : List CodePoint} (hl : line ∈ pieces '\n' s) :
    line.head? ≠ some (.char '\x60') := by
  obtain ⟨before, after, he⟩ := List.append_of_mem hl
  rw [Unticked, ← flatMap_pieces, he, List.flatMap_append, List.flatMap_cons] at h
  intro ht
  exact (List.isChain_cons.mp h.right_of_append.left_of_append).1 _ ht rfl rfl

end Text.Unticked

namespace Json
open Text

theorem newline_notMem_hexFixed (width n : Nat) : .char '\n' ∉ hexFixed width n := by
  have hd : ∀ k < 16, hexDigit k ≠ '\n' := by decide
  induction width generalizing n with
  | zero => exact List.not_mem_nil
  | succ width ih =>
    rw [hexFixed, List.mem_append, List.mem_singleton, not_or]
    exact ⟨ih _, (hd _ (Nat.mod_lt n (by decide))).symm⟩

theorem newline_notMem_escape (c : CodePoint) : .char '\n' ∉ escape c := by
  by_cases hc : c = '\n'
  · subst hc
    decide
  · unfold escape
    split_ifs <;> simp [unitEscape, newline_notMem_hexFixed, Ne.symm hc]

theorem unticked_printString (s : Text) : Unticked (printString s) := by
  refine .of_one_line (by simp [printString]) ?_
  simp [printString, newline_notMem_escape]

theorem unticked_newline (depth : Nat) : Unticked (newline depth) := .of_notMem (by simp [newline])

theorem unticked_signedNumeral (n : Int) : Unticked (Decimal.signedNumeral n) := by
  have hd (k : Nat) : .char '\x60' ∉ Decimal.numeral k := fun h => absurd (Decimal.isDigit_of_mem_numeral h) (by decide)
  cases n <;> exact .of_notMem (by simp [Decimal.signedNumeral, hd])

/-- Brackets around entries on lines of their own. -/
theorem unticked_laid {α : Type} (text : α → List CodePoint) {a : α} {rest : List α} {opening closing : CodePoint}
    (ho : opening ≠ '\x60') (hc : closing ≠ '\x60') (h : ∀ b ∈ a :: rest, Unticked (text b)) (depth : Nat) :
    Unticked (opening :: (newline (depth + 1) ++
      (text a ++ (following (newline (depth + 1)) text rest ++ (newline depth ++ [closing]))))) := by
  rw [List.forall_mem_cons] at h
  have hs {c : CodePoint} (hc : c ≠ '\x60') : Unticked [c] := .of_notMem (by simpa using hc.symm)
  have hf : Unticked (following (newline (depth + 1)) text rest) :=
    .flatMap fun b hb => (hs (by decide)).append ((unticked_newline _).append (h.2 b hb))
  exact (hs ho).append ((unticked_newline _).append (h.1.append (hf.append ((unticked_newline _).append (hs hc)))))

/-- No line of an indented value begins with a backtick. -/
theorem Regular.unticked {depth : Nat} {v : Json} (h : Regular depth v) (level : Nat) :
    Unticked (v.printIndented level) := by
  induction h generalizing level with
  | null => exact .of_notMem (by simp [printIndented, printLeaf])
  | bool b => cases b <;> exact .of_notMem (by simp [printIndented, printLeaf])
  | @int _ n _ => exact unticked_signedNumeral n
  | @str _ s => exact unticked_printString s
  | @arr _ items _ ih =>
    cases items with
    | nil => exact .of_notMem (by simp [printIndented])
    | cons v items =>
      rw [printIndented, printIndentedItems_eq]
      exact unticked_laid _ (by decide) (by decide) (fun w hw => ih w hw (level + 1)) level
  | @obj _ fields _ _ _ ih =>
    cases fields with
    | nil => exact .of_notMem (by simp [printIndented])
    | cons p fields =>
      have hb : Unticked [':', ' '] := .of_notMem (by decide)
      have hl := unticked_laid (printIndentedField (level + 1)) (by decide : CodePoint.char '{' ≠ '\x60')
        (by decide : CodePoint.char '}' ≠ '\x60')
        (fun q hq => (unticked_printString q.1).append (hb.append (ih q hq (level + 1)))) level
      simpa [printIndented, printIndentedFields_eq, printIndentedField] using hl

end Json

end BrowserPilot
