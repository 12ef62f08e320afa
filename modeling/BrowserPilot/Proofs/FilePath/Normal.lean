import BrowserPilot.FilePath

/-! Normal paths. Every text parses to one, and parsing its text gives it back. -/
namespace BrowserPilot

theorem PathRoot.ofText_append {cs : List CodePoint} (h : cs.head? ≠ some (.char '/')) (root : PathRoot) :
    ofText (root.text.toList ++ cs) = root := by
  cases cs with
  | nil => cases root <;> rfl
  | cons c cs =>
    have hc : c ≠ '/' := fun he => h (congrArg some he)
    cases root <;> simp [text, ofText, hc]

namespace FilePath

/-- A path component that is neither empty nor a dot and contains no slash. -/
structure Leads (part : Text) : Prop where
  isPart : isPart part.toList = true
  undivided : .char '/' ∉ part.toList

def Normal (p : FilePath) : Prop := ∀ part ∈ p.parts, Leads part

variable {p : FilePath}

theorem normal_parse (s : Text) : (parse s).Normal := by
  refine List.forall_mem_map.mpr fun cs hc => ?_
  obtain ⟨hm, hp⟩ := List.mem_filter.mp hc
  rw [← Text.toList_ofList cs] at hm hp
  exact ⟨hp, Text.notMem_of_mem_pieces hm⟩

theorem Normal.child (h : p.Normal) {name : Text} (hn : Leads name) : (p.child name).Normal := by
  intro part hm
  rcases List.mem_append.mp hm with hm | hm
  · exact h part hm
  · rwa [List.mem_singleton.mp hm]

theorem filter_pieces_root (root : PathRoot) (cs : List CodePoint) :
    (Text.pieces '/' (root.text.toList ++ cs)).filter isPart = (Text.pieces '/' cs).filter isPart := by
  cases root <;> simp [PathRoot.text, Text.pieces, isPart]

theorem toList_render_of_ne (h : ¬ (p.root = .none ∧ p.parts = [])) :
    p.render.toList = p.root.text.toList ++ Text.joinPieces '/' (p.parts.map Text.toList) := by
  rw [render, if_neg h, Text.toList_append]
  exact congrArg _ (Text.toList_intercalate _ _)

theorem head?_joinPieces (h : p.Normal) : (Text.joinPieces '/' (p.parts.map Text.toList)).head? ≠ some (.char '/') := by
  obtain ⟨root, parts⟩ := p
  cases parts with
  | nil => simp [Text.joinPieces]
  | cons part parts =>
    obtain ⟨hp, hu⟩ := h part List.mem_cons_self
    cases hc : part.toList with
    | nil => simp [hc, FilePath.isPart] at hp
    | cons c cs =>
      rw [hc] at hu
      have hne : c ≠ '/' := fun he => hu (he ▸ List.mem_cons_self)
      cases parts <;> simp [Text.joinPieces, List.intercalate_cons_cons, hc, hne]

theorem filter_pieces_parts (h : p.Normal) :
    (Text.pieces '/' (Text.joinPieces '/' (p.parts.map Text.toList))).filter isPart = p.parts.map Text.toList := by
  by_cases hn : p.parts = []
  · rw [hn]
    rfl
  · rw [Text.pieces_joinPieces_toList hn fun part hm => (h part hm).undivided]
    exact List.filter_eq_self.mpr (List.forall_mem_map.mpr fun part hm => (h part hm).isPart)

/-- Parsing the text of a normal path gives it back. -/
theorem parse_render (h : p.Normal) : parse p.render = p := by
  by_cases hn : p.root = .none ∧ p.parts = []
  -- the empty path is written as a dot, which is not a component
  · obtain ⟨root, parts⟩ := p
    obtain ⟨rfl, rfl⟩ := hn
    rfl
  · rw [parse, toList_render_of_ne hn, PathRoot.ofText_append (head?_joinPieces h), filter_pieces_root,
      filter_pieces_parts h, Text.map_ofList_toList]

-- repeated slashes are dropped, and exactly two at the front are a root of their own
example : parse "//a/./b//../" = ⟨.double, ["a", "b", ".."]⟩ ∧ parse "///a" = ⟨.single, ["a"]⟩ ∧
    (parse "./.").render = "." := by
  decide +kernel

end FilePath

end BrowserPilot
