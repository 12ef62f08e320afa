import BrowserPilot.Text.Basic

/-! Splitting at a character, and joining. -/
namespace BrowserPilot.Text

/-- Splits a text at every separator. The result is never empty. -/
def pieces (sep : CodePoint) : List CodePoint → List (List CodePoint)
  | [] => [[]]
  | c :: cs =>
    if c = sep then [] :: pieces sep cs
    else (c :: (pieces sep cs).headD []) :: (pieces sep cs).tail

def joinPieces (sep : CodePoint) (ps : List (List CodePoint)) : List CodePoint := [sep].intercalate ps

def joinLines (lines : List Text) : Text := (ofString "\n").intercalate lines

theorem joinLines_cons {line : Text} {lines : List Text} (h : lines ≠ []) :
    joinLines (line :: lines) = line ++ "\n" ++ joinLines lines := by
  obtain ⟨next, lines, rfl⟩ := List.exists_cons_of_ne_nil h
  exact intercalate_cons_cons _ _ _ _

theorem joinLines_concat {lines : List Text} (h : lines ≠ []) (line : Text) :
    joinLines (lines ++ [line]) = joinLines lines ++ "\n" ++ line := by
  induction lines with
  | nil => exact absurd rfl h
  | cons first lines ih =>
    rw [List.cons_append, joinLines_cons (by simp)]
    by_cases hn : lines = []
    · simp [hn, joinLines]
    · rw [ih hn, joinLines_cons hn]
      simp only [Text.append_assoc]

theorem isEncodable_joinLines {lines : List Text} (h : ∀ line ∈ lines, line.isEncodable = true) :
    (joinLines lines).isEncodable = true := by
  induction lines with
  | nil => rfl
  | cons line lines ih =>
    rw [List.forall_mem_cons] at h
    by_cases hn : lines = []
    · simpa [hn, joinLines] using h.1
    · simp [joinLines_cons hn, h.1, ih h.2]

theorem pieces_ne_nil (sep : CodePoint) (cs : List CodePoint) : pieces sep cs ≠ [] := by
  cases cs with
  | nil => simp [pieces]
  | cons c cs => by_cases h : c = sep <;> simp [pieces, h]

theorem pieces_of_notMem {sep : CodePoint} {cs : List CodePoint} (h : sep ∉ cs) : pieces sep cs = [cs] := by
  induction cs with
  | nil => rfl
  | cons c cs ih =>
    simp only [List.mem_cons, not_or] at h
    simp [pieces, Ne.symm h.1, ih h.2]

theorem pieces_append_cons (sep : CodePoint) (cs rest : List CodePoint) :
    pieces sep (cs ++ sep :: rest) = pieces sep cs ++ pieces sep rest := by
  induction cs with
  | nil => simp [pieces]
  | cons c cs ih =>
    obtain ⟨p, ps, hp⟩ := List.exists_cons_of_ne_nil (pieces_ne_nil sep cs)
    by_cases hc : c = sep <;> simp [pieces, hc, ih, hp]

theorem pieces_append {sep : CodePoint} {cs : List CodePoint} (h : sep ∉ cs) (rest : List CodePoint) :
    pieces sep (cs ++ sep :: rest) = cs :: pieces sep rest := by
  rw [pieces_append_cons, pieces_of_notMem h, List.singleton_append]

theorem pieces_joinPieces {sep : CodePoint} {ps : List (List CodePoint)} (hne : ps ≠ []) (h : ∀ p ∈ ps, sep ∉ p) :
    pieces sep (joinPieces sep ps) = ps := by
  induction ps with
  | nil => exact absurd rfl hne
  | cons p ps ih =>
    cases ps with
    | nil => simpa [joinPieces] using pieces_of_notMem (h p (by simp))
    | cons q ps =>
      have hp : sep ∉ p := h p (by simp)
      have hj : joinPieces sep (p :: q :: ps) = p ++ sep :: joinPieces sep (q :: ps) := by
        simp [joinPieces, List.intercalate_cons_cons]
      rw [hj, pieces_append hp, ih (by simp) fun r hr => h r (by simp [hr])]

theorem pieces_joinPieces_toList {sep : CodePoint} {texts : List Text} (hne : texts ≠ [])
    (h : ∀ text ∈ texts, sep ∉ text.toList) :
    pieces sep (joinPieces sep (texts.map Text.toList)) = texts.map Text.toList :=
  pieces_joinPieces (fun he => hne (List.map_eq_nil_iff.mp he)) (List.forall_mem_map.mpr h)

theorem map_ofList_toList (texts : List Text) : (texts.map Text.toList).map Text.ofList = texts := by
  have ho : Text.ofList ∘ Text.toList = id := funext ofList_toList
  rw [List.map_map, ho, List.map_id]

theorem flatMap_pieces (sep : CodePoint) (cs : List CodePoint) : (pieces sep cs).flatMap (sep :: ·) = sep :: cs := by
  induction cs with
  | nil => rfl
  | cons c cs ih =>
    obtain ⟨p, ps, hp⟩ := List.exists_cons_of_ne_nil (pieces_ne_nil sep cs)
    rw [hp] at ih
    by_cases hc : c = sep <;> simp_all [pieces]

theorem joinPieces_pieces (sep : CodePoint) (cs : List CodePoint) : joinPieces sep (pieces sep cs) = cs := by
  induction cs with
  | nil => rfl
  | cons c cs ih =>
    obtain ⟨p, ps, hp⟩ := List.exists_cons_of_ne_nil (pieces_ne_nil sep cs)
    rw [hp, joinPieces] at ih
    by_cases hc : c = sep
    · simp [pieces, hc, hp, joinPieces, List.intercalate_cons_cons, ih]
    · cases ps <;> simp_all [pieces, joinPieces, List.intercalate_cons_cons]

theorem notMem_of_mem_pieces {sep : CodePoint} {cs p : List CodePoint} (h : p ∈ pieces sep cs) : sep ∉ p := by
  induction cs generalizing p with
  | nil =>
    obtain rfl : p = [] := by simpa [pieces] using h
    simp
  | cons c cs ih =>
    obtain ⟨q, qs, hq⟩ := List.exists_cons_of_ne_nil (pieces_ne_nil sep cs)
    rw [hq] at ih
    by_cases hc : c = sep
    · simp only [pieces, hc, if_true, hq, List.mem_cons] at h
      rcases h with rfl | h
      · simp
      · exact ih (by simpa using h)
    · simp only [pieces, hc, if_false, hq, List.headD_cons, List.tail_cons, List.mem_cons] at h
      rcases h with rfl | h
      · simp [Ne.symm hc, ih (p := q) (by simp)]
      · exact ih (by simp [h])

end BrowserPilot.Text
