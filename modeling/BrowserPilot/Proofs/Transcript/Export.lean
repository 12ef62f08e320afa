import BrowserPilot.Proofs.Json.RoundTrip
import BrowserPilot.Proofs.Transcript.Numbering

/-! Exports depend only on the remarks, and succeed if all results can be read. -/
namespace BrowserPilot

/-- The result, if there is one, can be read. -/
def Remark.Legible (r : Remark) : Prop := ∀ text, r.result = some text → ∃ v, Json.read text = .ok v

theorem Remark.legible_of_none {r : Remark} (h : r.result = none) : r.Legible := by
  intro text ht
  rw [h] at ht
  cases ht

namespace Transcript

theorem sectionOf_eq_of_ofEntry_eq {e e' : Entry} (h : Remark.ofEntry e = Remark.ofEntry e') :
    sectionOf e = sectionOf e' := by
  obtain ⟨hr, ht, hj⟩ := Remark.mk.inj h
  have hj : e.result = e'.result := Option.map_injective (fun _ _ => Text.ofString_inj.mp) hj
  rw [sectionOf, sectionOf, Text.ofString_inj.mp hr, Text.ofString_inj.mp ht, hj]

theorem sections_eq_of_map_ofEntry_eq {es es' : List Entry} (h : es.map Remark.ofEntry = es'.map Remark.ofEntry) :
    sections es = sections es' := by
  induction es generalizing es' with
  | nil =>
    obtain rfl := List.map_eq_nil_iff.mp h.symm
    rfl
  | cons e es ih =>
    obtain ⟨e', es', rfl, he, hs⟩ := List.map_eq_cons_iff.mp h.symm
    rw [sections, sections, sectionOf_eq_of_ofEntry_eq he.symm, ih hs.symm]

/-- The export depends only on the remarks, not on the ids. -/
theorem toMarkdown_eq_of_map_ofEntry_eq {t t' : Transcript}
    (h : t.entries.map Remark.ofEntry = t'.entries.map Remark.ofEntry) : t.toMarkdown = t'.toMarkdown := by
  rw [toMarkdown, toMarkdown, sections_eq_of_map_ofEntry_eq h]

theorem exists_sectionOf {e : Entry} (h : (Remark.ofEntry e).Legible) : ∃ part, sectionOf e = .ok part := by
  unfold sectionOf
  split
  · exact ⟨_, rfl⟩
  · split
    · exact ⟨_, rfl⟩
    · split
      · cases hr : e.result with
        | none => exact ⟨_, rfl⟩
        | some text =>
          obtain ⟨v, hv⟩ := h text (by rw [Remark.ofEntry, hr]; rfl)
          simp only [hv]
          exact ⟨_, rfl⟩
      · exact ⟨_, rfl⟩

theorem exists_sections {es : List Entry} (h : ∀ e ∈ es, (Remark.ofEntry e).Legible) :
    ∃ parts, sections es = .ok parts := by
  induction es with
  | nil => exact ⟨[], rfl⟩
  | cons e es ih =>
    obtain ⟨part, hp⟩ := exists_sectionOf (h e List.mem_cons_self)
    obtain ⟨parts, hs⟩ := ih fun e' he => h e' (List.mem_cons_of_mem e he)
    exact ⟨_, by rw [sections, hp, hs]; rfl⟩

theorem exists_toMarkdown {t : Transcript} (h : ∀ r ∈ t.entries.map Remark.ofEntry, r.Legible) :
    ∃ text, t.toMarkdown = .ok text := by
  obtain ⟨parts, hp⟩ := exists_sections fun e he => h _ (List.mem_map_of_mem he)
  exact ⟨_, by rw [toMarkdown, hp]; rfl⟩

/-- The section of an entry can be encoded, since its texts have been. -/
theorem isEncodable_of_sectionOf {e : Entry} {part : Text} (h : sectionOf e = .ok (some part)) :
    part.isEncodable = true := by
  unfold sectionOf at h
  split at h
  · obtain rfl := Option.some.inj (Except.ok.inj h)
    simp
  · split at h
    · obtain rfl := Option.some.inj (Except.ok.inj h)
      simp
    · split at h
      · split at h
        · cases h
        · rename_i text _
          cases hv : Json.read text with
          | error f => simp [hv, Except.map] at h
          | ok v =>
            simp only [hv, Except.map] at h
            obtain rfl := Option.some.inj (Except.ok.inj h)
            simp [Json.isEncodable_pretty]
      · cases h

theorem isEncodable_of_mem_sections {es : List Entry} {parts : List Text} (h : sections es = .ok parts) :
    ∀ part ∈ parts, part.isEncodable = true := by
  induction es generalizing parts with
  | nil =>
    obtain rfl : [] = parts := Except.ok.inj h
    exact List.forall_mem_nil _
  | cons e es ih =>
    rw [sections] at h
    cases hp : sectionOf e with
    | error f => rw [hp] at h; cases h
    | ok part =>
      cases hs : sections es with
      | error f => rw [hp, hs] at h; cases h
      | ok rest =>
        rw [hp, hs] at h
        obtain rfl := Except.ok.inj h
        intro p hm
        rcases List.mem_append.mp hm with hm | hm
        · exact isEncodable_of_sectionOf (Option.mem_toList.mp hm ▸ hp)
        · exact ih hs p hm

theorem isEncodable_of_toMarkdown {t : Transcript} {text : Text} (h : t.toMarkdown = .ok text) :
    text.isEncodable = true := by
  rw [toMarkdown] at h
  cases hs : sections t.entries with
  | error f => rw [hs] at h; cases h
  | ok parts =>
    rw [hs] at h
    obtain rfl := Except.ok.inj h
    refine Text.isEncodable_joinLines (List.forall_mem_cons.mpr ⟨rfl, isEncodable_of_mem_sections hs⟩)

end Transcript

end BrowserPilot
