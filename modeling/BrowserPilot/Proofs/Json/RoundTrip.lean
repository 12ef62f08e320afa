import BrowserPilot.Proofs.Json.Derivation

/-! Reading inverts writing, compact and indented, for values without floats within the limits of the reader. -/
namespace BrowserPilot.Json

/-- Values for which writing is lossless: nested at most `depth` deep, without floats, with integers within the
digit limit, with distinct keys, and with strings in which no high surrogate stands before a low one. A decoded
string never has such a pair, see `unpaired_iff`. -/
inductive Regular : (depth : Nat) → Json → Prop
  | null {depth : Nat} : Regular depth .null
  | bool {depth : Nat} (b : Bool) : Regular depth (.bool b)
  | int {depth : Nat} {n : Int} (h : (Decimal.numeral n.natAbs).length ≤ digitLimit) : Regular depth (.int n)
  | str {depth : Nat} {s : Text} (h : Unpaired s.toList) : Regular depth (.str s)
  | arr {depth : Nat} {items : List Json} (h : ∀ v ∈ items, Regular depth v) : Regular (depth + 1) (.arr items)
  | obj {depth : Nat} {fields : List (Text × Json)} (hk : (fields.map Prod.fst).Nodup)
      (hu : ∀ p ∈ fields, Unpaired p.1.toList) (h : ∀ p ∈ fields, Regular depth p.2) : Regular (depth + 1) (.obj fields)

/-- The reader reads `t` as `a` before any text that may follow. -/
structure Reads {α : Type} (entry : Reader α) (a : α) (t : List CodePoint) : Prop where
  front : ∃ c s, t = c :: s ∧ Front c
  takes : ∀ r, EndsNumeral r → entry (t ++ r) = .ok (a, r)

/-! ### Values without parts -/

section
variable {depth : Nat} {c : CodePoint}

theorem reads_leaf {v : Json} {s : List CodePoint} (hf : Front c) (ha : c ≠ '[') (ho : c ≠ '{')
    (h : ∀ r, EndsNumeral r → readLeaf (c :: s ++ r) = .ok (v, r)) : Reads (readValue depth) v (c :: s) :=
  ⟨⟨c, s, rfl, hf⟩, fun r hr => (readValue_of_ne depth ha ho _).trans (h r hr)⟩

theorem reads_null : Reads (readValue depth) .null (printLeaf .null) :=
  reads_leaf (by constructor <;> decide) (by decide) (by decide) fun _ _ => rfl

theorem reads_bool (b : Bool) : Reads (readValue depth) (.bool b) (printLeaf (.bool b)) := by
  cases b <;> exact reads_leaf (by constructor <;> decide) (by decide) (by decide) fun _ _ => rfl

theorem reads_int {n : Int} (h : (Decimal.numeral n.natAbs).length ≤ digitLimit) :
    Reads (readValue depth) (.int n) (printLeaf (.int n)) := by
  obtain ⟨c, s, hc, hd⟩ := exists_signedNumeral n
  have hr : ∀ r, EndsNumeral r → readLeaf (c :: s ++ r) = .ok (.int n, r) :=
    fun r hr => hc ▸ readLeaf_signedNumeral h hr
  rw [printLeaf, hc]
  rcases hd with hd | rfl
  · exact reads_leaf (front_of_isDigit hd) (ne_of_isDigit hd rfl) (ne_of_isDigit hd rfl) hr
  · exact reads_leaf (by constructor <;> decide) (by decide) (by decide) hr

theorem reads_str {s : Text} (h : Unpaired s.toList) : Reads (readValue depth) (.str s) (printLeaf (.str s)) :=
  reads_leaf (by constructor <;> decide) (by decide) (by decide) fun r _ => readLeaf_printString h r

end

/-! ### Containers -/

/-- The entries after the first one, each after a comma and a gap. -/
def following {α : Type} (gap : List CodePoint) (text : α → List CodePoint) (rest : List α) : List CodePoint :=
  rest.flatMap fun b => .char ',' :: (gap ++ text b)

section
variable {α : Type} {entry : Reader α} {text : α → List CodePoint} {a : α} {rest : List α} {gap last : List CodePoint}
  {closing : CodePoint} {missing : SyntaxFault} {rounds : Nat}

theorem length_le_following (gap : List CodePoint) (text : α → List CodePoint) (rest : List α) :
    rest.length ≤ (following gap text rest).length := by
  induction rest with
  | nil => exact Nat.zero_le _
  | cons b rest ih =>
    simp only [following, List.flatMap_cons, List.length_append, List.length_cons] at ih ⊢
    omega

/-- Entries are read one after the other if there are enough rounds. -/
theorem readEntries_following (hc : closing ∈ [CodePoint.char ']', .char '}']) (hg : Spaces gap) (hl : Spaces last)
    (h : ∀ b ∈ a :: rest, Reads entry b (text b)) (hn : rest.length < rounds) (r : List CodePoint) :
    readEntries entry closing missing rounds (text a ++ (following gap text rest ++ (last ++ closing :: r))) =
      .ok (a :: rest, r) := by
  have hcl : closing ∉ Text.toList " \t\n\r" ∧
      closing.isDigit = false ∧ closing ≠ '.' ∧ closing ≠ 'e' ∧ closing ≠ 'E' := by
    simp only [List.mem_cons, List.not_mem_nil, or_false] at hc
    rcases hc with rfl | rfl <;> decide
  -- each round moves on by one entry, so the first one and the number of rounds are general
  induction rest generalizing a rounds with
  | nil =>
    obtain ⟨rounds, rfl⟩ := Nat.exists_eq_add_of_lt hn
    have he := (h a List.mem_cons_self).takes _ (hl.endsNumeral_append (endsNumeral_cons hcl.2 r))
    exact readEntries_close he ((skipSpace_append hl _).trans (skipSpace_cons hcl.1 r))
  | cons b rest ih =>
    obtain ⟨rounds, rfl⟩ := Nat.exists_eq_add_of_lt hn
    have hb := h b (List.mem_cons_of_mem a List.mem_cons_self)
    have he := (h a List.mem_cons_self).takes
      (.char ',' :: (gap ++ (text b ++ (following gap text rest ++ (last ++ closing :: r)))))
      (endsNumeral_cons (by decide) _)
    have hf : following gap text (b :: rest) ++ (last ++ closing :: r) =
        .char ',' :: (gap ++ (text b ++ (following gap text rest ++ (last ++ closing :: r)))) := by
      simp [following]
    rw [hf, readEntries_comma (closing_ne_comma hc) he (skipSpace_cons (by decide) _), skipSpace_append hg,
      skipSpace_of_front hb.front, ih (fun d hd => h d (List.mem_cons_of_mem a hd)) (by simp; omega)]
    rfl

/-- The same with whitespace in front, in one round for each character. -/
theorem readEntries_laid (missing : SyntaxFault) {first : List CodePoint}
    (hc : closing ∈ [CodePoint.char ']', .char '}'])
    (hf : Spaces first) (hg : Spaces gap) (hl : Spaces last) (h : ∀ b ∈ a :: rest, Reads entry b (text b))
    (r : List CodePoint) :
    let s := skipSpace (first ++ (text a ++ (following gap text rest ++ (last ++ closing :: r))))
    (∃ c t, s = c :: t ∧ Front c) ∧ readEntries entry closing missing s.length s = .ok (a :: rest, r) := by
  obtain ⟨c, t, ht, hfr⟩ := (h a List.mem_cons_self).front
  have hs : skipSpace (first ++ (text a ++ (following gap text rest ++ (last ++ closing :: r)))) =
      text a ++ (following gap text rest ++ (last ++ closing :: r)) := by
    rw [skipSpace_append hf, skipSpace_of_front ⟨c, t, ht, hfr⟩]
  have hn := length_le_following gap text rest
  simp only [hs]
  refine ⟨⟨c, t ++ (following gap text rest ++ (last ++ closing :: r)), by rw [ht, List.cons_append], hfr⟩,
    readEntries_following hc hg hl h ?_ r⟩
  simp only [List.length_append, List.length_cons]
  omega

end

theorem ofPairs_of_nodup {pairs : List (Text × Json)} (h : (pairs.map Prod.fst).Nodup) :
    ofPairs pairs = .obj pairs := by
  have hs : ∀ (fields pairs : List (Text × Json)), ((fields ++ pairs).map Prod.fst).Nodup →
      pairs.foldl (fun fields p => setField p.1 p.2 fields) fields = fields ++ pairs := by
    intro fields pairs
    induction pairs generalizing fields with
    | nil => simp
    | cons p pairs ih =>
      intro h
      have hp : p.1 ∉ fields.map Prod.fst := by
        simp only [List.map_append, List.map_cons, List.nodup_append, List.mem_cons] at h
        exact fun hm => h.2.2 _ hm _ (.inl rfl) rfl
      rw [List.foldl_cons, setField_of_notMem hp, ih _ (by simpa using h), List.append_assoc]
      rfl
  rw [ofPairs, hs [] pairs h]
  rfl

section
variable {depth : Nat} {first gap last : List CodePoint} (hf : Spaces first) (hg : Spaces gap) (hl : Spaces last)
include hf hg hl

theorem reads_array (text : Json → List CodePoint) {v : Json} {items : List Json}
    (h : ∀ w ∈ v :: items, Reads (readValue depth) w (text w)) :
    Reads (readValue (depth + 1)) (.arr (v :: items))
      (.char '[' :: (first ++ (text v ++ (following gap text items ++ (last ++ [.char ']']))))) := by
  refine ⟨⟨_, _, rfl, by constructor <;> decide⟩, fun r _ => ?_⟩
  obtain ⟨⟨c, t, hs, hc⟩, he⟩ := readEntries_laid .noValue (by decide : .char ']' ∈ _) hf hg hl h r
  simp only [List.cons_append, List.append_assoc, List.nil_append]
  rw [readValue_array, he]
  · rfl
  · intro u hu
    exact hc.bracket (List.cons.inj (hs.symm.trans hu)).1

theorem reads_object (text : Text × Json → List CodePoint) {p : Text × Json} {fields : List (Text × Json)}
    (hk : ((p :: fields).map Prod.fst).Nodup)
    (h : ∀ q ∈ p :: fields, Reads (readMember (readValue depth)) q (text q)) :
    Reads (readValue (depth + 1)) (.obj (p :: fields))
      (.char '{' :: (first ++ (text p ++ (following gap text fields ++ (last ++ [.char '}']))))) := by
  refine ⟨⟨_, _, rfl, by constructor <;> decide⟩, fun r _ => ?_⟩
  obtain ⟨⟨c, t, hs, hc⟩, he⟩ := readEntries_laid .noKey (by decide : .char '}' ∈ _) hf hg hl h r
  simp only [List.cons_append, List.append_assoc, List.nil_append]
  rw [readValue_object, he, Except.map, ofPairs_of_nodup hk]
  intro u hu
  exact hc.brace (List.cons.inj (hs.symm.trans hu)).1

end

theorem reads_member {value : Reader Json} {p : Text × Json} {t : List CodePoint} (hu : Unpaired p.1.toList)
    (h : Reads value p.2 t) :
    Reads (readMember value) p (printString p.1 ++ .char ':' :: .char ' ' :: t) := by
  refine ⟨⟨'"', _, rfl, by constructor <;> decide⟩, fun r hr => ?_⟩
  obtain ⟨c, s, hs, hc⟩ := h.front
  have he : readMember value (printString p.1 ++ ([] ++ .char ':' :: ([.char ' '] ++ (t ++ r)))) =
      (value (t ++ r)).map fun q => ((p.1, q.1), q.2) :=
    readMember_append (stringText_printString hu) (by simp [Spaces]) (by simp [Spaces])
      ⟨c, s ++ r, by rw [hs, List.cons_append], hc⟩
  rw [h.takes r hr] at he
  rw [List.append_assoc]
  exact he

/-! ### On one line -/

theorem printItems_eq (items : List Json) : printItems items = following [' '] print items ++ [.char ']'] := by
  induction items with
  | nil => rfl
  | cons v items ih => simp [printItems, ih, following]

def printField (p : Text × Json) : List CodePoint := printString p.1 ++ .char ':' :: .char ' ' :: p.2.print

theorem printFields_eq (fields : List (Text × Json)) :
    printFields fields = following [' '] printField fields ++ [.char '}'] := by
  induction fields with
  | nil => rfl
  | cons p fields ih => simp [printFields, ih, following, printField]

theorem Regular.reads_print {depth : Nat} {v : Json} (h : Regular depth v) : Reads (readValue depth) v v.print := by
  have hn : Spaces [] := by simp [Spaces]
  have hb : Spaces [' '] := by simp [Spaces]
  induction h with
  | null => exact reads_null
  | bool b => exact reads_bool b
  | int h => exact reads_int h
  | str h => exact reads_str h
  | @arr _ items _ ih =>
    cases items with
    | nil => exact ⟨⟨_, _, rfl, by constructor <;> decide⟩, fun _ _ => rfl⟩
    | cons v items =>
      rw [print, printItems_eq]
      exact reads_array hn hb hn print ih
  | @obj _ fields hk hu _ ih =>
    cases fields with
    | nil => exact ⟨⟨_, _, rfl, by constructor <;> decide⟩, fun _ _ => rfl⟩
    | cons p fields =>
      have hr := reads_object hn hb hn printField hk fun q hq => reads_member (hu q hq) (ih q hq)
      simpa [print, printFields_eq, printField] using hr

/-! ### On indented lines -/

theorem spaces_newline (depth : Nat) : Spaces (newline depth) := by
  simp [Spaces, newline]

theorem printIndentedItems_eq (depth : Nat) (items : List Json) :
    printIndentedItems depth items =
      following (newline (depth + 1)) (printIndented (depth + 1)) items ++ (newline depth ++ [.char ']']) := by
  induction items with
  | nil => rfl
  | cons v items ih => simp [printIndentedItems, ih, following]

def printIndentedField (depth : Nat) (p : Text × Json) : List CodePoint :=
  printString p.1 ++ .char ':' :: .char ' ' :: p.2.printIndented depth

theorem printIndentedFields_eq (depth : Nat) (fields : List (Text × Json)) :
    printIndentedFields depth fields =
      following (newline (depth + 1)) (printIndentedField (depth + 1)) fields ++ (newline depth ++ [.char '}']) := by
  induction fields with
  | nil => rfl
  | cons p fields ih => simp [printIndentedFields, ih, following, printIndentedField]

theorem Regular.reads_indented {depth : Nat} {v : Json} (h : Regular depth v) (level : Nat) :
    Reads (readValue depth) v (v.printIndented level) := by
  -- the reader has one level less for what a container holds, and the writer one more
  induction h generalizing level with
  | null => exact reads_null
  | bool b => exact reads_bool b
  | int h => exact reads_int h
  | str h => exact reads_str h
  | @arr _ items _ ih =>
    cases items with
    | nil => exact ⟨⟨_, _, rfl, by constructor <;> decide⟩, fun _ _ => rfl⟩
    | cons v items =>
      rw [printIndented, printIndentedItems_eq]
      exact reads_array (spaces_newline _) (spaces_newline _) (spaces_newline _) _ fun w hw => ih w hw (level + 1)
  | @obj _ fields hk hu _ ih =>
    cases fields with
    | nil => exact ⟨⟨_, _, rfl, by constructor <;> decide⟩, fun _ _ => rfl⟩
    | cons p fields =>
      have hr := reads_object (spaces_newline (level + 1)) (spaces_newline (level + 1)) (spaces_newline level)
        (printIndentedField (level + 1)) hk fun q hq => reads_member (hu q hq) (ih q hq (level + 1))
      simpa [printIndented, printIndentedFields_eq, printIndentedField] using hr

/-! ### Documents -/

theorem Reads.readText {v : Json} {t : List CodePoint} (h : Reads (readValue depthLimit) v t) : readText t = .ok v := by
  obtain ⟨c, s, hc, hf⟩ := h.front
  have hs : skipSpace t = t := by simpa using skipSpace_of_front h.front []
  have he := h.takes [] endsNumeral_nil
  rw [List.append_nil] at he
  rw [readText_of_ne fun r hr => hf.mark (List.cons.inj (hc.symm.trans hr)).1, readDocument, hs, he]
  rfl

variable {v : Json}

theorem Regular.readText_print (h : Regular depthLimit v) : readText v.print = .ok v := h.reads_print.readText

theorem Regular.readText_indented (h : Regular depthLimit v) : readText (v.printIndented 0) = .ok v :=
  (h.reads_indented 0).readText

theorem Regular.read_compact (h : Regular depthLimit v) : read v.compact = .ok v := by
  rw [read, compact, Text.toList_ofList]
  exact h.readText_print

end BrowserPilot.Json
