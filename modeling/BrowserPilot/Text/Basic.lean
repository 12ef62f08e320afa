/-! Texts are lists of code points. A code point is a character or a surrogate; a text with a surrogate cannot be
encoded. -/
namespace BrowserPilot

/-- A code point from `0xD800` to `0xDFFF`, which UTF-8 cannot encode. -/
structure Surrogate where
  toNat : Nat
  isSurrogate : 0xD800 ≤ toNat ∧ toNat < 0xE000
deriving DecidableEq, Repr

inductive CodePoint
  | char (c : Char)
  | surrogate (s : Surrogate)
deriving DecidableEq, Repr

namespace CodePoint

instance : Coe Char CodePoint := ⟨char⟩

instance : Inhabited CodePoint := ⟨'\x00'⟩

def toNat : CodePoint → Nat
  | char c => c.toNat
  | surrogate s => s.toNat

/-- The code point with the given number, which has to be below `0x110000`. -/
def ofNat (n : Nat) : CodePoint :=
  if h : 0xD800 ≤ n ∧ n < 0xE000 then surrogate ⟨n, h⟩ else char (Char.ofNat n)

def isChar : CodePoint → Bool
  | char _ => true
  | surrogate _ => false

def char? : CodePoint → Option Char
  | char c => some c
  | surrogate _ => none

def isDigit (c : CodePoint) : Bool := 0x30 ≤ c.toNat && c.toNat ≤ 0x39

def isUpper (c : CodePoint) : Bool := 0x41 ≤ c.toNat && c.toNat ≤ 0x5A

def isLower (c : CodePoint) : Bool := 0x61 ≤ c.toNat && c.toNat ≤ 0x7A

def isAlpha (c : CodePoint) : Bool := c.isUpper || c.isLower

def isAlphanum (c : CodePoint) : Bool := c.isAlpha || c.isDigit

def toLower (c : CodePoint) : CodePoint := if c.isUpper then ofNat (c.toNat + 32) else c

def toUpper (c : CodePoint) : CodePoint := if c.isLower then ofNat (c.toNat - 32) else c

@[simp] theorem toNat_char (c : Char) : (char c).toNat = c.toNat := rfl

@[simp] theorem isChar_char (c : Char) : (char c).isChar = true := rfl

theorem toNat_of_char (c : Char) : c.toNat < 0xD800 ∨ 0xDFFF < c.toNat ∧ c.toNat < 0x110000 := c.valid

theorem isChar_eq_false_iff {c : CodePoint} : c.isChar = false ↔ 0xD800 ≤ c.toNat ∧ c.toNat < 0xE000 := by
  cases c with
  | char c =>
    have hc := toNat_of_char c
    simp only [isChar_char, toNat_char, Bool.true_eq_false, false_iff]
    omega
  | surrogate s => exact iff_of_true rfl s.isSurrogate

theorem toNat_lt (c : CodePoint) : c.toNat < 0x110000 := by
  cases c with
  | char c =>
    have hc := toNat_of_char c
    rw [toNat_char]
    omega
  | surrogate s => exact Nat.lt_trans s.isSurrogate.2 (by decide)

theorem ofNat_toNat (c : CodePoint) : ofNat c.toNat = c := by
  cases c with
  | char c =>
    have hn : ¬ (0xD800 ≤ c.toNat ∧ c.toNat < 0xE000) := by
      have hc := toNat_of_char c
      omega
    rw [ofNat, toNat, dif_neg hn, Char.ofNat_toNat]
  | surrogate s => exact dif_pos s.isSurrogate

theorem toNat_inj {c d : CodePoint} : c.toNat = d.toNat ↔ c = d := by
  constructor
  · intro h
    rw [← ofNat_toNat c, h, ofNat_toNat]
  · exact congrArg toNat

theorem toNat_ofNat {n : Nat} (h : n < 0x110000) : (ofNat n).toNat = n := by
  unfold ofNat
  split
  · rfl
  · have hv : n.isValidChar := by
      simp only [Nat.isValidChar]
      omega
    rw [toNat, Char.ofNat, dif_pos hv]
    rfl

end CodePoint

structure Text where
  ofList ::
  toList : List CodePoint
deriving DecidableEq, Repr

namespace Text

def ofString (s : String) : Text := ⟨s.toList.map .char⟩

instance : Coe String Text := ⟨ofString⟩

instance : Inhabited Text := ⟨""⟩

instance : Append Text := ⟨fun s t => ⟨s.toList ++ t.toList⟩⟩

/-- Whether UTF-8 can encode the text. -/
def isEncodable (t : Text) : Bool := t.toList.all CodePoint.isChar

/-- The text as a string, if it has no surrogates. -/
def string? (t : Text) : Option String :=
  if t.isEncodable then some (String.ofList (t.toList.filterMap CodePoint.char?)) else none

def isEmpty (t : Text) : Bool := t.toList.isEmpty

def map (f : CodePoint → CodePoint) (t : Text) : Text := ⟨t.toList.map f⟩

def toLower (t : Text) : Text := t.map .toLower

def toUpper (t : Text) : Text := t.map .toUpper

def intercalate (sep : Text) (ts : List Text) : Text := ⟨sep.toList.intercalate (ts.map toList)⟩

variable {s t u : Text}

@[simp] theorem toList_ofList (cs : List CodePoint) : (ofList cs).toList = cs := rfl

@[simp] theorem ofList_toList (t : Text) : ofList t.toList = t := rfl

@[simp] theorem toList_ofString (s : String) : (ofString s).toList = s.toList.map .char := rfl

@[simp] theorem toList_append (s t : Text) : (s ++ t).toList = s.toList ++ t.toList := rfl

theorem toList_intercalate (sep : Text) (ts : List Text) :
    (sep.intercalate ts).toList = sep.toList.intercalate (ts.map toList) := rfl

theorem toList_inj : s.toList = t.toList ↔ s = t := by
  constructor
  · intro h
    rw [← ofList_toList s, h, ofList_toList]
  · exact congrArg toList

@[simp] theorem isEmpty_iff : t.isEmpty = true ↔ t = "" := by
  rw [isEmpty, List.isEmpty_iff, ← toList_inj]
  rfl

@[simp] theorem isEmpty_eq_false_iff : t.isEmpty = false ↔ t ≠ "" := by
  rw [← Bool.not_eq_true, isEmpty_iff]

@[simp] theorem ofString_inj {a b : String} : ofString a = ofString b ↔ a = b := by
  constructor
  · intro h
    have hl : a.toList.map CodePoint.char = b.toList.map .char := toList_inj.mpr h
    exact String.toList_inj.mp ((List.map_inj_right fun _ _ => CodePoint.char.inj).mp hl)
  · exact congrArg ofString

@[simp] theorem intercalate_nil (sep : Text) : sep.intercalate [] = "" := rfl

@[simp] theorem intercalate_singleton (sep t : Text) : sep.intercalate [t] = t := by
  simp [intercalate]

theorem intercalate_cons_cons (sep s t : Text) (ts : List Text) :
    sep.intercalate (s :: t :: ts) = s ++ sep ++ sep.intercalate (t :: ts) := by
  rw [← toList_inj]
  simp [intercalate, List.intercalate_cons_cons]

@[simp] theorem isEncodable_ofString (s : String) : (ofString s).isEncodable = true := by
  simp [isEncodable]

@[simp] theorem isEncodable_append (s t : Text) : (s ++ t).isEncodable = (s.isEncodable && t.isEncodable) :=
  List.all_append

theorem string?_ofString (s : String) : (ofString s).string? = some s := by
  have hl : (s.toList.map CodePoint.char).filterMap CodePoint.char? = s.toList := by
    rw [List.filterMap_map]
    exact List.filterMap_some
  rw [string?, if_pos (isEncodable_ofString s), toList_ofString, hl, String.ofList_toList]

theorem map_char_filterMap {cs : List CodePoint} (h : ∀ c ∈ cs, c.isChar = true) :
    (cs.filterMap CodePoint.char?).map CodePoint.char = cs := by
  induction cs with
  | nil => rfl
  | cons c cs ih =>
    obtain ⟨hc, hs⟩ := List.forall_mem_cons.mp h
    cases c with
    | char c => exact congrArg (.char c :: ·) (ih hs)
    | surrogate r => exact absurd hc Bool.false_ne_true

theorem isEncodable_iff {t : Text} : t.isEncodable = true ↔ ∃ s : String, t = s := by
  constructor
  · intro h
    refine ⟨String.ofList (t.toList.filterMap CodePoint.char?), toList_inj.mp ?_⟩
    rw [toList_ofString, String.toList_ofList, map_char_filterMap (List.all_eq_true.mp h)]
  · rintro ⟨s, rfl⟩
    exact isEncodable_ofString s

theorem string?_eq_none_iff {t : Text} : t.string? = none ↔ t.isEncodable = false := by
  simp [string?]

@[simp] theorem append_eq_empty_iff : s ++ t = "" ↔ s = "" ∧ t = "" := by
  simp only [← toList_inj, toList_append]
  exact List.append_eq_nil_iff

theorem append_assoc (s t u : Text) : s ++ t ++ u = s ++ (t ++ u) :=
  toList_inj.mp (List.append_assoc _ _ _)

@[simp] theorem append_right_inj (s : Text) : s ++ t = s ++ u ↔ t = u := by
  rw [← toList_inj, toList_append, toList_append, List.append_right_inj, toList_inj]

@[simp] theorem append_left_inj (s : Text) : t ++ s = u ++ s ↔ t = u := by
  rw [← toList_inj, toList_append, toList_append, List.append_left_inj, toList_inj]

end Text

end BrowserPilot
