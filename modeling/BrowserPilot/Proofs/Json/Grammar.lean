import BrowserPilot.Binary64.Text
import BrowserPilot.Json.Basic
import Mathlib.Data.List.Basic
import Mathlib.Data.List.Induction

/-! The grammar of JSON text as inductive predicates, extended with NaN, Infinity and -Infinity. -/
namespace BrowserPilot.Json

/-- Whitespace of the grammar. -/
def Spaces (s : List CodePoint) : Prop := ∀ c ∈ s, c ∈ Text.toList " \t\n\r"

def Hexadecimal (n : Nat) (c : CodePoint) : Prop :=
  (Text.toList "0123456789abcdef")[n]? = some c ∨
    (Text.toList "0123456789ABCDEF")[n]? = some c

/-- Four hexadecimal digits for a sixteen-bit number. -/
inductive Quad : Nat → List CodePoint → Prop
  | digits {i j k l : Nat} {a b c d : CodePoint} (ha : Hexadecimal i a) (hb : Hexadecimal j b) (hc : Hexadecimal k c)
      (hd : Hexadecimal l d) : Quad (((i * 16 + j) * 16 + k) * 16 + l) [a, b, c, d]

/-- The letter escapes and their meanings. -/
def letterEscapes : List (CodePoint × CodePoint) :=
  [('"', '"'), ('\\', '\\'), ('/', '/'), ('b', '\x08'), ('f', '\x0c'), ('n', '\n'), ('r', '\r'), ('t', '\t')]

/-- The contents of a string literal, by the code points they denote. A code point above `0xFFFF` may be written as
a surrogate pair; a surrogate outside a pair denotes itself. -/
inductive Characters : List CodePoint → List CodePoint → Prop
  | nil : Characters [] []
  | plain {c : CodePoint} {cs s : List CodePoint} (hq : c ≠ '"') (hb : c ≠ '\\') (hc : 0x20 ≤ c.toNat)
      (hs : Characters cs s) :
      Characters (c :: cs) (c :: s)
  | letter {a c : CodePoint} {cs s : List CodePoint} (h : (a, c) ∈ letterEscapes) (hs : Characters cs s) :
      Characters (c :: cs) (.char '\\' :: a :: s)
  | unit {c : CodePoint} {cs u s : List CodePoint} (h : Quad c.toNat u) (hc : c.isChar = true) (hs : Characters cs s) :
      Characters (c :: cs) (.char '\\' :: .char 'u' :: (u ++ s))
  | pair {c : CodePoint} {cs u w s : List CodePoint} (hc : 0x10000 ≤ c.toNat)
      (hu : Quad (0xD800 + (c.toNat - 0x10000) / 0x400) u) (hw : Quad (0xDC00 + (c.toNat - 0x10000) % 0x400) w)
      (hs : Characters cs s) :
      Characters (c :: cs) (.char '\\' :: .char 'u' :: (u ++ .char '\\' :: .char 'u' :: (w ++ s)))
  | half {c : CodePoint} {cs u s : List CodePoint} (h : Quad c.toNat u) (hc : c.isChar = false)
      (ha : c.toNat ≤ 0xDBFF → ∀ m w t, Quad m w → 0xDC00 ≤ m → m ≤ 0xDFFF → s ≠ .char '\\' :: .char 'u' :: (w ++ t))
      (hs : Characters cs s) : Characters (c :: cs) (.char '\\' :: .char 'u' :: (u ++ s))

def StringText (x : Text) (t : List CodePoint) : Prop :=
  ∃ s, Characters x.toList s ∧ t = .char '"' :: (s ++ [.char '"'])

/-- The digits of an integer part, where a leading zero stands alone. -/
inductive Whole : List CodePoint → Prop
  | zero : Whole ['0']
  | digits {c : CodePoint} {ds : List CodePoint} (hz : c ≠ '0') (hd : ∀ d ∈ c :: ds, d.isDigit = true) : Whole (c :: ds)

inductive FractionText : List CodePoint → List CodePoint → Prop
  | absent : FractionText [] []
  | present {ds : List CodePoint} (hn : ds ≠ []) (hd : ∀ d ∈ ds, d.isDigit = true) : FractionText ds (.char '.' :: ds)

/-- The sign of an exponent; `true` for a minus. -/
inductive SignText : Bool → List CodePoint → Prop
  | absent : SignText false []
  | plus : SignText false ['+']
  | minus : SignText true ['-']

inductive ExponentText : Bool → List CodePoint → List CodePoint → Prop
  | absent : ExponentText false [] []
  | present {mark : CodePoint} {negative : Bool} {sign ds : List CodePoint} (hm : mark ∈ Text.toList "eE")
      (hs : SignText negative sign) (hn : ds ≠ []) (hd : ∀ d ∈ ds, d.isDigit = true) :
      ExponentText negative ds (mark :: (sign ++ ds))

def minusText (negative : Bool) : List CodePoint := if negative then ['-'] else []

/-- An integer has neither fraction nor exponent; any other number is rounded to the nearest binary one. -/
inductive NumberText : Json → List CodePoint → Prop
  | whole (negative : Bool) {ds : List CodePoint} (hw : Whole ds) :
      NumberText (.int (if negative then -(Decimal.value ds : Int) else Decimal.value ds)) (minusText negative ++ ds)
  | fraction (negative : Bool) {ds fs es f e : List CodePoint} {down : Bool} (hw : Whole ds) (hf : FractionText fs f)
      (he : ExponentText down es e) (hp : f ≠ [] ∨ e ≠ []) :
      NumberText (.float (Binary64.Fraction.toBinary64 ⟨negative, ds, fs, down, es⟩))
        (minusText negative ++ (ds ++ (f ++ e)))

def EndsDigits (r : List CodePoint) : Prop := ∀ c s, r = c :: s → c.isDigit = false

/-- A text that does not continue an integer: it begins with no digit, fraction or exponent. -/
structure EndsWhole (r : List CodePoint) : Prop where
  digit : EndsDigits r
  fraction : ∀ ds f s, FractionText ds f → r = f ++ s → f = []
  exponent : ∀ down ds e s, ExponentText down ds e → r = e ++ s → e = []

/-- A text with the whitespace around it and the value it denotes. -/
structure Padded (α : Type) where
  before : List CodePoint
  value : α
  text : List CodePoint
  after : List CodePoint

namespace Padded

variable {α : Type}

def written (p : Padded α) : List CodePoint := p.before ++ (p.text ++ p.after)

def Spaced (p : Padded α) : Prop := Spaces p.before ∧ Spaces p.after

end Padded

structure Member where
  before : List CodePoint
  key : Text
  keyText : List CodePoint
  between : List CodePoint
  item : Padded Json

namespace Member

def pair (m : Member) : Text × Json := (m.key, m.item.value)

def written (m : Member) : List CodePoint := m.before ++ (m.keyText ++ (m.between ++ .char ':' :: m.item.written))

/-- The key of the member is a string literal, and only whitespace stands around its parts. -/
structure Keyed (m : Member) : Prop where
  before : Spaces m.before
  key : StringText m.key m.keyText
  between : Spaces m.between
  item : m.item.Spaced

end Member

/-- Repeated keys are merged: each key stands at its first position with its last value. -/
def merge (pairs : List (Text × Json)) : List (Text × Json) :=
  (pairs.map Prod.fst).eraseDups.filterMap fun key => (pairs.reverse.lookup key).map fun v => (key, v)

/-- The derivations of a value, without whitespace around it. -/
inductive Written : Json → List CodePoint → Prop
  | null : Written .null ['n', 'u', 'l', 'l']
  | trueWord : Written (.bool true) ['t', 'r', 'u', 'e']
  | falseWord : Written (.bool false) ['f', 'a', 'l', 's', 'e']
  | nan : Written (.float .nan) ['N', 'a', 'N']
  | infinity (negative : Bool) :
      Written (.float (.infinite negative)) (minusText negative ++ Text.toList "Infinity")
  | number {v : Json} {s : List CodePoint} (h : NumberText v s) : Written v s
  | string {x : Text} {s : List CodePoint} (h : StringText x s) : Written (.str x) s
  | emptyArray {s : List CodePoint} (h : Spaces s) : Written (.arr []) (.char '[' :: (s ++ [.char ']']))
  | array {first : Padded Json} {rest : List (Padded Json)} (hs : ∀ p ∈ first :: rest, p.Spaced)
      (hw : ∀ p ∈ first :: rest, Written p.value p.text) :
      Written (.arr ((first :: rest).map Padded.value))
        (.char '[' :: (first.written ++ (rest.flatMap (fun p => .char ',' :: p.written) ++ [.char ']'])))
  | emptyObject {s : List CodePoint} (h : Spaces s) : Written (.obj []) (.char '{' :: (s ++ [.char '}']))
  | object {first : Member} {rest : List Member} (hs : ∀ m ∈ first :: rest, m.Keyed)
      (hw : ∀ m ∈ first :: rest, Written m.item.value m.item.text) :
      Written (.obj (merge ((first :: rest).map Member.pair)))
        (.char '{' :: (first.written ++ (rest.flatMap (fun m => .char ',' :: m.written) ++ [.char '}'])))

/-- The derivations of a whole document. -/
def Document (v : Json) (s : List CodePoint) : Prop :=
  ∃ before text after, Spaces before ∧ Written v text ∧ Spaces after ∧ s = before ++ (text ++ after)

def setAll (pairs : List (Text × Json)) : List (Text × Json) :=
  pairs.foldl (fun fields p => setField p.1 p.2 fields) []

theorem setAll_concat (pairs : List (Text × Json)) (p : Text × Json) :
    setAll (pairs ++ [p]) = setField p.1 p.2 (setAll pairs) := by
  simp [setAll]

theorem nodup_keys_setAll (pairs : List (Text × Json)) : ((setAll pairs).map Prod.fst).Nodup := by
  induction pairs using List.reverseRecOn with
  | nil => exact List.nodup_nil
  | append_singleton pairs p ih =>
    rw [setAll_concat]
    by_cases hm : p.1 ∈ (setAll pairs).map Prod.fst
    · rw [keys_setField_of_mem hm]
      exact ih
    · rw [setField_of_notMem hm, List.map_append]
      exact List.nodup_append.mpr ⟨ih, by simp, by rintro k hk _ hl rfl; exact hm (List.mem_singleton.mp hl ▸ hk)⟩

theorem keys_setAll (pairs : List (Text × Json)) :
    (setAll pairs).map Prod.fst = (pairs.map Prod.fst).eraseDups := by
  induction pairs using List.reverseRecOn with
  | nil => rfl
  | append_singleton pairs p ih =>
    have hk : p.1 ∈ (setAll pairs).map Prod.fst ↔ p.1 ∈ pairs.map Prod.fst := by
      rw [ih, List.mem_eraseDups]
    rw [setAll_concat, List.map_append, List.eraseDups_append, ← ih]
    by_cases hm : p.1 ∈ pairs.map Prod.fst
    · rw [keys_setField_of_mem (hk.mpr hm)]
      simp [List.removeAll, hm]
    · rw [setField_of_notMem (hk.not.mpr hm)]
      simp [List.removeAll, hm, List.eraseDups_cons]

theorem lookup_setField_of_ne {key k : Text} (h : k ≠ key) (v : Json) (fields : List (Text × Json)) :
    (setField key v fields).lookup k = fields.lookup k := by
  induction fields with
  | nil => simp [setField, List.lookup_cons, beq_false_of_ne h]
  | cons p fields ih =>
    obtain ⟨l, w⟩ := p
    by_cases hl : l = key
    · subst hl
      simp [setField, List.lookup_cons, beq_false_of_ne h]
    · simp [setField, hl, List.lookup_cons, ih]

theorem lookup_setAll (pairs : List (Text × Json)) (key : Text) :
    (setAll pairs).lookup key = pairs.reverse.lookup key := by
  induction pairs using List.reverseRecOn with
  | nil => rfl
  | append_singleton pairs p ih =>
    obtain ⟨k, v⟩ := p
    rw [setAll_concat, List.reverse_append, List.reverse_singleton, List.singleton_append, List.lookup_cons]
    by_cases hk : key = k
    · subst hk
      rw [lookup_setField_self, beq_self_eq_true]
    · rw [lookup_setField_of_ne hk, ih, beq_false_of_ne hk]

theorem filterMap_lookup_of_nodup {fields : List (Text × Json)} (h : (fields.map Prod.fst).Nodup) :
    (fields.map Prod.fst).filterMap (fun key => (fields.lookup key).map fun v => (key, v)) = fields := by
  induction fields with
  | nil => rfl
  | cons p fields ih =>
    obtain ⟨k, v⟩ := p
    rw [List.map_cons, List.nodup_cons] at h
    have hb : ∀ key ∈ fields.map Prod.fst, (key == k) = false := fun key hm =>
      beq_false_of_ne fun he => h.1 (he ▸ hm)
    simp only [List.map_cons, List.filterMap_cons, List.lookup_cons, beq_self_eq_true, Option.map_some]
    rw [List.cons_inj_right]
    exact (List.filterMap_congr fun key hm => by simp only [hb key hm]).trans (ih h.2)

theorem ofPairs_eq_merge (pairs : List (Text × Json)) : ofPairs pairs = .obj (merge pairs) := by
  have hl : (fun key => (pairs.reverse.lookup key).map fun v => (key, v)) =
      fun key => ((setAll pairs).lookup key).map fun v => (key, v) := by
    funext key
    rw [lookup_setAll]
  rw [merge, ← keys_setAll, hl, filterMap_lookup_of_nodup (nodup_keys_setAll pairs)]
  rfl

end BrowserPilot.Json
