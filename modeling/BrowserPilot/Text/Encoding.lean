import BrowserPilot.Text.Hex

/-! Encodings of JSON text. A byte order mark, or the zeros among the first bytes, tell the encoding. -/
namespace BrowserPilot.Text

inductive Encoding
  | utf8
  | utf16 (bigEndian : Bool)
  | utf32 (bigEndian : Bool)
deriving DecidableEq, Repr

namespace Encoding

/-- The encoding of a JSON text by its first bytes, and the bytes without a byte order mark. -/
def detect : List UInt8 → Encoding × List UInt8
  | 0x00 :: 0x00 :: 0xFE :: 0xFF :: rest => (utf32 true, rest)
  | 0xFF :: 0xFE :: 0x00 :: 0x00 :: rest => (utf32 false, rest)
  | 0xFE :: 0xFF :: rest => (utf16 true, rest)
  | 0xFF :: 0xFE :: rest => (utf16 false, rest)
  | 0xEF :: 0xBB :: 0xBF :: rest => (utf8, rest)
  | bytes@(a :: b :: c :: d :: _) =>
    if a == 0 then (if b == 0 then utf32 true else utf16 true, bytes)
    else if b == 0 then (if c == 0 && d == 0 then utf32 false else utf16 false, bytes)
    else (utf8, bytes)
  | [a, b] => (if a == 0 then utf16 true else if b == 0 then utf16 false else utf8, [a, b])
  | bytes => (utf8, bytes)

def continuation? (b : UInt8) : Option Nat :=
  if 0x80 ≤ b && b < 0xC0 then some (b.toNat - 0x80) else none

/-- Decodes UTF-8. Overlong forms are refused; surrogates are accepted as three bytes. -/
def ofUtf8 : List UInt8 → Option (List CodePoint)
  | [] => some []
  | a :: rest =>
    if a < 0x80 then (ofUtf8 rest).map (.ofNat a.toNat :: ·)
    else if a < 0xC2 then none
    else
      match rest with
      | [] => none
      | b :: rest =>
        (continuation? b).bind fun b =>
          if a < 0xE0 then (ofUtf8 rest).map (.ofNat ((a.toNat - 0xC0) * 0x40 + b) :: ·)
          else
            match rest with
            | [] => none
            | c :: rest =>
              (continuation? c).bind fun c =>
                if a < 0xF0 then
                  let n := (a.toNat - 0xE0) * 0x1000 + b * 0x40 + c
                  if n < 0x800 then none else (ofUtf8 rest).map (.ofNat n :: ·)
                else
                  match rest with
                  | [] => none
                  | d :: rest =>
                    (continuation? d).bind fun d =>
                      let n := (a.toNat - 0xF0) * 0x40000 + b * 0x1000 + c * 0x40 + d
                      if n < 0x10000 || 0x10FFFF < n then none else (ofUtf8 rest).map (.ofNat n :: ·)

/-- Groups of two bytes as numbers. The number of bytes has to be even. -/
def units (bigEndian : Bool) : List UInt8 → Option (List Nat)
  | [] => some []
  | [_] => none
  | a :: b :: rest =>
    (units bigEndian rest).map
      ((if bigEndian then 256 * a.toNat + b.toNat else a.toNat + 256 * b.toNat) :: ·)

/-- Decodes sixteen-bit units, joining surrogate pairs. -/
def ofUnits : List Nat → List CodePoint
  | [] => []
  | [u] => [.ofNat u]
  | u :: v :: rest =>
    if 0xD800 ≤ u && u < 0xDC00 && 0xDC00 ≤ v && v < 0xE000 then
      .ofNat (0x10000 + 0x400 * (u - 0xD800) + (v - 0xDC00)) :: ofUnits rest
    else .ofNat u :: ofUnits (v :: rest)

/-- Decodes pairs of sixteen-bit units, each of which is one code point. -/
def ofWideUnits (bigEndian : Bool) : List Nat → Option (List CodePoint)
  | [] => some []
  | [_] => none
  | u :: v :: rest =>
    let n := if bigEndian then 0x10000 * u + v else u + 0x10000 * v
    if 0x10FFFF < n then none else (ofWideUnits bigEndian rest).map (.ofNat n :: ·)

def decode : Encoding → List UInt8 → Option (List CodePoint)
  | utf8, bytes => ofUtf8 bytes
  | utf16 bigEndian, bytes => (units bigEndian bytes).map ofUnits
  | utf32 bigEndian, bytes => (units bigEndian bytes).bind (ofWideUnits bigEndian)

end Encoding

/-- Decodes the bytes of a JSON text. -/
def ofBytes (bytes : List UInt8) : Option (List CodePoint) :=
  let (encoding, bytes) := Encoding.detect bytes
  encoding.decode bytes

/-- The message of an encoding error, which names the first run of surrogates. -/
def encodeError (t : Text) : Text :=
  let position := (t.toList.takeWhile CodePoint.isChar).length
  let run := (t.toList.drop position).takeWhile fun c => !c.isChar
  let place : Text :=
    match run with
    | [c] => "character '\\u" ++ ofList (hexFixed 4 c.toNat) ++ "' in position " ++ toString position
    | _ => "characters in position " ++ toString position ++ "-" ++ toString (position + run.length - 1)
  "'utf-8' codec can't encode " ++ place ++ ": surrogates not allowed"

example : encodeError (ofList ['a', .ofNat 0xD800]) =
    "'utf-8' codec can't encode character '\\ud800' in position 1: surrogates not allowed" := by decide +kernel

end BrowserPilot.Text
