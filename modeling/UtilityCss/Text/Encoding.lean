import UtilityCss.Text.Utf8
/-
  Encodings of texts that say themselves which they are.

  Octets may start with a mark of their encoding. Without one, the zeros among
  the first octets tell the encodings of two and of four octets a character
  from UTF-8, as long as the text starts with characters of ASCII. Halves of
  pairs of surrogates are accepted everywhere; in units of two octets, the
  two halves of a pair are the character that they stand for.
-/

namespace UtilityCss

/-- An encoding of texts; of those with more than one octet a unit, the greater octets stand first
or last. -/
inductive Encoding where
  | utf8
  | utf16 (greaterFirst : Bool)
  | utf32 (greaterFirst : Bool)
  deriving DecidableEq, Repr

namespace Encoding

/-- The encoding of octets without a mark, by the zeros among the first of them. -/
def ofZeros : List Nat → Encoding
  | [a, b] => if a = 0 then .utf16 true else if b = 0 then .utf16 false else .utf8
  | a :: b :: c :: d :: _ =>
    if a = 0 then if b = 0 then .utf32 true else .utf16 true
    else if b = 0 then if c = 0 ∧ d = 0 then .utf32 false else .utf16 false
    else .utf8
  | _ => .utf8

/-- The encoding of octets, and the octets without a mark of it. -/
def detect : List Nat → Encoding × List Nat
  | 0x00 :: 0x00 :: 0xFE :: 0xFF :: rest => (.utf32 true, rest)
  | 0xFF :: 0xFE :: 0x00 :: 0x00 :: rest => (.utf32 false, rest)
  | 0xFE :: 0xFF :: rest => (.utf16 true, rest)
  | 0xFF :: 0xFE :: rest => (.utf16 false, rest)
  | 0xEF :: 0xBB :: 0xBF :: rest => (.utf8, rest)
  | octets => (ofZeros octets, octets)

/-- The units of two octets. -/
def units16? (greaterFirst : Bool) : List Nat → Option (List Nat)
  | [] => some []
  | [_] => none
  | a :: b :: rest =>
    (units16? greaterFirst rest).map ((if greaterFirst then a * 256 + b else b * 256 + a) :: ·)

/-- The units of four octets. -/
def units32? (greaterFirst : Bool) : List Nat → Option (List Nat)
  | [] => some []
  | a :: b :: c :: d :: rest =>
    (units32? greaterFirst rest).map
      ((if greaterFirst then ((a * 256 + b) * 256 + c) * 256 + d
        else ((d * 256 + c) * 256 + b) * 256 + a) :: ·)
  | _ => none

/-- The text of units of two octets, given the first half of a pair that stands before them, if
one does. -/
def joinUnits : (before : Option Nat) → List Nat → Text
  | none, [] => []
  | some high, [] => [CodePoint.ofNat high]
  | none, unit :: rest =>
    if Surrogate.isHigh unit then joinUnits (some unit) rest
    else CodePoint.ofNat unit :: joinUnits none rest
  | some high, unit :: rest =>
    if Surrogate.isLow unit then CodePoint.ofNat (Surrogate.join high unit) :: joinUnits none rest
    else if Surrogate.isHigh unit then CodePoint.ofNat high :: joinUnits (some unit) rest
    else CodePoint.ofNat high :: CodePoint.ofNat unit :: joinUnits none rest

/-- The text that octets are in an encoding, if they are one. -/
def decode? : Encoding → List Nat → Option Text
  | .utf8, octets => (Utf8.decodeWide octets).toOption
  | .utf16 greaterFirst, octets => (units16? greaterFirst octets).map (joinUnits none)
  | .utf32 greaterFirst, octets =>
    match units32? greaterFirst octets with
    | some units => if units.all (· < 0x110000) then some (units.map CodePoint.ofNat) else none
    | none => none

/-- The text that octets are in the encoding that they show, if they are one. -/
def read? (octets : List Nat) : Option Text := (detect octets).1.decode? (detect octets).2

end Encoding

end UtilityCss
