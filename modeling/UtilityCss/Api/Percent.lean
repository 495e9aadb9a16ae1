import UtilityCss.Text.Utf8
/-
  Percent-encoding: octets written as two hexadecimal digits after a percent
  sign.

  Reading never fails. A percent sign without two digits stands for itself,
  and octets that are no UTF-8 are read as the replacement character.
-/

namespace UtilityCss.Api.Percent

/-- The octets of a percent-encoded text, given how many characters belong to an octet already
read. -/
def octetsFrom : (skip : Nat) → Text → List Nat
  | _, [] => []
  | skip + 1, _ :: rest => octetsFrom skip rest
  | 0, c :: rest =>
    match c, rest with
    | '%', a :: b :: _ =>
      match Text.hexValue? a, Text.hexValue? b with
      | some high, some low => (high * 16 + low) :: octetsFrom 2 rest
      | _, _ => Utf8.encodeChar c ++ octetsFrom 0 rest
    | _, _ => Utf8.encodeChar c ++ octetsFrom 0 rest

/-- The text that a percent-encoded one stands for. -/
def decode (t : Text) : Text := Utf8.decodeLenient (octetsFrom 0 t)

/-- An octet as a percent sign and two digits. -/
def encodeOctet (b : Nat) : Text := "%" ++ Text.hexFixed 2 b

def encodeAll (t : Text) : Text := (Utf8.encode t).flatMap encodeOctet

end UtilityCss.Api.Percent
