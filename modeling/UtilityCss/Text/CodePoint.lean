/-
  Code points: what a text is made of.

  A code point is a character, or one half of a pair of surrogates that stands
  alone. An escape in JSON can name such a half, and some encodings can hold
  one; it is kept as it is. Two halves side by side are two code points and
  not the character of which they are the halves.

  What is proved:
    1. `ofNat_toNat`, `toNat_inj` : a code point is known by its number.
    2. `scalar_of` : a string is a text of characters alone.
-/

namespace UtilityCss

/-- A code point: a character, or a half of a pair of surrogates, counted from the first half. -/
inductive CodePoint where
  | char (c : Char)
  | half (index : Fin 2048)
  deriving DecidableEq, Repr

namespace CodePoint

instance : Coe Char CodePoint := ⟨CodePoint.char⟩

def toNat : CodePoint → Nat
  | char c => c.toNat
  | half index => 0xD800 + index.val

/-- The code point of a number. -/
def ofNat (n : Nat) : CodePoint :=
  if h : 0xD800 ≤ n ∧ n < 0xE000 then .half ⟨n - 0xD800, by omega⟩ else .char (Char.ofNat n)

/-- Whether a code point is a half that stands alone. -/
def isHalf : CodePoint → Bool
  | char _ => false
  | half _ => true

def isLetter : CodePoint → Bool
  | char c => c.isAlpha
  | half _ => false

def isAsciiDigit : CodePoint → Bool
  | char c => c.isDigit
  | half _ => false

/-- The small letter of a letter of ASCII. -/
def toLower : CodePoint → CodePoint
  | char c => .char c.toLower
  | half index => .half index

/-! ## Small laws -/

theorem half_toNat_bounds (index : Fin 2048) :
    0xD800 ≤ (half index).toNat ∧ (half index).toNat < 0xE000 := by
  have := index.isLt
  simp only [toNat]
  omega

theorem char_toNat_bounds (c : Char) :
    (char c).toNat < 0xD800 ∨ 0xDFFF < (char c).toNat ∧ (char c).toNat < 0x110000 := c.valid

theorem toNat_lt (c : CodePoint) : c.toNat < 0x110000 := by
  cases c with
  | char c => rcases char_toNat_bounds c with h | h <;> omega
  | half index => have := half_toNat_bounds index; omega

/-- The code point of a code point's number is that code point. -/
theorem ofNat_toNat (c : CodePoint) : ofNat c.toNat = c := by
  cases c with
  | char c =>
    have h : ¬ (0xD800 ≤ (char c).toNat ∧ (char c).toNat < 0xE000) := by
      rcases char_toNat_bounds c with h | h <;> omega
    rw [ofNat, dif_neg h]
    exact congrArg char (Char.ofNat_toNat c)
  | half index =>
    rw [ofNat, dif_pos (half_toNat_bounds index)]
    exact congrArg half (Fin.ext (Nat.add_sub_cancel_left 0xD800 index.val))

/-- Code points with one number are the same. -/
theorem toNat_inj {c d : CodePoint} (h : c.toNat = d.toNat) : c = d := by
  rw [← ofNat_toNat c, ← ofNat_toNat d, h]

end CodePoint

/-! ## Pairs of surrogates, by number -/

namespace Surrogate

/-- Whether a number is the first half of a pair. -/
def isHigh (n : Nat) : Bool := 0xD800 ≤ n && n < 0xDC00

/-- Whether a number is the second half of a pair. -/
def isLow (n : Nat) : Bool := 0xDC00 ≤ n && n < 0xE000

/-- The number of the character that a pair stands for. -/
def join (high low : Nat) : Nat := 0x10000 + (high - 0xD800) * 0x400 + (low - 0xDC00)

end Surrogate

/-- A text is the list of its code points. -/
abbrev Text := List CodePoint

namespace Text

instance : LawfulBEq Text := inferInstance

def of (s : String) : Text := s.toList.map CodePoint.char

instance : Coe String Text := ⟨Text.of⟩

/-- A text of characters alone, without a half of a pair of surrogates. -/
def Scalar (t : Text) : Prop := ∀ c ∈ t, c.isHalf = false

instance (t : Text) : Decidable t.Scalar := inferInstanceAs (Decidable (∀ c ∈ t, c.isHalf = false))

theorem scalar_of (s : String) : (Text.of s).Scalar := by
  intro c hc
  obtain ⟨d, -, rfl⟩ := List.mem_map.1 hc
  rfl

def decimal (n : Nat) : Text := (Nat.toDigits 10 n).map CodePoint.char

/-- The string that shows a text, with the replacement character in the place of each half. -/
def shown (t : Text) : String :=
  String.ofList (t.map (fun c =>
    match c with
    | .char c => c
    | .half _ => '\uFFFD'))

end Text

end UtilityCss
