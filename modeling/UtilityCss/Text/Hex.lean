import UtilityCss.Text.Blank
/-
  Hexadecimal digits, in small letters, and numbers of a fixed count of them.

  What is proved:
    1. `hexValue?_hexDigit` : a written digit is read back.
    2. `hexFixed_visible` : its digits are visible characters of ASCII.
    3. `hexFour?_hexFixed` : four written digits are read back.
-/

namespace UtilityCss.Text

/-- The digit of a number below sixteen. -/
def hexDigit (n : Nat) : CodePoint :=
  if n < 10 then CodePoint.ofNat (48 + n) else CodePoint.ofNat (87 + n)

/-- What a hexadecimal digit counts, small letter or capital. -/
def hexValue? (c : CodePoint) : Option Nat :=
  let n := c.toNat
  if 48 ≤ n ∧ n ≤ 57 then some (n - 48)
  else if 97 ≤ n ∧ n ≤ 102 then some (n - 87)
  else if 65 ≤ n ∧ n ≤ 70 then some (n - 55)
  else none

/-- The last `width` hexadecimal digits of a number. -/
def hexFixed : (width : Nat) → Nat → Text
  | 0, _ => []
  | width + 1, n => hexFixed width (n / 16) ++ [hexDigit (n % 16)]

/-- The number that four hexadecimal digits count. -/
def hexFour? (a b c d : CodePoint) : Option Nat :=
  match hexValue? a, hexValue? b, hexValue? c, hexValue? d with
  | some a, some b, some c, some d => some (((a * 16 + b) * 16 + c) * 16 + d)
  | _, _, _, _ => none

/-! ## Small laws -/

/-- A written digit is read back. -/
theorem hexValue?_hexDigit {n : Nat} (h : n < 16) : hexValue? (hexDigit n) = some n := by
  have key : ∀ m : Fin 16, hexValue? (hexDigit m.val) = some m.val := by decide
  exact key ⟨n, h⟩

/-- The digits of a number are visible characters of ASCII. -/
theorem hexFixed_visible (width n : Nat) :
    ∀ d ∈ hexFixed width n, 0x20 ≤ d.toNat ∧ d.toNat < 0x7F := by
  have key : ∀ m : Fin 16,
      0x20 ≤ (hexDigit m.val).toNat ∧ (hexDigit m.val).toNat < 0x7F := by decide
  induction width generalizing n with
  | zero => intro d hd; cases hd
  | succ w ih =>
    intro d hd
    rcases List.mem_append.1 hd with h | h
    · exact ih (n / 16) d h
    · rw [List.mem_singleton.1 h]
      exact key ⟨n % 16, Nat.mod_lt _ (by decide)⟩

/-- Four written digits are read back. -/
theorem hexFour?_hexFixed {n : Nat} (h : n < 65536) :
    ∃ a b c d, hexFixed 4 n = [a, b, c, d] ∧ hexFour? a b c d = some n := by
  refine ⟨_, _, _, _, rfl, ?_⟩
  simp only [hexFour?, hexValue?_hexDigit (Nat.mod_lt _ (by decide : 16 > 0))]
  congr 1
  omega

end UtilityCss.Text
