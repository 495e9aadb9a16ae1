import Mathlib.Algebra.Group.Nat.Defs
import Mathlib.Data.List.TakeWhile
import UtilityCss.Text.Blank
import UtilityCss.Text.Newline
import UtilityCss.Text.Utf8
/-
  Texts of characters of one kind, and of characters alone.

  A half of a pair of surrogates has no octets: what octets stand for holds
  none, and a text that holds one cannot be shown. Cutting a text and reading
  its ends of lines bring none in.

  What is proved:
    1. `MadeOf.subset`, `MadeOf.append` : texts of characters of a kind.
    2. `Scalar.trim`, `Scalar.unifyNewlines` : what keeps a text free of
       halves.
    3. `scalar_decode` : what octets are read as holds none.
-/

namespace UtilityCss

namespace Text

/-- A text of characters of a kind. -/
def MadeOf (P : CodePoint → Prop) (t : Text) : Prop := ∀ c ∈ t, P c

namespace MadeOf

variable {P : CodePoint → Prop} {s t : Text}

theorem nil : Text.MadeOf P [] := fun _ hc => nomatch hc

theorem subset (h : t.MadeOf P) (hs : s ⊆ t) : s.MadeOf P := fun c hc => h c (hs hc)

theorem append (hs : s.MadeOf P) (ht : t.MadeOf P) : Text.MadeOf P (s ++ t) := by
  intro c hc
  rcases List.mem_append.1 hc with hc | hc
  · exact hs c hc
  · exact ht c hc

end MadeOf

theorem trim_subset (t : Text) : trim t ⊆ t := by
  intro c hc
  rw [trim, trimEnd, List.mem_reverse] at hc
  have hstart := List.mem_reverse.1 ((List.dropWhile_sublist isBlank).subset hc)
  exact (List.dropWhile_sublist isBlank).subset hstart

end Text

namespace CodePoint

theorem not_isHalf_ofNat {n : Nat} (h : ¬ (0xD800 ≤ n ∧ n < 0xE000)) : (ofNat n).isHalf = false := by
  rw [ofNat, dif_neg h]
  rfl

theorem not_isHalf_of_lt {c : CodePoint} (h : c.toNat < 0xD800) : c.isHalf = false := by
  rw [← ofNat_toNat c]
  exact not_isHalf_ofNat (by omega)

end CodePoint

namespace Text

theorem scalar_decimal (n : Nat) : (Text.decimal n).Scalar := by
  intro c hc
  obtain ⟨d, -, rfl⟩ := List.mem_map.1 hc
  rfl

namespace Scalar

variable {s t : Text}

theorem append (hs : s.Scalar) (ht : t.Scalar) : Text.Scalar (s ++ t) := MadeOf.append hs ht

theorem trim (h : t.Scalar) : (Text.trim t).Scalar := MadeOf.subset h (trim_subset t)

theorem unifyNewlines (h : t.Scalar) : (Text.unifyNewlines t).Scalar := by
  fun_induction Text.unifyNewlines t with
  | case1 => exact h
  | case2 rest ih =>
    intro c hc
    rcases List.mem_cons.1 hc with rfl | hc
    · rfl
    · exact ih (fun d hd => h d (List.mem_cons_of_mem _ (List.mem_cons_of_mem _ hd))) c hc
  | case3 c rest hr ih =>
    intro d hd
    rcases List.mem_cons.1 hd with rfl | hd
    · split
      · rfl
      · exact h c List.mem_cons_self
    · exact ih (fun e he => h e (List.mem_cons_of_mem _ he)) d hd

end Scalar

end Text

namespace Utf8

/-! ## Octets -/

/-- The octets that follow in a character fill six bits each. -/
theorem readTail_bounds {value taken following v count : Nat} {rest : List Nat}
    (h : readTail value 0x80 0xBF taken following rest = .ok (v, count)) :
    value * 64 ^ following ≤ v ∧ v < (value + 1) * 64 ^ following := by
  induction following generalizing value taken rest with
  | zero =>
    obtain ⟨rfl, -⟩ := Prod.mk.inj (Except.ok.inj h)
    omega
  | succ following ih =>
    cases rest with
    | nil => cases h
    | cons b rest =>
      rw [readTail] at h
      split at h
      · have hvalue := ih h
        have hpow : 64 ^ (following + 1) = 64 * 64 ^ following := by rw [Nat.pow_succ, Nat.mul_comm]
        obtain ⟨digit, hdigit⟩ : ∃ d, b - 0x80 = d := ⟨_, rfl⟩
        have hsmall : digit < 64 := by omega
        rw [hdigit] at hvalue
        constructor
        · calc value * 64 ^ (following + 1) = value * 64 * 64 ^ following := by
                rw [hpow, Nat.mul_assoc]
            _ ≤ (value * 64 + digit) * 64 ^ following := Nat.mul_le_mul_right _ (Nat.le_add_right _ _)
            _ ≤ v := hvalue.1
        · calc v < (value * 64 + digit + 1) * 64 ^ following := hvalue.2
            _ ≤ ((value + 1) * 64) * 64 ^ following := Nat.mul_le_mul_right _ (by omega)
            _ = (value + 1) * 64 ^ (following + 1) := by rw [hpow, Nat.mul_assoc]
      · cases h

/-- The second octet of a character has bounds of its own. -/
theorem readTail_succ {value low high taken following v count : Nat} {rest : List Nat}
    (h : readTail value low high taken (following + 1) rest = .ok (v, count)) :
    ∃ b, low ≤ b ∧ b ≤ high ∧ (value * 64 + (b - 0x80)) * 64 ^ following ≤ v ∧
      v < (value * 64 + (b - 0x80) + 1) * 64 ^ following := by
  cases rest with
  | nil => cases h
  | cons b rest =>
    rw [readTail] at h
    split at h
    · next hb => exact ⟨b, hb.1, hb.2, readTail_bounds h⟩
    · cases h

/-- The second octet is bounded so that no number of a half comes out. -/
theorem not_isHalf_readChar {b taken : Nat} {rest : List Nat} {c : CodePoint}
    (h : readChar false b rest = .ok (c, taken)) : c.isHalf = false := by
  unfold readChar at h
  split at h
  · cases h
  · next lead hlead =>
    split at h
    · next value count hread =>
      obtain ⟨rfl, -⟩ := Prod.mk.inj (Except.ok.inj h)
      apply CodePoint.not_isHalf_ofNat
      unfold lead? at hlead
      rw [if_neg Bool.false_ne_true] at hlead
      repeat' split at hlead
      all_goals first | obtain rfl := Option.some.inj hlead | exact absurd hlead (by simp)
      · obtain ⟨hvalue, -⟩ := Prod.mk.inj (Except.ok.inj hread)
        dsimp only at hvalue
        omega
      all_goals
        obtain ⟨second, hlow, hhigh, hbounds⟩ := readTail_succ hread
        simp only [Nat.reducePow] at hlow hhigh hbounds
        omega
    · cases h

theorem readChar_of_mem_items {octets : List Nat} {position skip : Nat} {c : CodePoint}
    (h : .ok c ∈ items false position skip octets) :
    ∃ b rest taken, readChar false b rest = .ok (c, taken) := by
  induction octets generalizing position skip with
  | nil =>
    rw [items] at h
    cases h
  | cons b rest ih =>
    cases skip with
    | succ skip => exact ih h
    | zero =>
      rw [items] at h
      split at h
      · next d taken hread =>
        rcases List.mem_cons.1 h with hc | h
        · exact ⟨b, rest, taken, Except.ok.inj hc ▸ hread⟩
        · exact ih h
      · rcases List.mem_cons.1 h with hc | h
        · cases hc
        · exact ih h

theorem mem_of_mapM {items : List (Except Fault CodePoint)} {t : Text}
    (h : items.mapM id = .ok t) : ∀ c ∈ t, .ok c ∈ items := by
  induction items generalizing t with
  | nil =>
    obtain rfl : ([] : Text) = t := Except.ok.inj h
    exact fun c hc => nomatch hc
  | cons item rest ih =>
    rw [List.mapM_cons] at h
    cases item with
    | error fault => cases h
    | ok d =>
      cases hrest : rest.mapM id with
      | error fault =>
        rw [hrest] at h
        cases h
      | ok more =>
        rw [hrest] at h
        obtain rfl : d :: more = t := Except.ok.inj h
        intro c hc
        rcases List.mem_cons.1 hc with rfl | hc
        · exact List.mem_cons_self
        · exact List.mem_cons_of_mem _ (ih hrest c hc)

/-- What octets are read as holds characters alone. -/
theorem scalar_decode {octets : List Nat} {t : Text} (h : decode octets = .ok t) : t.Scalar := by
  intro c hc
  obtain ⟨b, rest, taken, hread⟩ := readChar_of_mem_items (mem_of_mapM h c hc)
  exact not_isHalf_readChar hread

end Utf8

end UtilityCss
