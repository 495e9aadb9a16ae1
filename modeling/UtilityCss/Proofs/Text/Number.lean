import Mathlib.Data.List.TakeWhile
import UtilityCss.Text.Numeral
/-
  The texts that are read as numbers and as lengths.

  The reader takes all digits that it finds and looks for a point behind them.
  The written form is freer: the digits behind a point that is missing may
  follow other digits. Both name the same texts, since what follows a number,
  a unit or nothing, opens neither with a digit nor with a point.

  What is proved:
    1. `afterNumber?_eq_some` : what is read is a number as it is written.
    2. `afterNumber?_text` : a number as it is written is read to its end.
    3. `isNumber_iff`, `isLength_iff` : the texts read as numbers and lengths.
    4. `head?_of_isLength`, `head?_of_isWhole` : what lengths and whole numbers
       open with.
-/

namespace UtilityCss.Text

/-- A number as it is written: a minus sign, digits and a point that may be missing, and digits. -/
structure Number where
  minus : Bool
  whole : Text
  point : Bool
  decimals : Text
  whole_digits : ∀ c ∈ whole, isDigit c = true
  decimals_digits : ∀ c ∈ decimals, isDigit c = true
  decimals_ne_nil : decimals ≠ []

namespace Number

def sign (n : Number) : Text := if n.minus then [.char '-'] else []

/-- The text of a number but for its sign. -/
def body (n : Number) : Text := n.whole ++ (if n.point then [.char '.'] else []) ++ n.decimals

def text (n : Number) : Text := n.sign ++ n.body

/-- A number opens with a digit or a point, when its sign is taken off. -/
theorem body_head (n : Number) :
    ∃ c rest, n.body = c :: rest ∧ (isDigit c = true ∨ c = .char '.') := by
  obtain ⟨d, ds, hdecimals⟩ := List.exists_cons_of_ne_nil n.decimals_ne_nil
  have hd : isDigit d = true := n.decimals_digits d (by simp [hdecimals])
  cases hwhole : n.whole with
  | cons c cs =>
    have hc : isDigit c = true := n.whole_digits c (by simp [hwhole])
    exact ⟨c, _, by rw [body, hwhole]; rfl, Or.inl hc⟩
  | nil =>
    cases hpoint : n.point with
    | true => exact ⟨.char '.', n.decimals, by simp [body, hwhole, hpoint], Or.inr rfl⟩
    | false => exact ⟨d, ds, by simp [body, hwhole, hpoint, hdecimals], Or.inl hd⟩

theorem text_head (n : Number) : ∃ c rest, n.text = c :: rest ∧
    (c = .char '-' ∨ isDigit c = true ∨ c = .char '.') := by
  obtain ⟨c, rest, hbody, hc⟩ := n.body_head
  cases hminus : n.minus with
  | true => exact ⟨.char '-', n.body, by simp [text, sign, hminus], Or.inl rfl⟩
  | false => exact ⟨c, rest, by simp [text, sign, hminus, hbody], Or.inr hc⟩

theorem withoutMinus_text (n : Number) (rest : Text) :
    withoutMinus (n.text ++ rest) = n.body ++ rest := by
  obtain ⟨c, tail, hbody, hc⟩ := n.body_head
  have hminus : c ≠ .char '-' := by
    rintro rfl
    revert hc
    decide
  cases hm : n.minus with
  | true => simp [text, sign, hm, withoutMinus]
  | false => simp [text, sign, hm, hbody, withoutMinus, hminus]

end Number

/-! ## Reading -/

/-- A number is read to its end, where neither a digit nor a point follows. -/
theorem afterNumber?_text (n : Number) (rest : Text)
    (hrest : ∀ c ∈ rest.head?, isDigit c = false ∧ c ≠ .char '.') :
    afterNumber? (n.text ++ rest) = some rest := by
  have hdigit : ∀ c ∈ rest.head?, isDigit c = false := fun c hc => (hrest c hc).1
  unfold afterNumber?
  rw [n.withoutMinus_text]
  cases hpoint : n.point with
  | true =>
    have hbody : n.body ++ rest = n.whole ++ .char '.' :: (n.decimals ++ rest) := by
      simp [Number.body, hpoint]
    have hpointed : ∀ c ∈ (CodePoint.char '.' :: (n.decimals ++ rest)).head?, isDigit c = false := by
      intro c hc
      rw [← Option.some.inj hc]
      decide
    simp only [hbody, dropWhile_run n.whole_digits hpointed,
      takeWhile_run n.decimals_digits hdigit, dropWhile_run n.decimals_digits hdigit]
    simp [n.decimals_ne_nil]
  | false =>
    have hbody : n.body ++ rest = (n.whole ++ n.decimals) ++ rest := by simp [Number.body, hpoint]
    have hdigits : ∀ c ∈ n.whole ++ n.decimals, isDigit c = true := by
      intro c hc
      rcases List.mem_append.1 hc with hc | hc
      · exact n.whole_digits c hc
      · exact n.decimals_digits c hc
    simp only [hbody, dropWhile_run hdigits hdigit, takeWhile_run hdigits hdigit]
    split
    · next decimals => exact absurd rfl (hrest (.char '.') rfl).2
    · simp [n.decimals_ne_nil]

theorem exists_sign (t : Text) :
    ∃ minus : Bool, t = (if minus then [.char '-'] else []) ++ withoutMinus t := by
  cases t with
  | nil => exact ⟨false, rfl⟩
  | cons c rest =>
    by_cases hc : c = .char '-'
    · exact ⟨true, by simp [withoutMinus, hc]⟩
    · exact ⟨false, by simp [withoutMinus, hc]⟩

/-- What is read as a number is one as it is written. -/
theorem afterNumber?_eq_some {t rest : Text} (h : afterNumber? t = some rest) :
    ∃ n : Number, t = n.text ++ rest := by
  obtain ⟨minus, hsign⟩ := exists_sign t
  have hbody := List.takeWhile_append_dropWhile (p := isDigit) (l := withoutMinus t)
  unfold afterNumber? at h
  simp only at h
  split at h
  · next decimals hpoint =>
    split at h
    · cases h
    · next hne =>
      have hdecimals := List.takeWhile_append_dropWhile (p := isDigit) (l := decimals)
      refine ⟨⟨minus, (withoutMinus t).takeWhile isDigit, true, decimals.takeWhile isDigit,
        fun c => List.mem_takeWhile_imp, fun c => List.mem_takeWhile_imp, by simpa using hne⟩, ?_⟩
      rw [← Option.some.inj h]
      simp only [Number.text, Number.sign, Number.body, if_true, List.append_assoc, hdecimals]
      rw [List.singleton_append, ← hpoint, hbody]
      exact hsign
  · split at h
    · cases h
    · next hne =>
      refine ⟨⟨minus, [], false, (withoutMinus t).takeWhile isDigit, by simp,
        fun c => List.mem_takeWhile_imp, by simpa using hne⟩, ?_⟩
      rw [← Option.some.inj h]
      simp only [Number.text, Number.sign, Number.body, List.nil_append, Bool.false_eq_true,
        if_false, List.append_assoc, hbody]
      exact hsign

/-! ## Numbers and lengths -/

theorem withoutFinalFeed_of_not_mem {t : Text} (h : CodePoint.char '\n' ∉ t) :
    withoutFinalFeed t = t := by
  have hlast : t.getLast? ≠ some (.char '\n') := fun e => h (List.mem_of_getLast? e)
  rw [withoutFinalFeed, if_neg hlast]

theorem isNumber_iff {t : Text} (h : CodePoint.char '\n' ∉ t) :
    isNumber t = true ↔ ∃ n : Number, t = n.text := by
  rw [isNumber, withoutFinalFeed_of_not_mem h, beq_iff_eq]
  constructor
  · intro hread
    obtain ⟨n, hn⟩ := afterNumber?_eq_some hread
    exact ⟨n, hn.trans (List.append_nil _)⟩
  · rintro ⟨n, rfl⟩
    have hread := afterNumber?_text n [] (by simp)
    rwa [List.append_nil] at hread

/-- A length as it is written: a number, and a unit that may be missing. -/
def LengthForm (t : Text) : Prop :=
  ∃ (n : Number) (unit : Text), t = n.text ++ unit ∧ (unit = [] ∨ unit ∈ units)

theorem unit_head : ∀ unit ∈ units, ∀ c ∈ unit.head?, isDigit c = false ∧ c ≠ .char '.' := by
  decide

theorem isLength_iff {t : Text} (h : CodePoint.char '\n' ∉ t) : isLength t = true ↔ LengthForm t := by
  rw [isLength, withoutFinalFeed_of_not_mem h]
  constructor
  · intro hread
    split at hread
    · next rest hrest =>
      obtain ⟨n, hn⟩ := afterNumber?_eq_some hrest
      refine ⟨n, rest, hn, ?_⟩
      rcases Bool.or_eq_true_iff.1 hread with hunit | hunit
      · exact Or.inl (List.isEmpty_iff.1 hunit)
      · exact Or.inr (List.contains_iff_mem.1 hunit)
    · cases hread
  · rintro ⟨n, unit, rfl, hunit⟩
    have hhead : ∀ c ∈ unit.head?, isDigit c = false ∧ c ≠ .char '.' := by
      rcases hunit with rfl | hunit
      · simp
      · exact unit_head unit hunit
    rw [afterNumber?_text n unit hhead]
    rcases hunit with rfl | hunit
    · rfl
    · simp [hunit]

/-! ## What numbers open with -/

theorem withoutFinalFeed_prefix (t : Text) : withoutFinalFeed t <+: t := by
  rw [withoutFinalFeed]
  split
  · exact List.dropLast_prefix t
  · exact List.prefix_refl t

/-- A length opens with a sign, a digit or a point, also with a line feed behind it. -/
theorem head?_of_isLength {t : Text} (h : isLength t = true) :
    ∃ c, t.head? = some c ∧ (c = .char '-' ∨ isDigit c = true ∨ c = .char '.') := by
  rw [isLength] at h
  split at h
  · next rest hrest =>
    obtain ⟨n, hn⟩ := afterNumber?_eq_some hrest
    obtain ⟨c, tail, htext, hc⟩ := n.text_head
    obtain ⟨feed, hfeed⟩ := withoutFinalFeed_prefix t
    refine ⟨c, ?_, hc⟩
    rw [← hfeed, hn, htext]
    rfl
  · cases h

/-- A whole number opens with a digit, also with a line feed behind it. -/
theorem head?_of_isWhole {t : Text} (h : isWhole t = true) :
    ∃ c, t.head? = some c ∧ isDigit c = true := by
  obtain ⟨hempty, hdigits⟩ := Bool.and_eq_true_iff.1 h
  have hne : withoutFinalFeed t ≠ [] := by simpa using hempty
  obtain ⟨c, tail, hbody⟩ := List.exists_cons_of_ne_nil hne
  obtain ⟨feed, hfeed⟩ := withoutFinalFeed_prefix t
  refine ⟨c, ?_, List.all_eq_true.1 hdigits c (by simp [hbody])⟩
  rw [← hfeed, hbody]
  rfl

end UtilityCss.Text
