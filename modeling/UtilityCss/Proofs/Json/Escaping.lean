import Mathlib.Data.List.Chain
import UtilityCss.Json.Reader
import UtilityCss.Json.Writer
import UtilityCss.Proofs.Text.Scalar
/-
  A text that is written as JSON is read back.

  A written text is read one character at a time: each character is written
  as itself, as a letter after a backslash, or by number in one escape or two,
  and whichever it is, the reader gives the character back and goes on behind
  it (`readText_writeChar`). A half of a pair of surrogates is written by
  number as well, and read back unless the half that completes it comes next:
  then the two are read as their character (`readText_pair`). So what is read
  is the written text with its halves joined, and the written text itself
  where there is nothing to join.

  What is proved:
    1. `joinHalves_eq` : in a text without two such halves side by side there
       is nothing to join.
    2. `readText_writeText` : a text between its marks.
-/

namespace UtilityCss

/-- Two code points that are the two halves of one pair, in order. -/
def CodePoint.Paired (c d : CodePoint) : Prop :=
  Surrogate.isHigh c.toNat = true ∧ Surrogate.isLow d.toNat = true

instance (c d : CodePoint) : Decidable (c.Paired d) := inferInstanceAs (Decidable (_ ∧ _))

/-- A text in which no pair of halves stands for its character. A half may stand alone. -/
def Text.Joined (t : Text) : Prop := t.IsChain (fun c d => ¬ c.Paired d)

instance (t : Text) : Decidable t.Joined := inferInstanceAs (Decidable (t.IsChain _))

theorem CodePoint.unpaired_of_not_isHalf {c : CodePoint} (h : c.isHalf = false) :
    Surrogate.isHigh c.toNat = false ∧ Surrogate.isLow c.toNat = false := by
  have hnum : ¬ (0xD800 ≤ c.toNat ∧ c.toNat < 0xE000) := by
    cases c with
    | char c => rcases CodePoint.char_toNat_bounds c with h | h <;> omega
    | half index => simp [CodePoint.isHalf] at h
  rw [Surrogate.isHigh, Surrogate.isLow, Bool.and_eq_false_iff, Bool.and_eq_false_iff]
  simp only [decide_eq_false_iff_not]
  omega

/-- Without first halves there are no pairs. -/
theorem Text.joined_of_no_high {t : Text} (h : ∀ c ∈ t, Surrogate.isHigh c.toNat = false) :
    t.Joined := by
  induction t with
  | nil => exact .nil
  | cons c rest ih =>
    have hc := h c List.mem_cons_self
    refine List.isChain_cons.2 ⟨?_, ih (fun d hd => h d (List.mem_cons_of_mem c hd))⟩
    rintro d - ⟨hhigh, -⟩
    exact Bool.false_ne_true (hc.symm.trans hhigh)

theorem Text.Scalar.joined {t : Text} (h : t.Scalar) : t.Joined :=
  Text.joined_of_no_high fun c hc => (CodePoint.unpaired_of_not_isHalf (h c hc)).1

/-! ## Halves that meet -/

/-- The text with its character in the place of every two halves of a pair that stand side by side. -/
def Text.joinHalves : Text → Text
  | [] => []
  | [c] => [c]
  | c :: d :: rest =>
    if c.Paired d then CodePoint.ofNat (Surrogate.join c.toNat d.toNat) :: joinHalves rest
    else c :: joinHalves (d :: rest)

/-- Where no two halves of a pair stand side by side, there is nothing to join. -/
theorem Text.Joined.joinHalves_eq {t : Text} (h : t.Joined) : t.joinHalves = t := by
  fun_induction Text.joinHalves t with
  | case1 => rfl
  | case2 c => rfl
  | case3 c d rest hpair ih => exact absurd hpair (List.isChain_cons_cons.1 h).1
  | case4 c d rest hpair ih => rw [ih (List.isChain_cons_cons.1 h).2]

namespace Json

/-! ## Escapes -/

theorem readEscape_letter {c letter : CodePoint} (h : escapeLetter? c = some letter)
    (start more : Text) : readEscape start (letter :: more) = .ok (c, 1) := by
  unfold escapeLetter? at h
  repeat' split at h
  all_goals cases h
  all_goals subst_vars
  all_goals simp [readEscape, unescape?]

theorem readEscape_unit {n : Nat} (hn : n < 65536) (hhigh : Surrogate.isHigh n = false)
    (start : Text) (e : CodePoint) (more : Text) :
    readEscape start (.char 'u' :: (Text.hexFixed 4 n ++ e :: more)) = .ok (CodePoint.ofNat n, 5) := by
  obtain ⟨a, b, c, d, hwritten, hread⟩ := Text.hexFour?_hexFixed hn
  rw [hwritten]
  simp [readEscape, hread, hhigh]

/-- A text does not start with the escape of the second half of a pair. -/
def NoLowEscape (t : Text) : Prop :=
  ∀ f g h i e more, t = .char '\\' :: .char 'u' :: f :: g :: h :: i :: e :: more →
    ∃ low, Text.hexFour? f g h i = some low ∧ Surrogate.isLow low = false

theorem readEscape_high {n : Nat} (hn : n < 65536) (hhigh : Surrogate.isHigh n = true) (start : Text)
    {e : CodePoint} {more : Text} (h : NoLowEscape (e :: more)) :
    readEscape start (.char 'u' :: (Text.hexFixed 4 n ++ e :: more)) = .ok (CodePoint.ofNat n, 5) := by
  obtain ⟨a, b, c, d, hwritten, hread⟩ := Text.hexFour?_hexFixed hn
  rw [hwritten]
  simp only [List.cons_append, List.nil_append, readEscape, hread, hhigh, if_true]
  split
  · next f g h' i x rest hshape =>
    obtain ⟨low, hfour, hlow⟩ := h _ _ _ _ _ _ hshape
    simp [hfour, hlow]
  · rfl

theorem readEscape_pair {high low : Nat} (hhigh : Surrogate.isHigh high = true)
    (hlow : Surrogate.isLow low = true) (start : Text) (e : CodePoint) (more : Text) :
    readEscape start (.char 'u' :: (Text.hexFixed 4 high ++ (escapeUnit low ++ e :: more))) =
      .ok (CodePoint.ofNat (Surrogate.join high low), 11) := by
  have hh : high < 65536 := by
    simp only [Surrogate.isHigh, Bool.and_eq_true, decide_eq_true_eq] at hhigh
    omega
  have hl : low < 65536 := by
    simp only [Surrogate.isLow, Bool.and_eq_true, decide_eq_true_eq] at hlow
    omega
  obtain ⟨a, b, c, d, hwritten, hread⟩ := Text.hexFour?_hexFixed hh
  obtain ⟨f, g, h, i, hwritten', hread'⟩ := Text.hexFour?_hexFixed hl
  rw [escapeUnit, hwritten, hwritten']
  simp [readEscape, hread, hread', hhigh, hlow]

/-! ## Texts -/

/-- What is left of an escape is passed over. -/
theorem readText_skip (start done : Text) (skip : Nat) (t : Text) :
    readText start skip done t = readText start 0 done (t.drop skip) := by
  induction t generalizing skip with
  | nil => cases skip <;> simp [readText]
  | cons c rest ih =>
    cases skip with
    | zero => rfl
    | succ n => rw [readText, ih, List.drop_succ_cons]

theorem readText_escape {start t : Text} {c : CodePoint} {taken : Nat}
    (h : readEscape start t = .ok (c, taken)) (done : Text) :
    readText start 0 done (.char '\\' :: t) = readText start 0 (c :: done) (t.drop taken) := by
  rw [readText]
  simp only [h]
  simp [readText_skip start _ taken]

/-- A character above U+FFFF is written as the two halves of its pair. -/
theorem surrogates_of_astral {n : Nat} (hlow : 0x10000 ≤ n) (hhigh : n < 0x110000) :
    Surrogate.isHigh (0xD800 + (n - 0x10000) / 0x400) = true ∧
      Surrogate.isLow (0xDC00 + (n - 0x10000) % 0x400) = true ∧
        Surrogate.join (0xD800 + (n - 0x10000) / 0x400) (0xDC00 + (n - 0x10000) % 0x400) = n := by
  refine ⟨?_, ?_, ?_⟩
  · rw [Surrogate.isHigh, Bool.and_eq_true, decide_eq_true_eq, decide_eq_true_eq]
    omega
  · rw [Surrogate.isLow, Bool.and_eq_true, decide_eq_true_eq, decide_eq_true_eq]
    omega
  · unfold Surrogate.join
    omega

theorem escapeLetter?_ne_u {c letter : CodePoint} (h : escapeLetter? c = some letter) :
    letter ≠ .char 'u' := by
  unfold escapeLetter? at h
  repeat' split at h
  all_goals cases h
  all_goals decide

theorem noLowEscape_mark (rest : Text) : NoLowEscape (.char '"' :: rest) := by
  intro f g h i e more hshape
  simp at hshape

/-- Only the second half of a pair is written as the escape of one. -/
theorem noLowEscape_writeChar {c : CodePoint} (hc : Surrogate.isLow c.toNat = false) (t : Text) :
    NoLowEscape (writeChar c ++ t) := by
  intro f g h i e more hshape
  -- What is written by number starts with these four digits.
  have hunit : ∀ {n : Nat} {t : Text}, n < 65536 → Surrogate.isLow n = false →
      escapeUnit n ++ t = .char '\\' :: .char 'u' :: f :: g :: h :: i :: e :: more →
      ∃ low, Text.hexFour? f g h i = some low ∧ Surrogate.isLow low = false := by
    intro n t hn hlow heq
    obtain ⟨a, b, c, d, hwritten, hread⟩ := Text.hexFour?_hexFixed hn
    rw [escapeUnit, hwritten] at heq
    simp only [List.cons_append, List.nil_append, List.cons.injEq, true_and] at heq
    obtain ⟨rfl, rfl, rfl, rfl, -⟩ := heq
    exact ⟨n, hread, hlow⟩
  unfold writeChar at hshape
  cases hletter : escapeLetter? c with
  | some letter =>
    rw [hletter] at hshape
    simp only [List.cons_append, List.cons.injEq] at hshape
    exact absurd hshape.2.1 (escapeLetter?_ne_u hletter)
  | none =>
    rw [hletter] at hshape
    simp only at hshape
    split at hshape
    · rw [List.singleton_append, List.cons.injEq] at hshape
      rw [hshape.1] at hletter
      simp [escapeLetter?] at hletter
    · split at hshape
      · next hn => exact hunit (by omega) hc hshape
      · next hn =>
        obtain ⟨hhigh, -, -⟩ := surrogates_of_astral (Nat.not_lt.1 hn) (CodePoint.toNat_lt c)
        rw [Surrogate.isHigh, Bool.and_eq_true, decide_eq_true_eq, decide_eq_true_eq] at hhigh
        rw [List.append_assoc] at hshape
        exact hunit (by omega) (by simp [Surrogate.isLow]; omega) hshape

/-- The two halves of a pair, each written by number, are read as the character. -/
theorem readText_pair {high low : Nat} (hhigh : Surrogate.isHigh high = true)
    (hlow : Surrogate.isLow low = true) (start done : Text) (e : CodePoint) (more : Text) :
    readText start 0 done (escapeUnit high ++ (escapeUnit low ++ e :: more)) =
      readText start 0 (CodePoint.ofNat (Surrogate.join high low) :: done) (e :: more) := by
  have hread := readEscape_pair hhigh hlow start e more
  simpa [escapeUnit, Text.hexFixed] using readText_escape hread done

/-- A written character is read back, whatever is read before it and follows it, but for the first
half of a pair before the escape of a second one. -/
theorem readText_writeChar {c : CodePoint} (start done : Text) {e : CodePoint} {more : Text}
    (hnext : Surrogate.isHigh c.toNat = true → NoLowEscape (e :: more)) :
    readText start 0 done (writeChar c ++ e :: more) = readText start 0 (c :: done) (e :: more) := by
  have hback := CodePoint.ofNat_toNat c
  unfold writeChar
  cases hletter : escapeLetter? c with
  | some letter => exact readText_escape (readEscape_letter hletter start (e :: more)) done
  | none =>
    simp only
    split
    · next hplain =>
      have hquote : c ≠ .char '"' := by
        rintro rfl
        simp [escapeLetter?] at hletter
      have hslash : c ≠ .char '\\' := by
        rintro rfl
        simp [escapeLetter?] at hletter
      have hvisible : ¬ c.toNat < 0x20 := by omega
      simp [readText, hquote, hslash, hvisible]
    · split
      · next hn =>
        have hread : readEscape start (.char 'u' :: (Text.hexFixed 4 c.toNat ++ e :: more)) =
            .ok (CodePoint.ofNat c.toNat, 5) := by
          cases hhigh : Surrogate.isHigh c.toNat with
          | false => exact readEscape_unit hn hhigh start e more
          | true => exact readEscape_high hn hhigh start (hnext hhigh)
        rw [hback] at hread
        simpa [escapeUnit, Text.hexFixed] using readText_escape hread done
      · next hn =>
        obtain ⟨hhigh, hlow, hjoin⟩ := surrogates_of_astral (Nat.not_lt.1 hn) (CodePoint.toNat_lt c)
        rw [List.append_assoc, readText_pair hhigh hlow, hjoin, hback]

/-- A half of a pair is written by number. -/
theorem writeChar_half {c : CodePoint} (h : c.isHalf = true) : writeChar c = escapeUnit c.toNat := by
  cases c with
  | char c => cases h
  | half index =>
    have hletter : escapeLetter? (.half index) = none := by simp [escapeLetter?]
    have hbounds := CodePoint.half_toNat_bounds index
    rw [writeChar, hletter]
    simp only
    rw [if_neg (by omega), if_pos (by omega)]

theorem isHalf_of_paired {c d : CodePoint} (h : c.Paired d) : c.isHalf = true ∧ d.isHalf = true := by
  constructor
  · cases hc : c.isHalf with
    | true => rfl
    | false => exact absurd h.1 (by simp [(CodePoint.unpaired_of_not_isHalf hc).1])
  · cases hd : d.isHalf with
    | true => rfl
    | false => exact absurd h.2 (by simp [(CodePoint.unpaired_of_not_isHalf hd).2])

/-- Something always follows a written text, if only the closing mark; an escape by number is read
only then. -/
theorem written_then_mark (t rest : Text) :
    ∃ e tail, t.flatMap writeChar ++ .char '"' :: rest = e :: tail := by
  cases t.flatMap writeChar with
  | nil => exact ⟨_, _, rfl⟩
  | cons e tail => exact ⟨e, _, rfl⟩

/-- A written text is read up to its closing mark, with its halves joined. -/
theorem readText_writeText (t start done rest : Text) :
    readText start 0 done (t.flatMap writeChar ++ .char '"' :: rest) =
      .ok (done.reverse ++ t.joinHalves, rest) := by
  fun_induction Text.joinHalves t generalizing done with
  | case1 => simp [readText]
  | case2 c =>
    rw [List.flatMap_singleton, readText_writeChar start done (fun _ => noLowEscape_mark rest)]
    simp [readText]
  | case3 c d more hpair ih =>
    obtain ⟨hc, hd⟩ := isHalf_of_paired hpair
    obtain ⟨e, tail, htail⟩ := written_then_mark more rest
    rw [List.flatMap_cons, List.flatMap_cons, writeChar_half hc, writeChar_half hd, List.append_assoc,
      List.append_assoc, htail, readText_pair hpair.1 hpair.2, ← htail, ih]
    simp
  | case4 c d more hpair ih =>
    have hnext : Surrogate.isHigh c.toNat = true →
        NoLowEscape ((d :: more).flatMap writeChar ++ .char '"' :: rest) := by
      intro hhigh
      rw [List.flatMap_cons, List.append_assoc]
      apply noLowEscape_writeChar
      exact Bool.eq_false_iff.2 (fun hlow => hpair ⟨hhigh, hlow⟩)
    obtain ⟨e, tail, htail⟩ := written_then_mark (d :: more) rest
    rw [htail] at hnext
    rw [List.flatMap_cons, List.append_assoc, htail, readText_writeChar start done hnext, ← htail, ih]
    simp

end Json

end UtilityCss
