import UtilityCss.Proofs.Json.RoundTrip
/-
  Halves of pairs of surrogates in what is read as JSON.

  An escape can name a half, and a half that stands alone is kept. But two
  escapes of one pair are read as its character, so out of a text of characters
  no two halves of a pair come to stand side by side: whatever is read from it
  can be written and read again. What is left behind a value is an end of the
  text, and holds characters alone as the text does, so the same is true of
  every text inside a value.

  What is proved:
    1. `readEscape_cases` : the three ways to read an escape.
    2. `readText_joined` : a text that is read has no pair of halves in it.
    3. `readsFrom` : so have the members of an object, and what is left behind
       a value is an end of the text.
    4. `joinedMembers_of_read` : the names and the texts of an object that a
       whole text holds.
-/

namespace UtilityCss

namespace CodePoint

theorem toNat_ofNat_of_surrogate {n : Nat} (h : 0xD800 ≤ n ∧ n < 0xE000) : (ofNat n).toNat = n := by
  rw [ofNat, dif_pos h]
  show 0xD800 + (n - 0xD800) = n
  omega

theorem isHigh_ofNat (n : Nat) : Surrogate.isHigh (ofNat n).toNat = Surrogate.isHigh n := by
  by_cases h : 0xD800 ≤ n ∧ n < 0xE000
  · rw [toNat_ofNat_of_surrogate h]
  · rw [(unpaired_of_not_isHalf (not_isHalf_ofNat h)).1, eq_comm, Surrogate.isHigh,
      Bool.and_eq_false_iff, decide_eq_false_iff_not, decide_eq_false_iff_not]
    omega

theorem isLow_ofNat (n : Nat) : Surrogate.isLow (ofNat n).toNat = Surrogate.isLow n := by
  by_cases h : 0xD800 ≤ n ∧ n < 0xE000
  · rw [toNat_ofNat_of_surrogate h]
  · rw [(unpaired_of_not_isHalf (not_isHalf_ofNat h)).2, eq_comm, Surrogate.isLow,
      Bool.and_eq_false_iff, decide_eq_false_iff_not, decide_eq_false_iff_not]
    omega

end CodePoint

namespace Json

/-! ## Escapes -/

theorem not_isHalf_unescape? {letter c : CodePoint} (h : unescape? letter = some c) :
    c.isHalf = false := by
  unfold unescape? at h
  repeat' split at h
  all_goals cases h
  all_goals rfl

theorem not_isHalf_join {high low : Nat} : (CodePoint.ofNat (Surrogate.join high low)).isHalf = false := by
  apply CodePoint.not_isHalf_ofNat
  unfold Surrogate.join
  omega

/-- What an escape is read as is no half, or it is the number of one escape; and if that is the first
half of a pair, no escape of a second half follows. -/
theorem readEscape_cases {start t : Text} {c : CodePoint} {taken : Nat}
    (h : readEscape start t = .ok (c, taken)) :
    c.isHalf = false ∨
      ∃ a b d e f more n, t = .char 'u' :: a :: b :: d :: e :: f :: more ∧
        Text.hexFour? a b d e = some n ∧ c = CodePoint.ofNat n ∧ taken = 5 ∧
        (Surrogate.isHigh n = true → NoLowEscape (f :: more)) := by
  fun_cases readEscape start t with
  | case4 a b d e f more high hfour hhigh f' g' h' i' x rest hshape low hfour' hlow =>
    rw [readEscape] at h
    simp only [hfour, hhigh, if_true, hshape, hfour', hlow, Except.ok.injEq, Prod.mk.injEq] at h
    exact Or.inl (h.1 ▸ not_isHalf_join)
  | case5 a b d e f more high hfour hhigh f' g' h' i' x rest hshape low hfour' hlow =>
    rw [readEscape] at h
    simp only [hfour, hhigh, if_true, hshape, hfour', hlow, Bool.false_eq_true, if_false,
      Except.ok.injEq, Prod.mk.injEq] at h
    refine Or.inr ⟨a, b, d, e, f, more, high, rfl, hfour, h.1.symm, h.2.symm, fun _ => ?_⟩
    intro f g k i y end' hshape'
    rw [hshape] at hshape'
    simp only [List.cons.injEq, true_and] at hshape'
    obtain ⟨rfl, rfl, rfl, rfl, -⟩ := hshape'
    exact ⟨low, hfour', Bool.eq_false_iff.2 hlow⟩
  | case6 a b d e f more high hfour hhigh hshape =>
    rw [readEscape] at h
    simp only [hfour, hhigh, if_true, Except.ok.injEq, Prod.mk.injEq] at h
    refine Or.inr ⟨a, b, d, e, f, more, high, rfl, hfour, h.1.symm, h.2.symm, fun _ => ?_⟩
    intro f g k i y end' hshape'
    exact (hshape _ _ _ _ _ _ hshape').elim
  | case7 a b d e f more n hfour hhigh =>
    rw [readEscape] at h
    simp only [hfour, hhigh, Bool.false_eq_true, if_false, Except.ok.injEq, Prod.mk.injEq] at h
    exact Or.inr ⟨a, b, d, e, f, more, n, rfl, hfour, h.1.symm, h.2.symm, fun hn => (hhigh hn).elim⟩
  | case9 letter rest hshape hletter d hd =>
    rw [readEscape] at h
    · simp only [hletter, if_false, hd, Except.ok.injEq, Prod.mk.injEq] at h
      exact Or.inl (h.1 ▸ not_isHalf_unescape? hd)
    · exact hshape
  | case1 => cases h
  | case2 a b d e f more hfour =>
    rw [readEscape] at h
    simp [hfour] at h
  | case3 a b d e f more high hfour hhigh f' g' h' i' x rest hshape hfour' =>
    rw [readEscape] at h
    simp [hfour, hhigh, hshape, hfour'] at h
  | case8 rest hshape =>
    rw [readEscape] at h
    · simp at h
    · exact hshape
  | case10 letter rest hshape hletter hnone =>
    rw [readEscape] at h
    · simp [hletter, hnone] at h
    · exact hshape

/-- Where no escape of a second half stands, no second half is read. -/
theorem isLow_readEscape {start t : Text} {c : CodePoint} {taken : Nat}
    (h : readEscape start t = .ok (c, taken)) (ht : NoLowEscape (.char '\\' :: t)) :
    Surrogate.isLow c.toNat = false := by
  rcases readEscape_cases h with hhalf | ⟨a, b, d, e, f, more, n, rfl, hfour, rfl, -, -⟩
  · exact (CodePoint.unpaired_of_not_isHalf hhalf).2
  · obtain ⟨low, hfour', hlow⟩ := ht a b d e f more rfl
    rw [hfour, Option.some.injEq] at hfour'
    rw [CodePoint.isLow_ofNat, hfour', hlow]

/-- Behind a first half that is read alone no escape of a second half stands. -/
theorem noLowEscape_of_readEscape {start t : Text} {c : CodePoint} {taken : Nat}
    (h : readEscape start t = .ok (c, taken)) (hc : Surrogate.isHigh c.toNat = true) :
    NoLowEscape (t.drop taken) := by
  rcases readEscape_cases h with hhalf | ⟨a, b, d, e, f, more, n, rfl, hfour, rfl, rfl, hnext⟩
  · rw [(CodePoint.unpaired_of_not_isHalf hhalf).1] at hc
    cases hc
  · rw [CodePoint.isHigh_ofNat] at hc
    exact hnext hc

/-! ## Texts -/

/-- A text that is read out of characters is joined. `done` is read already and in reverse, so its
head comes directly before what is read next. -/
theorem readText_joined {start t : Text} (ht : t.Scalar) {skip : Nat} {done value rest : Text}
    (hdone : done.IsChain (fun d c => ¬ c.Paired d))
    (hnext : ∀ c ∈ done.head?, Surrogate.isHigh c.toNat = true → NoLowEscape (t.drop skip))
    (h : readText start skip done t = .ok (value, rest)) : value.Joined := by
  induction t generalizing skip done with
  | nil => cases skip <;> simp [readText] at h
  | cons c more ih =>
    have hmore : Text.Scalar more := fun d hd => ht d (List.mem_cons_of_mem c hd)
    cases skip with
    | succ skip =>
      rw [readText] at h
      exact ih hmore hdone hnext h
    | zero =>
      rw [readText] at h
      split at h
      · simp only [Except.ok.injEq, Prod.mk.injEq] at h
        rw [← h.1, Text.Joined, List.isChain_reverse]
        exact hdone
      · split at h
        · next hslash =>
          split at h
          · cases h
          · next d taken hescape =>
            subst hslash
            refine ih hmore (List.isChain_cons.2 ⟨?_, hdone⟩) ?_ h
            · rintro x hx ⟨hhigh, hlow⟩
              rw [isLow_readEscape hescape (hnext x hx hhigh)] at hlow
              cases hlow
            · intro x hx hhigh
              rw [List.head?_cons, Option.mem_some_iff] at hx
              subst hx
              exact noLowEscape_of_readEscape hescape hhigh
        · split at h
          · cases h
          · -- A character of the text itself is no half.
            have hc := CodePoint.unpaired_of_not_isHalf (ht c List.mem_cons_self)
            refine ih hmore (List.isChain_cons.2 ⟨?_, hdone⟩) ?_ h
            · rintro x - ⟨-, hlow⟩
              rw [hc.2] at hlow
              cases hlow
            · intro x hx hhigh
              rw [List.head?_cons, Option.mem_some_iff] at hx
              subst hx
              rw [hc.1] at hhigh
              cases hhigh

theorem readText_suffix {start t : Text} {skip : Nat} {done value rest : Text}
    (h : readText start skip done t = .ok (value, rest)) : rest <:+ t := by
  induction t generalizing skip done with
  | nil => cases skip <;> simp [readText] at h
  | cons c more ih =>
    cases skip with
    | succ skip =>
      rw [readText] at h
      exact (ih h).trans (List.suffix_cons c more)
    | zero =>
      rw [readText] at h
      split at h
      · simp only [Except.ok.injEq, Prod.mk.injEq] at h
        exact h.2 ▸ List.suffix_cons c more
      · split at h
        · split at h
          · cases h
          · exact (ih h).trans (List.suffix_cons c more)
        · split at h
          · cases h
          · exact (ih h).trans (List.suffix_cons c more)

/-! ## Numbers and names -/

theorem readDigits?_suffix {t digits rest : Text} (h : readDigits? t = some (digits, rest)) :
    rest <:+ t := by
  unfold readDigits? at h
  split at h
  · simp only [Option.some.injEq, Prod.mk.injEq] at h
    exact h.2 ▸ List.suffix_cons _ _
  · simp only at h
    split at h
    · cases h
    · simp only [Option.some.injEq, Prod.mk.injEq] at h
      exact h.2 ▸ List.dropWhile_suffix _

theorem readFraction_suffix (t : Text) : (readFraction t).2 <:+ t := by
  unfold readFraction
  split
  · simp only
    split
    · exact List.suffix_rfl
    · exact (List.dropWhile_suffix _).trans (List.suffix_cons _ _)
  · exact List.suffix_rfl

theorem readExponent_suffix (t : Text) : (readExponent t).2 <:+ t := by
  have hdigits : ∀ (mark : CodePoint) {body rest : Text}, body <:+ rest →
      body.dropWhile CodePoint.isAsciiDigit <:+ mark :: rest := fun mark body rest hbody =>
    (List.dropWhile_suffix _).trans (hbody.trans (List.suffix_cons mark rest))
  unfold readExponent
  split
  · next mark rest =>
    split
    · split
      next negative body hsign =>
      have hbody : body <:+ rest := by
        split at hsign
        all_goals simp only [Prod.mk.injEq] at hsign
        · exact hsign.2 ▸ List.suffix_cons _ _
        · exact hsign.2 ▸ List.suffix_cons _ _
        · exact hsign.2 ▸ List.suffix_rfl
      simp only
      split
      · exact List.suffix_rfl
      · exact hdigits mark hbody
    · exact List.suffix_rfl
  · exact List.suffix_rfl

/-- A number is no text and no object, and an end of the text is left behind it. -/
theorem readNumber_suffix {t rest : Text} {value : Json} (h : readNumber t = .ok (value, rest)) :
    rest <:+ t ∧ value.text? = none ∧ value.members? = none := by
  unfold readNumber at h
  split at h
  next negative body hsign =>
  have hbody : body <:+ t := by
    split at hsign
    all_goals simp only [Prod.mk.injEq] at hsign
    · exact hsign.2 ▸ List.suffix_cons _ _
    · exact hsign.2 ▸ List.suffix_rfl
  split at h
  · cases h
  · next digits afterDigits hread =>
    have hdigits : afterDigits <:+ t := (readDigits?_suffix hread).trans hbody
    have hfraction := (readFraction_suffix afterDigits).trans hdigits
    have hexponent := (readExponent_suffix (readFraction afterDigits).2).trans hfraction
    simp only at h
    split at h
    · split at h
      · cases h
      · simp only [Except.ok.injEq, Prod.mk.injEq] at h
        obtain ⟨rfl, rfl⟩ := h
        exact ⟨hexponent, rfl, rfl⟩
    · simp only [Except.ok.injEq, Prod.mk.injEq] at h
      obtain ⟨rfl, rfl⟩ := h
      exact ⟨hexponent, rfl, rfl⟩

theorem readScalar_suffix {t rest : Text} {value : Json} (h : readScalar t = .ok (value, rest)) :
    rest <:+ t ∧ value.text? = none ∧ value.members? = none := by
  unfold readScalar at h
  split at h
  · next reading hname =>
    obtain ⟨p, hp, hprefix⟩ := List.exists_of_findSome?_eq_some hname
    obtain ⟨after, hafter, rfl⟩ := Option.map_eq_some_iff.1 hprefix
    simp only [Except.ok.injEq, Prod.mk.injEq] at h
    obtain ⟨rfl, rfl⟩ := h
    have hkind : ∀ p ∈ names, p.2.text? = none ∧ p.2.members? = none := by
      intro p hp
      simp only [names, List.mem_cons, List.not_mem_nil, or_false] at hp
      rcases hp with rfl | rfl | rfl | rfl | rfl | rfl <;> exact ⟨rfl, rfl⟩
    rw [Text.stripPrefix?_eq_some_iff.1 hafter]
    exact ⟨List.suffix_append _ _, hkind p hp⟩
  · exact readNumber_suffix h

/-! ## Values -/

/-- The names of an object's members are joined, and so are their values that are texts. -/
def JoinedMembers (members : List (Text × Json)) : Prop :=
  ∀ m ∈ members, m.1.Joined ∧ ∀ t, m.2.text? = some t → t.Joined

theorem joinedMembers_put {members : List (Text × Json)} (h : JoinedMembers members) {name : Text}
    {value : Json} (hname : name.Joined) (hvalue : ∀ t, value.text? = some t → t.Joined) :
    JoinedMembers (Pairs.put name value members) := by
  induction members with
  | nil => simpa [Pairs.put, JoinedMembers] using ⟨hname, hvalue⟩
  | cons m rest ih =>
    obtain ⟨k, v⟩ := m
    rw [JoinedMembers, List.forall_mem_cons] at h
    rw [Pairs.put]
    split
    · next hk => exact List.forall_mem_cons.2 ⟨⟨h.1.1, hvalue⟩, h.2⟩
    · exact List.forall_mem_cons.2 ⟨h.1, ih h.2⟩

/-- A value that is read: an end of the text is left behind it, and its texts are joined, as far as
they are itself or members of it. -/
structure ReadFrom (t : Text) (value : Json) (rest : Text) : Prop where
  suffix : rest <:+ t
  text : ∀ s, value.text? = some s → s.Joined
  members : ∀ members, value.members? = some members → JoinedMembers members

namespace ReadFrom

variable {t after rest : Text} {value : Json}

theorem mono (h : ReadFrom after value rest) (hafter : after <:+ t) : ReadFrom t value rest :=
  ⟨h.suffix.trans hafter, h.text, h.members⟩

theorem of_text {s : Text} (hrest : rest <:+ t) (hs : s.Joined) : ReadFrom t (.text s) rest :=
  ⟨hrest, fun _ h => Option.some.inj h ▸ hs, fun _ h => by cases h⟩

theorem of_array {items : List Json} (hrest : rest <:+ t) : ReadFrom t (.array items) rest :=
  ⟨hrest, fun _ h => (by cases h), fun _ h => (by cases h)⟩

theorem of_object {members : List (Text × Json)} (hrest : rest <:+ t) (h : JoinedMembers members) :
    ReadFrom t (.object members) rest :=
  ⟨hrest, fun _ h => (by cases h), fun _ hmembers => Option.some.inj hmembers ▸ h⟩

end ReadFrom

theorem scalar_of_suffix {s t : Text} (h : t.Scalar) (hs : s <:+ t) : s.Scalar :=
  fun c hc => h c (hs.subset hc)

theorem skipGaps_suffix (t : Text) : skipGaps t <:+ t := List.dropWhile_suffix isGap

theorem suffix_of_skipGaps {t rest : Text} {c : CodePoint} (h : skipGaps t = c :: rest) : rest <:+ t :=
  (List.suffix_cons c rest).trans (h ▸ skipGaps_suffix t)

theorem readFrom_of_readText {start t s rest : Text} (ht : t.Scalar)
    (h : readText start 0 [] t = .ok (s, rest)) : s.Joined ∧ rest <:+ t :=
  ⟨readText_joined ht .nil (by simp) h, readText_suffix h⟩

/-- All that is read with a given fuel is read as `ReadFrom` says: values, items and members. -/
structure ReadsFrom (fuel : Nat) : Prop where
  value : ∀ {room t value rest}, Text.Scalar t → readValue fuel room t = .ok (value, rest) →
    ReadFrom t value rest
  items : ∀ {room done t value rest}, Text.Scalar t → readItems fuel room done t = .ok (value, rest) →
    ReadFrom t value rest
  members : ∀ {room done t value rest}, Text.Scalar t → JoinedMembers done →
    readMembers fuel room done t = .ok (value, rest) → ReadFrom t value rest

section

variable {fuel room : Nat} {t rest : Text} {value : Json}

theorem ReadsFrom.value_succ (ih : ReadsFrom fuel) (ht : t.Scalar)
    (h : readValue (fuel + 1) room t = .ok (value, rest)) : ReadFrom t value rest := by
  unfold readValue at h
  split at h
  · next inner =>
    have hinner := scalar_of_suffix ht (List.suffix_cons _ inner)
    split at h
    · cases h
    · next s after hread =>
      obtain ⟨rfl, rfl⟩ := Prod.mk.inj (Except.ok.inj h)
      obtain ⟨hs, hafter⟩ := readFrom_of_readText hinner hread
      exact .of_text (hafter.trans (List.suffix_cons _ _)) hs
  · next inner =>
    have hinner := scalar_of_suffix ht (List.suffix_cons _ inner)
    split at h
    · cases h
    · next after _ hclose =>
      obtain ⟨rfl, rfl⟩ := Prod.mk.inj (Except.ok.inj h)
      exact .of_array ((suffix_of_skipGaps hclose).trans (List.suffix_cons _ _))
    · have hskip := skipGaps_suffix inner
      exact (ih.items (scalar_of_suffix hinner hskip) h).mono (hskip.trans (List.suffix_cons _ _))
  · next inner =>
    have hinner := scalar_of_suffix ht (List.suffix_cons _ inner)
    split at h
    · cases h
    · next after _ hclose =>
      obtain ⟨rfl, rfl⟩ := Prod.mk.inj (Except.ok.inj h)
      exact .of_object ((suffix_of_skipGaps hclose).trans (List.suffix_cons _ _)) (by simp [JoinedMembers])
    · have hskip := skipGaps_suffix inner
      exact (ih.members (scalar_of_suffix hinner hskip) (by simp [JoinedMembers]) h).mono
        (hskip.trans (List.suffix_cons _ _))
  · obtain ⟨hsuffix, htext, hmembers⟩ := readScalar_suffix h
    exact ⟨hsuffix, by simp [htext], by simp [hmembers]⟩

theorem ReadsFrom.items_succ (ih : ReadsFrom fuel) {done : List Json} (ht : t.Scalar)
    (h : readItems (fuel + 1) room done t = .ok (value, rest)) : ReadFrom t value rest := by
  unfold readItems at h
  split at h
  · cases h
  · next item after hitem =>
    have hafter := (ih.value ht hitem).suffix
    split at h
    · next behind hclose =>
      obtain ⟨rfl, rfl⟩ := Prod.mk.inj (Except.ok.inj h)
      exact .of_array ((suffix_of_skipGaps hclose).trans hafter)
    · next behind hcomma =>
      have hskip := (skipGaps_suffix behind).trans ((suffix_of_skipGaps hcomma).trans hafter)
      exact (ih.items (scalar_of_suffix ht hskip) h).mono hskip
    · cases h

theorem ReadsFrom.members_succ (ih : ReadsFrom fuel) {done : List (Text × Json)} (ht : t.Scalar)
    (hdone : JoinedMembers done) (h : readMembers (fuel + 1) room done t = .ok (value, rest)) :
    ReadFrom t value rest := by
  unfold readMembers at h
  split at h
  · next inner =>
    have hinner := List.suffix_cons (.char '"') inner
    split at h
    · cases h
    · next name afterName hname =>
      obtain ⟨hjoined, hafterName⟩ := readFrom_of_readText (scalar_of_suffix ht hinner) hname
      split at h
      · next behindName hcolon =>
        have hstart := (skipGaps_suffix behindName).trans
          ((suffix_of_skipGaps hcolon).trans (hafterName.trans hinner))
        split at h
        · cases h
        · next item afterItem hitem =>
          have hread := ih.value (scalar_of_suffix ht hstart) hitem
          have hafterItem := hread.suffix.trans hstart
          have hput := joinedMembers_put hdone hjoined hread.text
          split at h
          · next behind hclose =>
            obtain ⟨rfl, rfl⟩ := Prod.mk.inj (Except.ok.inj h)
            exact .of_object ((suffix_of_skipGaps hclose).trans hafterItem) hput
          · next behind hcomma =>
            have hskip := (skipGaps_suffix behind).trans ((suffix_of_skipGaps hcomma).trans hafterItem)
            exact (ih.members (scalar_of_suffix ht hskip) hput h).mono hskip
          · cases h
      · cases h
  · cases h

end

/-- Values, items and members are read by one another, so the induction is on the fuel of all three. -/
theorem readsFrom (fuel : Nat) : ReadsFrom fuel := by
  induction fuel with
  | zero => constructor <;> simp [readValue, readItems, readMembers]
  | succ fuel ih => exact ⟨ih.value_succ, ih.items_succ, ih.members_succ⟩

/-- The names of an object that is read from a text of characters are joined, and so are its members
that are texts. -/
theorem joinedMembers_of_read [Limit] {t : Text} (ht : t.Scalar) {members : List (Text × Json)}
    (h : read t = .ok (.object members)) : JoinedMembers members := by
  unfold read at h
  split at h
  · cases h
  · split at h
    · cases h
    · next value rest hvalue =>
      split at h
      · obtain rfl := Except.ok.inj h
        have hread := (readsFrom _).value (scalar_of_suffix ht (skipGaps_suffix t)) hvalue
        exact hread.members members rfl
      · cases h

end Json

end UtilityCss
