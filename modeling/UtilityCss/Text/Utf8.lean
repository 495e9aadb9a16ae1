import UtilityCss.Text.Hex
/-
  Texts as octets in UTF-8.

  Octets are natural numbers below 256. A row of octets is read from the left
  into code points and faults; reading strictly stops at the first fault, and
  reading leniently puts the replacement character in the place of each. A
  fault covers the octets that could still have started a character. A half of
  a pair of surrogates has no octets in UTF-8 proper; those that its number
  would have are a fault, and are read as the half only where halves are
  accepted.

  What is proved:
    1. `readChar_encodeChar` : the octets of a code point are read as that
       code point, whatever follows, unless it is a half and these are not
       accepted.
    2. `decode_encode`, `decodeLenient_encode` : a text without halves is read
       back strictly and leniently.
    3. `encode_lt` : an encoded text holds octets alone.
    4. `unencodable?_eq_none_iff` : a text has octets exactly if it holds no
       halves.
-/

namespace UtilityCss.Utf8

/-- The octets of a code point, by its number. -/
def encodeChar (c : CodePoint) : List Nat :=
  let n := c.toNat
  if n < 0x80 then [n]
  else if n < 0x800 then [0xC0 + n / 64, 0x80 + n % 64]
  else if n < 0x10000 then [0xE0 + n / 4096, 0x80 + n / 64 % 64, 0x80 + n % 64]
  else [0xF0 + n / 262144, 0x80 + n / 4096 % 64, 0x80 + n / 64 % 64, 0x80 + n % 64]

def encode (t : Text) : List Nat := t.flatMap encodeChar

inductive Reason where
  | invalidStart
  | invalidContinuation
  | unexpectedEnd
  deriving DecidableEq, Repr

/-- A fault: where its octets start, how many there are, and the first of them. -/
structure Fault where
  reason : Reason
  position : Nat
  length : Nat
  octet : Nat
  deriving DecidableEq, Repr

/-- What the first octet of a character says of the rest: the value it holds itself, how many
octets follow, and the bounds of the next. -/
structure Lead where
  value : Nat
  following : Nat
  low : Nat
  high : Nat
  deriving DecidableEq, Repr

/-- The meaning of a first octet, if a character starts with it, or a half where these are
accepted. -/
def lead? (halves : Bool) (b : Nat) : Option Lead :=
  if b < 0x80 then some ⟨b, 0, 0x80, 0xBF⟩
  else if b < 0xC2 then none
  else if b < 0xE0 then some ⟨b - 0xC0, 1, 0x80, 0xBF⟩
  else if b = 0xE0 then some ⟨b - 0xE0, 2, 0xA0, 0xBF⟩
  else if b = 0xED then some ⟨b - 0xE0, 2, 0x80, if halves then 0xBF else 0x9F⟩
  else if b < 0xF0 then some ⟨b - 0xE0, 2, 0x80, 0xBF⟩
  else if b = 0xF0 then some ⟨b - 0xF0, 3, 0x90, 0xBF⟩
  else if b < 0xF4 then some ⟨b - 0xF0, 3, 0x80, 0xBF⟩
  else if b = 0xF4 then some ⟨b - 0xF0, 3, 0x80, 0x8F⟩
  else none

/-- The value of a character after its first octets, of which `taken` are read. Answers the value
and the count of octets, or why and after how many octets it ends. -/
def readTail (value low high taken : Nat) :
    (following : Nat) → List Nat → Except (Reason × Nat) (Nat × Nat)
  | 0, _ => .ok (value, taken)
  | _ + 1, [] => .error (.unexpectedEnd, taken)
  | following + 1, b :: rest =>
    if low ≤ b ∧ b ≤ high then
      readTail (value * 64 + (b - 0x80)) 0x80 0xBF (taken + 1) following rest
    else .error (.invalidContinuation, taken)

/-- The code point that octets start with and how many of them it takes, or why and for how many
octets there is none. -/
def readChar (halves : Bool) (b : Nat) (rest : List Nat) : Except (Reason × Nat) (CodePoint × Nat) :=
  match lead? halves b with
  | none => .error (.invalidStart, 1)
  | some lead =>
    match readTail lead.value lead.low lead.high 1 lead.following rest with
    | .ok (value, taken) => .ok (CodePoint.ofNat value, taken)
    | .error why => .error why

/-- The code points and faults of octets. The first `skip` octets belong to one already read;
`position` counts the octets before. -/
def items (halves : Bool) (position : Nat) : (skip : Nat) → List Nat → List (Except Fault CodePoint)
  | _, [] => []
  | skip + 1, _ :: rest => items halves (position + 1) skip rest
  | 0, b :: rest =>
    match readChar halves b rest with
    | .ok (c, taken) => .ok c :: items halves (position + 1) (taken - 1) rest
    | .error (reason, length) =>
      .error ⟨reason, position, length, b⟩ :: items halves (position + 1) (length - 1) rest

/-- The text that octets hold, or their first fault. -/
def decode (octets : List Nat) : Except Fault Text := (items false 0 0 octets).mapM id

/-- The text that octets hold, halves accepted, or their first fault. -/
def decodeWide (octets : List Nat) : Except Fault Text := (items true 0 0 octets).mapM id

/-- The text that octets hold, with the replacement character for every fault. -/
def decodeLenient (octets : List Nat) : Text :=
  (items false 0 0 octets).map (fun item =>
    match item with
    | .ok c => c
    | .error _ => '\uFFFD')

def Reason.message : Reason → Text
  | .invalidStart => "invalid start byte"
  | .invalidContinuation => "invalid continuation byte"
  | .unexpectedEnd => "unexpected end of data"

def Fault.message (fault : Fault) : Text :=
  let last := fault.position + fault.length - 1
  "'utf-8' codec can't decode " ++
    (if fault.length = 1 then
      "byte 0x" ++ Text.hexFixed 2 fault.octet ++ " in position " ++
        Text.decimal fault.position
    else
      "bytes in position " ++ Text.decimal fault.position ++ "-" ++ Text.decimal last) ++
    ": " ++ fault.reason.message

/-! ## Texts that have no octets -/

/-- Halves in a row: where the first of them is, and how many there are. -/
structure Unencodable where
  first : CodePoint
  position : Nat
  count : Nat
  deriving DecidableEq, Repr

/-- The first halves in a row of a text, if there are any. -/
def unencodable? (t : Text) : Option Unencodable :=
  match t.dropWhile (fun c => !c.isHalf) with
  | [] => none
  | c :: rest =>
    let before := t.takeWhile (fun c => !c.isHalf)
    some ⟨c, before.length, (rest.takeWhile CodePoint.isHalf).length + 1⟩

/-- The escape of a half, by which it can be shown. -/
def escapedHalf (c : CodePoint) : Text := "\\u" ++ Text.hexFixed 4 c.toNat

/-- What is wrong with a text that has no octets, in words. -/
def Unencodable.message (u : Unencodable) : Text :=
  "'utf-8' codec can't encode character" ++
    (if u.count = 1 then " '" ++ escapedHalf u.first ++ "' in position " ++ Text.decimal u.position
    else
      "s in position " ++ Text.decimal u.position ++ "-" ++
        Text.decimal (u.position + u.count - 1)) ++
    ": surrogates not allowed"

/-! ## Small laws -/

theorem dropWhile_eq_nil_iff {t : Text} : t.dropWhile (fun c => !c.isHalf) = [] ↔ t.Scalar := by
  induction t with
  | nil => simp [Text.Scalar]
  | cons c rest ih =>
    rw [Text.Scalar, List.forall_mem_cons, ← Text.Scalar, ← ih, List.dropWhile_cons]
    cases c.isHalf <;> simp

/-- A text has octets exactly if it holds characters alone. -/
theorem unencodable?_eq_none_iff {t : Text} : unencodable? t = none ↔ t.Scalar := by
  rw [← dropWhile_eq_nil_iff, unencodable?]
  split
  · next h => simp [h]
  · next c rest h => simp [h]

theorem items_skip (halves : Bool) (position : Nat) (taken rest : List Nat) :
    items halves position taken.length (taken ++ rest) =
      items halves (position + taken.length) 0 rest := by
  induction taken generalizing position with
  | nil => simp
  | cons b bs ih =>
    simp only [List.length_cons, List.cons_append, items, ih]
    congr 1
    omega

/-- The octets of a code point are read as that code point, whatever follows, unless it is a half
and these are not accepted. -/
theorem readChar_encodeChar {halves : Bool} {c : CodePoint} (ha : halves = true ∨ c.isHalf = false)
    (rest : List Nat) : ∃ b tail,
    encodeChar c = b :: tail ∧ readChar halves b (tail ++ rest) = .ok (c, tail.length + 1) := by
  have hv : c.toNat < 0x110000 := CodePoint.toNat_lt c
  have hs : halves = true ∨ c.toNat < 0xD800 ∨ 0xDFFF < c.toNat := by
    rcases ha with h | h
    · exact Or.inl h
    · cases c with
      | char c => rcases CodePoint.char_toNat_bounds c with h | h <;> omega
      | half index => simp [CodePoint.isHalf] at h
  have hc : CodePoint.ofNat c.toNat = c := CodePoint.ofNat_toNat c
  unfold encodeChar
  simp only
  split
  · next h => exact ⟨_, _, rfl, by simp [readChar, lead?, readTail, h, hc]⟩
  · split
    · next h1 h2 =>
      refine ⟨_, _, rfl, ?_⟩
      have hl : lead? halves (0xC0 + c.toNat / 64) = some ⟨c.toNat / 64, 1, 0x80, 0xBF⟩ := by
        unfold lead?
        rw [if_neg (by omega), if_neg (by omega), if_pos (by omega)]
        simp
      have e1 : 0x80 + c.toNat % 64 ≤ 0xBF := by omega
      have hvalue : c.toNat / 64 * 64 + c.toNat % 64 = c.toNat := by omega
      simp [readChar, hl, readTail, e1, hvalue, hc]
    · split
      · next h1 h2 h3 =>
        refine ⟨_, _, rfl, ?_⟩
        have e2 : 0x80 + c.toNat % 64 ≤ 0xBF := by omega
        have e1 : 0x80 + c.toNat / 64 % 64 ≤ 0xBF := by omega
        have hvalue : (c.toNat / 4096 * 64 + c.toNat / 64 % 64) * 64 + c.toNat % 64 = c.toNat := by omega
        -- The bounds of the second octet depend on the first, and hold what is written.
        have hl : ∃ low high,
            lead? halves (0xE0 + c.toNat / 4096) = some ⟨c.toNat / 4096, 2, low, high⟩ ∧
            low ≤ 0x80 + c.toNat / 64 % 64 ∧ 0x80 + c.toNat / 64 % 64 ≤ high := by
          unfold lead?
          rw [if_neg (by omega), if_neg (by omega), if_neg (by omega)]
          split
          · exact ⟨0xA0, 0xBF, by simp, by omega, by omega⟩
          · split
            · refine ⟨0x80, if halves then 0xBF else 0x9F, by simp, by omega, ?_⟩
              split
              · exact e1
              · next hh => rcases hs with h | h
                           · exact absurd h hh
                           · omega
            · rw [if_pos (by omega)]
              exact ⟨0x80, 0xBF, by simp, by omega, by omega⟩
        obtain ⟨low, high, hl, hlow, hhigh⟩ := hl
        simp [readChar, hl, readTail, hlow, hhigh, e2, hvalue, hc]
      · next h1 h2 h3 =>
        refine ⟨_, _, rfl, ?_⟩
        have e3 : 0x80 + c.toNat % 64 ≤ 0xBF := by omega
        have e2 : 0x80 + c.toNat / 64 % 64 ≤ 0xBF := by omega
        have hvalue : ((c.toNat / 262144 * 64 + c.toNat / 4096 % 64) * 64 + c.toNat / 64 % 64) * 64 +
            c.toNat % 64 = c.toNat := by omega
        have hl : ∃ low high,
            lead? halves (0xF0 + c.toNat / 262144) = some ⟨c.toNat / 262144, 3, low, high⟩ ∧
            low ≤ 0x80 + c.toNat / 4096 % 64 ∧ 0x80 + c.toNat / 4096 % 64 ≤ high := by
          unfold lead?
          rw [if_neg (by omega), if_neg (by omega), if_neg (by omega), if_neg (by omega),
            if_neg (by omega), if_neg (by omega)]
          split
          · exact ⟨0x90, 0xBF, by simp, by omega, by omega⟩
          · split
            · exact ⟨0x80, 0xBF, by simp, by omega, by omega⟩
            · rw [if_pos (by omega)]
              exact ⟨0x80, 0x8F, by simp, by omega, by omega⟩
        obtain ⟨low, high, hl, hlow, hhigh⟩ := hl
        simp [readChar, hl, readTail, hlow, hhigh, e2, e3, hvalue, hc]

theorem items_encode {halves : Bool} (position : Nat) {t : Text}
    (ha : halves = true ∨ ∀ c ∈ t, c.isHalf = false) :
    items halves position 0 (encode t) = t.map Except.ok := by
  induction t generalizing position with
  | nil => rfl
  | cons c cs ih =>
    have hc : halves = true ∨ c.isHalf = false := ha.imp_right (fun h => h c (by simp))
    have hcs : halves = true ∨ ∀ d ∈ cs, d.isHalf = false :=
      ha.imp_right (fun h d hd => h d (by simp [hd]))
    obtain ⟨b, tail, hb, hr⟩ := readChar_encodeChar hc (encode cs)
    have : encode (c :: cs) = b :: (tail ++ encode cs) := by
      simp [encode, List.flatMap_cons, hb]
    rw [this]
    simp only [items, hr, Nat.add_sub_cancel, items_skip, ih _ hcs, List.map_cons]

theorem mapM_ok (t : Text) : (t.map (Except.ok (ε := Fault))).mapM id = Except.ok t := by
  induction t with
  | nil => rfl
  | cons c cs ih => simp [List.mapM_cons, ih]; rfl

/-- An encoded text without halves is read back. -/
theorem decode_encode {t : Text} (h : ∀ c ∈ t, c.isHalf = false) : decode (encode t) = .ok t := by
  rw [decode, items_encode 0 (Or.inr h), mapM_ok]

/-- An encoded text without halves is read back leniently too. -/
theorem decodeLenient_encode {t : Text} (h : ∀ c ∈ t, c.isHalf = false) :
    decodeLenient (encode t) = t := by
  rw [decodeLenient, items_encode 0 (Or.inr h), List.map_map]
  exact List.map_id t

theorem encodeChar_lt (c : CodePoint) : ∀ b ∈ encodeChar c, b < 256 := by
  have hv : c.toNat < 0x110000 := CodePoint.toNat_lt c
  intro b hb
  unfold encodeChar at hb
  simp only at hb
  split at hb
  · simp only [List.mem_singleton] at hb; omega
  · split at hb
    · simp only [List.mem_cons, List.not_mem_nil, or_false] at hb; omega
    · split at hb <;> simp only [List.mem_cons, List.not_mem_nil, or_false] at hb <;> omega

/-- An encoded text holds octets alone. -/
theorem encode_lt (t : Text) : ∀ b ∈ encode t, b < 256 := by
  intro b hb
  obtain ⟨c, _, hc⟩ := List.mem_flatMap.1 hb
  exact encodeChar_lt c b hc

end UtilityCss.Utf8
