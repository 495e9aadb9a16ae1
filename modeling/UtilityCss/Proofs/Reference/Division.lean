import UtilityCss.Reference
/-
  A text read from the left, as a division of the text.

  A division takes a text apart into plain texts with a reference between any
  two neighbours. It is leftmost when no reference starts inside one of its
  plain texts, whatever comes after that text. The definition of references
  looks at one place at a time; a division says the same of the whole text at
  once, without a scan.

  What is proved:
    1. `exists_leftmost`, `leftmost_unique` : every text has one leftmost
       division, and no other.
    2. `scan_of_leftmost` : the scan of a text finds the parts of its leftmost
       division, in order.
    3. `resolve_leftmost` : the value of a text is read off its leftmost
       division, piece by piece.
-/

namespace UtilityCss

/-- A text taken apart around references: plain text alone, or plain text, the reference after
it, and the rest taken apart. -/
inductive Division where
  | last (plain : Text)
  | next (plain : Text) (r : Reference) (rest : Division)
  deriving DecidableEq, Repr

namespace Division

def written : Division → Text
  | last plain => plain
  | next plain r rest => plain ++ (r.written ++ rest.written)

/-- No reference starts inside `plain` when `following` comes after it. -/
def Clear (plain following : Text) : Prop :=
  ∀ before inside, plain = before ++ inside → inside ≠ [] →
    ∀ r : Reference, r.WellFormed → ¬ r.written <+: inside ++ following

/-- The references are well formed, and none starts before its turn. -/
def Leftmost : Division → Prop
  | last plain => Clear plain []
  | next plain r rest => Clear plain (r.written ++ rest.written) ∧ r.WellFormed ∧ rest.Leftmost

/-! ## What a division stands for -/

/-- The text without a quotation mark at its start, and then without one at its end. -/
def bare (t : Text) : Text :=
  let inner := if t.head?.any isQuote then t.tail else t
  if inner.getLast?.any isQuote then inner.dropLast else inner

/-- A reference stands for the entry of its trimmed name, or, where that is missing or empty,
for its trimmed fallback without quotation marks. -/
def meaning (lookup : Lookup) (r : Reference) : Segment :=
  let entry := (lookup (Text.trim r.name)).getD []
  if entry = [] then .literal (bare (Text.trim r.fallback)) else .entry entry

/-- A plain text stands for itself; the empty one is left out. -/
def plainSegments (plain : Text) : List Segment := if plain = [] then [] else [.literal plain]

def segments (lookup : Lookup) : Division → List Segment
  | last plain => plainSegments plain
  | next plain r rest => plainSegments plain ++ meaning lookup r :: rest.segments lookup

/-- The value of a division. Without any segment it is the empty literal. -/
def value (lookup : Lookup) (d : Division) : Value :=
  if d.segments lookup = [] then ⟨[.literal []]⟩ else ⟨d.segments lookup⟩

/-! ## Divisions and parts -/

/-- The division with a plain text put before its first one. -/
def prepend (t : Text) : Division → Division
  | last plain => last (t ++ plain)
  | next plain r rest => next (t ++ plain) r rest

def plainParts (plain : Text) : List Part := if plain = [] then [] else [.plain plain]

/-- The parts of a division, without the empty plain texts. -/
def parts : Division → List Part
  | last plain => plainParts plain
  | next plain r rest => plainParts plain ++ .reference r :: rest.parts

/-- The division that has the given parts. -/
def ofParts : List Part → Division
  | [] => last []
  | .plain t :: more => (ofParts more).prepend t
  | .reference r :: more => next [] r (ofParts more)

theorem prepend_nil (d : Division) : d.prepend [] = d := by
  cases d <;> rfl

theorem written_prepend (t : Text) (d : Division) : (d.prepend t).written = t ++ d.written := by
  cases d <;> simp [prepend, written]

theorem ofParts_plainParts_append (plain : Text) (more : List Part) :
    ofParts (plainParts plain ++ more) = (ofParts more).prepend plain := by
  unfold plainParts
  split
  · next h => rw [h, prepend_nil]; rfl
  · rfl

/-- The parts of a division determine it, although they do not hold its empty plain texts. -/
theorem ofParts_parts (d : Division) : ofParts d.parts = d := by
  induction d with
  | last plain =>
    have h := ofParts_plainParts_append plain []
    rw [List.append_nil] at h
    rw [parts, h]
    simp [ofParts, prepend]
  | next plain r rest ih =>
    rw [parts, ofParts_plainParts_append, ofParts, ih]
    simp [prepend]

theorem flush_eq_plainParts (before : Text) : Part.flush before = plainParts before.reverse := by
  cases before <;> simp [Part.flush, plainParts]

/-! ## Where no reference starts -/

theorem clear_nil (following : Text) : Clear [] following := by
  intro before inside h hne
  rw [List.nil_eq, List.append_eq_nil_iff] at h
  exact absurd h.2 hne

theorem Clear.tail {c : CodePoint} {plain following : Text} (h : Clear (c :: plain) following) :
    Clear plain following := by
  intro before inside he
  exact h (c :: before) inside (by rw [he]; rfl)

theorem Clear.read?_eq_none {c : CodePoint} {plain following : Text}
    (h : Clear (c :: plain) following) : Reference.read? (c :: (plain ++ following)) = none := by
  rw [Option.eq_none_iff_forall_not_mem]
  intro r hr
  obtain ⟨hw, after, ha⟩ := Reference.read?_eq_some_iff.1 hr
  exact h [] (c :: plain) rfl (by simp) r hw ⟨after, ha.symm⟩

theorem clear_cons {c : CodePoint} {plain following : Text} (h : Clear plain following)
    (hread : Reference.read? (c :: (plain ++ following)) = none) :
    Clear (c :: plain) following := by
  intro before inside he hne r hw hp
  cases before with
  | nil =>
    obtain ⟨after, ha⟩ := hp
    have hsome : Reference.read? (c :: (plain ++ following)) = some r := by
      refine Reference.read?_eq_some_iff.2 ⟨hw, after, ?_⟩
      rw [ha, ← List.cons_append, he, List.nil_append]
    rw [hread] at hsome
    exact absurd hsome (by simp)
  | cons d before =>
    rw [List.cons_append, List.cons.injEq] at he
    exact h before inside he.2 hne r hw hp

theorem Clear.append {a b following : Text} (ha : Clear a (b ++ following)) (hb : Clear b following) :
    Clear (a ++ b) following := by
  induction a with
  | nil => exact hb
  | cons c a ih =>
    apply clear_cons (ih ha.tail)
    rw [List.append_assoc]
    exact ha.read?_eq_none

/-! ## Every text has one leftmost division -/

theorem leftmost_prepend {plain : Text} {d : Division} (hplain : Clear plain d.written)
    (h : d.Leftmost) : (d.prepend plain).Leftmost := by
  cases d with
  | last t =>
    have hlast : Clear plain (t ++ []) := by rwa [List.append_nil]
    exact hlast.append h
  | next t r rest =>
    obtain ⟨hclear, hw, hrest⟩ := h
    exact ⟨Clear.append hplain hclear, hw, hrest⟩

theorem exists_leftmost (t : Text) : ∃ d : Division, d.written = t ∧ d.Leftmost := by
  -- A reference is taken whole, so what is left is shorter, and not only by one character.
  induction hn : t.length using Nat.strongRecOn generalizing t with
  | ind n ih =>
    cases t with
    | nil => exact ⟨last [], rfl, clear_nil []⟩
    | cons c rest =>
      cases hread : Reference.read? (c :: rest) with
      | none =>
        obtain ⟨d, rfl, hd⟩ := ih rest.length (by rw [← hn]; simp) rest rfl
        have hclear : Clear [c] d.written := clear_cons (clear_nil _) hread
        exact ⟨d.prepend [c], written_prepend [c] d, leftmost_prepend hclear hd⟩
      | some r =>
        obtain ⟨hw, after, ha⟩ := Reference.read?_eq_some_iff.1 hread
        have hshort : after.length < n := by
          rw [← hn, ha, List.length_append, Reference.written]
          simp only [List.length_append, List.length_cons]
          omega
        obtain ⟨d, rfl, hd⟩ := ih after.length hshort after rfl
        exact ⟨next [] r d, ha.symm, clear_nil _, hw, hd⟩

/-! ## The scan of a text -/

/-- A scan skips the rest of a reference that is already taken. -/
theorem scan_skip (skip : Nat) (before t : Text) :
    Part.scan skip before t = Part.scan 0 before (t.drop skip) := by
  induction t generalizing skip with
  | nil => cases skip <;> rfl
  | cons c rest ih =>
    cases skip with
    | zero => rfl
    | succ n => rw [Part.scan, ih, List.drop_succ_cons]

theorem scan_written {r : Reference} (hw : r.WellFormed) (before after : Text) :
    Part.scan 0 before (r.written ++ after) =
      Part.flush before ++ .reference r :: Part.scan 0 [] after := by
  have hread : Reference.read? (r.written ++ after) = some r :=
    Reference.read?_eq_some_iff.2 ⟨hw, after, rfl⟩
  cases hr : r.written with
  | nil => simp [Reference.written] at hr
  | cons c more =>
    rw [hr] at hread
    rw [List.cons_append] at hread ⊢
    rw [Part.scan, hread]
    show Part.flush before ++ .reference r :: Part.scan (r.written.length - 1) [] (more ++ after) = _
    rw [scan_skip, hr, List.length_cons, Nat.add_sub_cancel, List.drop_left]

theorem scan_clear {plain following : Text} (h : Clear plain following) (before : Text) :
    Part.scan 0 before (plain ++ following) = Part.scan 0 (plain.reverse ++ before) following := by
  induction plain generalizing before with
  | nil => rfl
  | cons c plain ih =>
    rw [List.cons_append, Part.scan, h.read?_eq_none]
    show Part.scan 0 (c :: before) (plain ++ following) = _
    rw [ih h.tail]
    simp

theorem scan_of_leftmost {d : Division} (h : d.Leftmost) (before : Text) :
    Part.scan 0 before d.written = (d.prepend before.reverse).parts := by
  induction d generalizing before with
  | last plain =>
    have hscan := scan_clear h before
    rw [List.append_nil] at hscan
    rw [written, hscan, Part.scan, flush_eq_plainParts]
    simp [prepend, parts]
  | next plain r rest ih =>
    obtain ⟨hclear, hw, hrest⟩ := h
    have hparts := ih hrest []
    rw [List.reverse_nil, prepend_nil] at hparts
    rw [written, scan_clear hclear, scan_written hw, flush_eq_plainParts, hparts]
    simp [prepend, parts]

theorem parts_of_leftmost {d : Division} (h : d.Leftmost) : Part.ofText d.written = d.parts := by
  have hscan := scan_of_leftmost h []
  rwa [List.reverse_nil, prepend_nil] at hscan

theorem leftmost_unique {d e : Division} (hd : d.Leftmost) (he : e.Leftmost)
    (h : d.written = e.written) : d = e := by
  have hparts : d.parts = e.parts := by
    rw [← parts_of_leftmost hd, h, parts_of_leftmost he]
  rw [← ofParts_parts d, hparts, ofParts_parts]

/-! ## Resolution -/

theorem dropOpeningQuote_eq (t : Text) :
    dropOpeningQuote t = if t.head?.any isQuote then t.tail else t := by
  cases t <;> rfl

theorem unquote_eq_bare (t : Text) : unquote t = bare (Text.trim t) := by
  unfold unquote bare
  simp only [dropOpeningQuote_eq, List.head?_reverse, List.tail_reverse]
  split <;> split <;> simp

theorem resolve_eq_meaning (lookup : Lookup) (r : Reference) :
    r.resolve lookup = meaning lookup r := by
  unfold Reference.resolve meaning
  cases lookup (Text.trim r.name) with
  | none => simp [unquote_eq_bare]
  | some entry => cases entry <;> simp [unquote_eq_bare]

theorem resolve_plainParts (lookup : Lookup) (plain : Text) :
    (plainParts plain).map (Part.resolve lookup) = plainSegments plain := by
  unfold plainParts plainSegments
  split <;> rfl

theorem resolve_parts (lookup : Lookup) (d : Division) :
    d.parts.map (Part.resolve lookup) = d.segments lookup := by
  induction d with
  | last plain => exact resolve_plainParts lookup plain
  | next plain r rest ih =>
    rw [parts, segments, List.map_append, List.map_cons, resolve_plainParts, ih]
    simp only [Part.resolve, resolve_eq_meaning]

theorem resolve_of_leftmost (lookup : Lookup) {d : Division} (h : d.Leftmost) :
    Value.resolve lookup d.written = d.value lookup := by
  unfold Value.resolve value
  rw [parts_of_leftmost h, ← resolve_parts]
  cases d.parts <;> simp [Value.ofLiteral]

/-- Plain text without a reference in it is one leftmost division by itself. -/
theorem leftmost_last {t : Text} (h : ∀ r : Reference, r.WellFormed → ¬ r.written <:+: t) :
    (last t).Leftmost := by
  intro before inside he _ r hw hp
  rw [List.append_nil] at hp
  apply h r hw
  rw [he]
  exact hp.isInfix.trans (List.suffix_append before inside).isInfix

theorem value_last (lookup : Lookup) (t : Text) : (last t).value lookup = Value.ofLiteral t := by
  unfold value segments plainSegments
  by_cases h : t = [] <;> simp [h, Value.ofLiteral]

end Division

/-- Resolution reads a text off its leftmost division, which it has exactly one of. A text in
which no reference is written is one literal. -/
theorem resolve_leftmost (lookup : Lookup) (raw : Text) :
    (∃ d : Division, (d.written = raw ∧ d.Leftmost) ∧
      (∀ e : Division, e.written = raw ∧ e.Leftmost → e = d) ∧
      Value.resolve lookup raw = d.value lookup) ∧
    ((∀ r : Reference, r.WellFormed → ¬ r.written <:+: raw) →
      Value.resolve lookup raw = Value.ofLiteral raw) := by
  constructor
  · obtain ⟨d, rfl, hd⟩ := Division.exists_leftmost raw
    refine ⟨d, ⟨rfl, hd⟩, ?_, Division.resolve_of_leftmost lookup hd⟩
    rintro e ⟨he, hleft⟩
    exact Division.leftmost_unique hleft hd he
  · intro h
    have hresolve := Division.resolve_of_leftmost lookup (Division.leftmost_last h)
    rwa [Division.written, Division.value_last] at hresolve

/-- What looks like a reference but has no fallback is plain text, and hides none after it. -/
example : Value.resolve (fun _ => none) "var(--a,) var(b, 'c')d" =
    ⟨[.literal "var(--a,) ", .literal "c", .literal "d"]⟩ := by decide

end UtilityCss
