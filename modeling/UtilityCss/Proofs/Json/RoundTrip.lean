import Mathlib.Data.List.TakeWhile
import UtilityCss.Proofs.Json.Escaping
import UtilityCss.Proofs.OrderedMap.Writing
import UtilityCss.Proofs.Text.Words
/-
  What is written as JSON is read back.

  A value is read back as another if the reader, given its written form with
  any text behind it, gives the other and goes on with that text
  (`ReadsBack`). Texts are read back so, with their halves joined, and an array
  or an object is if its parts are: both are loops over written parts with
  commas between them, and one law serves for both (`loop_written`). The fuel
  is measured by what is written, so that what a part leaves of it is enough
  for those behind it.

  What is proved:
    1. `readsBack_text`, `readsBack_array`, `readsBack_object` : values of one
       kind each, from their parts.
    2. `read_value` : a whole text, in every layout and with any gap behind it.
    3. `read_ofTexts` : an object of any texts.
    4. `read_written` : an object of texts that have no halves to join, each
       name once, is read as it is.
    5. `shown_write_ofTexts` : the characters of a written object of texts.
-/

namespace UtilityCss

namespace Json

/-! ## What sets the parts apart -/

/-- A text of gaps alone. -/
def Gap (t : Text) : Prop := ∀ c ∈ t, isGap c = true

instance (t : Text) : Decidable (Gap t) := inferInstanceAs (Decidable (∀ c ∈ t, isGap c = true))

theorem skipGaps_cons {c : CodePoint} (hc : isGap c = false) (rest : Text) :
    skipGaps (c :: rest) = c :: rest := by
  rw [skipGaps, List.dropWhile_cons_of_neg (by simp [hc])]

theorem skipGaps_append {gap : Text} (h : Gap gap) {c : CodePoint} (hc : isGap c = false)
    (rest : Text) : skipGaps (gap ++ c :: rest) = c :: rest := by
  have hcons := skipGaps_cons hc rest
  rw [skipGaps] at hcons ⊢
  rw [List.dropWhile_append_of_pos h, hcons]

theorem gap_newLine (layout : Layout) (depth : Nat) : Gap (layout.newLine depth) := by
  intro c hc
  cases layout with
  | indented =>
    rcases List.mem_cons.1 hc with rfl | hc
    · decide
    · rw [List.eq_of_mem_replicate hc]
      decide
  | spaced => cases hc
  | compact => cases hc

theorem comma_eq (layout : Layout) (depth : Nat) :
    ∃ gap, Gap gap ∧ layout.comma depth = .char ',' :: gap := by
  cases layout with
  | spaced => exact ⟨" ", by decide, rfl⟩
  | compact => exact ⟨[], by decide, rfl⟩
  | indented => exact ⟨_, gap_newLine .indented depth, rfl⟩

theorem colon_eq (layout : Layout) : ∃ gap, Gap gap ∧ layout.colon = .char ':' :: gap := by
  cases layout with
  | compact => exact ⟨[], by decide, rfl⟩
  | spaced => exact ⟨" ", by decide, rfl⟩
  | indented => exact ⟨" ", by decide, rfl⟩

/-! ## Values -/

/-- The characters that a written text, array or object starts with. -/
def openings : Text := ['"', '[', '{']

theorem openings_solid {c : CodePoint} (hc : c ∈ openings) :
    isGap c = false ∧ c ≠ .char ']' ∧ c ≠ .char '\uFEFF' := by
  revert c
  decide

/-- A written value is read as `back`, at any depth and whatever follows, where there is room for
so many more open brackets. The length of what is written is fuel enough. -/
structure ReadsBack (layout : Layout) (room : Nat) (value back : Json) : Prop where
  start : ∀ depth, ∃ c ∈ openings, ∃ tail, value.writeAt layout depth = c :: tail
  read : ∀ depth fuel rest, (value.writeAt layout depth).length ≤ fuel →
    readValue fuel room (value.writeAt layout depth ++ rest) = .ok (back, rest)

theorem readsBack_text (layout : Layout) (room : Nat) (t : Text) :
    ReadsBack layout room (.text t) (.text t.joinHalves) where
  start depth := ⟨.char '"', by decide, _, rfl⟩
  read depth fuel rest hfuel := by
    have hshape : (Json.text t).writeAt layout depth ++ rest =
        .char '"' :: (t.flatMap writeChar ++ .char '"' :: rest) := by
      simp [writeAt, writeText]
    have hpos : 0 < fuel := lt_of_lt_of_le (Nat.succ_pos _) hfuel
    obtain ⟨fuel, rfl⟩ := Nat.exists_eq_succ_of_ne_zero hpos.ne'
    rw [hshape, readValue, readText_writeText]
    rfl

/-! ## Parts with commas between them -/

section

variable {σ π : Type} (loop behind : Nat → σ → Text → Reading Json) (finish : σ → Json)
  (closing : CodePoint) (write : π → Text) (put : σ → π → σ)

/-- Written parts are read one after the other by a loop that takes one of them, and goes on behind
it at a comma. -/
theorem loop_written {layout : Layout} {depth : Nat}
    (hcomma : ∀ fuel done rest, behind fuel done (.char ',' :: rest) = loop fuel done (skipGaps rest))
    (hclose : ∀ fuel done gap rest, Gap gap →
      behind fuel done (gap ++ closing :: rest) = .ok (finish done, rest))
    {last : Text} (hlast : Gap last) (rest : Text) (p : π) (more : List π)
    (hstart : ∀ q ∈ p :: more, ∃ c tail, write q = c :: tail ∧ isGap c = false)
    (hpart : ∀ q ∈ p :: more, ∀ fuel done rest, (write q).length ≤ fuel →
      loop (fuel + 1) done (write q ++ rest) = behind fuel (put done q) rest)
    (fuel : Nat) (done : σ)
    (hfuel : (Text.joinWith (layout.comma depth) ((p :: more).map write)).length ≤ fuel) :
    loop (fuel + 1) done
        (Text.joinWith (layout.comma depth) ((p :: more).map write) ++ (last ++ closing :: rest)) =
      .ok (finish ((p :: more).foldl put done), rest) := by
  induction more generalizing p fuel done with
  | nil =>
    show loop (fuel + 1) done (write p ++ (last ++ closing :: rest)) = _
    rw [hpart p List.mem_cons_self fuel done _ hfuel, hclose _ _ _ _ hlast]
    rfl
  | cons q more ih =>
    obtain ⟨gap, hgap, hcommaEq⟩ := comma_eq layout depth
    have hjoin : Text.joinWith (layout.comma depth) ((p :: q :: more).map write) =
        write p ++ (.char ',' :: gap ++ Text.joinWith (layout.comma depth) ((q :: more).map write)) := by
      rw [← hcommaEq]
      simp only [List.map_cons, Text.joinWith, List.append_assoc]
    obtain ⟨c, tail, hc, hsolid⟩ := hstart q (by simp)
    have hnext : ∀ t, skipGaps (gap ++ (Text.joinWith (layout.comma depth) ((q :: more).map write) ++
        t)) = Text.joinWith (layout.comma depth) ((q :: more).map write) ++ t := by
      intro t
      cases more with
      | nil =>
        show skipGaps (gap ++ (write q ++ t)) = write q ++ t
        rw [hc]
        exact skipGaps_append hgap hsolid _
      | cons r more =>
        simp only [List.map_cons, Text.joinWith, hc, List.cons_append]
        exact skipGaps_append hgap hsolid _
    rw [hjoin] at hfuel ⊢
    simp only [List.length_append, List.length_cons] at hfuel
    obtain ⟨fuel, rfl⟩ := Nat.exists_eq_succ_of_ne_zero (show fuel ≠ 0 by omega)
    rw [List.append_assoc, hpart p List.mem_cons_self _ done _ (by omega), List.cons_append,
      List.cons_append, hcomma, List.append_assoc, hnext]
    exact ih q (fun r hr => hstart r (List.mem_cons_of_mem p hr))
      (fun r hr => hpart r (List.mem_cons_of_mem p hr)) fuel (put done p) (by omega)

end

/-- What is enclosed starts with its bracket, and then the parts follow behind a gap. -/
theorem enclose_cons (layout : Layout) (depth : Nat) (opening closing : CodePoint) {parts : List Text}
    (h : parts ≠ []) :
    layout.enclose depth opening closing parts =
      opening :: (layout.newLine (depth + 1) ++ (Text.joinWith (layout.comma (depth + 1)) parts ++
        (layout.newLine depth ++ [closing]))) := by
  rw [Layout.enclose]
  · simp
  · exact h

theorem joinWith_start (separator : Text) {p : Text} {c : CodePoint} {tail : Text} (hp : p = c :: tail)
    (more : List Text) : ∃ rest, Text.joinWith separator (p :: more) = c :: rest := by
  rw [hp]
  cases more <;> exact ⟨_, rfl⟩

/-! ## Arrays -/

theorem writeItems_eq (layout : Layout) (depth : Nat) (items : List Json) :
    writeItems layout depth items = items.map (writeAt layout depth) := by
  induction items with
  | nil => rfl
  | cons item more ih => rw [writeItems, ih, List.map_cons]

/-- How the reading of an array goes on behind an item. -/
def readBehindItem (room : Nat) (fuel : Nat) (done : List Json) (t : Text) : Reading Json :=
  match skipGaps t with
  | .char ']' :: rest => .ok (.array done.reverse, rest)
  | .char ',' :: rest => readItems fuel room done (skipGaps rest)
  | rest => .error ⟨.noComma, rest⟩

theorem foldl_cons_map {α β : Type} (f : α → β) (items : List α) (done : List β) :
    items.foldl (fun done item => f item :: done) done = (items.map f).reverse ++ done := by
  induction items generalizing done with
  | nil => rfl
  | cons item more ih => simp [ih]

theorem readItems_written {layout : Layout} {room : Nat} {back : Json → Json} {last : Text}
    (hlast : Gap last) (rest : Text) (depth : Nat) {item : Json} {more : List Json}
    (h : ∀ i ∈ item :: more, ReadsBack layout room i (back i)) (fuel : Nat)
    (hfuel : (Text.joinWith (layout.comma depth)
      ((item :: more).map (writeAt layout depth))).length ≤ fuel) :
    readItems (fuel + 1) room []
        (Text.joinWith (layout.comma depth) ((item :: more).map (writeAt layout depth)) ++
          (last ++ .char ']' :: rest)) =
      .ok (.array ((item :: more).map back), rest) := by
  have hloop := loop_written (fun fuel done => readItems fuel room done) (readBehindItem room)
    (fun done => .array done.reverse) ']' (writeAt layout depth) (fun done i => back i :: done)
    ?_ ?_ hlast rest item more ?_ ?_ fuel [] hfuel
  · rwa [foldl_cons_map, List.append_nil, List.reverse_reverse] at hloop
  · intro fuel done rest
    have hskip : skipGaps (.char ',' :: rest) = .char ',' :: rest := skipGaps_cons (by decide) rest
    simp only [readBehindItem, hskip]
  · intro fuel done gap rest hgap
    have hskip := skipGaps_append hgap (c := .char ']') (by decide) rest
    simp only [readBehindItem, hskip]
  · intro i hi
    obtain ⟨c, hc, tail, htail⟩ := (h i hi).start depth
    exact ⟨c, tail, htail, (openings_solid hc).1⟩
  · intro i hi fuel done rest hfuel
    simp only [readItems, (h i hi).read depth fuel rest hfuel]
    rfl

theorem readValue_items (fuel room : Nat) {t rest : Text} {c : CodePoint}
    (ht : skipGaps t = c :: rest) (hc : c ≠ .char ']') :
    readValue (fuel + 1) (room + 1) (.char '[' :: t) = readItems fuel room [] (c :: rest) := by
  unfold readValue
  simp only [ht]
  split
  · next hroom => cases hroom
  · next heq _ => exact absurd (List.cons.inj heq).1 hc
  · next hroom _ => rw [Nat.succ.inj hroom]

theorem readsBack_array {layout : Layout} {room : Nat} {back : Json → Json} {items : List Json}
    (h : ∀ item ∈ items, ReadsBack layout room item (back item)) :
    ReadsBack layout (room + 1) (.array items) (.array (items.map back)) where
  start depth := by
    refine ⟨.char '[', by decide, ?_⟩
    rw [writeAt]
    cases writeItems layout (depth + 1) items <;> exact ⟨_, rfl⟩
  read depth fuel rest hfuel := by
    rw [writeAt, writeItems_eq] at hfuel ⊢
    cases items with
    | nil =>
      obtain ⟨fuel, rfl⟩ : ∃ k, fuel = k + 1 := ⟨fuel - 1, by simp [Layout.enclose] at hfuel; omega⟩
      have hclose : skipGaps (.char ']' :: rest) = .char ']' :: rest := skipGaps_cons (by decide) _
      show readValue (fuel + 1) (room + 1) (.char '[' :: .char ']' :: rest) = _
      unfold readValue
      simp only [hclose]
      rfl
    | cons item more =>
      rw [enclose_cons layout depth _ _ (by simp)] at hfuel ⊢
      simp only [List.length_cons, List.length_append] at hfuel
      obtain ⟨fuel, rfl⟩ : ∃ k, fuel = k + 2 := ⟨fuel - 2, by omega⟩
      have hitems := readItems_written (gap_newLine layout depth) rest (depth + 1) h fuel
        (by omega)
      -- The parts start as their first one does, and so the array is not empty.
      obtain ⟨c, hc, tail, htail⟩ := (h item List.mem_cons_self).start (depth + 1)
      obtain ⟨hsolid, hbracket, -⟩ := openings_solid hc
      obtain ⟨text, htext⟩ := joinWith_start (layout.comma (depth + 1)) htail
        (more.map (writeAt layout (depth + 1)))
      rw [List.map_cons] at hitems ⊢
      rw [htext] at hitems ⊢
      have hskip := skipGaps_append (gap_newLine layout (depth + 1)) hsolid
        (text ++ (layout.newLine depth ++ .char ']' :: rest))
      simp only [List.cons_append, List.append_assoc, List.nil_append] at hitems ⊢
      rw [readValue_items _ _ hskip hbracket, hitems]

/-! ## Objects -/

def textMember (e : Text × Text) : Text × Json := (e.1, .text e.2)

/-- A name and its value as a member of an object. -/
def writeMember (layout : Layout) (depth : Nat) (m : Text × Json) : Text :=
  writeText m.1 ++ layout.colon ++ m.2.writeAt layout depth

theorem writeMembers_eq (layout : Layout) (depth : Nat) (members : List (Text × Json)) :
    writeMembers layout depth members = members.map (writeMember layout depth) := by
  induction members with
  | nil => rfl
  | cons m more ih =>
    rw [List.map_cons, ← ih]
    rfl

/-- How the reading of an object goes on behind a member. -/
def readBehindMember (room : Nat) (fuel : Nat) (done : List (Text × Json)) (t : Text) : Reading Json :=
  match skipGaps t with
  | .char '}' :: rest => .ok (.object done, rest)
  | .char ',' :: rest => readMembers fuel room done (skipGaps rest)
  | rest => .error ⟨.noComma, rest⟩

/-- One written member is read, and what follows it decides how the reading goes on. -/
theorem readMembers_member {layout : Layout} {depth room : Nat} {m : Text × Json} {back : Json}
    (h : ReadsBack layout room m.2 back) {fuel : Nat} (done : List (Text × Json)) (rest : Text)
    (hfuel : (writeMember layout depth m).length ≤ fuel) :
    readMembers (fuel + 1) room done (writeMember layout depth m ++ rest) =
      readBehindMember room fuel (Pairs.put m.1.joinHalves back done) rest := by
  obtain ⟨gap, hgap, hcolon⟩ := colon_eq layout
  obtain ⟨c, hc, tail, htail⟩ := h.start depth
  have hshape : writeMember layout depth m ++ rest = .char '"' :: (m.1.flatMap writeChar ++
      .char '"' :: (.char ':' :: (gap ++ (m.2.writeAt layout depth ++ rest)))) := by
    simp [writeMember, writeText, hcolon]
  have hmark := @skipGaps_cons ':' (by decide) (gap ++ (m.2.writeAt layout depth ++ rest))
  have hskip : skipGaps (gap ++ (m.2.writeAt layout depth ++ rest)) =
      m.2.writeAt layout depth ++ rest := by
    rw [htail]
    exact skipGaps_append hgap (openings_solid hc).1 _
  rw [writeMember, List.length_append] at hfuel
  rw [hshape, readMembers, readText_writeText]
  simp only [hmark, hskip, h.read depth fuel rest (by omega), List.reverse_nil, List.nil_append]
  rfl

/-- The members as they are read: the halves in their names joined, and each value as it is read. -/
def readMember (back : Json → Json) (m : Text × Json) : Text × Json := (m.1.joinHalves, back m.2)

theorem readMembers_written {layout : Layout} {room : Nat} {back : Json → Json} {last : Text}
    (hlast : Gap last) (rest : Text) (depth : Nat) {m : Text × Json} {more : List (Text × Json)}
    (h : ∀ d ∈ m :: more, ReadsBack layout room d.2 (back d.2)) (fuel : Nat)
    (hfuel : (Text.joinWith (layout.comma depth)
      ((m :: more).map (writeMember layout depth))).length ≤ fuel) :
    readMembers (fuel + 1) room []
        (Text.joinWith (layout.comma depth) ((m :: more).map (writeMember layout depth)) ++
          (last ++ .char '}' :: rest)) =
      .ok (.object (Pairs.ofList ((m :: more).map (readMember back))), rest) := by
  have hloop := loop_written (fun fuel done => readMembers fuel room done) (readBehindMember room)
    .object '}' (writeMember layout depth) (fun done d => Pairs.put d.1.joinHalves (back d.2) done)
    ?_ ?_ hlast rest m more ?_ ?_ fuel [] hfuel
  · rwa [Pairs.ofList, List.foldl_map]
  · intro fuel done rest
    have hskip : skipGaps (.char ',' :: rest) = .char ',' :: rest := skipGaps_cons (by decide) rest
    simp only [readBehindMember, hskip]
  · intro fuel done gap rest hgap
    have hskip := skipGaps_append hgap (c := .char '}') (by decide) rest
    simp only [readBehindMember, hskip]
  · exact fun d _ => ⟨.char '"', _, rfl, by decide⟩
  · exact fun d hd fuel done rest hfuel => readMembers_member (h d hd) done rest hfuel

theorem readsBack_object {layout : Layout} {room : Nat} {back : Json → Json}
    {members : List (Text × Json)} (h : ∀ m ∈ members, ReadsBack layout room m.2 (back m.2)) :
    ReadsBack layout (room + 1) (.object members)
      (.object (Pairs.ofList (members.map (readMember back)))) where
  start depth := by
    refine ⟨.char '{', by decide, ?_⟩
    rw [writeAt]
    cases writeMembers layout (depth + 1) members <;> exact ⟨_, rfl⟩
  read depth fuel rest hfuel := by
    rw [writeAt, writeMembers_eq] at hfuel ⊢
    cases members with
    | nil =>
      obtain ⟨fuel, rfl⟩ : ∃ k, fuel = k + 1 := ⟨fuel - 1, by simp [Layout.enclose] at hfuel; omega⟩
      have hclose : skipGaps (.char '}' :: rest) = .char '}' :: rest := skipGaps_cons (by decide) _
      show readValue (fuel + 1) (room + 1) (.char '{' :: .char '}' :: rest) = _
      unfold readValue
      simp only [hclose]
      rfl
    | cons m more =>
      rw [enclose_cons layout depth _ _ (by simp)] at hfuel ⊢
      simp only [List.length_cons, List.length_append] at hfuel
      obtain ⟨fuel, rfl⟩ : ∃ k, fuel = k + 2 := ⟨fuel - 2, by omega⟩
      have hmembers := readMembers_written (gap_newLine layout depth) rest (depth + 1) h fuel
        (by omega)
      obtain ⟨text, htext⟩ := joinWith_start (c := .char '"') (layout.comma (depth + 1))
        (p := writeMember layout (depth + 1) m) rfl (more.map (writeMember layout (depth + 1)))
      rw [List.map_cons] at hmembers ⊢
      rw [htext] at hmembers ⊢
      have hskip := skipGaps_append (gap_newLine layout (depth + 1)) (c := .char '"') (by decide)
        (text ++ (layout.newLine depth ++ .char '}' :: rest))
      simp only [List.cons_append, List.append_assoc, List.nil_append] at hmembers ⊢
      unfold readValue
      simp only [hskip]
      exact hmembers

/-! ## Whole texts -/

/-- Within two brackets there is room for what stands in them. -/
theorem exists_greatestDepth [Limit] : ∃ room, Limit.greatestDepth = room + 2 :=
  ⟨Limit.greatestDepth - 2, (Nat.sub_add_cancel Limit.two_le).symm⟩

/-- A value that is read back is read as a whole text too, with any gap behind it. -/
theorem read_value [Limit] {layout : Layout} {value back : Json}
    (h : ReadsBack layout Limit.greatestDepth value back) {gap : Text} (hgap : Gap gap) :
    read (value.write layout ++ gap) = .ok back := by
  obtain ⟨c, hc, tail, htail⟩ := h.start 0
  obtain ⟨hsolid, -, hmark⟩ := openings_solid hc
  have hvalue := h.read 0 (2 * (value.writeAt layout 0 ++ gap).length + 2) gap
    (by rw [List.length_append]; omega)
  have hstart : skipGaps (value.writeAt layout 0 ++ gap) = value.writeAt layout 0 ++ gap := by
    rw [htail]
    exact skipGaps_cons hsolid _
  have hend : skipGaps gap = [] := List.dropWhile_eq_nil_iff.2 hgap
  unfold read write
  rw [if_neg (by simpa [htail] using hmark), hstart, hvalue]
  simp only [hend]

/-- A text as it is read: with its halves joined. -/
def joinText : Json → Json
  | .text t => .text t.joinHalves
  | value => value

/-- An entry as it is read. -/
def joinEntry (e : Text × Text) : Text × Text := (e.1.joinHalves, e.2.joinHalves)

theorem map_joinEntry {entries : List (Text × Text)}
    (hjoined : ∀ e ∈ entries, e.1.Joined ∧ e.2.Joined) : entries.map joinEntry = entries := by
  rw [List.map_congr_left (g := id), List.map_id]
  intro e he
  rw [joinEntry, (hjoined e he).1.joinHalves_eq, (hjoined e he).2.joinHalves_eq]
  rfl

section

variable [Limit]

/-- An object of any texts is read with their halves joined, in every layout and with any gap behind
it; a name that comes twice then has its last value in its first place. -/
theorem read_ofTexts (layout : Layout) (entries : List (Text × Text)) {gap : Text} (hgap : Gap gap) :
    read ((ofTexts entries).write layout ++ gap) = .ok (ofTexts (Pairs.ofList (entries.map joinEntry))) := by
  have hback : ReadsBack layout Limit.greatestDepth (ofTexts entries)
      (.object (Pairs.ofList ((entries.map textMember).map (readMember joinText)))) := by
    obtain ⟨room, hroom⟩ := exists_greatestDepth
    rw [hroom]
    apply readsBack_object
    intro m hm
    obtain ⟨e, -, rfl⟩ := List.mem_map.1 hm
    exact readsBack_text layout (room + 1) e.2
  rw [read_value hback hgap, List.map_map, ofTexts, ← Pairs.ofList_map, List.map_map]
  rfl

/-- A written object of texts is read back, in every layout and with any gap behind it, if no name
stands in it twice. -/
theorem read_written (layout : Layout) {entries : List (Text × Text)}
    (hjoined : ∀ e ∈ entries, e.1.Joined ∧ e.2.Joined) (hdistinct : (entries.map Prod.fst).Nodup)
    {gap : Text} (hgap : Gap gap) :
    read ((ofTexts entries).write layout ++ gap) = .ok (ofTexts entries) := by
  rw [read_ofTexts layout entries hgap, map_joinEntry hjoined, Pairs.ofList_of_nodup hdistinct]

theorem read_write_joined (layout : Layout) {entries : List (Text × Text)}
    (hjoined : ∀ e ∈ entries, e.1.Joined ∧ e.2.Joined) (hdistinct : (entries.map Prod.fst).Nodup) :
    read ((ofTexts entries).write layout) = .ok (ofTexts entries) := by
  have hgap : Gap [] := by simp [Gap]
  have hread := read_written layout hjoined hdistinct hgap
  rwa [List.append_nil] at hread

/-- An object of texts of characters alone is read back as it is written. -/
theorem read_write_ofTexts (layout : Layout) {entries : List (Text × Text)}
    (hscalar : ∀ e ∈ entries, e.1.Scalar ∧ e.2.Scalar) (hdistinct : (entries.map Prod.fst).Nodup) :
    read ((ofTexts entries).write layout) = .ok (ofTexts entries) :=
  read_write_joined layout (fun e he => ⟨(hscalar e he).1.joined, (hscalar e he).2.joined⟩) hdistinct

end

/-! ## What is written -/

/-- A line feed or a visible character of ASCII. -/
def Shown (c : CodePoint) : Prop := c = .char '\n' ∨ (0x20 ≤ c.toNat ∧ c.toNat < 0x7F)

theorem Shown.not_isHalf {c : CodePoint} (h : Shown c) : c.isHalf = false := by
  rcases h with rfl | ⟨-, hlt⟩
  · rfl
  · exact CodePoint.not_isHalf_of_lt (Nat.lt_trans hlt (by decide))

theorem shown_newLine (layout : Layout) (depth : Nat) : ∀ c ∈ layout.newLine depth, Shown c := by
  intro c hc
  cases layout with
  | indented =>
    rcases List.mem_cons.1 hc with rfl | hc
    · exact Or.inl rfl
    · rw [List.eq_of_mem_replicate hc]
      exact Or.inr (by decide)
  | spaced => cases hc
  | compact => cases hc

theorem shown_comma (layout : Layout) (depth : Nat) : ∀ c ∈ layout.comma depth, Shown c := by
  have hmarks : ∀ c ∈ Text.of ", ", 0x20 ≤ c.toNat ∧ c.toNat < 0x7F := by decide
  intro c hc
  cases layout with
  | spaced => exact Or.inr (hmarks c hc)
  | compact => exact Or.inr (hmarks c (List.mem_cons.2 (Or.inl (List.mem_singleton.1 hc))))
  | indented =>
    rcases List.mem_cons.1 hc with rfl | hc
    · exact Or.inr (by decide)
    · exact shown_newLine .indented depth c hc

theorem shown_writeMember (layout : Layout) (depth : Nat) (e : Text × Text) :
    ∀ c ∈ writeMember layout depth (textMember e), Shown c := by
  have hmarks : ∀ c ∈ Text.of ": ", 0x20 ≤ c.toNat ∧ c.toNat < 0x7F := by decide
  have hcolon : ∀ c ∈ layout.colon, c ∈ Text.of ": " := by
    cases layout <;> decide
  intro c hc
  rcases List.mem_append.1 hc with hc | hc
  · rcases List.mem_append.1 hc with hc | hc
    · exact Or.inr (writeText_visible e.1 c hc)
    · exact Or.inr (hmarks c (hcolon c hc))
  · exact Or.inr (writeText_visible e.2 c hc)

/-- A written object of texts is all line feeds and visible characters of ASCII. -/
theorem shown_write_ofTexts (layout : Layout) (entries : List (Text × Text)) :
    ∀ c ∈ (ofTexts entries).write layout, Shown c := by
  have hwrite : (ofTexts entries).write layout = layout.enclose 0 '{' '}'
      ((entries.map textMember).map (writeMember layout 1)) := by
    rw [← writeMembers_eq]
    rfl
  have hbraces : Shown (.char '{') ∧ Shown (.char '}') := ⟨Or.inr (by decide), Or.inr (by decide)⟩
  rw [hwrite]
  intro c hc
  cases entries with
  | nil =>
    rcases List.mem_cons.1 hc with rfl | hc
    · exact hbraces.1
    · rw [List.mem_singleton.1 hc]
      exact hbraces.2
  | cons e more =>
    rw [enclose_cons layout 0 _ _ (by simp), List.mem_cons, List.mem_append, List.mem_append,
      List.mem_append, List.mem_singleton] at hc
    rcases hc with rfl | hc | hc | hc | rfl
    · exact hbraces.1
    · exact shown_newLine layout 1 c hc
    · rcases Text.mem_joinWith hc with hc | ⟨part, hpart, hc⟩
      · exact shown_comma layout 1 c hc
      · obtain ⟨m, hm, rfl⟩ := List.mem_map.1 hpart
        obtain ⟨d, -, rfl⟩ := List.mem_map.1 hm
        exact shown_writeMember layout 1 d c hc
    · exact shown_newLine layout 0 c hc
    · exact hbraces.2

end Json

end UtilityCss
