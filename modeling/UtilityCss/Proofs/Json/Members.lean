import UtilityCss.Proofs.Json.Halves
/-
  The members of an object, as they are written and as they are read.

  A name may be written more than once between the braces. The reader puts one
  member after the other into what it has read before, so the object that it
  gives has each name once. What is written is said by a relation that knows
  nothing of that (`Lists`): members in order, each a name, a colon and a
  value, with commas between them.

  What is proved:
    1. `lists_of_readMembers` : a list of members that is read is written, and
       each of them is put into those before.
    2. `written_of_read` : an object that is read is written, and a repeated
       name has its last value in its first place.
-/

namespace UtilityCss.Json

/-- A text starts with a value, and this is left behind it. -/
def Starts (t : Text) (value : Json) (rest : Text) : Prop :=
  ∃ fuel room, readValue fuel room t = .ok (value, rest)

/-- A text starts with a member, and this is left behind it. -/
def StartsMember (t : Text) (member : Text × Json) (rest : Text) : Prop :=
  ∃ inner afterName afterColon, t = .char '"' :: inner ∧
    readText t 0 [] inner = .ok (member.1, afterName) ∧
    skipGaps afterName = .char ':' :: afterColon ∧ Starts (skipGaps afterColon) member.2 rest

/-- A text starts with members, at least one, up to the brace that closes the object. Repeated names
are among them as they are written. -/
inductive Lists : Text → List (Text × Json) → Text → Prop where
  | last {t after rest : Text} {member : Text × Json} (hmember : StartsMember t member after)
      (hclose : skipGaps after = .char '}' :: rest) : Lists t [member] rest
  | more {t after behind rest : Text} {member : Text × Json} {members : List (Text × Json)}
      (hmember : StartsMember t member after) (hcomma : skipGaps after = .char ',' :: behind)
      (hmore : Lists (skipGaps behind) members rest) : Lists t (member :: members) rest

/-- A text is an object with these members written in it, between gaps. -/
def Writes (t : Text) (members : List (Text × Json)) : Prop :=
  ∃ body rest, skipGaps t = .char '{' :: body ∧ skipGaps rest = [] ∧
    ((members = [] ∧ skipGaps body = .char '}' :: rest) ∨ Lists (skipGaps body) members rest)

/-! ## Reading members -/

/-- Members put one after the other into those before. -/
def putMembers (done members : List (Text × Json)) : List (Text × Json) :=
  members.foldl (fun done m => Pairs.put m.1 m.2 done) done

theorem lists_of_readMembers {fuel room : Nat} {done : List (Text × Json)} {t rest : Text}
    {value : Json} (h : readMembers fuel room done t = .ok (value, rest)) :
    ∃ members, Lists t members rest ∧ value = .object (putMembers done members) := by
  induction fuel generalizing done t with
  | zero => simp [readMembers] at h
  | succ fuel ih =>
    unfold readMembers at h
    split at h
    · next inner =>
      split at h
      · cases h
      · next name afterName hname =>
        split at h
        · next afterColon hcolon =>
          split at h
          · cases h
          · next item afterItem hitem =>
            have hmember : StartsMember (.char '"' :: inner) (name, item) afterItem :=
              ⟨inner, afterName, afterColon, rfl, hname, hcolon, fuel, room, hitem⟩
            split at h
            · next behind hclose =>
              obtain ⟨rfl, rfl⟩ := Prod.mk.inj (Except.ok.inj h)
              exact ⟨[(name, item)], .last hmember hclose, rfl⟩
            · next behind hcomma =>
              obtain ⟨members, hlists, rfl⟩ := ih h
              exact ⟨(name, item) :: members, .more hmember hcomma hlists, rfl⟩
            · cases h
        · cases h
    · cases h

/-! ## Reading an object -/

/-- What is read as an array is no object. -/
theorem members?_of_readItems {fuel room : Nat} {done : List Json} {t rest : Text} {value : Json}
    (h : readItems fuel room done t = .ok (value, rest)) : value.members? = none := by
  induction fuel generalizing done t with
  | zero => simp [readItems] at h
  | succ fuel ih =>
    unfold readItems at h
    split at h
    · cases h
    · split at h
      · obtain ⟨rfl, rfl⟩ := Prod.mk.inj (Except.ok.inj h)
        rfl
      · exact ih h
      · cases h

/-- An object starts with a brace, and its members are put together from those that are written. -/
theorem written_of_readValue {fuel room : Nat} {t rest : Text} {members : List (Text × Json)}
    (h : readValue fuel room t = .ok (.object members, rest)) :
    ∃ body written, t = .char '{' :: body ∧ members = Pairs.ofList written ∧
      ((written = [] ∧ skipGaps body = .char '}' :: rest) ∨ Lists (skipGaps body) written rest) := by
  cases fuel with
  | zero => simp [readValue] at h
  | succ fuel =>
    unfold readValue at h
    split at h
    · split at h
      · cases h
      · cases h
    · split at h
      · cases h
      · cases h
      · cases members?_of_readItems h
    · next body =>
      split at h
      · cases h
      · next hclose =>
        obtain ⟨hmembers, rfl⟩ := Prod.mk.inj (Except.ok.inj h)
        rw [← Json.object.inj hmembers]
        exact ⟨body, [], rfl, rfl, Or.inl ⟨rfl, hclose⟩⟩
      · obtain ⟨written, hlists, hmembers⟩ := lists_of_readMembers h
        exact ⟨body, written, rfl, Json.object.inj hmembers, Or.inr hlists⟩
    · cases (readScalar_suffix h).2.2

/-- An object that is read is written in the text, and of a repeated name it has the last value in
the first place. -/
theorem written_of_read [Limit] {t : Text} {members : List (Text × Json)} (h : read t = .ok (.object members)) :
    ∃ written, Writes t written ∧ members = Pairs.ofList written := by
  unfold read at h
  split at h
  · cases h
  · split at h
    · cases h
    · next value rest hvalue =>
      split at h
      · next hend =>
        obtain rfl := Except.ok.inj h
        obtain ⟨body, written, hopen, hmembers, hwritten⟩ := written_of_readValue hvalue
        exact ⟨written, ⟨body, rest, hopen, hend, hwritten⟩, hmembers⟩
      · cases h

/-- An object that is read has each name once. -/
theorem distinct_of_read [Limit] {t : Text} {members : List (Text × Json)} (h : read t = .ok (.object members)) :
    (members.map Prod.fst).Nodup := by
  obtain ⟨written, -, rfl⟩ := written_of_read h
  rw [Pairs.ofList_eq_entries]
  exact (OrderedMap.ofPairs written).distinct

end UtilityCss.Json
