import UtilityCss.Proofs.Api.Refinement
/-
  A variable that is added is deleted by its name in a path, if a path can hold
  the name.

  A request that adds may bring any name that is not blank. A request that
  deletes has the name in its path, with every octet of it percent-encoded;
  read back, the path holds the name as it was added. The router then takes
  what follows `/api/vars/` as a name, slashes and all, but not if it starts
  with one, nor if a line feed is in it. Such a name can be added and listed,
  but the path that holds it leads to another name with its slashes merged, or
  nowhere.

  What is proved:
    1. `decode_path` : a path with a percent-encoded name is read as the path
       with the name.
    2. `ofPath?_variable`, `mergeSlashes_variables` : where such a path leads,
       and where it would with its slashes merged.
    3. `deletes_deletion`, `route_unaddressable` : the route of a request that
       deletes.
    4. `created_of_status` : what a request that is answered 201 leaves behind,
       in every state.
    5. `deleted_of_deletes`, `missed_of_route` : what a request that deletes
       does there.
    6. `added_then_deleted` : adding and then deleting, in every state.
-/

namespace UtilityCss.Api

/-! ## Names in a path -/

/-- A text is octets with each of them as a percent sign and two digits, small letters or capitals. -/
inductive Percent.Encodes : List Nat → Text → Prop where
  | nil : Encodes [] []
  | cons {a b : CodePoint} {high low : Nat} {octets : List Nat} {t : Text}
      (hhigh : Text.hexValue? a = some high) (hlow : Text.hexValue? b = some low)
      (hrest : Encodes octets t) : Encodes ((high * 16 + low) :: octets) (.char '%' :: a :: b :: t)

namespace Percent

theorem octetsFrom_of_encodes {octets : List Nat} {t : Text} (h : Encodes octets t) :
    octetsFrom 0 t = octets := by
  induction h with
  | nil => rfl
  | cons hhigh hlow _ ih => simp [octetsFrom, hhigh, hlow, ih]

theorem octetsFrom_cons {c : CodePoint} (h : c ≠ .char '%') (rest : Text) :
    octetsFrom 0 (c :: rest) = Utf8.encodeChar c ++ octetsFrom 0 rest := by
  rw [octetsFrom]
  exact fun _ _ _ hc => absurd hc h

/-- What stands before a percent-encoded text is read as it is. -/
theorem decode_append {start name written : Text} (hstart : ∀ c ∈ start, c ≠ .char '%')
    (hscalar : ∀ c ∈ start ++ name, c.isHalf = false) (h : Encodes (Utf8.encode name) written) :
    decode (start ++ written) = start ++ name := by
  have hoctets : octetsFrom 0 (start ++ written) = Utf8.encode (start ++ name) := by
    clear hscalar
    induction start with
    | nil => exact octetsFrom_of_encodes h
    | cons c rest ih =>
      rw [List.forall_mem_cons] at hstart
      rw [List.cons_append, octetsFrom_cons hstart.1, ih hstart.2]
      rfl
  rw [decode, hoctets, Utf8.decodeLenient_encode hscalar]

/-- The octets of a text can be written so. -/
theorem encodes_encodeAll (t : Text) : Encodes (Utf8.encode t) (encodeAll t) := by
  have hall : ∀ octets : List Nat, (∀ b ∈ octets, b < 256) →
      Encodes octets (octets.flatMap encodeOctet) := by
    intro octets hbounds
    induction octets with
    | nil => exact .nil
    | cons b rest ih =>
      rw [List.forall_mem_cons] at hbounds
      have hvalue : b / 16 % 16 * 16 + b % 16 = b := by omega
      have hcons := Encodes.cons (Text.hexValue?_hexDigit (Nat.mod_lt (b / 16) (by decide)))
        (Text.hexValue?_hexDigit (Nat.mod_lt b (by decide))) (ih hbounds.2)
      rw [hvalue] at hcons
      exact hcons
  exact hall _ (Utf8.encode_lt t)

/-- Percent signs and digits are neither left out of a target nor end its path. -/
theorem plain_of_encodes {octets : List Nat} {t : Text} (h : Encodes octets t) :
    ∀ c ∈ t, Target.isLeftOut c = false ∧ Target.endsPath c = false := by
  have hdigit : ∀ {c : CodePoint} {n : Nat}, Text.hexValue? c = some n →
      Target.isLeftOut c = false ∧ Target.endsPath c = false := by
    intro c n hc
    have hne : ∀ d : CodePoint, Text.hexValue? d = none → c ≠ d := by
      rintro d hd rfl
      rw [hd] at hc
      cases hc
    simp [Target.isLeftOut, Target.endsPath, hne _ (by decide : Text.hexValue? '\t' = none),
      hne _ (by decide : Text.hexValue? '\r' = none), hne _ (by decide : Text.hexValue? '\n' = none),
      hne _ (by decide : Text.hexValue? '?' = none), hne _ (by decide : Text.hexValue? '#' = none)]
  induction h with
  | nil => exact fun _ hc => nomatch hc
  | cons hhigh hlow _ ih =>
    rw [List.forall_mem_cons, List.forall_mem_cons, List.forall_mem_cons]
    exact ⟨by decide, hdigit hhigh, hdigit hlow, ih⟩

end Percent

/-- The request to delete the variable whose name follows `/api/vars/` in the path as it is written. -/
def Request.deletion (written : Text) : Request :=
  ⟨"DELETE", ⟨[], [], "/api/vars/" ++ written⟩, none, []⟩

section

variable {name written : Text}

theorem Request.of_deletion (h : Percent.Encodes (Utf8.encode name) written) :
    Request.of "DELETE" ("/api/vars/" ++ written) none [] = .ok (Request.deletion written) := by
  have hfront : ∀ c ∈ Text.of "/api/vars/", Target.isLeftOut c = false ∧ Target.endsPath c = false := by
    decide
  have hplain : ∀ c ∈ Text.of "/api/vars/" ++ written,
      Target.isLeftOut c = false ∧ Target.endsPath c = false := by
    intro c hc
    rcases List.mem_append.1 hc with hc | hc
    · exact hfront c hc
    · exact Percent.plain_of_encodes h c hc
  rw [Request.of, Target.ofText_of_path rfl rfl hplain]
  rfl

/-- A path with a percent-encoded name is read as the path with the name. -/
theorem decode_path (hscalar : name.Scalar) (h : Percent.Encodes (Utf8.encode name) written) :
    Percent.decode ("/api/vars/" ++ written) = Text.of "/api/vars/" ++ name := by
  have hfront : ∀ c ∈ Text.of "/api/vars/", c.isHalf = false := by decide
  apply Percent.decode_append (by decide) _ h
  intro c hc
  rcases List.mem_append.1 hc with hc | hc
  · exact hfront c hc
  · exact hscalar c hc

theorem place_deletion (hscalar : name.Scalar) (h : Percent.Encodes (Utf8.encode name) written) :
    (Request.deletion written).target.place = Text.of "/api/vars/" ++ name := by
  show Text.of "/" ++ (Percent.decode ("/api/vars/" ++ written)).dropWhile (· = .char '/') = _
  rw [decode_path hscalar h]
  rfl

end

/-! ## Where such a path leads -/

theorem ofPath?_variable (name : Text) :
    Endpoint.ofPath? (Text.of "/api/vars/" ++ name) =
      if isOpenEnd name then some (.variable name) else none := by
  have hstrip : Text.stripPrefix? (Text.of "/api/vars/") (Text.of "/api/vars/" ++ name) = some name :=
    Text.stripPrefix?_eq_some_iff.2 rfl
  have hne : ∀ path, Text.stripPrefix? (Text.of "/api/vars/") path = none →
      Text.of "/api/vars/" ++ name ≠ path := by
    rintro path hnone rfl
    rw [hstrip] at hnone
    cases hnone
  rw [Endpoint.ofPath?, if_neg (hne _ (by decide)), if_neg (hne _ (by decide)), hstrip]

/-- Slashes at the start are merged into one. -/
theorem mergeSlashes_slash (t : Text) :
    ∃ rest, mergeSlashes (.char '/' :: t) = .char '/' :: rest := by
  induction t with
  | nil => exact ⟨[], rfl⟩
  | cons c rest ih =>
    rw [mergeSlashes]
    split
    · next h =>
      obtain rfl : c = .char '/' := Option.some.inj h.2
      exact ih
    · exact ⟨_, rfl⟩

/-- With its slashes merged such a path has a name at its end again. -/
theorem mergeSlashes_variables (name : Text) :
    ∃ other, mergeSlashes (Text.of "/api/vars/" ++ name) = Text.of "/api/vars/" ++ other := by
  obtain ⟨other, hother⟩ := mergeSlashes_slash name
  have hfront : mergeSlashes (Text.of "/api/vars/" ++ name) =
      Text.of "/api/vars" ++ mergeSlashes (.char '/' :: name) := rfl
  exact ⟨other, by rw [hfront, hother]; rfl⟩

section

variable {name written : Text}

theorem route_deletion_eq (hscalar : name.Scalar) (h : Percent.Encodes (Utf8.encode name) written) :
    (Request.deletion written).route = Route.of .delete (Text.of "/api/vars/" ++ name) := by
  have hmethod : (Request.deletion written).method = .delete := by
    show Method.ofName (Text.of "DELETE") = .delete
    decide
  rw [Request.route, place_deletion hscalar h, hmethod]
  rfl

/-- A name that can end a path is found. -/
theorem deletes_deletion (hscalar : name.Scalar) (h : Percent.Encodes (Utf8.encode name) written)
    (hopen : isOpenEnd name = true) : (Request.deletion written).Deletes name := by
  refine ⟨?_, by show Method.ofName (Text.of "DELETE") = .delete; decide⟩
  rw [route_deletion_eq hscalar h, Route.of]
  simp only [ofPath?_variable, hopen, if_true]
  rfl

/-- A name that cannot end a path is not found. -/
theorem route_unaddressable (hscalar : name.Scalar) (h : Percent.Encodes (Utf8.encode name) written)
    (hclosed : isOpenEnd name = false) : (Request.deletion written).route = .redirected ∨
      (Request.deletion written).route = .notFound := by
  obtain ⟨other, hother⟩ := mergeSlashes_variables name
  rw [route_deletion_eq hscalar h, Route.of]
  simp only [ofPath?_variable, hclosed, hother]
  cases isOpenEnd other
  · exact Or.inr rfl
  · exact Or.inl rfl

end

/-- A path can hold the name at its end. -/
def Addressable (name : Text) : Prop := name.head? ≠ some (.char '/') ∧ .char '\n' ∉ name

instance (name : Text) : Decidable (Addressable name) := inferInstanceAs (Decidable (_ ∧ _))

/-- What is left of a name once it is trimmed begins with no line feed. -/
theorem isOpenEnd_trim_iff {name value : Text} (h : ¬ Ledger.Blank name value) :
    isOpenEnd (Text.trim name) = true ↔ Addressable (Text.trim name) := by
  have hhead := Text.head?_trim name
  cases htrim : Text.trim name with
  | nil => exact absurd (Or.inl htrim) h
  | cons c rest =>
    have hsolid : c ≠ .char '\n' := by
      rintro rfl
      rw [htrim] at hhead
      exact absurd (hhead _ rfl) (by decide)
    simp [isOpenEnd, Addressable, Ne.symm hsolid]

/-! ## Adding in every state -/

section

variable [Json.Limit] {s : Session} {r : Request} {name value : Text}

/-- What a request that adds leaves behind: the entry is in memory, and saving does not fail. -/
structure Created (s : Session) (name value : Text) (reply : Reply) : Prop where
  response : reply.response =
    .ofJson 201 (Json.ofTexts [("name", Text.trim name), ("value", Text.trim value)])
  ledger : reply.session.ledger = s.ledger.upsert (Text.trim name) (Text.trim value)
  saves : ¬ reply.session.SavingFails

theorem add_of_saving_fails (h : r.Brings name value) (hfails : s.SavingFails) :
    (add s r).response = .failed := by
  obtain ⟨⟨given, hgiven, hvariable⟩, hblank⟩ := brings_iff.1 h
  have hset : (s.set name value).result = .error (.database .notConnected) := by
    rw [Session.set_of_not_blank hblank]
    exact (Session.saved_save s _).result.trans (if_pos hfails)
  simp only [add, hgiven, hvariable, hset]

/-- A request that is answered 201 has brought a variable, and it is in memory then, whatever the
database has done. -/
theorem created_of_status (hposts : r.Posts) (hstatus : (respond s r).response.status = 201) :
    ∃ name value, r.Brings name value ∧ Created s name value (respond s r) := by
  obtain ⟨name, value, hb⟩ : ∃ name value, r.Brings name value := by
    by_contra hnot
    exact not_created_of_not_brings hposts hnot hstatus
  have hsaves : ¬ s.SavingFails := by
    intro hfails
    rw [respond_of_posts s hposts, add_of_saving_fails hb hfails] at hstatus
    cases hstatus
  have hledger : (s.set name value).session.ledger = s.ledger.enter name value :=
    (Session.follows_set s name value).ledger
  rw [respond_of_brings hsaves hposts hb]
  exact ⟨name, value, hb, rfl, hledger.trans (if_neg hb.2), (Session.set_succeeds hsaves hb.2).2⟩

end

/-! ## Deleting in every state -/

/-- Deleting a name takes its one entry out. -/
theorem exists_delete_eq {s : Session} {name value : Text} (h : (name, value) ∈ s.ledger) : ∃ front back,
    s.ledger = front ++ (name, value) :: back ∧ s.ledger.delete name = front ++ back := by
  obtain ⟨front, back, hledger⟩ := List.append_of_mem h
  refine ⟨front, back, hledger, ?_⟩
  have hdistinct : (((name, value) :: (front ++ back)).map Prod.fst).Nodup := by
    rw [← (List.perm_middle.map Prod.fst).nodup_iff, ← hledger]
    exact s.dictionary.entries.distinct
  rw [List.map_cons, List.nodup_cons] at hdistinct
  have hothers : ∀ e ∈ front ++ back, e.1 ≠ name :=
    fun e he hname => hdistinct.1 (List.mem_map.2 ⟨e, he, hname⟩)
  rw [hledger, Ledger.delete, List.filter_append, List.filter_cons_of_neg (by simp),
    ← List.filter_append]
  exact List.filter_eq_self.2 fun e he => decide_eq_true (hothers e he)

section

variable [Json.Limit]

/-- A response lists a ledger: its body is the written object of all entries, and is read as it where
no halves in them would be joined. -/
def Response.Shows (response : Response) (l : Ledger) : Prop :=
  ∃ pairs, pairs.Perm l ∧ response = .ofJson 200 (Json.ofTexts pairs) ∧
    (l.Joined → response.Tells pairs)

/-- An entry is deleted, and what is listed then are the others. -/
structure Deleted (s : Session) (name value : Text) (reply : Reply) : Prop where
  response : reply.response = .done
  ledger : ∃ front back, s.ledger = front ++ (name, value) :: back ∧
    reply.session.ledger = front ++ back
  listed : ∀ r : Request, r.Lists → (respond reply.session r).response.Shows reply.session.ledger

/-- A request is led elsewhere or nowhere, and changes nothing. -/
structure Missed (s : Session) (reply : Reply) : Prop where
  status : reply.response.status = 308 ∨ reply.response.status = 404
  session : reply.session = s

variable {s : Session} {r : Request} {name value : Text}

theorem shows_of_lists (s : Session) (h : r.Lists) : (respond s r).response.Shows s.ledger := by
  rw [respond_of_lists s h]
  exact ⟨_, OrderedMap.sorted_perm s.dictionary.entries, rfl, tells_sorted⟩

theorem deleted_of_deletes (hsaves : ¬ s.SavingFails) (hmem : (name, value) ∈ s.ledger)
    (h : r.Deletes name) : Deleted s name value (respond s r) := by
  have hledger : (s.remove name).session.ledger = s.ledger.delete name :=
    (Session.follows_remove s name).ledger
  obtain ⟨front, back, hbefore, hafter⟩ := exists_delete_eq hmem
  rw [respond_of_mem hsaves h (List.mem_map_of_mem hmem)]
  exact ⟨rfl, ⟨front, back, hbefore, hledger.trans hafter⟩, fun _ hlists => shows_of_lists _ hlists⟩

theorem missed_of_route (h : r.route = .redirected ∨ r.route = .notFound) :
    Missed s (respond s r) := by
  constructor
  · rcases h with h | h
    · left
      simp only [respond, h]
      split <;> rfl
    · right
      simp only [respond, h]
      split <;> rfl
  · apply respond_session_of_not_found
    intro endpoint hfound
    rw [hfound] at h
    rcases h with h | h <;> cases h

/-! ## Adding and deleting -/

/-- Whenever a request is answered that a variable is added, the answer's name, percent-encoded in
the path of a request that deletes, deletes exactly that variable, if the name does not start with a
slash and has no line feed in it. The path of another name is led elsewhere or nowhere, and its
variable stays. -/
theorem added_then_deleted (s : Session) (post : Request) (hposts : post.Posts)
    (hcreated : (respond s post).response.status = 201) :
    ∃ name value, post.Brings name value ∧ Created s name value (respond s post) ∧
      ∀ written, (Text.trim name).Scalar → Percent.Encodes (Utf8.encode (Text.trim name)) written →
        Request.of "DELETE" ("/api/vars/" ++ written) none [] = .ok (.deletion written) ∧
        (Addressable (Text.trim name) → Deleted (respond s post).session (Text.trim name)
          (Text.trim value) (respond (respond s post).session (.deletion written))) ∧
        (¬ Addressable (Text.trim name) → Missed (respond s post).session
          (respond (respond s post).session (.deletion written))) := by
  obtain ⟨name, value, hbrings, hadded⟩ := created_of_status hposts hcreated
  refine ⟨name, value, hbrings, hadded, fun written hscalar hwritten =>
    ⟨Request.of_deletion hwritten, fun haddressable => ?_, fun hclosed => ?_⟩⟩
  · have hmem : (Text.trim name, Text.trim value) ∈ (respond s post).session.ledger := by
      rw [hadded.ledger]
      exact Ledger.mem_upsert_self s.ledger _ _
    exact deleted_of_deletes hadded.saves hmem
      (deletes_deletion hscalar hwritten ((isOpenEnd_trim_iff hbrings.2).2 haddressable))
  · have hend : isOpenEnd (Text.trim name) = false :=
      Bool.eq_false_iff.2 (mt (isOpenEnd_trim_iff hbrings.2).1 hclosed)
    exact missed_of_route (route_unaddressable hscalar hwritten hend)

end

attribute [local instance] Json.Limit.least

/-- A name with slashes, a percent sign and a character of four octets is trimmed, added and
deleted. -/
theorem name_with_slashes_deleted :
    let post : Request := ⟨"POST", ⟨[], [], "/api/vars"⟩, some "application/json",
      Utf8.encode "\x7b\"name\": \" a//b%\\ud83d\\ude00\", \"value\": \"p-2\"\x7d"⟩
    let name : Text := "a//b%😀"
    let delete := Request.deletion (Percent.encodeAll name)
    let added := (respond fresh post).session
    post.Posts ∧ (respond fresh post).response.status = 201 ∧
    added.ledger = [(name, Text.of "p-2")] ∧ Addressable name ∧
    Request.of "DELETE" ("/api/vars/" ++ Percent.encodeAll name) none [] = .ok delete ∧
    (respond added delete).response = .done ∧ (respond added delete).session.ledger = [] := by
  intro post name delete added
  have hposts : post.Posts := by decide +kernel
  have hcreated : (respond fresh post).response.status = 201 := by decide +kernel
  have hledger : added.ledger = [(name, Text.of "p-2")] := by decide +kernel
  have haddressable : Addressable name := by decide +kernel
  obtain ⟨given, value, -, hadded, hdelete⟩ := added_then_deleted fresh post hposts hcreated
  have hentry : [(Text.trim given, Text.trim value)] = [(name, Text.of "p-2")] :=
    hadded.ledger.symm.trans hledger
  obtain ⟨hname, -⟩ := Prod.mk.inj (List.cons.inj hentry).1
  rw [hname] at hdelete
  obtain ⟨hof, hdeleted, -⟩ := hdelete _ (by decide) (Percent.encodes_encodeAll name)
  obtain ⟨hresponse, ⟨front, back, hbefore, hafter⟩, -⟩ := hdeleted haddressable
  refine ⟨hposts, hcreated, hledger, haddressable, hof, hresponse, ?_⟩
  have hlength := congrArg List.length (hledger.symm.trans hbefore)
  apply List.eq_nil_of_length_eq_zero
  rw [hafter, List.length_append]
  simp only [List.length_cons, List.length_nil, List.length_append] at hlength
  omega

/-- A name that starts with a slash is added, but the request that deletes it, percent-encoded, is led
elsewhere, and the variable stays. -/
theorem slashed_name_stays :
    let post : Request := ⟨"POST", ⟨[], [], "/api/vars"⟩, some "application/json",
      Utf8.encode "\x7b\"name\": \"/a\", \"value\": \"p-2\"\x7d"⟩
    let delete := Request.deletion (Percent.encodeAll "/a")
    let added := (respond fresh post).session
    post.Posts ∧ (respond fresh post).response =
      .ofJson 201 (Json.ofTexts [("name", "/a"), ("value", "p-2")]) ∧
    Request.of "DELETE" ("/api/vars/" ++ Percent.encodeAll "/a") none [] = .ok delete ∧
    (respond added delete).response.status = 308 ∧
    (respond added delete).session.ledger = [(Text.of "/a", Text.of "p-2")] := by decide +kernel

end UtilityCss.Api
