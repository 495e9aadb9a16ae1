import UtilityCss.Proofs.Api.Requests
import UtilityCss.Proofs.Command.Refinement
import UtilityCss.Proofs.Conversion.Characters
import UtilityCss.Proofs.Declaration.Newlines
/-
  A style is converted alike wherever it is handed in.

  The command takes a style from its arguments, from a document or from the
  standard input, and shows what it comes to; the service takes it from a JSON
  text, and gives its classes and the output in another. Some of these read the
  ends of lines and some do not, which is of no matter to the declarations of a
  style. What is shown is the output itself, character for character, if none of
  them starts a sequence for the terminal, and if all of them have octets: the
  command has no way to show a half of a pair of surrogates, and fails, where
  the service writes an escape.

  What is proved:
    1. `styleOf_of_delivers` : what is read of a style that is handed in.
    2. `on_convert` : what the command shows.
    3. `respond_of_converts`, `read_answer` : what the service answers.
    4. `surfaces_convert_alike` : all of them.
-/

namespace UtilityCss

/-- A character that is shown as it is: it has octets, and starts no sequence for a terminal. -/
def CodePoint.Showable (c : CodePoint) : Prop := c.isHalf = false ∧ c ≠ .char '\x1b'

instance (c : CodePoint) : Decidable c.Showable := inferInstanceAs (Decidable (_ ∧ _))

theorem CodePoint.Visible.showable {c : CodePoint} (h : c.Visible) : c.Showable := by
  refine ⟨not_isHalf_of_lt (Nat.lt_trans h.2 (by decide)), ?_⟩
  rintro rfl
  exact absurd h (by decide)

namespace Text

/-- A text that is shown as it is. -/
abbrev Showable (t : Text) : Prop := t.MadeOf CodePoint.Showable

instance (t : Text) : Decidable t.Showable := inferInstanceAs (Decidable (∀ c ∈ t, c.Showable))

variable {t : Text}

theorem MadeOf.scalar (h : t.Showable) : t.Scalar := fun c hc => (h c hc).1

theorem MadeOf.no_escape (h : t.Showable) : CodePoint.char '\x1b' ∉ t := fun hmem => (h _ hmem).2 rfl

end Text

/-- What a conversion comes to can be shown, if what is converted and the entries can. -/
theorem Conversion.showable_merged {l : Ledger} (hl : ∀ e ∈ l, e.2.Showable) {c : Conversion}
    (hstyle : c.style.Showable) (hvariants : c.variants.Showable) (hexisting : c.existing.Showable) :
    (∀ cls ∈ c.merged l.value?, cls.Showable) ∧ (c.output l.value?).Showable := by
  have hlookup : ∀ name entry, l.value? name = some entry → entry.Showable := by
    intro name entry hentry
    obtain ⟨e, he, rfl⟩ := Option.map_eq_some_iff.1 hentry
    exact hl e (List.mem_of_find?_eq_some he)
  have hvisible : ∀ ch : CodePoint, ch.Visible → ch.Showable := fun _ h => h.showable
  exact ⟨madeOf_merged hvisible hlookup hstyle hvariants hexisting,
    madeOf_output hvisible hlookup hstyle hvariants hexisting⟩

namespace Command

/-- A style is handed in: in the arguments, in the octets of a document, or on the standard input. -/
def Source.Delivers (ws : Workspace) (input css : Text) : Source → Prop
  | .given style => style = css
  | .document path => ws.document? path = some (Utf8.encode css)
  | .input => input = css

section

variable {ws : Workspace} {input css : Text} {source : Source}

theorem styleOf_of_delivers (h : source.Delivers ws input css) (hscalar : css.Scalar) :
    ∃ style, styleOf ws input source = .ok style ∧ (style = css ∨ style = Text.unifyNewlines css) := by
  cases source with
  | given style => exact ⟨style, rfl, Or.inl h⟩
  | document path =>
    have hdocument : ws.document? path = some (Utf8.encode css) := h
    refine ⟨Text.unifyNewlines css, ?_, Or.inr rfl⟩
    rw [styleOf, octetsOf, hdocument, Option.getD_some, readText, Utf8.decode_encode hscalar]
    rfl
  | input =>
    have hinput : input = css := h
    exact ⟨Text.unifyNewlines css, by rw [styleOf, hinput], Or.inr rfl⟩

/-- A conversion that can be shown is shown where the dictionary can be opened. -/
theorem on_convert [Json.Limit] {storage : Storage} {launch : Launch} {s : Session}
    (hs : opened? ws storage = some s) {variants existing style : Text}
    (hasks : launch.Asks ws storage (.convert source variants existing))
    (hstyle : styleOf ws launch.input source = .ok style)
    (hshown : ((⟨style, variants, existing⟩ : Conversion).output s.lookup).Showable) :
    (launch.on ws).ending.code = 0 ∧ (launch.on ws).output =
      (⟨style, variants, existing⟩ : Conversion).output s.lookup ++ "\n" := by
  obtain ⟨full, hread⟩ := hasks
  have hline : (convertWork s ⟨style, variants, existing⟩).output =
      (⟨style, variants, existing⟩ : Conversion).output s.lookup ++ "\n" := by
    show line _ = _
    rw [line, plain_of_no_escape hshown.no_escape]
  have hscalar : (convertWork s ⟨style, variants, existing⟩).output.Scalar := by
    rw [hline]
    exact hshown.scalar.append (Text.scalar_of "\n")
  obtain ⟨notices, hrun⟩ := withDictionary_of_opened full (convertWork · ⟨style, variants, existing⟩) hs
  obtain ⟨hending, houtput⟩ := conclude_of_scalar
    ((ws.clearFor storage.path).keep storage.path
      (convertWork s ⟨style, variants, existing⟩).session.database) full notices hscalar
  rw [on_of_asks hread, runTask]
  simp only [hstyle]
  rw [hrun, hending, houtput, hline]
  exact ⟨rfl, rfl⟩

end

end Command

namespace Api

/-- A request to convert a style: a text that is read as an object with the style, the variants and
the classes that are there. -/
def Request.Converts [Json.Limit] (r : Request) (c : Conversion) : Prop :=
  r.route = .found .convert ∧ r.method = .post ∧ ∃ text members,
    r.Carries text ∧ Json.read text = .ok (.object members) ∧
    Pairs.get? (Text.of "css") members = some (.text c.style) ∧
    Pairs.get? (Text.of "prefixes") members = some (.text c.variants) ∧
    Pairs.get? (Text.of "existing") members = some (.text c.existing)

/-- What a conversion is answered with. -/
def answerOf (classes : List Text) (output : Text) : Json :=
  .object [("classes", .array (classes.map Json.text)), ("output", .text output)]

theorem respond_of_converts [Json.Limit] (s : Session) {r : Request} {c : Conversion} (h : r.Converts c) :
    (respond s r).response = .ofJson 200 (answerOf (c.merged s.lookup) (c.output s.lookup)) := by
  obtain ⟨hroute, hmethod, text, members, hcarries, hread, hcss, hprefixes, hexisting⟩ := h
  have hvalue : r.value? = .ok (some (.object members)) := value?_eq_some_iff.2 ⟨text, hcarries, hread⟩
  have hstyle : textMember? "css" (.object members) = some c.style :=
    textMember?_eq_some_iff.2 ⟨members, rfl, hcss⟩
  have hparameter : ∀ name t, Pairs.get? (Text.of name) members = some (.text t) →
      parameter name (.object members) = t := by
    intro name t hget
    rw [parameter, Json.member?, hget]
    rfl
  have hconversion : conversionOf? (.object members) = some c := by
    rw [conversionOf?, hstyle, hparameter _ _ hprefixes, hparameter _ _ hexisting]
    rfl
  rw [respond_of_found s hroute (by simp [hmethod])]
  simp only [answer, hmethod, convert, hvalue, Option.bind_some, hconversion]
  rfl

/-- An answer of characters alone is read as it is. -/
theorem read_answer [Json.Limit] {classes : List Text} {output : Text} (hclasses : ∀ cls ∈ classes, cls.Scalar)
    (houtput : output.Scalar) :
    Json.read (Response.jsonText (answerOf classes output)) = .ok (answerOf classes output) := by
  have htext : ∀ {t : Text}, t.Scalar → ∀ room, Json.ReadsBack .compact room (.text t) (.text t) := by
    intro t ht room
    have hback := Json.readsBack_text .compact room t
    rwa [ht.joined.joinHalves_eq] at hback
  obtain ⟨room, hroom⟩ := Json.exists_greatestDepth
  have harray : Json.ReadsBack .compact (room + 1) (.array (classes.map Json.text))
      (.array (classes.map Json.text)) := by
    have hback := @Json.readsBack_array .compact room id (classes.map Json.text) ?_
    · rwa [List.map_id] at hback
    · intro item hitem
      obtain ⟨cls, hcls, rfl⟩ := List.mem_map.1 hitem
      exact htext (hclasses cls hcls) room
  have hobject := @Json.readsBack_object .compact (room + 1) id
    [(Text.of "classes", .array (classes.map Json.text)), (Text.of "output", .text output)] ?_
  · rw [← hroom] at hobject
    exact Json.read_value hobject (by decide)
  · intro m hm
    rcases List.mem_cons.1 hm with rfl | hm
    · exact harray
    · rw [List.mem_singleton.1 hm]
      exact htext houtput (room + 1)

end Api

open Command Api

/-- Wherever a style is handed to the command, in its arguments, in a document or on the standard
input, it ends with the code zero and shows the same output in one line; and the service, with the
same entries, answers a request to convert it with that output and with its classes. Every carriage
return of the style is directly followed by a line feed, and what is converted and the values of the
entries can be shown as they are. -/
theorem surfaces_convert_alike [Json.Limit] {css variants existing : Text} {ws : Workspace} {storage : Storage}
    {s : Session} (hfed : css.ReturnsFed) (hcss : css.Showable) (hvariants : variants.Showable)
    (hexisting : existing.Showable) (hs : opened? ws storage = some s)
    (hl : ∀ e ∈ s.ledger, e.2.Showable) :
    let shown := (⟨css, variants, existing⟩ : Conversion).output s.ledger.value?
    (∀ (launch : Launch) (source : Command.Source),
      launch.Asks ws storage (.convert source variants existing) →
      source.Delivers ws launch.input css →
        (launch.on ws).ending.code = 0 ∧ (launch.on ws).output = shown ++ "\n") ∧
    ∀ (t : Session) (r : Request), t.ledger = s.ledger → r.Converts ⟨css, variants, existing⟩ →
      (respond t r).response.status = 200 ∧
        ∃ body classes, (respond t r).response.body = .json body ∧
          Json.read body = .ok (answerOf classes shown) ∧ ClassList.render classes = shown := by
  intro shown
  obtain ⟨hclasses, hshown⟩ :=
    @Conversion.showable_merged s.ledger hl ⟨css, variants, existing⟩ hcss hvariants hexisting
  constructor
  · intro launch source hasks hdelivers
    obtain ⟨style, hstyle, hsame⟩ := styleOf_of_delivers hdelivers hcss.scalar
    have houtput : (⟨style, variants, existing⟩ : Conversion).output s.lookup = shown := by
      rw [Session.lookup_eq_value?]
      rcases hsame with rfl | rfl
      · rfl
      · exact Conversion.output_unifyNewlines s.ledger.value? hfed variants existing
    have hconverted := on_convert hs hasks hstyle (by rwa [houtput])
    rwa [houtput] at hconverted
  · intro t r ht hconverts
    rw [respond_of_converts t hconverts, Session.lookup_eq_value?, ht]
    have hread := read_answer (fun cls hcls => (hclasses cls hcls).scalar) hshown.scalar
    exact ⟨rfl, _, _, rfl, hread, rfl⟩

attribute [local instance] Json.Limit.least

/-- A style of two lines in three ways, and in a request. -/
theorem padded_heading_everywhere :
    let css : Text := "padding: 4px;\r\n\r\ncolor: var(--Heading, red);"
    let entries : Ledger := [(Text.of "--Heading", Text.of "text-[é]")]
    let stored : Text := "\x7b\"--Heading\": \"text-[é]\"\x7d"
    let rows : Table := OrderedMap.ofPairs [(Dictionary.defaultKey, stored)]
    let ws : Workspace := OrderedMap.ofPairs
      [(Place.ofPath "figwind.db", .database (some rows)),
        (Place.ofPath "a.css", .document (Utf8.encode css))]
    let given : Launch := ⟨["convert", "--css", css, "--prefix", "md", "--existing", "flex"], []⟩
    let filed : Launch := ⟨["convert", "--file", "a.css", "--existing", "flex", "--prefix=md"], []⟩
    let piped : Launch := ⟨["convert", "--prefix", "md", "--existing", "flex"], css⟩
    let body := Json.ofTexts [("existing", "flex"), ("prefixes", "md"), ("css", css)]
    let request : Request := ⟨"POST", ⟨[], [], "/api/convert"⟩, some "application/json",
      Utf8.encode (body.write .spaced)⟩
    let shown : Text := "flex md:text-[é] md:p-[4px]"
    (∀ launch ∈ [given, filed, piped],
      (launch.on ws).ending.code = 0 ∧ (launch.on ws).output = shown ++ "\n") ∧
    ∃ t : Session, t.ledger = entries ∧ (respond t request).response.status = 200 ∧
      ∃ body classes, (respond t request).response.body = .json body ∧
        Json.read body = .ok (answerOf classes shown) ∧ ClassList.render classes = shown := by
  intro css entries stored rows ws given filed piped body request shown
  let s : Session :=
    ⟨.connected .file (some rows), ⟨true, Dictionary.defaultKey, OrderedMap.ofPairs entries⟩⟩
  let storage : Storage := ⟨"figwind.db", Dictionary.defaultKey⟩
  have hs : opened? ws storage = some s := by decide +kernel
  have hshown : (⟨css, "md", "flex"⟩ : Conversion).output s.ledger.value? = shown := by decide +kernel
  have halike := @surfaces_convert_alike _ css "md" "flex" ws storage s (by decide +kernel)
    (by decide +kernel) (by decide +kernel) (by decide +kernel) hs (by decide +kernel)
  rw [hshown] at halike
  have hgiven : given.Asks ws storage (.convert (.given css) "md" "flex") := ⟨false, by decide +kernel⟩
  have hfiled : filed.Asks ws storage (.convert (.document "a.css") "md" "flex") :=
    ⟨false, by decide +kernel⟩
  have hpiped : piped.Asks ws storage (.convert .input "md" "flex") := ⟨false, by decide +kernel⟩
  have hdocument : ws.document? "a.css" = some (Utf8.encode css) := by decide +kernel
  have hread : Json.read (body.write .spaced) = .ok body :=
    Json.read_write_ofTexts .spaced (by decide +kernel) (by decide +kernel)
  have hcarries : request.Carries (body.write .spaced) := ⟨by decide +kernel, by decide +kernel⟩
  have hconverts : request.Converts ⟨css, "md", "flex"⟩ :=
    ⟨by decide +kernel, by decide +kernel, _, _, hcarries, hread, rfl, rfl, rfl⟩
  refine ⟨?_, s, by decide +kernel, halike.2 s request rfl hconverts⟩
  rw [List.forall_mem_cons, List.forall_mem_cons, List.forall_mem_singleton]
  exact ⟨halike.1 given _ hgiven rfl, halike.1 filed _ hfiled hdocument, halike.1 piped _ hpiped rfl⟩

/-- A half of a pair of surrogates, which a document of JSON can bring into the dictionary, has no
octets: a conversion to it cannot be shown, although nothing in it starts a sequence for a terminal
or ends a line. -/
theorem half_not_shown :
    let ws := Workspace.ofDocuments [("a.json", Utf8.encode "\x7b\"--A\": \"\\udc00\"\x7d")]
    let importing : Launch := ⟨["vars", "import", "a.json"], []⟩
    let css : Text := "color: var(--A, x);"
    let converting : Launch := ⟨["convert", "--css", css], []⟩
    let storage : Storage := ⟨"figwind.db", Dictionary.defaultKey⟩
    let after := (importing.on ws).workspace
    let entries : Ledger := [(Text.of "--A", [CodePoint.ofNat 0xDC00])]
    ((opened? after storage).map Session.ledger = some entries ∧
      (∀ e ∈ entries, CodePoint.char '\r' ∉ e.2 ∧ CodePoint.char '\x1b' ∉ e.2) ∧
      css.ReturnsFed ∧ CodePoint.char '\x1b' ∉ css ∧
      converting.Asks after storage (.convert (.given css) [] [])) ∧
    ¬ ((converting.on after).ending.code = 0 ∧
      (converting.on after).output = (⟨css, [], []⟩ : Conversion).output entries.value? ++ "\n") := by
  intro ws importing css converting storage after entries
  have hcode : (converting.on after).ending.code = 1 := by decide +kernel
  refine ⟨⟨by decide +kernel, by decide +kernel, by decide +kernel, by decide +kernel,
    ⟨false, by decide +kernel⟩⟩, ?_⟩
  rw [hcode]
  exact fun h => absurd h.1 (by decide)

end UtilityCss
