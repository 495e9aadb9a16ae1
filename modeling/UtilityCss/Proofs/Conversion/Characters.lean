import UtilityCss.Conversion
import UtilityCss.Proofs.Declaration.Grammar
import UtilityCss.Proofs.Text.Scalar
import UtilityCss.Proofs.Text.Words
import UtilityCss.Proofs.Utility.Composition
import UtilityCss.Proofs.Value.Tokens
/-
  What the characters of an output are.

  Whatever is said of characters, an output is made of such ones if the style,
  the variants, the classes that are there and the entries of the dictionary
  are, and if it is said of the visible characters of ASCII: these are all that
  a conversion adds of its own. The statement goes up with the conversion, from
  the segments of a value to the classes of a rule, the classes of a style, and
  the text in which they are joined.

  What is proved:
    1. `madeOf_resolve`, `madeOf_tokens` : a value with its references looked
       up, and its tokens.
    2. `keeps_of_mem` : every rule.
    3. `madeOf_utilities` : the classes of declarations.
    4. `madeOf_merged`, `madeOf_output` : what a conversion comes to.
-/

namespace UtilityCss

/-- A visible character of ASCII, or a space. -/
def CodePoint.Visible (c : CodePoint) : Prop := 0x20 ≤ c.toNat ∧ c.toNat < 0x7F

instance (c : CodePoint) : Decidable c.Visible := inferInstanceAs (Decidable (_ ∧ _))

namespace Text

theorem MadeOf.joinWith {P : CodePoint → Prop} {separator : Text} {parts : List Text}
    (hseparator : separator.MadeOf P) (hparts : ∀ part ∈ parts, part.MadeOf P) :
    (Text.joinWith separator parts).MadeOf P := by
  intro c hc
  rcases mem_joinWith hc with hc | ⟨part, hpart, hc⟩
  · exact hseparator c hc
  · exact hparts part hpart c hc

theorem subset_of_mem_cut {mark : CodePoint} {t piece : Text} (h : piece ∈ cut mark t) : piece ⊆ t := by
  have hsubset : piece ⊆ joinWith [mark] (cut mark t) := subset_of_mem_joinWith h
  rwa [join_cut] at hsubset

end Text

/-! ## Values -/

theorem dropOpeningQuote_subset (t : Text) : dropOpeningQuote t ⊆ t := by
  cases t with
  | nil => exact List.Subset.refl _
  | cons c rest =>
    rw [dropOpeningQuote]
    split
    · exact List.subset_cons_self c rest
    · exact List.Subset.refl _

theorem unquote_subset (t : Text) : unquote t ⊆ t := by
  intro c hc
  rw [unquote, List.mem_reverse] at hc
  have hinner := List.mem_reverse.1 (dropOpeningQuote_subset _ hc)
  exact Text.trim_subset t (dropOpeningQuote_subset _ hinner)

section

variable {P : CodePoint → Prop}

theorem madeOf_resolve {lookup : Lookup} (hlookup : ∀ name entry, lookup name = some entry →
    entry.MadeOf P) {raw : Text} (hraw : raw.MadeOf P) : (Value.resolve lookup raw).text.MadeOf P := by
  have hparts : ∀ part ∈ Part.ofText raw, part.written.MadeOf P := by
    intro part hpart
    apply hraw.subset
    rw [← Part.written_ofText raw]
    exact fun c hc => List.mem_flatMap.2 ⟨part, hpart, hc⟩
  have hsegment : ∀ part ∈ Part.ofText raw, (part.resolve lookup).text.MadeOf P := by
    intro part hpart
    have hwritten := hparts part hpart
    cases part with
    | plain t => exact hwritten
    | reference r =>
      show (r.resolve lookup).text.MadeOf P
      unfold Reference.resolve
      split
      · next c rest hentry => exact hlookup _ _ hentry
      · have hfallback : r.fallback ⊆ r.written := by
          intro c hc
          simp [Reference.written, hc]
        exact (hwritten.subset hfallback).subset (unquote_subset r.fallback)
  unfold Value.resolve
  split
  · rw [Value.text_ofLiteral]
    exact .nil
  · intro c hc
    obtain ⟨segment, hmem, hc⟩ := List.mem_flatMap.1 hc
    obtain ⟨part, hpart, rfl⟩ := List.mem_map.1 hmem
    exact hsegment part hpart c hc

namespace Value

theorem entry?_subset {v : Value} {entry : Text} (h : v.entry? = some entry) : entry ⊆ v.text := by
  unfold entry? at h
  split at h
  · next t hfilter =>
    obtain rfl := Option.some.inj h
    have hmem : Segment.entry t ∈ v.segments.filter (fun s => !s.isBlank) := by
      rw [hfilter]
      exact List.mem_singleton.2 rfl
    exact fun c hc => List.mem_flatMap.2 ⟨_, List.mem_of_mem_filter hmem, hc⟩
  · cases h

/-- The segment of a piece, if it is not a gap, is of a kind of characters. -/
def PieceOf (P : CodePoint → Prop) (piece : Piece) : Prop :=
  ∀ segment, piece = .solid segment → segment.text.MadeOf P

theorem pieceOf_flushRun {run : Text} (h : run.MadeOf P) : ∀ piece ∈ flushRun run, PieceOf P piece := by
  intro piece hpiece
  unfold flushRun at hpiece
  split at hpiece
  · cases hpiece
  · rw [List.mem_singleton.1 hpiece]
    intro segment hsegment
    rw [← Piece.solid.inj hsegment]
    exact fun c hc => h c (List.mem_reverse.1 hc)

theorem pieceOf_literalPieces {t : Text} (ht : t.MadeOf P) : ∀ {run : Text}, run.MadeOf P →
    ∀ piece ∈ literalPieces run t, PieceOf P piece := by
  induction t with
  | nil => exact fun hrun => pieceOf_flushRun hrun
  | cons c rest ih =>
    intro run hrun piece hpiece
    have hrest : Text.MadeOf P rest := ht.subset (List.subset_cons_self c rest)
    rw [literalPieces] at hpiece
    split at hpiece
    · rcases List.mem_append.1 hpiece with hpiece | hpiece
      · exact pieceOf_flushRun hrun piece hpiece
      · rcases List.mem_cons.1 hpiece with rfl | hpiece
        · intro segment hsegment
          cases hsegment
        · exact ih hrest .nil piece hpiece
    · exact ih hrest (List.forall_mem_cons.2 ⟨ht c List.mem_cons_self, hrun⟩) piece hpiece

theorem madeOf_tokensFrom {row : List Piece} (hrow : ∀ piece ∈ row, PieceOf P piece) :
    ∀ {current : List Segment}, (∀ segment ∈ current, segment.text.MadeOf P) →
      ∀ token ∈ tokensFrom current row, token.text.MadeOf P := by
  have hflush : ∀ {current : List Segment}, (∀ segment ∈ current, segment.text.MadeOf P) →
      ∀ token ∈ flushToken current, token.text.MadeOf P := by
    intro current hcurrent token htoken c hc
    unfold flushToken at htoken
    split at htoken
    · cases htoken
    · rw [List.mem_singleton.1 htoken] at hc
      obtain ⟨segment, hsegment, hc⟩ := List.mem_flatMap.1 hc
      exact hcurrent segment (List.mem_reverse.1 hsegment) c hc
  induction row with
  | nil =>
    intro current hcurrent
    exact hflush hcurrent
  | cons piece rest ih =>
    intro current hcurrent
    rw [List.forall_mem_cons] at hrow
    cases piece with
    | gap =>
      rw [tokensFrom, List.forall_mem_append]
      exact ⟨hflush hcurrent, ih hrow.2 (List.forall_mem_nil _)⟩
    | solid segment =>
      rw [tokensFrom]
      exact ih hrow.2 (List.forall_mem_cons.2 ⟨hrow.1 segment rfl, hcurrent⟩)

theorem madeOf_tokens {v : Value} (h : v.text.MadeOf P) : ∀ token ∈ v.tokens, token.text.MadeOf P := by
  apply madeOf_tokensFrom
  · intro piece hpiece
    obtain ⟨segment, hsegment, hpiece⟩ := List.mem_flatMap.1 hpiece
    have htext : segment.text.MadeOf P :=
      h.subset (fun c hc => List.mem_flatMap.2 ⟨segment, hsegment, hc⟩)
    cases segment with
    | literal t => exact pieceOf_literalPieces htext .nil piece hpiece
    | entry t =>
      rw [List.mem_singleton.1 hpiece]
      intro segment hsegment
      rw [← Piece.solid.inj hsegment]
      exact htext
  · exact List.forall_mem_nil _

end Value

end

/-! ## Classes -/

section

variable {P : CodePoint → Prop} (hP : ∀ c : CodePoint, c.Visible → P c)

include hP

/-- Text of visible characters alone is of every kind that these are of. -/
theorem Text.madeOf_of_visible {t : Text} (h : ∀ c ∈ t, c.Visible) : t.MadeOf P :=
  fun c hc => hP c (h c hc)

theorem madeOf_bracketed {stem value : Text} (hstem : ∀ c ∈ stem, c.Visible) (hvalue : value.MadeOf P) :
    (bracketed stem value).MadeOf P :=
  (((Text.madeOf_of_visible hP hstem).append (Text.madeOf_of_visible hP (by decide))).append
    hvalue).append (Text.madeOf_of_visible hP (by decide))

theorem madeOf_arbitrary {property value : Text} (hproperty : ∀ c ∈ property, c.Visible)
    (hvalue : value.MadeOf P) : (arbitrary property value).MadeOf P :=
  ((((Text.madeOf_of_visible hP (by decide)).append (Text.madeOf_of_visible hP hproperty)).append
    (Text.madeOf_of_visible hP (by decide))).append hvalue).append
      (Text.madeOf_of_visible hP (by decide))

theorem Scale.madeOf_name? {scale : Scale} (hscale : ∀ row ∈ scale, ∀ c ∈ row.2, c.Visible)
    {value name : Text} (h : scale.name? value = some name) : name.MadeOf P :=
  Text.madeOf_of_visible hP (hscale _ (mem_of_name? h))

theorem Scale.madeOf_getD {scale : Scale} (hscale : ∀ row ∈ scale, ∀ c ∈ row.2, c.Visible)
    {value other : Text} (hother : other.MadeOf P) : ((scale.name? value).getD other).MadeOf P := by
  cases h : scale.name? value with
  | none => exact hother
  | some name => exact Scale.madeOf_name? hP hscale h

end

namespace Rule

/-- The classes that a rule gives are made of the characters of what it is given. -/
structure Keeps (P : CodePoint → Prop) (r : Rule) : Prop where
  ofText : ∀ t, t.MadeOf P → ∀ cls ∈ r.ofText t, cls.MadeOf P
  ofEntry : ∀ t, t.MadeOf P → ∀ cls ∈ r.ofEntry t, cls.MadeOf P

section

variable {P : CodePoint → Prop} (hP : ∀ c : CodePoint, c.Visible → P c)

theorem madeOf_entry (t : Text) : t.MadeOf P → ∀ cls ∈ [t], cls.MadeOf P :=
  List.forall_mem_singleton.2

theorem madeOf_classes {r : Rule} (hr : r.Keeps P) {v : Value} (hv : v.text.MadeOf P) :
    ∀ cls ∈ r.classes v, cls.MadeOf P := by
  unfold classes
  split
  · exact List.forall_mem_nil _
  · split
    · next entry hentry => exact hr.ofEntry entry (hv.subset (Value.entry?_subset hentry))
    · exact hr.ofText v.text hv

include hP

theorem keeps_passing {property stem : String} (hstem : ∀ c ∈ Text.of stem, c.Visible) :
    (passing property stem).Keeps P where
  ofText _ ht := List.forall_mem_singleton.2 (madeOf_bracketed hP hstem ht)
  ofEntry := madeOf_entry

theorem keeps_scaled {property stem : String} {scale : Scale} (hstem : ∀ c ∈ Text.of stem, c.Visible)
    (hscale : ∀ row ∈ scale, ∀ c ∈ row.2, c.Visible) : (scaled property stem scale).Keeps P where
  ofText t ht := by
    simp only [scaled]
    split
    · next name hname =>
      exact List.forall_mem_singleton.2 (((Text.madeOf_of_visible hP hstem).append
        (Text.madeOf_of_visible hP (by decide))).append (Scale.madeOf_name? hP hscale hname))
    · exact List.forall_mem_singleton.2 (madeOf_bracketed hP hstem ht)
  ofEntry := madeOf_entry

theorem keeps_textAlign : textAlign.Keeps P where
  ofText t ht := by
    simp only [textAlign]
    split
    · exact List.forall_mem_singleton.2 ((Text.madeOf_of_visible hP (by decide)).append ht)
    · exact List.forall_mem_singleton.2 (madeOf_arbitrary hP (by decide) ht)
  ofEntry := madeOf_entry

theorem keeps_decorationLine : decorationLine.Keeps P where
  ofText _ ht := List.forall_mem_singleton.2
    (Scale.madeOf_getD hP (by decide) (madeOf_bracketed hP (by decide) ht))
  ofEntry := madeOf_entry

theorem keeps_decorationStyle : decorationStyle.Keeps P where
  ofText t ht := by
    simp only [decorationStyle]
    split
    · exact List.forall_mem_nil _
    · split
      · exact List.forall_mem_singleton.2 ((Text.madeOf_of_visible hP (by decide)).append ht)
      · exact List.forall_mem_singleton.2 (madeOf_bracketed hP (by decide) ht)
  ofEntry := madeOf_entry

theorem keeps_decorationSkipInk : decorationSkipInk.Keeps P where
  ofText t ht := by
    simp only [decorationSkipInk]
    split
    · exact List.forall_mem_singleton.2 (Text.madeOf_of_visible hP (by decide))
    · split
      · exact List.forall_mem_singleton.2 (Text.madeOf_of_visible hP (by decide))
      · exact List.forall_mem_singleton.2 (madeOf_bracketed hP (by decide) ht)
  ofEntry := madeOf_entry

theorem keeps_decorationThickness : decorationThickness.Keeps P where
  ofText t ht := by
    simp only [decorationThickness]
    split
    · exact List.forall_mem_nil _
    · exact List.forall_mem_singleton.2
        (Scale.madeOf_getD hP (by decide) (madeOf_arbitrary hP (by decide) ht))
  ofEntry := madeOf_entry

theorem keeps_underlineOffset : underlineOffset.Keeps P where
  ofText t ht := by
    simp only [underlineOffset]
    split
    · exact List.forall_mem_nil _
    · exact List.forall_mem_singleton.2 (madeOf_bracketed hP (by decide) ht)
  ofEntry := madeOf_entry

theorem keeps_underlinePosition : underlinePosition.Keeps P where
  ofText t ht := by
    simp only [underlinePosition]
    split
    · exact List.forall_mem_nil _
    · exact List.forall_mem_singleton.2 (madeOf_arbitrary hP (by decide) ht)
  ofEntry := madeOf_entry

theorem keeps_fontSize : fontSize.Keeps P where
  ofText t ht := by
    have hsize : (withoutPixels t).MadeOf P := ht.subset (withoutPixels_subset t)
    simp only [fontSize]
    split
    · next name hname =>
      exact List.forall_mem_singleton.2 ((Text.madeOf_of_visible hP (by decide)).append
        (Scale.madeOf_name? hP (by decide) hname))
    · split
      · exact List.forall_mem_singleton.2 (((Text.madeOf_of_visible hP (by decide)).append
          hsize).append (Text.madeOf_of_visible hP (by decide)))
      · exact List.forall_mem_singleton.2 (madeOf_bracketed hP (by decide) ht)
  ofEntry := madeOf_entry

theorem keeps_fontFamily : fontFamily.Keeps P where
  ofText _ ht := List.forall_mem_singleton.2 (madeOf_bracketed hP (by decide) ht)
  ofEntry t ht := by
    simp only [fontFamily]
    split
    · exact List.forall_mem_singleton.2 ht
    · exact List.forall_mem_singleton.2 ((Text.madeOf_of_visible hP (by decide)).append ht)

theorem keeps_fontStyle : fontStyle.Keeps P where
  ofText _ ht := List.forall_mem_singleton.2
    (Scale.madeOf_getD hP (by decide) (madeOf_bracketed hP (by decide) ht))
  ofEntry := madeOf_entry

theorem keeps_borderRadius : borderRadius.Keeps P where
  ofText t ht := by
    simp only [borderRadius]
    split
    · exact List.forall_mem_singleton.2 (Text.madeOf_of_visible hP (by decide))
    · exact List.forall_mem_singleton.2 (madeOf_bracketed hP (by decide) ht)
  ofEntry := madeOf_entry

/-- Every rule. -/
theorem keeps_of_mem : ∀ r ∈ forText ++ forFont ++ forBox ++ forSurface, r.Keeps P := by
  simp only [forText, forFont, forBox, forSurface, List.forall_mem_append, List.forall_mem_cons]
  refine ⟨⟨⟨?text, ?font⟩, ?box⟩, ?surface⟩
  case text =>
    exact ⟨keeps_passing hP (by decide), keeps_textAlign hP, keeps_decorationLine hP,
      keeps_decorationStyle hP, keeps_decorationSkipInk hP, keeps_decorationThickness hP,
      keeps_underlineOffset hP, keeps_underlinePosition hP, List.forall_mem_nil _⟩
  case font =>
    exact ⟨keeps_fontSize hP, keeps_scaled hP (by decide) (by decide),
      keeps_scaled hP (by decide) (by decide), keeps_scaled hP (by decide) (by decide),
      keeps_fontFamily hP, keeps_fontStyle hP, List.forall_mem_nil _⟩
  case box =>
    refine ⟨?_, ?_, ?_, ?_, ?_, ?_, ?_, ?_, ?_, ?_, ?_, ?_, keeps_borderRadius hP, List.forall_mem_nil _⟩
    all_goals exact keeps_passing hP (by decide)
  case surface =>
    exact ⟨keeps_passing hP (by decide), keeps_passing hP (by decide), keeps_passing hP (by decide),
      List.forall_mem_nil _⟩

end

end Rule

namespace BorderSide

section

variable {P : CodePoint → Prop} (hP : ∀ c : CodePoint, c.Visible → P c) {side : BorderSide}
  (hside : ∀ c ∈ side.stem, c.Visible)

include hP

theorem madeOf_styleClasses (named : List Text) {parts : List Value}
    (h : ∀ part ∈ parts, part.text.MadeOf P) :
    ∀ cls ∈ styleClasses named (style? parts), cls.MadeOf P := by
  have hstyle : ∀ style, style? parts = some style → style.MadeOf P := by
    intro style hstyle
    unfold style? at hstyle
    split at hstyle
    · next first part more =>
      split at hstyle
      · cases hstyle
      · rw [← Option.some.inj hstyle]
        exact h part (by simp)
    · cases hstyle
  unfold styleClasses
  split
  · next style hsome =>
    split
    · exact List.forall_mem_nil _
    · exact List.forall_mem_singleton.2
        ((Text.madeOf_of_visible hP (by decide)).append (hstyle style hsome))
  · exact List.forall_mem_nil _

include hside

theorem madeOf_classOf {part : Value} (h : part.text.MadeOf P) : (side.classOf part).MadeOf P := by
  unfold classOf
  cases hentry : part.entry? with
  | none => exact madeOf_bracketed hP hside h
  | some entry => exact h.subset (Value.entry?_subset hentry)

theorem madeOf_widthClasses {width : Value} (h : width.text.MadeOf P) :
    ∀ cls ∈ side.widthClasses width, cls.MadeOf P := by
  unfold widthClasses
  split
  · exact List.forall_mem_nil _
  · split
    · exact List.forall_mem_singleton.2 (Text.madeOf_of_visible hP hside)
    · exact List.forall_mem_singleton.2 (madeOf_classOf hP hside h)

theorem madeOf_colorClasses {parts : List Value} (h : ∀ part ∈ parts, part.text.MadeOf P) :
    ∀ cls ∈ side.colorClasses (color? parts), cls.MadeOf P := by
  have hcolor : ∀ color, color? parts = some color → color.text.MadeOf P := by
    intro color hcolor
    unfold color? at hcolor
    split at hcolor
    · cases hcolor
    · next part =>
      rw [← Option.some.inj hcolor]
      exact h part List.mem_cons_self
    · rw [← Option.some.inj hcolor, Value.text_ofLiteral]
      apply Text.MadeOf.joinWith (Text.madeOf_of_visible hP (by decide))
      intro t ht
      obtain ⟨part, hpart, rfl⟩ := List.mem_map.1 ht
      exact h part hpart
  unfold colorClasses
  split
  · next color hsome =>
    split
    · exact List.forall_mem_nil _
    · exact List.forall_mem_singleton.2 (madeOf_classOf hP hside (hcolor color hsome))
  · exact List.forall_mem_nil _

theorem madeOf_classes (named : List Text) {v : Value} (hv : v.text.MadeOf P) :
    ∀ cls ∈ side.classes named (partsOf v), cls.MadeOf P := by
  have hparts : ∀ part ∈ partsOf v, part.text.MadeOf P := by
    unfold partsOf
    split
    · exact List.forall_mem_nil _
    · exact Value.madeOf_tokens hv
  cases hcases : partsOf v with
  | nil => exact List.forall_mem_nil _
  | cons width rest =>
    rw [hcases] at hparts
    rw [classes, List.forall_mem_append, List.forall_mem_append]
    refine ⟨⟨madeOf_widthClasses hP hside (hparts width List.mem_cons_self),
      madeOf_styleClasses hP named hparts⟩, madeOf_colorClasses hP hside ?_⟩
    exact fun part hpart => hparts part (List.mem_cons_of_mem width (List.mem_of_mem_drop hpart))

end

end BorderSide

section

variable {P : CodePoint → Prop} (hP : ∀ c : CodePoint, c.Visible → P c)

include hP

/-- The classes of declarations are made of the characters of their values. -/
theorem madeOf_utilities {d : Declarations} (hd : ∀ p v, d.get? p = some v → v.text.MadeOf P) :
    ∀ cls ∈ utilities d, cls.MadeOf P := by
  have hstems : ∀ side ∈ BorderSide.all, ∀ c ∈ side.stem, c.Visible := by decide
  intro cls hcls
  rw [utilities_eq_flatMap] at hcls
  obtain ⟨source, hsource, hcls⟩ := List.mem_flatMap.1 hcls
  rw [Source.ofDeclarations] at hcls
  cases hv : d.get? source.property with
  | none =>
    rw [hv] at hcls
    cases hcls
  | some v =>
    rw [hv] at hcls
    have htext := hd source.property v hv
    cases source with
    | rule r =>
      have hr : r ∈ Rule.forText ++ Rule.forFont ++ Rule.forBox ++ Rule.forSurface := by
        simpa [Source.all] using hsource
      exact Rule.madeOf_classes (Rule.keeps_of_mem hP r hr) htext cls hcls
    | side b =>
      have hb : b ∈ BorderSide.all := by simpa [Source.all] using hsource
      exact BorderSide.madeOf_classes hP (hstems b hb) _ htext cls hcls

end

/-! ## Conversions -/

theorem Declaration.value_subset {css : Text} {d : Declaration} (h : d ∈ Declaration.all css) :
    d.value ⊆ css := by
  rw [Declaration.all_eq] at h
  obtain ⟨line, hline, hread⟩ := List.mem_filterMap.1 h
  obtain ⟨before, after, -, -, hwritten⟩ := (Declaration.WrittenAs.of_read? hread).parts
  have hvalue : d.value ⊆ Text.trim line := by
    intro c hc
    rw [hwritten]
    simp [hc]
  exact fun c hc => Text.subset_of_mem_cut hline (Text.trim_subset line (hvalue hc))

namespace Conversion

variable {P : CodePoint → Prop} (hP : ∀ c : CodePoint, c.Visible → P c) {lookup : Lookup}
  (hlookup : ∀ name entry, lookup name = some entry → entry.MadeOf P) {c : Conversion}
  (hstyle : c.style.MadeOf P) (hvariants : c.variants.MadeOf P) (hexisting : c.existing.MadeOf P)

include hP hlookup hstyle

theorem madeOf_classes : ∀ cls ∈ c.classes lookup, cls.MadeOf P := by
  apply madeOf_utilities hP
  intro p v hv
  rw [declarations, get?_ofStyle] at hv
  obtain ⟨d, hd, rfl⟩ := Option.map_eq_some_iff.1 hv
  have hmem : d ∈ Declaration.all c.style := List.mem_of_mem_filter (List.mem_of_getLast? hd)
  exact madeOf_resolve hlookup (hstyle.subset (Declaration.value_subset hmem))

include hvariants

theorem madeOf_varied : ∀ cls ∈ c.varied lookup, cls.MadeOf P := by
  have hclasses := madeOf_classes hP hlookup hstyle
  have hmarked : ∀ variant ∈ variantsOf c.variants, variant.MadeOf P := by
    intro variant hvariant
    obtain ⟨word, hword, rfl⟩ := List.mem_map.1 hvariant
    refine Text.MadeOf.append ?_ (Text.madeOf_of_visible hP (by decide))
    intro ch hch
    have hmem := List.mem_reverse.1 ((List.dropWhile_sublist _).subset (List.mem_reverse.1 hch))
    exact hvariants ch (Text.mem_of_mem_words hword hmem)
  unfold varied applyVariants
  split
  · exact hclasses
  · intro cls hcls
    obtain ⟨inner, hinner, hcls⟩ := List.mem_flatMap.1 hcls
    obtain ⟨variant, hvariant, rfl⟩ := List.mem_map.1 hcls
    exact (hmarked variant hvariant).append (hclasses inner hinner)

include hexisting

theorem madeOf_merged : ∀ cls ∈ c.merged lookup, cls.MadeOf P := by
  have hvaried := madeOf_varied hP hlookup hstyle hvariants
  unfold merged
  split
  · exact hvaried
  · obtain ⟨additions, hsublist, hmerge⟩ := ClassList.merge_eq_append c.existingClasses (c.varied lookup)
    rw [hmerge, List.forall_mem_append]
    refine ⟨?_, fun cls hcls => hvaried cls (hsublist.subset hcls)⟩
    intro cls hcls ch hch
    exact hexisting ch (Text.mem_of_mem_words hcls hch)

/-- An output is made of characters of a kind, if what it is made from is, and the visible ones are
of the kind. -/
theorem madeOf_output : (c.output lookup).MadeOf P :=
  Text.MadeOf.joinWith (Text.madeOf_of_visible hP (by decide))
    (madeOf_merged hP hlookup hstyle hvariants hexisting)

end Conversion

end UtilityCss
