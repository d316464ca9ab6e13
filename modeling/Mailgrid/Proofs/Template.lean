import Mailgrid.Document.Format
import Mailgrid.Proofs.Markup.Plain
import Mailgrid.Proofs.Text.Search
import Mailgrid.Template

/-!
# What templates read as

A template with an empty piece stands for a forest around another one, which
takes the place of that piece. `read_fill`: the template filled with the
written form of a plain forest reads as the forest it stands for.
-/

namespace Mailgrid

open Markup (AttributeValue Forest PlainText Tag bareStyle)

-- ---------------------------------------------------------------------------
-- The standard format

namespace Format

/-- The format of documents without options for markup. -/
def standard : Format :=
  ofEntries Settings.standard []

/-- Characters with the placeholder for each ampersand. -/
def protectedChars (s : List Char) : List Char :=
  s.flatMap fun c => if c = '&' then ['\ue000'] else [c]

theorem protectedChars_append (s t : List Char) :
    protectedChars (s ++ t) = protectedChars s ++ protectedChars t :=
  List.flatMap_append

theorem protectedChars_of_not_mem {s : List Char} (h : '&' ∉ s) : protectedChars s = s := by
  induction s with
  | nil => rfl
  | cons c rest ih =>
    simp only [List.mem_cons, not_or] at h
    rw [protectedChars, List.flatMap_cons, if_neg (Ne.symm h.1)]
    exact congrArg (c :: ·) (ih h.2)

theorem protectedChars_eq_map (s : List Char) :
    protectedChars s = s.map fun c => if c = '&' then '\ue000' else c := by
  induction s with
  | nil => rfl
  | cons c s ih =>
    rw [protectedChars, List.flatMap_cons, List.map_cons, ← ih]
    split <;> rfl

theorem toList_protect (text : String) :
    (standard.protect text).toList = protectedChars text.toList := by
  have h : standard.protect text =
      String.ofList (Text.replaceAll '&' [] ['\ue000'] text.toList) := rfl
  rw [h, String.toList_ofList, Text.replaceAll_char]
  rfl

theorem of_mem_protect {s : String} {c : Char} (h : c ∈ (standard.protect s).toList) :
    c ≠ '&' ∧ (c = '\ue000' ∨ c ∈ s.toList) := by
  rw [toList_protect, protectedChars_eq_map] at h
  obtain ⟨d, hd, rfl⟩ := List.mem_map.mp h
  by_cases hd' : d = '&'
  · rw [if_pos hd']
    exact ⟨by decide, .inl rfl⟩
  · rw [if_neg hd']
    exact ⟨hd', .inr hd⟩

theorem not_mem_protect {s : String} {c : Char} (hc : c ≠ '\ue000') (h : c ∉ s.toList) :
    c ∉ (standard.protect s).toList :=
  fun hm => (of_mem_protect hm).2.elim hc h

theorem protect_of_not_mem {s : String} (h : '&' ∉ s.toList) : standard.protect s = s := by
  rw [← String.toList_inj, toList_protect, protectedChars_of_not_mem h]

theorem not_mem_protectedChars (text : String) : '&' ∉ protectedChars text.toList := by
  rw [← toList_protect]
  exact fun h => (of_mem_protect h).1 rfl

theorem read_standard (text : String) :
    standard.read text = Forest.parse Markup.Grammar.standard (protectedChars text.toList) := by
  rw [← toList_protect]
  rfl

theorem write_standard (parent : Option String) (f : Forest α) :
    standard.write parent f = .ok (String.ofList (bareStyle.write parent f)) := rfl

theorem read_plain {f : Forest α} (h : f.Plain) (parent : Option String) :
    standard.read (String.ofList (bareStyle.write parent f)) = .ok (f.reread [] "") := by
  rw [read_standard, String.toList_ofList, protectedChars_of_not_mem (h.not_mem_write parent)]
  exact Markup.parse_written h.isLegible parent

end Format

-- ---------------------------------------------------------------------------
-- What a template stands for

namespace Template

/-- A tag as it is generated. -/
def writtenTag (name : String) (attributes : List (String × String)) : Tag :=
  ⟨name, attributes.map fun (key, value) => (key, .text value), false⟩

/-- The tag that this reads as. Of attributes with one name the last counts. -/
def tag (name : String) (attributes : List (String × String)) : Tag :=
  ⟨name, Table.ofList (attributes.map fun (key, value) => (key, AttributeValue.text value)), false⟩

/-- A piece of text; the empty piece is the place of what is inside. -/
def pieceForest (inner : Forest Unit) (markup : String) : Forest Unit :=
  if markup = "" then inner
  else .leaf () (.text .plain) (String.ofList (Format.protectedChars markup.toList)) .nil

/-- The forest that a template stands for. -/
def forest (inner : Forest Unit) : Template → Forest Unit
  | nil => .nil
  | piece markup next => pieceForest inner markup ++ next.forest inner
  | element name attributes content next =>
    .element () (tag name attributes) (content.forest inner) (next.forest inner)

/-- The template with a text in the place of its empty piece. -/
def fill (inner : String) : Template → Template
  | nil => nil
  | piece markup next => piece (if markup = "" then inner else markup) (next.fill inner)
  | element name attributes content next =>
    element name attributes (content.fill inner) (next.fill inner)

/-- What is written of a template, as a forest that may have texts in a row. -/
def written (inner : Forest Unit) : Template → Forest Unit
  | nil => .nil
  | piece markup next => pieceForest inner markup ++ next.written inner
  | element name attributes content next =>
    .element () (writtenTag name attributes) (content.written inner) (next.written inner)

/-- The names of all elements. -/
def names : Template → List String
  | nil => []
  | piece _ next => next.names
  | element name _ content next => name :: (content.names ++ next.names)

/-- How often what is inside comes in. -/
def places : Template → Nat
  | nil => 0
  | piece markup next => (if markup = "" then 1 else 0) + next.places
  | element _ _ content next => content.places + next.places

def startsWithPiece : Template → Bool
  | piece _ _ => true
  | _ => false

/-- Names that elements of templates have: plain ones without a meaning to the reader. -/
def isElementName (name : String) : Bool :=
  Markup.isPlainName name && !Markup.reservedNames.contains name &&
    !Markup.Grammar.standard.void.contains name &&
    !Markup.Grammar.standard.keepsBlanks.contains name

def PlainAttributes (attributes : List (String × String)) : Prop :=
  ∀ a ∈ attributes, Markup.isPlainName a.1 = true ∧ Markup.isLegibleValue (.text a.2) = true

/-- Is the place of what is inside one of the outermost pieces? -/
def hasPlace : Template → Bool
  | nil => false
  | piece markup next => markup = "" || next.hasPlace
  | element _ _ _ next => next.hasPlace

/-- Elements with plain tags, and plain pieces, no two in a row. Nothing stands beside the place of
what is inside. -/
def Plain : Template → Prop
  | nil => True
  | piece markup next =>
    (if markup = "" then next = nil
      else PlainText (String.ofList (Format.protectedChars markup.toList)) ∧
        next.startsWithPiece = false ∧ next.hasPlace = false) ∧ next.Plain
  | element name attributes content next =>
    isElementName name = true ∧ PlainAttributes attributes ∧ next.hasPlace = false ∧
      content.Plain ∧ next.Plain

-- ---------------------------------------------------------------------------
-- Tags of templates

section
variable {name : String} {attributes : List (String × String)}

theorem plain_tag (hn : isElementName name = true) (ha : PlainAttributes attributes) :
    (tag name attributes).Plain := by
  simp only [isElementName, Bool.and_eq_true, Bool.not_eq_true'] at hn
  obtain ⟨⟨⟨hname, hreserved⟩, hvoid⟩, -⟩ := hn
  obtain ⟨hnodup, hmem⟩ := Table.ofList_spec
    (attributes.map fun (key, value) => (key, AttributeValue.text value))
  refine ⟨hname, hreserved, fun a h => ?_, hnodup, hvoid.symm⟩
  obtain ⟨b, hb, rfl⟩ := List.mem_map.mp (hmem a h)
  exact ha b hb

theorem isLegible_writtenTag (hn : isElementName name = true) (ha : PlainAttributes attributes) :
    (writtenTag name attributes).isLegible = true := by
  simp only [isElementName, Bool.and_eq_true, Bool.not_eq_true'] at hn
  obtain ⟨hlegible, hlower⟩ := Markup.of_isPlainName hn.1.1.1
  simp only [Tag.isLegible, writtenTag, hlegible, hlower, hn.1.1.2, Bool.true_and, Bool.not_false,
    List.all_map, List.all_eq_true, Function.comp_apply, Bool.and_eq_true]
  exact fun b hb => ⟨(Markup.of_isPlainName (ha b hb).1).1, (ha b hb).2⟩

theorem PlainAttributes.lower (ha : PlainAttributes attributes) :
    ∀ a ∈ attributes, Text.lowerString a.1 = a.1 :=
  fun a hm => (Markup.of_isPlainName (ha a hm).1).2

theorem reread_writtenTag (hn : isElementName name = true)
    (ha : ∀ a ∈ attributes, Text.lowerString a.1 = a.1) :
    (writtenTag name attributes).reread = tag name attributes := by
  simp only [isElementName, Bool.and_eq_true, Bool.not_eq_true'] at hn
  have hattributes :
      (writtenTag name attributes).reread.attributes = (tag name attributes).attributes := by
    simp only [Tag.reread, writtenTag, tag, List.map_map]
    refine congrArg Table.ofList (List.map_congr_left fun b hb => ?_)
    simp only [Function.comp_apply, ha b hb]
    rfl
  have hname : (writtenTag name attributes).reread.name = name :=
    (Markup.of_isPlainName hn.1.1.1).2
  have hvoid : (writtenTag name attributes).reread.void = false := by
    have hread : (writtenTag name attributes).reread.void =
      Markup.Grammar.standard.void.contains (writtenTag name attributes).reread.name := rfl
    rw [hread, hname, hn.1.2]
  exact (Tag.mk.injEq ..).mpr ⟨hname, hattributes, hvoid⟩

end

-- ---------------------------------------------------------------------------
-- Writing and reading

theorem toList_writeAttributes {attributes : List (String × String)}
    (h : ∀ a ∈ attributes, '"' ∉ a.2.toList) :
    (writeAttributes attributes).toList = bareStyle.attributes
      (attributes.map fun (key, value) => (key, AttributeValue.text value)) := by
  rw [writeAttributes, String.toList_join, List.flatMap_map]
  change _ = (attributes.map fun (key, value) => (key, AttributeValue.text value)).flatMap
    bareStyle.attributeText
  rw [List.flatMap_map]
  refine List.flatMap_congr fun a ha => ?_
  obtain ⟨key, value⟩ := a
  have htext := Markup.OpenTag.attributeText_bare key value (h _ ha) []
  rw [List.append_nil] at htext
  rw [htext]
  simp [writeAttribute]

theorem write_written {t : Template} (h : t.Plain) {inner : Forest Unit} {text : String}
    (hinner : ∀ parent, bareStyle.write parent inner = text.toList) (hamp : '&' ∉ text.toList)
    (parent : Option String) :
    bareStyle.write parent (t.written inner) =
      Format.protectedChars (t.fill text).write.toList := by
  induction t generalizing parent with
  | nil => rfl
  | piece markup next ih =>
    obtain ⟨-, hnext⟩ := h
    have hpiece : bareStyle.write parent (pieceForest inner markup) =
        Format.protectedChars (if markup = "" then text else markup).toList := by
      unfold pieceForest
      split
      · rw [hinner, Format.protectedChars_of_not_mem hamp]
      · simp only [Markup.Style.write, Markup.Style.leaf_text, List.append_nil,
          String.toList_ofList]
    rw [written, Markup.Style.write_append, hpiece, ih hnext, fill, write, String.toList_append,
      Format.protectedChars_append]
  | element name attributes content next ihc ih =>
    obtain ⟨hn, ha, -, hcontent, hnext⟩ := h
    have hlegible := isLegible_writtenTag hn ha
    have hquote : ∀ a ∈ attributes, '"' ∉ a.2.toList := by
      intro a hm
      have := (ha a hm).2
      simp only [Markup.isLegibleValue, Bool.and_eq_true, Bool.not_eq_true',
        List.contains_eq_mem, decide_eq_false_iff_not] at this
      exact this.1
    have hstart : bareStyle.startTag (writtenTag name attributes) ['>'] =
        ("<" ++ name ++ writeAttributes attributes ++ ">").toList := by
      simp only [String.toList_append, toList_writeAttributes hquote]
      simp [Markup.Style.startTag, writtenTag]
    have hend : Markup.Style.endTag (writtenTag name attributes) =
        ("</" ++ name ++ ">").toList := by
      simp [Markup.Style.endTag, writtenTag]
    have hs : '&' ∉ bareStyle.startTag (writtenTag name attributes) ['>'] :=
      Tag.not_mem_startTag hlegible (by decide)
    have he := Tag.not_mem_endTag hlegible
    rw [hstart] at hs
    rw [hend] at he
    have hwrite : ((element name attributes content next).fill text).write =
        ("<" ++ name ++ writeAttributes attributes ++ ">") ++ ((content.fill text).write ++
          (("</" ++ name ++ ">") ++ (next.fill text).write)) := by
      simp only [fill, write, String.append_assoc]
    rw [written, Markup.Style.write_open parent () rfl, ihc hcontent, ih hnext, hstart, hend,
      hwrite]
    generalize "<" ++ name ++ writeAttributes attributes ++ ">" = start at hs
    generalize "</" ++ name ++ ">" = ending at he
    simp only [String.toList_append, Format.protectedChars_append,
      Format.protectedChars_of_not_mem hs, Format.protectedChars_of_not_mem he]

theorem startsWithText_written {t : Template} (h : t.startsWithPiece = false)
    (inner : Forest Unit) : (t.written inner).startsWithText = false := by
  cases t with
  | nil => rfl
  | piece => cases h
  | element => rfl

theorem bare_reread_written {t : Template} (h : t.Plain) {inner : Forest Unit}
    (hinner : inner.Plain) {opened : List String}
    (hopened : opened.any Markup.Grammar.standard.keepsBlanks.contains = false) :
    ((t.written inner).reread opened "").bare = t.forest inner.bare := by
  induction t generalizing opened with
  | nil => rfl
  | piece markup next ih =>
    obtain ⟨hpiece, hnext⟩ := h
    rw [written, forest]
    by_cases hm : markup = ""
    · rw [if_pos hm] at hpiece
      subst hpiece
      rw [pieceForest, pieceForest, if_pos hm, if_pos hm, written, forest, Forest.append_nil,
        Forest.append_nil, hinner.bare_reread_behind opened (.inl rfl)]
      rfl
    · rw [if_neg hm] at hpiece
      obtain ⟨htext, hapart, -⟩ := hpiece
      rw [pieceForest, pieceForest, if_neg hm, if_neg hm, Forest.leaf_append, Forest.nil_append,
        Forest.reread, String.empty_append,
        Forest.reread_of_apart (startsWithText_written hapart inner),
        Forest.bare_textNode (.inr htext), ih hnext hopened, Forest.lead, if_neg htext.1]
      rfl
  | element name attributes content next ihc ih =>
    obtain ⟨hn, ha, -, hcontent, hnext⟩ := h
    have htag := reread_writtenTag hn ha.lower
    have hkeeps : (name :: opened).any Markup.Grammar.standard.keepsBlanks.contains = false := by
      simp only [isElementName, Bool.and_eq_true, Bool.not_eq_true'] at hn
      rw [List.any_cons, hn.2, hopened, Bool.or_false]
    rw [written, Forest.reread, htag, Forest.textNode, if_pos rfl, Forest.bare, forest,
      ih hnext hopened]
    exact congrArg (Forest.element () (tag name attributes) · _) (ihc hcontent hkeeps)

theorem isLegible_append {f g : Forest Unit} (hf : f.isLegible = true) (hg : g.isLegible = true) :
    (f ++ g).isLegible = true := by
  induction f with
  | nil => exact hg
  | leaf m kind content next ih =>
    simp only [Forest.isLegible, Bool.and_eq_true] at hf
    rw [Forest.leaf_append, Forest.isLegible, hf.1, ih hf.2]
    rfl
  | element m tag children next _ ih =>
    simp only [Forest.isLegible, Bool.and_eq_true] at hf
    rw [Forest.element_append, Forest.isLegible, ih hf.2, Bool.and_true]
    simp only [Bool.and_eq_true]
    exact hf.1

theorem isLegible_written {t : Template} (h : t.Plain) {inner : Forest Unit}
    (hinner : inner.isLegible = true) : (t.written inner).isLegible = true := by
  induction t with
  | nil => rfl
  | piece markup next ih =>
    obtain ⟨hpiece, hnext⟩ := h
    refine isLegible_append ?_ (ih hnext)
    by_cases hm : markup = ""
    · rw [pieceForest, if_pos hm]
      exact hinner
    · rw [if_neg hm] at hpiece
      rw [pieceForest, if_neg hm, Forest.isLegible, Forest.isLegible, Bool.and_true]
      exact hpiece.1.2.1
  | element name attributes content next ihc ih =>
    obtain ⟨hn, ha, -, hcontent, hnext⟩ := h
    rw [written, Forest.isLegible, isLegible_writtenTag hn ha, reread_writtenTag hn ha.lower,
      ihc hcontent, ih hnext]
    rfl

/-- A template around what is written of a legible forest reads as what is written of both. -/
theorem read_fill_legible {t : Template} (h : t.Plain) {f : Forest α} (hf : f.bare.isLegible = true)
    {parent : Option String} (hamp : '&' ∉ bareStyle.write parent f) :
    Format.standard.read (t.fill (String.ofList (bareStyle.write parent f))).write =
      .ok ((t.written f.bare).reread [] "") := by
  have hinner (p : Option String) : bareStyle.write p f.bare =
      (String.ofList (bareStyle.write parent f)).toList := by
    rw [String.toList_ofList, Forest.write_bare]
  rw [← String.toList_ofList (l := bareStyle.write parent f)] at hamp
  rw [Format.read_standard, ← write_written h hinner hamp none]
  exact Markup.parse_written (isLegible_written h hf) none

theorem read_fill {t : Template} (h : t.Plain) {f : Forest α} (hf : f.Plain)
    (parent : Option String) : ∃ new,
      Format.standard.read (t.fill (String.ofList (bareStyle.write parent f))).write = .ok new ∧
        new.bare = t.forest f.bare := by
  have hplain : f.bare.Plain := Forest.plain_bare.mpr hf
  refine ⟨(t.written f.bare).reread [] "", ?_, ?_⟩
  · exact read_fill_legible h hplain.isLegible (hf.not_mem_write parent)
  · rw [bare_reread_written h hplain rfl, Forest.bare_bare]

-- ---------------------------------------------------------------------------
-- The forest of a template

theorem startsWithText_forest {t : Template} (h : t.startsWithPiece = false)
    (inner : Forest Unit) : (t.forest inner).startsWithText = false := by
  cases t with
  | nil => rfl
  | piece => cases h
  | element => rfl

theorem plain_forest {t : Template} (h : t.Plain) {inner : Forest Unit} (hi : inner.Plain) :
    (t.forest inner).Plain := by
  induction t with
  | nil => trivial
  | piece markup next ih =>
    obtain ⟨hpiece, hnext⟩ := h
    by_cases hm : markup = ""
    · rw [if_pos hm] at hpiece
      subst hpiece
      rw [forest, pieceForest, if_pos hm, forest, Forest.append_nil]
      exact hi
    · rw [if_neg hm] at hpiece
      rw [forest, pieceForest, if_neg hm]
      exact ⟨hpiece.1, startsWithText_forest hpiece.2.1 inner, ih hnext⟩
  | element name attributes content next ihc ih =>
    obtain ⟨hn, ha, -, hcontent, hnext⟩ := h
    exact ⟨plain_tag hn ha, nofun, ihc hcontent, ih hnext⟩

theorem forall_forest {Q : Markup.Element Unit → Prop} {t : Template} {inner : Forest Unit}
    (hn : ∀ e, e.tag.name ∈ t.names → Q e) (hi : ∀ e ∈ inner.descendants, Q e) :
    ∀ e ∈ (t.forest inner).descendants, Q e := by
  induction t with
  | nil => exact nofun
  | piece markup next ih =>
    rw [forest, Forest.descendants_append, List.forall_mem_append]
    refine ⟨?_, ih hn⟩
    unfold pieceForest
    split
    · exact hi
    · exact nofun
  | element name attributes content next ihc ih =>
    simp only [forest, Forest.descendants, List.forall_mem_cons, List.forall_mem_append]
    refine ⟨hn _ List.mem_cons_self, ihc fun e he => hn e ?_, ih fun e he => hn e ?_⟩
    · exact List.mem_cons_of_mem _ (List.mem_append_left _ he)
    · exact List.mem_cons_of_mem _ (List.mem_append_right _ he)

end Template

end Mailgrid
