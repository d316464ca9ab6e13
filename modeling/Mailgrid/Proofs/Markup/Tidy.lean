import Mailgrid.Proofs.Markup.Plain
import Mailgrid.Proofs.Text.Fold
import Mailgrid.Proofs.Text.Search
import Mailgrid.VoidElement

/-!
# Tidy documents

Forests of elements, texts and comments, perhaps below a document type, that are
written without anything that could be taken for something else: names in letters
of ASCII, values and texts without angle brackets, and void elements closed at
once.

A tidy forest is written as a sequence of parts. A part other than a text
reaches from one `<` to the next `>`, so wherever a `<` stands a part begins.
-/

namespace Mailgrid.Markup

open Mailgrid.Text (lowerString)

-- ---------------------------------------------------------------------------
-- Tidy nodes

def lacks (chars : List Char) (s : String) : Bool :=
  s.toList.all fun c => !chars.contains c

/-- What stands between double quotes as it is, and holds no placeholder. -/
def isOrdinaryValue : AttributeValue → Bool
  | .text value => lacks ['"', '<', '>', '\ue000'] value
  | _ => false

/-- A tag that is neither a raw marker nor has literal content, and void if and only if the writer
takes its name for that of a void element. -/
structure Tag.Tidy (t : Tag) : Prop where
  legible : Markup.isLegible t.name = true
  apart : ("raw" :: reservedNames).contains (lowerString t.name) = false
  void : t.void = VoidElement.names.contains (lowerString t.name)
  attributes : ∀ a ∈ t.attributes, Markup.isLegible a.1 = true ∧ isOrdinaryValue a.2 = true

instance (t : Tag) : Decidable t.Tidy :=
  decidable_of_iff (_ ∧ _ ∧ _ ∧ _)
    ⟨fun ⟨legible, apart, void, attributes⟩ => ⟨legible, apart, void, attributes⟩,
    fun ⟨legible, apart, void, attributes⟩ => ⟨legible, apart, void, attributes⟩⟩

/-- A leaf without angle brackets and placeholders. -/
def TidyLeaf : LeafKind → String → Prop
  | .text _, content => lacks ['<', '\ue000'] content = true
  | .comment, content => lacks ['<', '>', '-', '\ue000'] content = true
  | _, _ => False

instance (kind : LeafKind) (content : String) : Decidable (TidyLeaf kind content) := by
  unfold TidyLeaf
  split <;> infer_instance

namespace Forest

/-- Tidy elements, texts and comments. What is void for the writer or the reader has no content. -/
def Tidy : Forest α → Prop
  | nil => True
  | leaf _ kind content next => TidyLeaf kind content ∧ next.Tidy
  | element _ tag children next =>
    tag.Tidy ∧ ((tag.void || tag.reread.void) = true → children.isNil = true) ∧ children.Tidy ∧
      next.Tidy

instance decidableTidy : (f : Forest α) → Decidable f.Tidy
  | nil => .isTrue trivial
  | leaf _ _ _ next =>
    have := decidableTidy next
    inferInstanceAs (Decidable (_ ∧ _))
  | element _ _ children next =>
    have := decidableTidy children
    have := decidableTidy next
    inferInstanceAs (Decidable (_ ∧ (_ → _) ∧ _ ∧ _))

/-- Tidy, perhaps below a document type. -/
def TidyBelow : Forest α → Prop
  | leaf _ .leadingDocType name next => Markup.isLegible name = true ∧ next.Tidy
  | f => f.Tidy

instance (f : Forest α) : Decidable f.TidyBelow := by
  cases f with
  | leaf m kind content next =>
    cases kind with
    | leadingDocType =>
      exact inferInstanceAs (Decidable (Markup.isLegible content = true ∧ next.Tidy))
    | _ => exact inferInstanceAs (Decidable (Tidy _))
  | _ => exact inferInstanceAs (Decidable (Tidy _))

end Forest

-- ---------------------------------------------------------------------------
-- Parts

/-- A leaf, a start tag or an end tag, as it stands in a text. -/
inductive Part where
  | leaf (kind : LeafKind) (content : String)
  | startTag (t : Tag)
  | endTag (t : Tag)

namespace Part

/-- What ends the start tag of an element, which is closed at once if it is void. -/
def ending (t : Tag) : List Char :=
  if t.void then ['/', '>'] else ['>']

def write : Part → List Char
  | leaf kind content => bareStyle.leaf none kind content
  | startTag t => bareStyle.startTag t (ending t)
  | endTag t => Style.endTag t

def isText : Part → Bool
  | leaf (.text _) _ => true
  | _ => false

def started? : Part → Option Tag
  | startTag t => some t
  | _ => none

def ended? : Part → Option Tag
  | endTag t => some t
  | _ => none

def Tidy : Part → Prop
  | leaf .leadingDocType content => isLegible content = true
  | leaf kind content => TidyLeaf kind content
  | startTag t => t.Tidy
  | endTag t => t.Tidy ∧ t.void = false

end Part

/-- The parts that a forest is written as. -/
def Forest.parts : Forest α → List Part
  | nil => []
  | leaf _ kind content next => .leaf kind content :: next.parts
  | element _ tag children next =>
    .startTag tag ::
      if tag.void then next.parts else children.parts ++ .endTag tag :: next.parts

namespace Forest

theorem Tidy.parts {f : Forest α} (h : f.Tidy) : ∀ p ∈ f.parts, p.Tidy := by
  induction f with
  | nil => exact fun _ => nofun
  | leaf m kind content next ih =>
    obtain ⟨hleaf, hnext⟩ := h
    refine List.forall_mem_cons.mpr ⟨?_, ih hnext⟩
    cases kind with
    | leadingDocType => exact absurd hleaf id
    | _ => exact hleaf
  | element m tag children next ihc ih =>
    obtain ⟨htag, -, hchildren, hnext⟩ := h
    rw [Forest.parts]
    refine List.forall_mem_cons.mpr ⟨htag, ?_⟩
    split
    · exact ih hnext
    · rename_i hv
      refine List.forall_mem_append.mpr ⟨ihc hchildren, ?_⟩
      exact List.forall_mem_cons.mpr ⟨⟨htag, by simpa using hv⟩, ih hnext⟩

theorem TidyBelow.parts {f : Forest α} (h : f.TidyBelow) : ∀ p ∈ f.parts, p.Tidy := by
  unfold TidyBelow at h
  split at h
  · exact List.forall_mem_cons.mpr ⟨h.1, h.2.parts⟩
  · exact h.parts

theorem Tidy.write {f : Forest α} (h : f.Tidy) (parent : Option String) :
    bareStyle.write parent f = f.parts.flatMap Part.write := by
  induction f generalizing parent with
  | nil => rfl
  | leaf m kind content next ih =>
    obtain ⟨hleaf, hnext⟩ := h
    rw [Style.write, Forest.parts, List.flatMap_cons, ih hnext]
    cases kind with
    | text => rw [Part.write, Style.leaf_text, Style.leaf_text]
    | comment => rfl
    | _ => exact absurd hleaf id
  | element m tag children next ihc ih =>
    obtain ⟨-, hhollow, hchildren, hnext⟩ := h
    rw [Forest.parts, List.flatMap_cons, Part.write, Part.ending]
    cases hv : tag.void with
    | true =>
      cases children with
      | nil => rw [Style.write_void parent m hv, ih hnext, if_pos rfl, if_pos rfl]
      | _ => cases hhollow (by rw [hv, Bool.true_or])
    | false =>
      rw [Style.write_open parent m hv, ihc hchildren, ih hnext]
      simp [Part.write]

theorem TidyBelow.write {f : Forest α} (h : f.TidyBelow) (parent : Option String) :
    bareStyle.write parent f = f.parts.flatMap Part.write := by
  unfold TidyBelow at h
  split at h
  · rw [Style.write, h.2.write]
    rfl
  · exact h.write parent

theorem Tidy.started_parts {f : Forest α} (h : f.Tidy) :
    f.parts.filterMap Part.started? = f.descendants.map (·.tag) := by
  induction f with
  | nil => rfl
  | leaf m kind content next ih => exact ih h.2
  | element m tag children next ihc ih =>
    obtain ⟨-, hhollow, hchildren, hnext⟩ := h
    rw [Forest.parts, List.filterMap_cons, Forest.descendants, List.map_cons, List.map_append,
      ← ihc hchildren, ← ih hnext]
    cases hv : tag.void with
    | true =>
      cases children with
      | nil => rfl
      | _ => cases hhollow (by rw [hv, Bool.true_or])
    | false =>
      simp only [Bool.false_eq_true, if_false, List.filterMap_append]
      rfl

theorem TidyBelow.started_parts {f : Forest α} (h : f.TidyBelow) :
    f.parts.filterMap Part.started? = f.descendants.map (·.tag) := by
  unfold TidyBelow at h
  split at h
  · have hnext := h.2.started_parts
    exact hnext
  · exact h.started_parts

theorem TidyBelow.tags {f : Forest α} (h : f.TidyBelow) : ∀ e ∈ f.descendants, e.tag.Tidy := by
  intro e he
  have hstarted : e.tag ∈ f.parts.filterMap Part.started? :=
    h.started_parts ▸ List.mem_map_of_mem he
  obtain ⟨p, hp, ht⟩ := List.mem_filterMap.mp hstarted
  cases p with
  | startTag t =>
    cases ht
    exact h.parts _ hp
  | _ => cases ht

theorem ended_parts (f : Forest α) :
    ∀ t ∈ f.parts.filterMap Part.ended?, t ∈ f.descendants.map (·.tag) := by
  induction f with
  | nil => exact fun _ => nofun
  | leaf m kind content next ih => exact ih
  | element m tag children next ihc ih =>
    rw [Forest.parts, List.filterMap_cons_none rfl, Forest.descendants, List.map_cons,
      List.map_append]
    intro t ht
    split at ht
    · exact List.mem_cons_of_mem _ (List.mem_append_right _ (ih t ht))
    · have hcons : (Part.endTag tag :: next.parts).filterMap Part.ended? =
        tag :: next.parts.filterMap Part.ended? := rfl
      rw [List.filterMap_append, hcons] at ht
      rcases List.mem_append.mp ht with ht | ht
      · exact List.mem_cons_of_mem _ (List.mem_append_left _ (ihc t ht))
      · rcases List.mem_cons.mp ht with rfl | ht
        · exact List.mem_cons_self
        · exact List.mem_cons_of_mem _ (List.mem_append_right _ (ih t ht))

end Forest

-- ---------------------------------------------------------------------------
-- Angle brackets

theorem not_mem_of_lacks {chars : List Char} {s : String} (h : lacks chars s = true) {c : Char}
    (hc : c ∈ chars) : c ∉ s.toList := by
  intro hs
  have := List.all_eq_true.mp h c hs
  simp [hc] at this

namespace Tag.Tidy

variable {t : Tag} {c : Char}

theorem not_mem_attributes (h : t.Tidy) (hc : c ∈ ['<', '>', '\ue000']) :
    c ∉ bareStyle.attributes t.attributes := by
  have hapart : ∀ d ∈ ['<', '>', '\ue000'], isNameLetter d = false ∧ d ∉ [' ', '=', '"'] := by
    decide
  obtain ⟨hletter, hmarks⟩ := hapart c hc
  intro hm
  obtain ⟨⟨name, value⟩, ha, hm⟩ := List.mem_flatMap.mp hm
  obtain ⟨hn, hv⟩ := h.attributes _ ha
  cases value with
  | text value =>
    have hquote : '"' ∉ value.toList := not_mem_of_lacks hv (by decide)
    have hvalue : c ∉ value.toList := not_mem_of_lacks hv (List.mem_cons_of_mem _ hc)
    have hname : c ∉ name.toList := not_mem_of_isLegible hn hletter
    have htext := OpenTag.attributeText_bare name value hquote []
    rw [List.append_nil] at htext
    rw [htext] at hm
    simp only [List.mem_cons, List.mem_append, hname, hvalue, List.not_mem_nil, false_or,
      or_false] at hm
    refine hmarks ?_
    rcases hm with rfl | rfl | rfl | rfl <;> decide
  | _ => cases hv

theorem not_mem_name (h : t.Tidy) (hc : c ∈ ['<', '>', '\ue000']) : c ∉ t.name.toList := by
  have hapart : ∀ d ∈ ['<', '>', '\ue000'], isNameLetter d = false := by decide
  exact not_mem_of_isLegible h.legible (hapart c hc)

end Tag.Tidy

namespace Part

theorem Tidy.exists_inside {p : Part} (h : p.Tidy) (ht : p.isText = false) :
    ∃ inside, p.write = '<' :: inside ∧ '<' ∉ inside := by
  cases p with
  | leaf kind content =>
    cases kind with
    | text => cases ht
    | comment =>
      have hcontent : '<' ∉ content.toList := not_mem_of_lacks h (by decide)
      refine ⟨"!--".toList ++ content.toList ++ "-->".toList, rfl, ?_⟩
      simp [hcontent]
    | leadingDocType =>
      have hcontent : '<' ∉ content.toList := not_mem_of_isLegible h rfl
      refine ⟨"!DOCTYPE ".toList ++ content.toList ++ ['>'], rfl, ?_⟩
      simp [hcontent]
    | _ => exact absurd h id
  | startTag t =>
    have h : t.Tidy := h
    refine ⟨t.name.toList ++ bareStyle.attributes t.attributes ++ ending t, rfl, ?_⟩
    have hending : '<' ∉ ending t := by
      unfold ending
      split <;> decide
    simp [h.not_mem_name, h.not_mem_attributes, hending]
  | endTag t =>
    have h : t.Tidy := h.1
    refine ⟨'/' :: t.name.toList ++ ['>'], rfl, ?_⟩
    simp [h.not_mem_name]

theorem Tidy.not_mem_text {p : Part} (h : p.Tidy) (ht : p.isText = true) :
    '<' ∉ p.write := by
  cases p with
  | leaf kind content =>
    cases kind with
    | text kind =>
      rw [write, Style.leaf_text]
      exact not_mem_of_lacks h (by decide)
    | _ => cases ht
  | _ => cases ht

theorem Tidy.not_mem_placeholder {p : Part} (h : p.Tidy) : '\ue000' ∉ p.write := by
  cases p with
  | leaf kind content =>
    cases kind with
    | text kind =>
      rw [write, Style.leaf_text]
      exact not_mem_of_lacks h (by decide)
    | comment =>
      have hcontent : '\ue000' ∉ content.toList := not_mem_of_lacks h (by decide)
      have hwritten : (leaf .comment content).write =
        "<!--".toList ++ content.toList ++ "-->".toList := rfl
      rw [hwritten, List.mem_append, List.mem_append, not_or, not_or]
      exact ⟨⟨by decide, hcontent⟩, by decide⟩
    | leadingDocType =>
      have hcontent : '\ue000' ∉ content.toList := not_mem_of_isLegible h rfl
      have hwritten : (leaf .leadingDocType content).write =
        "<!DOCTYPE ".toList ++ content.toList ++ ['>'] := rfl
      rw [hwritten, List.mem_append, List.mem_append, not_or, not_or]
      exact ⟨⟨by decide, hcontent⟩, by decide⟩
    | _ => exact absurd h id
  | startTag t =>
    have h : t.Tidy := h
    have hending : '\ue000' ∉ ending t := by
      unfold ending
      split <;> decide
    simp [write, Style.startTag, h.not_mem_name, h.not_mem_attributes, hending]
  | endTag t =>
    have h : t.Tidy := h.1
    simp [write, Style.endTag, h.not_mem_name]

end Part

/-- Wherever a `<` stands a part begins. -/
theorem exists_part_of_suffix {parts : List Part} (h : ∀ p ∈ parts, p.Tidy) {s : List Char}
    (hs : '<' :: s <:+ parts.flatMap Part.write) :
    ∃ p rest, p :: rest <:+ parts ∧ p.isText = false ∧
      '<' :: s = p.write ++ rest.flatMap Part.write := by
  induction parts with
  | nil => cases List.suffix_nil.mp hs
  | cons p parts ih =>
    obtain ⟨hp, hparts⟩ := List.forall_mem_cons.mp h
    have later (hs : '<' :: s <:+ parts.flatMap Part.write) : ∃ q rest, q :: rest <:+ p :: parts ∧
        q.isText = false ∧ '<' :: s = q.write ++ rest.flatMap Part.write := by
      obtain ⟨q, rest, hq, hapart, he⟩ := ih hparts hs
      exact ⟨q, rest, hq.trans (List.suffix_cons p parts), hapart, he⟩
    rw [List.flatMap_cons] at hs
    cases ht : p.isText with
    | true => exact later (Text.suffix_of_not_mem (hp.not_mem_text ht) hs)
    | false =>
      obtain ⟨inside, hi, hn⟩ := hp.exists_inside ht
      rw [hi, List.cons_append] at hs
      rcases List.suffix_cons_iff.mp hs with he | hs
      · exact ⟨p, parts, List.suffix_rfl, ht, by rw [hi, List.cons_append, he]⟩
      · exact later (Text.suffix_of_not_mem hn hs)

-- ---------------------------------------------------------------------------
-- Names at the start of a part

theorem isNameLetter_of_mem {name : String} (h : isLegible name = true) :
    ∀ c ∈ name.toList, isNameLetter c = true := by
  rw [isLegible, Bool.and_eq_true, List.all_eq_true] at h
  exact h.2

theorem toList_lowerString {name : String} (h : isLegible name = true) :
    (lowerString name).toList = name.toList.map Char.toLower := by
  have hascii : ∀ c ∈ name.toList, c.toNat < 0x80 := fun c hc =>
    ascii_of_isNameLetter (isNameLetter_of_mem h c hc)
  rw [Text.lowerString, Text.lower_of_ascii hascii, String.toList_ofList]

/-- What stands behind the name of a start tag, up to its end. -/
def Part.behindName (t : Tag) : List Char :=
  bareStyle.attributes t.attributes ++ ending t

theorem Tag.Tidy.exists_behindName {t : Tag} (h : t.Tidy) :
    ∃ c tail, Part.behindName t = c :: tail ∧ c ∈ [' ', '/', '>'] := by
  unfold Part.behindName
  cases ha : t.attributes with
  | nil =>
    unfold Part.ending
    split
    · exact ⟨'/', ['>'], rfl, by decide⟩
    · exact ⟨'>', [], rfl, by decide⟩
  | cons a more =>
    obtain ⟨name, value⟩ := a
    have hv := (h.attributes _ (ha ▸ List.mem_cons_self)).2
    cases value with
    | text value => exact ⟨' ', _, rfl, by decide⟩
    | _ => cases hv

namespace Part

/-- The name of a start tag; other parts have none there. -/
def name : Part → List Char
  | startTag t => t.name.toList
  | _ => []

theorem Tidy.exists_behind {p : Part} (h : p.Tidy) (ht : p.isText = false) :
    ∃ c tail, p.write = '<' :: (p.name ++ c :: tail) ∧ c ∈ ['!', ' ', '/', '>'] ∧
      (p.name = [] → Text.isBlank c = false) := by
  cases p with
  | leaf kind content =>
    cases kind with
    | text => cases ht
    | comment => exact ⟨'!', _, rfl, by decide, fun _ => rfl⟩
    | leadingDocType => exact ⟨'!', _, rfl, by decide, fun _ => rfl⟩
    | _ => exact absurd h id
  | startTag t =>
    have h : t.Tidy := h
    obtain ⟨c, tail, hb, hc⟩ := h.exists_behindName
    refine ⟨c, tail, ?_, List.mem_cons_of_mem _ hc, fun hn => ?_⟩
    · rw [name, ← hb, write, Style.startTag, behindName, List.append_assoc]
      rfl
    · obtain ⟨_, _, hletters, -⟩ := exists_of_isLegible h.legible
      cases hletters.symm.trans hn
  | endTag t => exact ⟨'/', _, rfl, by decide, fun _ => rfl⟩

theorem Tidy.isNameLetter_name {p : Part} (h : p.Tidy) :
    ∀ c ∈ p.name, isNameLetter c = true := by
  cases p with
  | startTag t =>
    have h : t.Tidy := h
    exact isNameLetter_of_mem h.legible
  | _ => exact fun _ => nofun

theorem write_startTag (t : Tag) :
    (startTag t).write = '<' :: (t.name.toList ++ behindName t) := by
  simp [write, Style.startTag, behindName]

theorem Tidy.of_spelling? {p : Part} (h : p.Tidy) (ht : p.isText = false)
    {s rest word spelled after : List Char} (hs : '<' :: s = p.write ++ rest)
    (hword : Text.spelling? word s = some (spelled, after)) (hne : word ≠ [])
    (hunlike : ∀ c ∈ ['!', ' ', '/', '>'], ∀ w ∈ word, Text.isLike w c = false)
    (hend : ∀ c ∈ after.head?, isNameLetter c = false) :
    ∃ t, p = .startTag t ∧ (lowerString t.name).toList = word ∧ spelled = t.name.toList ∧
      after = behindName t ++ rest := by
  obtain ⟨c, tail, hw, hc, -⟩ := h.exists_behind ht
  have hletters := h.isNameLetter_name
  rw [hw, List.cons_append, List.append_assoc, List.cons_append] at hs
  obtain rfl := (List.cons.inj hs).2
  obtain ⟨more, hname, hafter, hlower⟩ := Text.of_spelling?_name
    (fun d hd => ascii_of_isNameLetter (hletters d hd)) (hunlike c hc) hword
  obtain rfl : more = [] := by
    cases more with
    | nil => rfl
    | cons d more =>
      have hd := hletters d (hname ▸ List.mem_append_right _ List.mem_cons_self)
      rw [hend d (by rw [hafter]; rfl)] at hd
      cases hd
  rw [List.append_nil] at hname
  cases p with
  | startTag t =>
    have h : t.Tidy := h
    rw [write_startTag] at hw
    have hbehind : behindName t = c :: tail := List.append_cancel_left (List.cons.inj hw).2
    refine ⟨t, rfl, ?_, hname.symm, ?_⟩
    · rw [toList_lowerString h.legible, ← hlower, ← hname]
      rfl
    · rw [hafter, hbehind]
      rfl
  | _ =>
    rw [← hname] at hlower
    exact absurd hlower.symm hne

end Part

end Mailgrid.Markup
