import Mailgrid.Proofs.Expansion.Frame
import Mailgrid.Proofs.Markup.Refusal
import Mailgrid.Proofs.Text.Words

/-!
# Expansions bring no bracket in

Every component whose tag has no list of words has a template, and that has a
bracket only if the tag or what is inside has one. So what a template is read as
can be refused only where the document itself has a bracket.
-/

namespace Mailgrid

open Markup (Element Forest Tag bareStyle)
open Text (BracketsIf)

variable {b : Prop}

-- ---------------------------------------------------------------------------
-- Templates

namespace Template

def AttributesWithin (b : Prop) (attributes : List (String × String)) : Prop :=
  ∀ a ∈ attributes, BracketsIf b a.1.toList ∧ BracketsIf b a.2.toList

/-- Only if `b` is there a bracket in a piece, a name or a value. -/
def Within (b : Prop) : Template → Prop
  | nil => True
  | piece markup next => BracketsIf b markup.toList ∧ next.Within b
  | element name attributes content next =>
    BracketsIf b name.toList ∧ AttributesWithin b attributes ∧ content.Within b ∧ next.Within b

theorem Within.append {t u : Template} (ht : t.Within b) (hu : u.Within b) : (t ++ u).Within b := by
  change (t.append u).Within b
  induction t with
  | nil => exact hu
  | piece markup next ih => exact ⟨ht.1, ih ht.2⟩
  | element name attributes content next _ ih => exact ⟨ht.1, ht.2.1, ht.2.2.1, ih ht.2.2.2⟩

theorem Within.raw {markup : String} (h : BracketsIf b markup.toList) : (raw markup).Within b :=
  ⟨h, trivial⟩

theorem Within.node {name : String} (hn : '[' ∉ name.toList)
    {attributes : List (String × String)} (ha : AttributesWithin b attributes) {content : Template}
    (hc : content.Within b) : (node name attributes content).Within b :=
  ⟨.of_not_mem hn, ha, hc, trivial⟩

theorem AttributesWithin.write {attributes : List (String × String)}
    (h : AttributesWithin b attributes) : BracketsIf b (writeAttributes attributes).toList := by
  rw [writeAttributes, String.toList_join, List.flatMap_map]
  refine .flatMap fun a ha => ?_
  obtain ⟨name, value⟩ := a
  obtain ⟨hname, hvalue⟩ := h _ ha
  simp only [writeAttribute, String.toList_append, Text.bracketsIf_append]
  exact ⟨⟨⟨⟨.of_not_mem (by decide), hname⟩, .of_not_mem (by decide)⟩, hvalue⟩,
    .of_not_mem (by decide)⟩

theorem Within.write {t : Template} (h : t.Within b) : BracketsIf b t.write.toList := by
  induction t with
  | nil => exact .of_not_mem (by decide)
  | piece markup next ih =>
    rw [Template.write, String.toList_append, Text.bracketsIf_append]
    exact ⟨h.1, ih h.2⟩
  | element name attributes content next ihc ih =>
    obtain ⟨hname, hattributes, hcontent, hnext⟩ := h
    have hliteral {s : String} (hs : '[' ∉ s.toList) : BracketsIf b s.toList := .of_not_mem hs
    simp only [Template.write, String.toList_append, Text.bracketsIf_append, hname,
      hattributes.write, ihc hcontent, ih hnext, and_true]
    exact ⟨⟨⟨hliteral (by decide), hliteral (by decide)⟩, hliteral (by decide)⟩,
      hliteral (by decide)⟩

section
variable {attributes more : List (String × String)}

theorem attributesWithin_nil : AttributesWithin b [] := nofun

theorem AttributesWithin.cons {name value : String} (hn : '[' ∉ name.toList)
    (hv : BracketsIf b value.toList) (h : AttributesWithin b attributes) :
    AttributesWithin b ((name, value) :: attributes) :=
  List.forall_mem_cons.mpr ⟨⟨.of_not_mem hn, hv⟩, h⟩

theorem AttributesWithin.append (h : AttributesWithin b attributes)
    (h' : AttributesWithin b more) : AttributesWithin b (attributes ++ more) :=
  List.forall_mem_append.mpr ⟨h, h'⟩

end

end Template

-- ---------------------------------------------------------------------------
-- What a tag says

namespace Markup.Tag.Within

variable {t : Tag}

theorem filled (h : t.Within b) {name value : String} (hv : t.filled? name = some value) :
    BracketsIf b value.toList := by
  unfold Tag.filled? at hv
  split at hv
  · rename_i found hf
    split at hv
    · cases hv
    · cases hv
      exact (h.get? hf).shown
  · cases hv

theorem classes (h : t.Within b) : ∀ c ∈ t.classes, BracketsIf b c.toList := by
  unfold Tag.classes
  split
  · rename_i value hv
    have hvalue := h.get? hv
    have hwords {s : String} (hs : BracketsIf b s.toList) :
        ∀ c ∈ (Text.words s.toList).map String.ofList, BracketsIf b c.toList := by
      intro c hc
      obtain ⟨word, hw, rfl⟩ := List.mem_map.mp hc
      rw [String.toList_ofList]
      exact hs.of_subset fun d hd => ((Text.of_mem_words hw).2 d hd).2
    cases value with
    | words => exact hvalue.elim
    | _ => exact hwords hvalue
  · exact nofun

end Markup.Tag.Within

namespace Expansion

open Template (AttributesWithin Within attributesWithin_nil)

-- ---------------------------------------------------------------------------
-- Pieces of templates

section
variable {attributes : List (String × String)} {inner : Template}

theorem within_table (ha : AttributesWithin b attributes) (hi : inner.Within b) :
    (table attributes inner).Within b :=
  .node (by decide) ha
    (.node (by decide) attributesWithin_nil (.node (by decide) attributesWithin_nil hi))

theorem within_cell (hi : inner.Within b) : (cell inner).Within b :=
  .node (by decide) attributesWithin_nil hi

theorem within_expander {name : String} (hn : '[' ∉ name.toList) : (expander name).Within b :=
  .node hn (attributesWithin_nil.cons (by decide) (.of_not_mem (by decide))) trivial

theorem within_nextLine {name : String} (hn : '[' ∉ name.toList) :
    (nextLine ++ expander name).Within b :=
  Within.append (.raw (.of_not_mem (by decide))) (within_expander hn)

theorem within_spacerTable (ha : AttributesWithin b attributes) {classes size : String}
    (hc : BracketsIf b classes.toList) (hs : BracketsIf b size.toList) :
    (spacerTable attributes classes size).Within b := by
  have hclass : AttributesWithin b [("class", classes)] := attributesWithin_nil.cons (by decide) hc
  have hstyle :
      BracketsIf b ("font-size:" ++ size ++ "px;line-height:" ++ size ++ "px;").toList := by
    simp only [String.toList_append, Text.bracketsIf_append, hs, and_true]
    exact ⟨⟨.of_not_mem (by decide), .of_not_mem (by decide)⟩, .of_not_mem (by decide)⟩
  refine within_table (ha.append hclass) (.node (by decide) ?_ (.raw (.of_not_mem (by decide))))
  exact (attributesWithin_nil.cons (by decide) hstyle).cons (by decide) hs

theorem bracketsIf_quoteEscaped {s : String} (h : BracketsIf b s.toList) :
    BracketsIf b (quoteEscaped s).toList := by
  rw [quoteEscaped, String.toList_ofList]
  refine .flatMap fun c hc => ?_
  split
  · exact .of_not_mem (by decide)
  · exact h.of_subset (by simpa using hc)

theorem bracketsIf_toString (n : Int) : BracketsIf b (toString n).toList := by
  refine .of_not_mem fun hm => ?_
  rcases mem_toString_int hm with h | h <;> cases h

end

-- ---------------------------------------------------------------------------
-- Templates of kinds

section
variable {t : Tag} (h : t.Within b)
include h

theorem within_carried : Yields b (AttributesWithin b) (carried t) := by
  have hvalues : carried t = .ok ((t.attributes.filter fun a => !consumed.contains a.1).map
      fun a => (a.1, quoteEscaped a.2.shown)) := by
    refine mapM_eq_ok fun a ha => ?_
    obtain ⟨name, value⟩ := a
    have hvalue := (h.2 _ (List.mem_of_mem_filter ha)).2
    cases value with
    | words => exact hvalue.elim
    | _ => rfl
  rw [hvalues]
  refine .ok fun a ha => ?_
  obtain ⟨⟨name, value⟩, hm, rfl⟩ := List.mem_map.mp ha
  obtain ⟨hname, hvalue⟩ := h.2 _ (List.mem_of_mem_filter hm)
  exact ⟨hname, bracketsIf_quoteEscaped hvalue.shown⟩

theorem bracketsIf_classText {kinds : List String} (hk : ∀ k ∈ kinds, BracketsIf b k.toList) :
    BracketsIf b (classText t kinds).toList :=
  BracketsIf.intercalate fun s hs => (List.mem_append.mp hs).elim (hk s) (h.classes s)

theorem within_class {kind : String} (hk : '[' ∉ kind.toList) :
    AttributesWithin b [("class", classText t [kind])] :=
  attributesWithin_nil.cons (by decide)
    (bracketsIf_classText h (List.forall_mem_singleton.mpr (.of_not_mem hk)))

theorem within_target : AttributesWithin b (target t) := by
  unfold target
  split
  · rename_i value hv
    exact attributesWithin_nil.cons (by decide) (h.filled hv)
  · exact nofun

variable {attributes : List (String × String)} {inner : Template}

theorem within_line : (line t).Within b := by
  refine .node (by decide) (within_class h (by decide)) (.node (by decide) attributesWithin_nil ?_)
  exact .node (by decide) attributesWithin_nil (.raw (.of_not_mem (by decide)))

theorem within_linked (ha : AttributesWithin b attributes) (hi : inner.Within b) :
    (linked attributes t inner).Within b := by
  unfold linked
  split
  · rename_i href hv
    exact .node (by decide) (ha.append ((within_target h).cons (by decide) (h.filled hv))) hi
  · exact hi

theorem within_button (ha : AttributesWithin b attributes) (hi : inner.Within b) :
    (button attributes t inner).Within b := by
  have hlink := within_linked h ha hi
  unfold button
  refine within_table (within_class h (by decide)) (.append (within_cell ?_) ?_)
  · refine within_table attributesWithin_nil (within_cell ?_)
    split
    · exact .node (by decide) attributesWithin_nil hlink
    · exact hlink
  · split
    · exact within_nextLine (by decide)
    · trivial

theorem within_blockGrid (hi : inner.Within b) : (blockGrid t inner).Within b := by
  unfold blockGrid
  extract_lets kinds
  have hkinds : ∀ k ∈ kinds, BracketsIf b k.toList := by
    unfold kinds
    split
    · rename_i up hv
      have hup : BracketsIf b ("up-" ++ up).toList := by
        rw [String.toList_append, Text.bracketsIf_append]
        exact ⟨.of_not_mem (by decide), h.filled hv⟩
      exact List.forall_mem_cons.mpr ⟨.of_not_mem (by decide), List.forall_mem_singleton.mpr hup⟩
    · exact List.forall_mem_singleton.mpr (.of_not_mem (by decide))
  exact within_table (attributesWithin_nil.cons (by decide) (bracketsIf_classText h hkinds)) hi

theorem within_menuItem (ha : AttributesWithin b attributes) (hi : inner.Within b) :
    (menuItem attributes t inner).Within b := by
  have hhref : BracketsIf b ((t.filled? "href").getD "").toList := by
    cases hv : t.filled? "href" with
    | none => exact .of_not_mem (by decide)
    | some href => exact h.filled hv
  refine .node (by decide) (ha.append (within_class h (by decide))) ?_
  exact .node (by decide) ((within_target h).cons (by decide) hhref) hi

theorem within_spacer (ha : AttributesWithin b attributes) : (spacer attributes t).Within b := by
  have hclasses : BracketsIf b (classText t ["spacer"]).toList :=
    bracketsIf_classText h (List.forall_mem_singleton.mpr (.of_not_mem (by decide)))
  unfold spacer
  extract_lets classes sized
  have hsized {name shown : String} (hs : '[' ∉ shown.toList) : (sized name shown).Within b := by
    unfold sized
    split
    · rename_i size hv
      refine within_spacerTable ha ?_ (h.filled hv)
      rw [String.toList_append, Text.bracketsIf_append]
      exact ⟨hclasses, .of_not_mem hs⟩
    · trivial
  split
  · exact (hsized (by decide)).append (hsized (by decide))
  · refine within_spacerTable ha hclasses ?_
    cases hv : t.filled? "size" with
    | none => exact .of_not_mem (by decide)
    | some size => exact h.filled hv

theorem within_columns (width : Int) (around : Neighbours) {large : String}
    (hlarge : BracketsIf b large.toList) (ha : AttributesWithin b attributes) (expanded : Bool)
    (hi : inner.Within b) : (columns (columnClasses (.standard width) t around large) attributes
      expanded inner).Within b := by
  have hliteral {s : String} (hs : '[' ∉ s.toList) : BracketsIf b s.toList := .of_not_mem hs
  have hsmall : BracketsIf b
      ("small-" ++ (t.filled? "small").getD (Rules.standard width).width.shown).toList := by
    rw [String.toList_append, Text.bracketsIf_append]
    refine ⟨hliteral (by decide), ?_⟩
    cases hv : t.filled? "small" with
    | none => exact bracketsIf_toString width
    | some size => exact h.filled hv
  have hsize : BracketsIf b ("large-" ++ large).toList := by
    rw [String.toList_append, Text.bracketsIf_append]
    exact ⟨hliteral (by decide), hlarge⟩
  have hclasses : ∀ c ∈ columnClasses (.standard width) t around large,
      BracketsIf b c.toList := by
    unfold columnClasses
    simp only [List.forall_mem_append, List.forall_mem_cons]
    refine ⟨⟨⟨h.classes, hsmall, hsize, hliteral (by decide), nofun⟩, ?_⟩, ?_⟩
    · split
      · exact List.forall_mem_singleton.mpr (hliteral (by decide))
      · exact nofun
    · split
      · exact List.forall_mem_singleton.mpr (hliteral (by decide))
      · exact nofun
  have hcell : (Template.node "th" [] inner ++
      if expanded then nextLine ++ expander "th" else .nil).Within b := by
    refine .append (.node (by decide) attributesWithin_nil hi) ?_
    split
    · exact within_nextLine (by decide)
    · trivial
  refine .node (by decide) (ha.cons (by decide) (.intercalate hclasses)) ?_
  exact .node (by decide) attributesWithin_nil (.node (by decide) attributesWithin_nil
    (.node (by decide) attributesWithin_nil hcell))

theorem bracketsIf_evenSize (width : Int) (total : Nat) :
    BracketsIf b (evenSize width t total).toList := by
  unfold evenSize
  split
  · rename_i hv
    exact h.filled hv
  · rename_i hv
    exact h.filled hv
  · exact bracketsIf_toString _

theorem within_template (width : Int) (kind : Component) {children : Forest Nat}
    (hc : children.Within b) (before after : List (Element Nat)) :
    Yields b (Within b)
      (template (.standard width) Format.standard (some kind) t children before after) := by
  have hinner :
      (Template.raw (String.ofList (bareStyle.write (some t.name) children))).Within b := by
    refine .raw ?_
    rw [String.toList_ofList]
    exact hc.write _
  have hcarried := within_carried h
  cases kind with
  | line => exact .ok (within_line h)
  | marker => exact .ok (.raw (.of_not_mem (by decide +kernel)))
  | center => exact .ok (.node (by decide) attributesWithin_nil (within_cell hinner))
  | blockGrid => exact .ok (within_blockGrid h hinner)
  | row =>
    exact hcarried.bind fun ha => .ok (within_table (ha.append (within_class h (by decide))) hinner)
  | container =>
    refine hcarried.bind fun ha => .ok (within_table (ha.append ?_) (within_cell hinner))
    exact (within_class h (by decide)).cons (by decide) (.of_not_mem (by decide))
  | menu =>
    exact hcarried.bind fun ha => .ok (within_table (ha.append (within_class h (by decide)))
      (within_cell (within_table attributesWithin_nil hinner)))
  | menuItem => exact hcarried.bind fun ha => .ok (within_menuItem h ha hinner)
  | callout =>
    refine hcarried.bind fun ha => .ok (within_table (ha.append ?_) (.append ?_ ?_))
    · exact attributesWithin_nil.cons (by decide) (.of_not_mem (by decide))
    · exact .node (by decide) (within_class h (by decide)) hinner
    · exact within_expander (by decide)
  | spacer => exact hcarried.bind fun ha => .ok (within_spacer h ha)
  | wrapper =>
    refine hcarried.bind fun ha => .ok (within_table (ha.append ?_) (.node (by decide) ?_ hinner))
    · exact (attributesWithin_nil.cons (by decide) (.of_not_mem (by decide))).cons (by decide)
        (bracketsIf_classText h (List.forall_mem_singleton.mpr (.of_not_mem (by decide))))
    · exact attributesWithin_nil.cons (by decide) (.of_not_mem (by decide))
  | button =>
    rw [template]
    cases t.filled? "href" with
    | none => exact .ok (within_button h attributesWithin_nil hinner)
    | some => exact hcarried.bind fun ha => .ok (within_button h ha hinner)
  | columns =>
    refine hcarried.bind fun ha => ?_
    simp only [largeSize_standard, ok_bind]
    exact .ok (within_columns h width _ (bracketsIf_evenSize h width _) ha _ hinner)

end

end Expansion

end Mailgrid
