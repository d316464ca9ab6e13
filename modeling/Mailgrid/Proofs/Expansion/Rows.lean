import Mailgrid.Proofs.Expansion.Result

/-!
# Rows in results

A column looks for rows in its content. What a component becomes holds a row if
the component is one or holds one. This needs that no value which comes into a
class list as the end of a word goes on with the word `row`.
-/

namespace Mailgrid

open Markup (Forest Tag wordsOf)

namespace Expansion

/-- Does a value with something in front of it, which no blank separates, list the class of rows? -/
def bringsRow (value : String) : Bool :=
  (wordsOf ("-" ++ value)).contains "row"

/-- No value that such an element puts behind a part of a class lists the class of rows. -/
def keepsRows (t : Tag) : Bool :=
  (t.name != "block-grid" || (t.filled? "up").all fun v => !bringsRow v) &&
    (t.name != "columns" || ((t.filled? "small").all fun v => !bringsRow v) &&
      (t.filled? "large").all fun v => !bringsRow v)

end Expansion

/-- Does a template have a row among its elements? -/
def Template.hasRow : Template → Bool
  | .nil => false
  | .piece _ next => next.hasRow
  | .element name attributes content next =>
    Expansion.isRow (.standard 0) (tag name attributes) || content.hasRow || next.hasRow

namespace Expansion

theorem any_rows_forest (t : Template) (inner : Forest Unit) :
    ((t.forest inner).descendants.any fun e => isRow (.standard 0) e.tag) =
      (t.hasRow || (t.places != 0 &&
        inner.descendants.any fun e => isRow (.standard 0) e.tag)) := by
  generalize hr : (inner.descendants.any fun e => isRow (.standard 0) e.tag) = rows
  have hadd (a b : Nat) : (a + b != 0) = (a != 0 || b != 0) := by
    cases a <;> cases b <;> rfl
  induction t with
  | nil => rfl
  | piece markup next ih =>
    rw [Template.forest, Forest.descendants_append, List.any_append, ih, Template.hasRow,
      Template.places, Template.pieceForest, hadd]
    split
    · rw [hr]
      cases rows <;> cases next.hasRow <;> cases next.places <;> rfl
    · rfl
  | element name attributes content next ihc ih =>
    simp only [Template.forest, Forest.descendants, List.any_cons, List.any_append, ihc, ih,
      Template.hasRow, Template.places, hadd, Bool.and_or_distrib_right]
    ac_rfl

-- ---------------------------------------------------------------------------
-- Classes of results

section
variable {t : Tag} {b : List (String × String)}

theorem hasRow_table (attributes : List (String × String)) (cells : Template) :
    (table attributes cells).hasRow =
      (isRow (.standard 0) (Template.tag "table" attributes) || cells.hasRow) := by
  change (isRow (.standard 0) (Template.tag "table" attributes) ||
    (false || (false || cells.hasRow || false) || false) || false) = _
  simp only [Bool.or_false, Bool.false_or]

theorem hasRow_append (t u : Template) : (t ++ u).hasRow = (t.hasRow || u.hasRow) := by
  change (t.append u).hasRow = _
  induction t with
  | nil => rfl
  | piece markup next ih => exact ih
  | element name attributes content next _ ih =>
    simp only [Template.append, Template.hasRow, ih, Bool.or_assoc]

theorem isRow_tag {name : String} (hn : name ≠ "row") (attributes : List (String × String)) :
    isRow (.standard 0) (Template.tag name attributes) =
      (Template.tag name attributes).classes.contains "row" := by
  have h : (some name == (some "row" : Option String)) = false := by simpa using hn
  change (some name == some "row" || _) = _
  rw [h, Bool.false_or]
  rfl

theorem isRow_of_classes {name : String} (hn : name ≠ "row") (a : List (String × String))
    (hb : ∀ x ∈ b, x.1 ≠ "class") {classes : String} {kinds more : List String}
    (hc : wordsOf classes = kinds ++ t.classes ++ more)
    (hk : kinds.contains "row" = false) (hm : more.contains "row" = false) :
    isRow (.standard 0) (Template.tag name (a ++ ("class", classes) :: b)) = t.hasClass "row" := by
  rw [isRow_tag hn, classes_tag name a classes hb, hc, List.contains_append, List.contains_append,
    hk, hm, Bool.or_false, Bool.false_or]
  rfl

theorem isRow_classText (ht : t.Plain) {name : String} (a : List (String × String))
    (kinds : List String) (hn : name ≠ "row") (hb : ∀ x ∈ b, x.1 ≠ "class")
    (hk : (kinds.flatMap wordsOf).contains "row" = false) :
    isRow (.standard 0) (Template.tag name (a ++ ("class", classText t kinds) :: b)) =
      t.hasClass "row" :=
  isRow_of_classes hn a hb ((wordsOf_classText ht kinds).trans (List.append_nil _).symm) hk rfl

theorem not_isRow {name : String} (hn : name ≠ "row") (hb : ∀ x ∈ b, x.1 ≠ "class") :
    isRow (.standard 0) (Template.tag name b) = false := by
  rw [isRow_tag hn, classes_tag_of_ne name hb]
  rfl

theorem ne_class_of_mem_target : ∀ x ∈ target t, x.1 ≠ "class" := by
  intro x hx
  unfold target at hx
  split at hx
  · obtain rfl := List.mem_singleton.mp hx
    exact (by decide : "target" ≠ "class")
  · cases hx

/-- A value behind a part of a class brings in no row unless it does so behind a dash. -/
theorem not_contains_row {value : String} (hv : bringsRow value = false) (start : String)
    {front : List Char} (hs : start.toList = front ++ ['-'])
    (hf : ∀ c ∈ front, Text.isBlank c = false) :
    (wordsOf (start ++ value)).contains "row" = false := by
  obtain ⟨word, others, hw, hfw⟩ :=
    Text.words_append_letter hf (by decide : Text.isBlank '-' = false) value.toList
  have hdash : ("-" ++ value).toList = '-' :: value.toList := by simp
  rw [bringsRow, wordsOf, hdash, hw, List.map_cons, List.contains_cons, Bool.or_eq_false_iff] at hv
  rw [wordsOf, String.toList_append, hs, List.append_assoc, List.singleton_append, hfw,
    List.map_cons, List.contains_cons, hv.2, Bool.or_false]
  refine beq_false_of_ne fun h => ?_
  have hmem : '-' ∈ "row".toList := by
    rw [h, String.toList_ofList]
    simp
  exact absurd hmem (by decide)

theorem not_bringsRow_toString (n : Int) : bringsRow (toString n) = false := by
  have hchars : ∀ c ∈ ("-" ++ toString n).toList, Text.isBlank c = false := by
    intro c hc
    have hletter : Markup.isNameLetter c = true := by
      rw [String.toList_append, List.mem_append] at hc
      rcases hc with hc | hc
      · simp at hc
        simp [Markup.isNameLetter, hc]
      · rcases mem_toString_int hc with h | h
        · change ((c.isAlpha || c.isDigit) || c == '-') = true
          rw [h, Bool.or_true, Bool.true_or]
        · simp [Markup.isNameLetter, h]
    exact (Markup.of_isNameLetter hletter).2.2.2.1
  rw [bringsRow, wordsOf, Text.words_of_not_blank hchars (by simp), List.map_singleton,
    String.ofList_toList, List.contains_cons, List.contains_nil, Bool.or_false]
  refine beq_false_of_ne fun h => ?_
  have hmem : '-' ∈ "row".toList := by
    rw [h]
    simp
  exact absurd hmem (by decide)

end

-- ---------------------------------------------------------------------------
-- Rows of frames

theorem contains_columnClasses (width : Int) {t : Tag} (ht : t.Plain) (hk : keepsRows t = true)
    (hn : t.name = "columns") (around : Neighbours) :
    (wordsOf (" ".intercalate (columnClasses (.standard width) t around
      (evenSize width t around.total)))).contains "row" = t.hasClass "row" := by
  have hsizes (name value : String) (hname : name = "small" ∨ name = "large")
      (hv : t.filled? name = some value) : bringsRow value = false := by
    simp only [keepsRows, hn, bne_self_eq_false, Bool.false_or, Bool.and_eq_true,
      Option.all_eq_true, Bool.not_eq_true'] at hk
    rcases hname with rfl | rfl
    · exact hk.2.1 value hv
    · exact hk.2.2 value hv
  have hsmall :
      bringsRow ((t.filled? "small").getD (Rules.standard width).width.shown) = false := by
    cases hv : t.filled? "small" with
    | none => exact not_bringsRow_toString width
    | some value => exact hsizes "small" value (.inl rfl) hv
  have hlarge : bringsRow (evenSize width t around.total) = false := by
    unfold evenSize
    split
    · rename_i hv; exact hsizes "large" _ (.inr rfl) hv
    · rename_i hv; exact hsizes "small" _ (.inl rfl) hv
    · exact not_bringsRow_toString _
  have hfirst (b : Bool) :
      ((if b then ["first"] else []).flatMap wordsOf).contains "row" = false := by
    cases b <;> decide
  have hlast (b : Bool) :
      ((if b then ["last"] else []).flatMap wordsOf).contains "row" = false := by
    cases b <;> decide
  have hs := @not_contains_row _ hsmall "small-" ['s', 'm', 'a', 'l', 'l'] (by decide) (by decide)
  have hl := @not_contains_row _ hlarge "large-" ['l', 'a', 'r', 'g', 'e'] (by decide) (by decide)
  have hcolumns : (wordsOf "columns").contains "row" = false := by decide
  rw [Markup.wordsOf_intercalate, columnClasses]
  simp only [List.flatMap_append, List.flatMap_cons, List.flatMap_nil, List.contains_append,
    ht.classes.1, hs, hl, hcolumns, hfirst, hlast, Bool.or_false, List.contains_nil]
  rfl

theorem hasRow_linked (t : Tag) {a : List (String × String)} (ha : ∀ x ∈ a, x.1 ≠ "class") :
    (linked a t inside).hasRow = false := by
  unfold linked
  split
  · rename_i href _
    have hclasses : ∀ x ∈ a ++ ("href", href) :: target t, x.1 ≠ "class" := by
      simp only [List.forall_mem_append, List.forall_mem_cons]
      exact ⟨ha, by decide, ne_class_of_mem_target⟩
    rw [Template.node, Template.hasRow, not_isRow (by decide) hclasses]
    rfl
  · rfl

section
variable {t : Tag} (ht : t.Plain)
include ht

theorem hasRow_classTable (a : List (String × String)) (kinds : List String)
    (hk : (kinds.flatMap wordsOf).contains "row" = false) (cells : Template) :
    (table (a ++ [("class", classText t kinds)]) cells).hasRow =
      (t.hasClass "row" || cells.hasRow) := by
  rw [hasRow_table, isRow_classText ht a kinds (by decide) (List.forall_mem_nil _) hk]

theorem hasRow_button (hw : isWide t = false) {a : List (String × String)}
    (ha : ∀ x ∈ a, x.1 ≠ "class") : (button a t inside).hasRow = t.hasClass "row" := by
  have hwide : (t.hasClass "expand" || t.hasClass "expanded") = false := hw
  have hcell (content : Template) : (cell content).hasRow = content.hasRow := by
    change (false || content.hasRow || false) = _
    rw [Bool.false_or, Bool.or_false]
  have h := hasRow_classTable ht [] ["button"] (by decide)
  rw [List.nil_append] at h
  simp only [button, hwide, Bool.false_eq_true, if_false]
  rw [h, hasRow_append, hcell, hasRow_table, hcell, hasRow_linked t ha]
  exact Bool.or_false _

theorem hasRow_menuItem (a : List (String × String)) :
    (menuItem a t inside).hasRow = t.hasClass "row" := by
  have hlink : ∀ x ∈ ("href", (t.filled? "href").getD "") :: target t, x.1 ≠ "class" :=
    List.forall_mem_cons.mpr ⟨(by decide : "href" ≠ "class"), ne_class_of_mem_target⟩
  have hcell : (Template.node "a" (("href", (t.filled? "href").getD "") :: target t)
      inside).hasRow = false := by
    rw [Template.node, Template.hasRow, not_isRow (by decide) hlink]
    rfl
  rw [menuItem, Template.node, Template.hasRow, hcell,
    isRow_classText ht a ["menu-item"] (by decide) (List.forall_mem_nil _) (by decide)]
  exact (Bool.or_false _).trans (Bool.or_false _)

theorem hasRow_callout (a : List (String × String)) :
    (callout a t inside).hasRow = t.hasClass "row" := by
  have houter :
      isRow (.standard 0) (Template.tag "table" (a ++ [("class", "callout")])) = false := by
    rw [isRow_tag (by decide), classes_tag "table" a _ (List.forall_mem_nil _)]
    decide
  have hinner := isRow_classText ht [] ["callout-inner"] (by decide : "th" ≠ "row")
    (List.forall_mem_nil _) (by decide)
  rw [callout, hasRow_table, houter, ← hinner]
  exact (Bool.false_or _).trans ((Bool.or_false _).trans (Bool.or_false _))

theorem hasRow_blockGrid (hk : keepsRows t = true) (hn : t.name = "block-grid") :
    (blockGrid t inside).hasRow = t.hasClass "row" := by
  have hkinds : (("block-grid" :: ((t.filled? "up").map ("up-" ++ ·)).toList).flatMap
      wordsOf).contains "row" = false := by
    cases hv : t.filled? "up" with
    | none => decide
    | some up =>
      have hup : bringsRow up = false := by
        simp [keepsRows, hn, hv] at hk
        exact hk
      have hgrid : (wordsOf "block-grid").contains "row" = false := by decide
      have hsize := @not_contains_row up hup "up-" ['u', 'p'] (by decide) (by decide)
      simp only [Option.map_some, Option.toList_some, List.flatMap_cons, List.flatMap_nil,
        List.contains_append, hgrid, hsize]
      rfl
  rw [blockGrid_eq]
  exact (hasRow_classTable ht [] _ hkinds inside).trans (Bool.or_false _)

theorem hasRow_spacer {a : List (String × String)} :
    (spacer a t).hasRow = t.hasClass "row" := by
  have hone (shown : String) (hs : shown ∈ ["", " hide-for-large", " show-for-large"])
      (size : String) :
      (spacerTable a (classText t ["spacer"] ++ shown) size).hasRow = t.hasClass "row" := by
    have hspacer : wordsOf (classText t ["spacer"]) = ["spacer"] ++ t.classes :=
      wordsOf_classText ht ["spacer"]
    have hwords : ∃ more, wordsOf (classText t ["spacer"] ++ shown) =
        ["spacer"] ++ t.classes ++ more ∧ more.contains "row" = false := by
      simp only [List.mem_cons, List.not_mem_nil, or_false] at hs
      rcases hs with rfl | rfl | rfl
      · exact ⟨[], by rw [String.append_empty, hspacer, List.append_nil], rfl⟩
      · refine ⟨["hide-for-large"], ?_, by decide⟩
        have h := Markup.wordsOf_append (classText t ["spacer"]) "hide-for-large"
        rw [String.append_assoc, hspacer] at h
        exact h
      · refine ⟨["show-for-large"], ?_, by decide⟩
        have h := Markup.wordsOf_append (classText t ["spacer"]) "show-for-large"
        rw [String.append_assoc, hspacer] at h
        exact h
    obtain ⟨more, hw, hm⟩ := hwords
    rw [spacerTable, hasRow_table, isRow_of_classes (by decide) a (List.forall_mem_nil _) hw
      (by decide) hm, Template.node, Template.hasRow, not_isRow (by decide) (by simp)]
    exact Bool.or_false _
  rcases spacer_cases a t with ⟨shown, hs, size, -, h⟩ | ⟨size, size', -, -, h⟩
  · rw [h, hone shown hs]
  · rw [h, hasRow_append, hone _ (by decide), hone _ (by decide), Bool.or_self]

theorem hasRow_columns (width : Int) (hk : keepsRows t = true) (hn : t.name = "columns")
    (around : Neighbours) (expanded : Bool) :
    (columns (columnClasses (.standard width) t around (evenSize width t around.total))
      (carriedTexts t) expanded inside).hasRow = t.hasClass "row" := by
  have hcolumn : isRow (.standard 0) (Template.tag "th" (("class", " ".intercalate
      (columnClasses (.standard width) t around (evenSize width t around.total))) ::
        carriedTexts t)) = t.hasClass "row" := by
    have := classes_tag "th" [] (" ".intercalate
      (columnClasses (.standard width) t around (evenSize width t around.total)))
      (ne_class_of_mem_carriedTexts (t := t))
    rw [List.nil_append] at this
    rw [isRow_tag (by decide), this, contains_columnClasses width ht hk hn]
  rw [columns, Template.node, Template.hasRow, hcolumn]
  cases expanded <;> exact (Bool.or_false _).trans (Bool.or_false _)

end

theorem hasRow_frame (width : Int) {kind : Component} {t : Tag} (ht : t.Plain)
    (hn : t.name = kind.standardTag) (hmarker : kind ≠ .marker) (hcenter : kind ≠ .center)
    (hw : ¬(kind = .button ∧ isWide t = true)) (hk : keepsRows t = true) (children : Forest α)
    (around : Neighbours) :
    (frame width kind t children around).hasRow = isRow (.standard 0) t := by
  have hclass (h : kind ≠ .row) : isRow (.standard 0) t = t.hasClass "row" := by
    have : (some t.name == (some "row" : Option String)) = false := by
      rw [hn]
      cases kind <;> first | rfl | exact absurd rfl h
    change (some t.name == some "row" || t.hasClass "row") = _
    rw [this, Bool.false_or]
  cases kind with
  | marker => exact absurd rfl hmarker
  | center => exact absurd rfl hcenter
  | line =>
    rw [hclass (by decide), ← isRow_classText ht [] ["h-line"] (by decide : "table" ≠ "row")
      (List.forall_mem_nil _) (by decide)]
    exact (Bool.or_false _).trans (Bool.or_false _)
  | row =>
    have hrow : isRow (.standard 0) (Template.tag "table" (carriedTexts t ++
        [("class", classText t ["row"])])) = true := by
      rw [isRow_tag (by decide), classes_tag "table" (carriedTexts t) _ (List.forall_mem_nil _),
        wordsOf_classText ht]
      rfl
    rw [frame, row, hasRow_table, hrow, isRow, hn]
    rfl
  | button =>
    have ha : ∀ x ∈ (if (t.filled? "href").isSome then carriedTexts t else []), x.1 ≠ "class" := by
      split
      · exact ne_class_of_mem_carriedTexts
      · exact List.forall_mem_nil _
    exact (hasRow_button ht (by simpa using hw) ha).trans (hclass (by decide)).symm
  | container =>
    have h := hasRow_classTable ht (carriedTexts t ++ [("align", "center")]) ["container"]
      (by decide) (cell inside)
    rw [List.append_assoc] at h
    exact h.trans ((Bool.or_false _).trans (hclass (by decide)).symm)
  | menu =>
    refine (hasRow_classTable ht (carriedTexts t) ["menu"] (by decide) _).trans ?_
    exact (Bool.or_false _).trans (hclass (by decide)).symm
  | wrapper =>
    rw [frame, wrapper, hasRow_table, isRow_classText ht _ _ (by decide) (by decide) (by decide)]
    exact (Bool.or_false _).trans (hclass (by decide)).symm
  | callout => exact (hasRow_callout ht _).trans (hclass (by decide)).symm
  | menuItem => exact (hasRow_menuItem ht _).trans (hclass (by decide)).symm
  | blockGrid => exact (hasRow_blockGrid ht hk hn).trans (hclass (by decide)).symm
  | spacer => exact (hasRow_spacer ht).trans (hclass (by decide)).symm
  | columns => exact (hasRow_columns ht width hk hn around _).trans (hclass (by decide)).symm

/-- What a component becomes holds a row if the component is one or holds one. Kinds that drop their
content must have none. -/
theorem any_rows_resultOf (width : Int) {kind : Component} {t : Tag} (ht : t.Plain)
    (hn : t.name = kind.standardTag) (hmarker : kind ≠ .marker) (hcenter : kind ≠ .center)
    (hw : ¬(kind = .button ∧ isWide t = true)) (hk : keepsRows t = true) {children : Forest α}
    (hempty : kind.keepsContent = false → children.isNil = true) (around : Neighbours)
    (inner : Forest Unit) (hi : inner.isNil = children.isNil) :
    ((resultOf width kind t children around inner).descendants.any fun e =>
        isRow (.standard 0) e.tag) =
      (isRow (.standard 0) t || inner.descendants.any fun e => isRow (.standard 0) e.tag) := by
  obtain ⟨-, -, hplaces⟩ := final_frame width hmarker hw children around
  rw [resultOf_of_ne width hmarker, any_rows_forest,
    hasRow_frame width ht hn hmarker hcenter hw hk, hplaces]
  cases hkeeps : kind.keepsContent with
  | true => rfl
  | false =>
    have hnil := hi.trans (hempty hkeeps)
    cases inner with
    | nil => rfl
    | _ => cases hnil

end Expansion

end Mailgrid
