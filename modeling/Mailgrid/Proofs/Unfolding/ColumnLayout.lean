import Mailgrid.Proofs.Unfolding.Inside

/-!
# The layout of columns

A column is numbered among its siblings, of which some may have been turned into
cells already. Each cell counts as the one column that it was, so a column finds
as many columns before and behind it as there were in the beginning; and a row
that has become a table is still found to be a row. So what a column becomes does
not depend on what has been expanded before it.
-/

namespace Mailgrid

open Expansion
open Markup (Element Forest Node Place Tag)

namespace Expansion

/-- The columns among the outermost elements, in order. -/
def columnElements (f : Forest α) : List (Element α) :=
  f.elements.filter fun e => isColumnTag e.tag

/-- Is there a row in the forest? -/
def hasRows (f : Forest α) : Bool :=
  f.descendants.any fun e => isRow (.standard 0) e.tag

variable {α : Type} {s : Spot α} {new f g : Forest α} {through : α → Tag → Prop} {before : Nat}

theorem columnElements_append (f g : Forest α) :
    columnElements (f ++ g) = columnElements f ++ columnElements g := by
  rw [columnElements, Forest.elements_append, List.filter_append]
  rfl

theorem columnElements_element (m : α) (t : Tag) (children next : Forest α) :
    columnElements (.element m t children next) =
      if isColumnTag t then ⟨m, t, children⟩ :: columnElements next else columnElements next :=
  List.filter_cons

theorem length_columnElements (f : Forest α) : (columnElements f).length = columnCount f :=
  List.countP_eq_length_filter.symm

-- ---------------------------------------------------------------------------
-- Columns after a change

/-- What a column is after a change: itself, as it was or with the change inside; or what has come
in its place. -/
inductive ColumnAfter (s : Spot α) (new : Forest α) (through : α → Tag → Prop) :
    Element α → Element α → Prop where
  | same (e : Element α) : ColumnAfter s new through e e
  | inside {m : α} {t : Tag} {f g : Forest α} (rest : Replaced s new through 0 f g) :
      ColumnAfter s new through ⟨m, t, f⟩ ⟨m, t, g⟩
  | here {e : Element α} (column : isColumnTag s.tag = true) :
      ColumnAfter s new through ⟨s.mark, s.tag, s.children⟩ e

/-- If what comes in the place of an element counts as the element does, then each column stays in
its place. -/
theorem Replaced.columnElements (h : Replaced s new through before f g)
    (hn : columnCount new = (isColumnTag s.tag).toNat) :
    List.Forall₂ (ColumnAfter s new through) (columnElements f) (columnElements g) := by
  have hsame (l : List (Element α)) : List.Forall₂ (ColumnAfter s new through) l l :=
    List.forall₂_same.mpr fun e _ => .same e
  induction h with
  | here =>
    rw [columnElements_append, columnElements_element]
    rw [← length_columnElements] at hn
    cases hc : isColumnTag s.tag with
    | false =>
      rw [hc] at hn
      rw [List.length_eq_zero_iff.mp hn, if_neg Bool.false_ne_true]
      exact hsame _
    | true =>
      rw [hc] at hn
      obtain ⟨e, he⟩ := List.length_eq_one_iff.mp hn
      rw [he, if_pos rfl]
      exact .cons (.here hc) (hsame _)
  | leaf _ _ _ _ ih => exact ih
  | inside _ _ _ rest =>
    rw [columnElements_element, columnElements_element]
    split
    · exact .cons (.inside rest) (hsame _)
    · exact hsame _
  | behind _ _ _ ih =>
    rw [columnElements_element, columnElements_element]
    split
    · exact .cons (.same _) ih
    · exact ih

theorem mem_marks_of_mem_columnElements {e : Element α} (he : e ∈ columnElements f) :
    e.mark ∈ f.marks :=
  (Forest.marks_sublist_of_mem (Forest.mem_descendants_of_mem_elements
    (List.mem_of_mem_filter he))).subset List.mem_cons_self

-- ---------------------------------------------------------------------------
-- The place of a column

section
variable [BEq α] [LawfulBEq α]

theorem exists_place_of_columnElements {left right : List (Element α)} {x : Element α}
    (hf : columnElements f = left ++ x :: right) (hn : f.marks.Nodup)
    (around : List (Element α)) : ∃ before after,
      f.placeAfter? (fun m _ => m == x.mark) around =
        some ⟨x.mark, .element x.tag x.children, before, after⟩ ∧
      before.countP (fun e => isColumnTag e.tag) =
        left.length + around.countP (fun e => isColumnTag e.tag) ∧
      after.countP (fun e => isColumnTag e.tag) = right.length := by
  induction f generalizing left around with
  | nil => exact absurd hf (by simp [columnElements, Forest.elements])
  | leaf m kind content next ih =>
    obtain ⟨hm, hnext⟩ := List.nodup_cons.mp hn
    have hx : x ∈ columnElements next := by
      rw [show columnElements next = left ++ x :: right from hf]
      exact List.mem_append_right _ List.mem_cons_self
    have hmem : x.mark ∈ next.marks := mem_marks_of_mem_columnElements hx
    have hne : m ≠ x.mark := fun h => hm (h ▸ hmem)
    rw [Forest.placeAfter?, if_neg (by simpa using hne)]
    exact ih hf hnext around
  | element m t children next _ ih =>
    simp only [Forest.marks, List.nodup_cons, List.mem_append, not_or, List.nodup_append] at hn
    obtain ⟨⟨-, hmn⟩, -, hnext, hdisjoint⟩ := hn
    rw [columnElements_element] at hf
    -- a column further on is neither this element nor anything in it
    have hbehind {l : List (Element α)} (hl : columnElements next = l ++ x :: right) :
        m ≠ x.mark ∧ x.mark ∉ children.marks := by
      have hx : x ∈ columnElements next := hl ▸ List.mem_append_right _ List.mem_cons_self
      have hmem : x.mark ∈ next.marks := mem_marks_of_mem_columnElements hx
      exact ⟨fun h => hmn (h ▸ hmem), fun h => hdisjoint _ h _ hmem rfl⟩
    rw [Forest.placeAfter?]
    cases hc : isColumnTag t with
    | false =>
      rw [hc, if_neg Bool.false_ne_true] at hf
      obtain ⟨hne, hnot⟩ := hbehind hf
      rw [if_neg (by simpa using hne), Forest.placeAfter?_of_not_mem hnot]
      have hcount : (⟨m, t, children⟩ :: around).countP (fun e => isColumnTag e.tag) =
          around.countP fun e => isColumnTag e.tag := by
        rw [List.countP_cons, if_neg (by simp [hc]), Nat.add_zero]
      rw [← hcount]
      exact ih hf hnext _
    | true =>
      rw [hc, if_pos rfl] at hf
      cases left with
      | nil =>
        obtain ⟨rfl, hright⟩ := List.cons.inj hf
        rw [if_pos (beq_self_eq_true m)]
        refine ⟨around, next.elements, rfl, (Nat.zero_add _).symm, ?_⟩
        rw [← hright, length_columnElements]
        rfl
      | cons first left =>
        obtain ⟨-, hf⟩ := List.cons.inj hf
        obtain ⟨hne, hnot⟩ := hbehind hf
        rw [if_neg (by simpa using hne), Forest.placeAfter?_of_not_mem hnot]
        have hcount : (⟨m, t, children⟩ :: around).countP (fun e => isColumnTag e.tag) =
            around.countP (fun e => isColumnTag e.tag) + 1 := by
          rw [List.countP_cons, if_pos (by simp [hc])]
        obtain ⟨front, back, hplace, hfront, hback⟩ := ih hf hnext (⟨m, t, children⟩ :: around)
        refine ⟨front, back, hplace, ?_, hback⟩
        rw [hfront, hcount, List.length_cons]
        omega

end

end Expansion

-- ---------------------------------------------------------------------------
-- Expansions inside one element

/-- A draft in which an element holds a plain forest. -/
structure Draft.Hosts (d : Draft) (parent : Nat) (t : Tag) (f : Forest Nat) : Prop where
  marked : d.document.Marked
  format : d.document.format = Format.standard
  unsettled : d.settled = []
  mem : ⟨parent, t, f⟩ ∈ d.document.content.descendants
  plain : f.Plain

section
variable {width : Int} {d e : Draft} {p : Pending} {parent mark : Nat} {host : Tag}
  {f : Forest Nat}

/-- A component inside the element is replaced by what it becomes, and the element stays. -/
theorem Draft.Hosts.step (hd : d.Hosts parent host f) (within : mark ∈ f.marks)
    (chosen : (Unfolder.standard width).chosen? d mark = some p) (hk : p.kind ≠ .center)
    (hitem : p.kind ≠ .menuItem) : ∃ s new g e,
      s.mark = mark ∧ s.tag.Plain ∧ Component.named? s.tag.name = some p.kind ∧
      (Unfolder.standard width).expand d p = .ok e ∧
      Replaced s new (fun m _ => (m == mark) = false) 0 f g ∧
      e.document.content = d.document.content.replace (· == mark) new ∧
      new.bare = resultOf width p.kind s.tag s.children (neighboursOf s.before s.next)
        s.children.bare ∧
      columnCount new = (isColumnTag s.tag).toNat ∧
      e.Hosts parent host g := by
  obtain ⟨hmarked, hformat, hsettled, hmem, hplain⟩ := hd
  obtain ⟨hplace, t, children, hnode, hkind⟩ := Unfolder.place_of_chosen? chosen
  rw [Unfolder.kindOf?_standard] at hkind
  have hnamed := named_of_pendingKind hkind
  have hmark : p.place.mark = mark := by simpa using Forest.wanted_of_place? hplace
  have hl (m : Nat) (t : Tag) (_ : Forest Nat) : (m == mark) = (fun m (_ : Tag) => m == mark) m t :=
    rfl
  -- the place in the document is the one in the element
  have hplace' : f.place? (fun m _ => m == mark) = some p.place := by
    rw [Forest.place?, Forest.placeAfter?_inside hmarked.nodup hmem within] at hplace
    exact hplace
  have hnodup : f.marks.Nodup :=
    (hmarked.nodup.sublist (Forest.marks_sublist_of_mem hmem)).of_cons
  obtain ⟨next, hafter, hreplaced⟩ := replaced_of_placeAfter? hl hplace' hnodup hnode
  obtain ⟨_, hg⟩ := hreplaced .nil
  obtain ⟨ht, -, hc⟩ := hg.plain_spot hplain
  obtain ⟨new, hexpand, hb⟩ := expand_component width hformat hnode hnamed hk ht hc
  rw [hafter, neighbours_standard] at hb
  have hbare : (new.number d.document.next).1.bare = _ := (Forest.bare_number new _).trans hb
  obtain ⟨g, hg⟩ := hreplaced (new.number d.document.next).1
  have hnot : t.name = "item" → t.hasClass "columns" = false := by
    intro hn
    rw [hn] at hnamed
    exact absurd (Option.some.inj hnamed).symm hitem
  obtain ⟨hnil, htop, hcount, hnew⟩ := outside_of_bare hbare hk ht hnamed hnot hc
  -- in the whole document the marks make way for new ones
  obtain ⟨_, -, hwhole⟩ := replaced_of_placeAfter? hl hplace hmarked.nodup hnode
  obtain ⟨whole, hwhole⟩ := hwhole (new.number d.document.next).1
  rw [hwhole.eq_replace] at hexpand
  refine ⟨_, _, g, _, hmark, ht, hnamed, hexpand, hg, ?_, hbare, hcount, ?_, hformat, hsettled, ?_,
    hg.plain htop hnil hnew hplain⟩
  · rw [← hmark]
    exact hwhole.eq_replace.symm
  · obtain ⟨front, back, hf, hb⟩ := hwhole.marks_eq
    exact hmarked.of_replaced hf rfl hb
  · have hin := Forest.mem_replace_inside hmarked.nodup hmem within (new.number d.document.next).1
    rw [← hmark, hg.eq_replace, hwhole.eq_replace] at hin
    exact hin

end

-- ---------------------------------------------------------------------------
-- Any order

/-- Drafts that are reached from another one by expanding columns that an element holds and rows
anywhere in it, one after the other in any order, with the marks of those columns. -/
inductive Unfolder.LaidOut (u : Unfolder) (parent : Nat) (start : Draft) :
    List Nat → Draft → Prop where
  | start : LaidOut u parent start [] start
  | column {done : List Nat} {mark : Nat} {d e : Draft} {p : Pending} {host : Element Nat}
      (before : LaidOut u parent start done d) (mem : host ∈ d.document.content.descendants)
      (hosts : host.mark = parent) (top : mark ∈ host.children.topMarks)
      (chosen : u.chosen? d mark = some p) (kind : p.kind = .columns)
      (expanded : u.expand d p = .ok e) : LaidOut u parent start (mark :: done) e
  | row {done : List Nat} {mark : Nat} {d e : Draft} {p : Pending} {host : Element Nat}
      (before : LaidOut u parent start done d) (mem : host ∈ d.document.content.descendants)
      (hosts : host.mark = parent) (within : mark ∈ host.children.marks)
      (chosen : u.chosen? d mark = some p) (kind : p.kind = .row)
      (expanded : u.expand d p = .ok e) : LaidOut u parent start done e

namespace Expansion

/-- The column has been expanded, or it is there as it was but for rows that have become tables. -/
def Remains (done : List Nat) (c x : Element Nat) : Prop :=
  c.mark ∈ done ∨ x.mark = c.mark ∧ x.tag = c.tag ∧ hasRows x.children = hasRows c.children

theorem forall₂_remains {R : Element Nat → Element Nat → Prop} {done later : List Nat}
    {cs xs ys : List (Element Nat)} (h : List.Forall₂ (Remains done) cs xs)
    (hr : List.Forall₂ R xs ys)
    (step : ∀ {c x y}, x ∈ xs → Remains done c x → R x y → Remains later c y) :
    List.Forall₂ (Remains later) cs ys := by
  induction h generalizing ys with
  | nil =>
    cases hr
    exact .nil
  | cons hc _ ih =>
    cases hr with
    | cons hxy hrest =>
      refine .cons (step List.mem_cons_self hc hxy) (ih hrest fun hx => ?_)
      exact step (List.mem_cons_of_mem _ hx)

theorem Replaced.hasRows_eq {s : Spot Nat} {new f g : Forest Nat} {through : Nat → Tag → Prop}
    {before : Nat} {around : Neighbours} (width : Int)
    (h : Replaced s new through before f g) (ht : s.tag.Plain) (hn : s.tag.name = "row")
    (hb : new.bare = resultOf width .row s.tag s.children around s.children.bare) :
    hasRows g = hasRows f := by
  have hkeeps : keepsRows s.tag = true := by
    rw [keepsRows, hn]
    rfl
  obtain ⟨rest, hf, hg⟩ := h.any_tags (isRow (.standard 0))
  have hrow : s.tag.name = Component.row.standardTag := hn
  have hempty : Component.row.keepsContent = false → s.children.isNil = true :=
    fun h => Bool.noConfusion h
  have hnew := any_rows_resultOf width ht hrow (by decide) (by decide)
    (fun h => absurd h.1 (by decide)) hkeeps hempty around s.children.bare (Forest.isNil_bare _)
  rw [← hb, any_tags_bare, any_tags_bare] at hnew
  rw [hasRows, hasRows, hf, hg, hnew]

end Expansion

/-- The element holds each of its columns in the place where it was in the beginning. -/
def Draft.Lays (d : Draft) (parent : Element Nat) (done : List Nat) : Prop :=
  ∃ f, d.Hosts parent.mark parent.tag f ∧
    List.Forall₂ (Remains done) (columnElements parent.children) (columnElements f)

section
variable {width : Int} {d e : Draft} {p : Pending} {parent host : Element Nat} {done : List Nat}
  {mark : Nat}

theorem Draft.Hosts.children_eq {t : Tag} {f : Forest Nat} (hd : d.Hosts parent.mark t f)
    (mem : host ∈ d.document.content.descendants) (hosts : host.mark = parent.mark) :
    host.children = f :=
  congrArg Element.children (Forest.eq_of_mark_eq hd.marked.nodup mem hd.mem hosts)

theorem Draft.Lays.column (h : d.Lays parent done) (mem : host ∈ d.document.content.descendants)
    (hosts : host.mark = parent.mark) (top : mark ∈ host.children.topMarks)
    (chosen : (Unfolder.standard width).chosen? d mark = some p) (kind : p.kind = .columns)
    (expanded : (Unfolder.standard width).expand d p = .ok e) : e.Lays parent (mark :: done) := by
  obtain ⟨f, hd, hcolumns⟩ := h
  obtain rfl := hd.children_eq mem hosts
  have hnodup := (hd.marked.nodup.sublist (Forest.marks_sublist_of_mem hd.mem)).of_cons
  obtain ⟨s, new, g, e', hmark, -, -, hexpand, hg, -, -, hcount, he⟩ :=
    hd.step (Forest.topMarks_subset _ top) chosen (kind ▸ by decide) (kind ▸ by decide)
  cases hexpand.symm.trans expanded
  refine ⟨g, he, forall₂_remains hcolumns (hg.columnElements hcount) fun {c x y} hx hc hy => ?_⟩
  rcases hc with hc | ⟨hxc, hrest⟩
  · exact .inl (List.mem_cons_of_mem _ hc)
  cases hy with
  | same => exact .inr ⟨hxc, hrest⟩
  | inside rest =>
    have hin := rest.mem_marks
    rw [hmark] at hin
    exact absurd top (Forest.not_mem_topMarks hnodup (List.mem_of_mem_filter hx) hin)
  | here => exact .inl (List.mem_cons.mpr (.inl (hxc.symm.trans hmark)))

theorem Draft.Lays.row (h : d.Lays parent done) (mem : host ∈ d.document.content.descendants)
    (hosts : host.mark = parent.mark) (within : mark ∈ host.children.marks)
    (chosen : (Unfolder.standard width).chosen? d mark = some p) (kind : p.kind = .row)
    (expanded : (Unfolder.standard width).expand d p = .ok e) : e.Lays parent done := by
  obtain ⟨f, hd, hcolumns⟩ := h
  obtain rfl := hd.children_eq mem hosts
  obtain ⟨s, new, g, e', hmark, ht, hnamed, hexpand, hg, -, hb, hcount, he⟩ :=
    hd.step within chosen (kind ▸ by decide) (kind ▸ by decide)
  cases hexpand.symm.trans expanded
  rw [kind] at hnamed hb
  have hname : s.tag.name = "row" := Component.named?_eq_some.mp hnamed
  refine ⟨g, he, forall₂_remains hcolumns (hg.columnElements hcount) fun {c x y} hx hc hy => ?_⟩
  cases hy with
  | same => exact hc
  | inside rest =>
    refine hc.imp_right fun h => ⟨h.1, h.2.1, ?_⟩
    exact (rest.hasRows_eq width ht hname hb).trans h.2.2
  | here column =>
    have hth : s.tag.name ≠ "th" := by
      rw [hname]
      decide
    rw [isColumnTag_of_ne hth, hname] at column
    exact absurd column (by decide)

theorem Unfolder.LaidOut.lays {start : Draft}
    (h : (Unfolder.standard width).LaidOut parent.mark start done d)
    (hstart : start.Lays parent []) : d.Lays parent done := by
  induction h with
  | start => exact hstart
  | column _ mem hosts top chosen kind expanded ih => exact ih.column mem hosts top chosen kind expanded
  | row _ mem hosts within chosen kind expanded ih => exact ih.row mem hosts within chosen kind expanded

end

-- ---------------------------------------------------------------------------
-- What a column becomes

namespace Expansion

/-- The cell that a column becomes, around what is inside it, with or without an expander. -/
def columnCell (th : Tag) (expanded : Bool) (inner : Forest Unit) : Forest Unit :=
  .element () th (.element () ⟨"table", [], false⟩ (.element () ⟨"tbody", [], false⟩
    (.element () ⟨"tr", [], false⟩ (.element () ⟨"th", [], false⟩ inner
      (if expanded then
        .leaf () (.text .plain) "\n"
          (.element () ⟨"th", [("class", .text "expander")], false⟩ .nil .nil)
      else .nil)) .nil) .nil) .nil) .nil

theorem forest_columns (classes : List String) (attributes : List (String × String))
    (expanded : Bool) (inner : Forest Unit) :
    (columns classes attributes expanded inside).forest inner =
      columnCell (Template.tag "th" (("class", " ".intercalate classes) :: attributes))
        expanded inner := by
  have hinner : Template.pieceForest inner "" ++ Forest.nil = inner := Forest.append_nil inner
  cases expanded with
  | false => exact congrArg (columnCell _ false) hinner
  | true => exact congrArg (columnCell _ true) hinner

theorem evenSize_eq (width : Int) (t : Tag) (total : Nat) : evenSize width t total =
    (t.filled? "large").getD ((t.filled? "small").getD (toString (Int.fdiv width total))) := by
  unfold evenSize
  cases t.filled? "large" with
  | some => rfl
  | none => cases t.filled? "small" <;> rfl

theorem wantsExpander_iff {t : Tag} : wantsExpander t = true ↔
    ∀ value ∈ t.get? "no-expander", value.shown = "false" := by
  unfold wantsExpander
  cases t.get? "no-expander" with
  | none => simp
  | some value => simp

theorem hasRows_eq_false {f : Forest α} : hasRows f = false ↔
    ∀ x ∈ f.descendants, x.tag.name ≠ "row" ∧ x.tag.hasClass "row" = false := by
  simp [hasRows, isRow, Rules.standard]

theorem columnElements_of_uncut {f : Forest α}
    (h : ∀ e ∈ f.elements, e.tag.name = "th" → e.tag.hasClass "columns" = false) :
    columnElements f = f.elements.filter fun e => e.tag.name == "columns" := by
  refine List.filter_congr fun e he => ?_
  by_cases hth : e.tag.name = "th"
  · simp [isColumnTag, isColumn, Rules.standard, hth, h e he hth]
  · exact isColumnTag_of_ne hth

theorem split_of_forall₂ {R : α → β → Prop} {left right : List α} {c : α} {ys : List β}
    (h : List.Forall₂ R (left ++ c :: right) ys) : ∃ front x back, ys = front ++ x :: back ∧
      front.length = left.length ∧ R c x ∧ back.length = right.length := by
  induction left generalizing ys with
  | nil =>
    cases h with
    | cons hx hrest => exact ⟨[], _, _, rfl, rfl, hx, hrest.length_eq.symm⟩
  | cons first left ih =>
    cases h with
    | cons _ hrest =>
      obtain ⟨front, x, back, rfl, hfront, hx, hback⟩ := ih hrest
      exact ⟨_ :: front, x, back, rfl, congrArg (· + 1) hfront, hx, hback⟩

end Expansion

section
variable {d : Draft} {parent c x : Element Nat} {left right front back : List (Element Nat)}
  {done : List Nat} {host : Tag} {f : Forest Nat}

/-- A column that has not been expanded is still there, with as many columns before it and behind it
as in the beginning. -/
theorem Draft.Lays.exists_column (h : d.Lays parent done)
    (uncut : ∀ e ∈ parent.children.elements, e.tag.name = "th" → e.tag.hasClass "columns" = false)
    (columns : (parent.children.elements.filter fun e => e.tag.name == "columns") =
      left ++ c :: right)
    (fresh : c.mark ∉ done) : ∃ f front x back,
      d.Hosts parent.mark parent.tag f ∧ columnElements f = front ++ x :: back ∧
      front.length = left.length ∧ back.length = right.length ∧ x.tag.name = "columns" ∧
      x.mark = c.mark ∧ x.tag = c.tag ∧ hasRows x.children = hasRows c.children := by
  obtain ⟨f, hd, hcolumns⟩ := h
  rw [columnElements_of_uncut uncut, columns] at hcolumns
  obtain ⟨front, x, back, hf, hfront, hx, hback⟩ := split_of_forall₂ hcolumns
  obtain ⟨hmark, htag, hrows⟩ := hx.resolve_left fresh
  have hc : c ∈ parent.children.elements.filter fun e => e.tag.name == "columns" :=
    columns ▸ List.mem_append_right left List.mem_cons_self
  have hname : x.tag.name = "columns" := by
    rw [htag]
    simpa using (List.mem_filter.mp hc).2
  exact ⟨f, front, x, back, hd, hf, hfront, hback, hname, hmark, htag, hrows⟩

theorem Draft.Hosts.expand_column (width : Int) (hd : d.Hosts parent.mark host f)
    (hf : columnElements f = front ++ x :: back) (hname : x.tag.name = "columns") : ∃ p e cell,
      (Unfolder.standard width).chosen? d x.mark = some p ∧ p.kind = .columns ∧
      (Unfolder.standard width).expand d p = .ok e ∧
      e.document.content = d.document.content.replace (· == x.mark) cell ∧
      cell.bare = resultOf width .columns x.tag x.children
        ⟨front.length == 0, back.length == 0, front.length + back.length + 1⟩
        x.children.bare := by
  have hmem : x ∈ f.elements :=
    List.mem_of_mem_filter (hf ▸ List.mem_append_right front List.mem_cons_self)
  have htop : x.mark ∈ f.topMarks := Forest.mem_topMarks_of_mem_elements hmem
  -- the column is found in the document as in the element
  obtain ⟨before, after, hplace, hbefore, hafter⟩ := exists_place_of_columnElements hf
    (hd.marked.nodup.sublist (Forest.marks_sublist_of_mem hd.mem)).of_cons []
  rw [← Forest.placeAfter?_inside hd.marked.nodup hd.mem (Forest.topMarks_subset f htop) []] at hplace
  let p : Pending := ⟨⟨x.mark, .element x.tag x.children, before, after⟩, x.tag.name, .columns⟩
  have hchosen : (Unfolder.standard width).chosen? d x.mark = some p := by
    have hkind : pendingKind d.isSettled x.mark x.tag = some .columns := by
      rw [pendingKind, Draft.isSettled, hd.unsettled, hname]
      rfl
    rw [Unfolder.chosen?, Forest.place?, hplace]
    simp only [Unfolder.pendingAt?, Unfolder.kindOf?_standard, hkind, Option.map_some, p]
  -- and it is expanded by what it finds there
  obtain ⟨ht, hchildren⟩ := hd.plain.of_mem_elements hmem
  have hnamed : Component.named? x.tag.name = some p.kind := by
    rw [hname]
    rfl
  have hkind : p.kind ≠ .center := Component.noConfusion
  obtain ⟨new, hexpand, hb⟩ :=
    expand_component width hd.format (p := p) rfl hnamed hkind ht hchildren
  have haround : neighbours (.standard width) before after =
      ⟨front.length == 0, back.length == 0, front.length + back.length + 1⟩ := by
    have hleft : before.countP (fun e => isColumn (.standard width) e.tag) = front.length := hbefore
    have hright : after.countP (fun e => isColumn (.standard width) e.tag) = back.length := hafter
    rw [neighbours, hleft, hright]
  rw [haround] at hb
  exact ⟨p, _, (new.number d.document.next).1, hchosen, rfl, hexpand, rfl,
    (Forest.bare_number new _).trans hb⟩

end

/-- Whichever columns of an element have been expanded, in whatever order, and rows in it: each other
column becomes the cell that its own attributes, its place among all columns and the rows that it
had in the beginning tell. -/
theorem Unfolder.column_layout (width : Int) {engine : Engine} {log : List Message}
    (built : Engine.build { Settings.standard with columnCount := width } .null = .ok (engine, log))
    {document : Document} (marked : document.Marked) (formats : document.format = engine.format)
    {parent : Element Nat} (mem : parent ∈ document.content.descendants)
    (plain : parent.children.Plain)
    (uncut : ∀ e ∈ parent.children.elements, e.tag.name = "th" → e.tag.hasClass "columns" = false)
    {left right : List (Element Nat)} {c : Element Nat}
    (columns : (parent.children.elements.filter fun e => e.tag.name == "columns") =
      left ++ c :: right)
    {done : List Nat} {d : Draft}
    (reached : engine.unfolder.LaidOut parent.mark ⟨document, []⟩ done d)
    (fresh : c.mark ∉ done) :
    let small := (c.tag.filled? "small").getD (toString width)
    let large := (c.tag.filled? "large").getD ((c.tag.filled? "small").getD
      (toString (Int.fdiv width (left.length + right.length + 1 : Nat))))
    ∃ p e cell th now expanded,
      engine.unfolder.chosen? d c.mark = some p ∧ engine.unfolder.expand d p = .ok e ∧
      e.document.content = d.document.content.replace (· == c.mark) cell ∧
      ⟨c.mark, c.tag, now⟩ ∈ d.document.content.descendants ∧
      cell.bare = columnCell th expanded now.bare ∧ th.name = "th" ∧
      th.get? "class" = some (.text (" ".intercalate (c.tag.classes ++
        ["small-" ++ small, "large-" ++ large, "columns"] ++
        (if left = [] then ["first"] else []) ++ if right = [] then ["last"] else []))) ∧
      (expanded = true ↔ large = toString width ∧
        (∀ x ∈ c.children.descendants, x.tag.name ≠ "row" ∧ x.tag.hasClass "row" = false) ∧
        ∀ value ∈ c.tag.get? "no-expander", value.shown = "false") ∧
      engine.unfolder.LaidOut parent.mark ⟨document, []⟩ (c.mark :: done) e := by
  intro small large
  obtain ⟨engine', hbuild, hunfolder, hformat⟩ := Unfolder.build_standard width
  cases hbuild.symm.trans built
  rw [hunfolder] at reached ⊢
  rw [hformat] at formats
  have hstart : Draft.Lays ⟨document, []⟩ parent [] :=
    ⟨parent.children, ⟨marked, formats, rfl, mem, plain⟩,
      List.forall₂_same.mpr fun x _ => .inr ⟨rfl, rfl, rfl⟩⟩
  obtain ⟨f, front, x, back, hd, hf, hfront, hback, hname, hmark, htag, hrows⟩ :=
    (reached.lays hstart).exists_column uncut columns fresh
  obtain ⟨p, e, cell, hchosen, hkind, hexpand, hcontent, hcell⟩ :=
    hd.expand_column width hf hname
  have hmem : x ∈ f.elements :=
    List.mem_of_mem_filter (hf ▸ List.mem_append_right front List.mem_cons_self)
  have htop : x.mark ∈ f.topMarks := Forest.mem_topMarks_of_mem_elements hmem
  replace hcell := hcell.trans (forest_columns _ _ _ _)
  rw [evenSize_eq, htag, hfront, hback] at hcell
  rw [← hmark]
  refine ⟨p, e, cell, _, x.children, _, hchosen, hexpand, hcontent, ?_, hcell, rfl, ?_, ?_, ?_⟩
  · rw [← htag]
    exact Forest.mem_descendants_trans hd.mem (Forest.mem_descendants_of_mem_elements hmem)
  · refine (get?_class_tag "th" [] _ ne_class_of_mem_carriedTexts).trans ?_
    cases left <;> cases right <;> rfl
  · rw [← hasRows_eq_false, ← hrows, ← wantsExpander_iff]
    simp only [hasExpander, Bool.and_eq_true, beq_iff_eq, Bool.not_eq_true', and_assoc]
    rfl
  · exact .column reached hd.mem rfl htop hchosen hkind hexpand

/-- A row of two columns, of which the second gives a size and holds a row. -/
def twoColumns : Forest Unit :=
  .element () ⟨"row", [], false⟩ (.element () ⟨"columns", [], false⟩ .nil
    (.element () ⟨"columns", [("small", .text "6")], false⟩
      (.element () ⟨"row", [], false⟩ .nil .nil) .nil)) .nil

theorem load_twoColumns : ∃ document,
    Document.load Format.standard
        "<row><columns></columns><columns small=\"6\"><row></row></columns></row>" = .ok document ∧
      document.content = (twoColumns.number 0).1 ∧ document.format = Format.standard := by
  have hplain : twoColumns.Plain := by decide
  have hread := Format.read_plain hplain none
  exact ⟨_, bind_eq_ok.mpr ⟨_, hread, rfl⟩, rfl, rfl⟩

theorem Unfolder.column_layout_twoColumns : ∃ engine document d p e cell th,
    ∃ (now : Forest Nat) (expanded : Bool),
    Engine.build { Settings.standard with columnCount := 12 } .null = .ok (engine, []) ∧
      Document.load engine.format
        "<row><columns></columns><columns small=\"6\"><row></row></columns></row>" = .ok document ∧
      engine.unfolder.LaidOut 0 ⟨document, []⟩ [2] d ∧
      engine.unfolder.chosen? d 1 = some p ∧ engine.unfolder.expand d p = .ok e ∧
      e.document.content = d.document.content.replace (· == 1) cell ∧
      cell.bare = columnCell th expanded now.bare ∧
      th.get? "class" = some (.text "small-12 large-6 columns first") ∧ expanded = false := by
  obtain ⟨engine, hbuild, -, hformat⟩ := Unfolder.build_standard 12
  obtain ⟨document, hload, hcontent, hstandard⟩ := load_twoColumns
  have hmarked := Document.marked_of_load hload
  rw [← hformat] at hload hstandard
  let host : Element Nat := ⟨0, ⟨"row", [], false⟩, (Forest.number 1 (.element ()
    ⟨"columns", [], false⟩ .nil (.element () ⟨"columns", [("small", .text "6")], false⟩
      (.element () ⟨"row", [], false⟩ .nil .nil) .nil))).1⟩
  have hmem : host ∈ document.content.descendants := by
    rw [hcontent]
    exact List.mem_cons_self
  have hplain : host.children.Plain := by decide
  have huncut : ∀ e ∈ host.children.elements, e.tag.name = "th" →
      e.tag.hasClass "columns" = false := by decide
  have hfirst : (host.children.elements.filter fun e => e.tag.name == "columns") =
      [] ++ ⟨1, _, _⟩ :: [⟨2, _, _⟩] := rfl
  have hsecond : (host.children.elements.filter fun e => e.tag.name == "columns") =
      [⟨1, _, _⟩] ++ ⟨2, _, _⟩ :: [] := rfl
  obtain ⟨_, d, _, _, _, _, -, -, -, -, -, -, -, -, hreached⟩ := column_layout 12 hbuild hmarked
    hstandard hmem hplain huncut hsecond .start List.not_mem_nil
  obtain ⟨p, e, cell, th, now, expanded, hchosen, hexpand, hreplaced, -, hcell, -, hclass,
      hexpanded, -⟩ := column_layout 12 hbuild hmarked hstandard hmem hplain huncut hfirst hreached
    (by decide)
  refine ⟨engine, document, d, p, e, cell, th, now, expanded, hbuild, hload, hreached, hchosen,
    hexpand, hreplaced, hcell, hclass, ?_⟩
  rw [Bool.eq_false_iff]
  intro h
  exact absurd (hexpanded.mp h).1 (by decide)

end Mailgrid
