import Mailgrid.Expansion
import Mailgrid.Proofs.Markup.Classes
import Mailgrid.Proofs.Template.Sealed

/-!
# Frames

The frame of a component is its template with an empty piece in the place of
what is inside. It depends on the tag of the component, on its place among its
siblings, and on what is inside only as far as that holds a row.
`template_eq_fill`: the expansion of a plain component is its frame, filled.
-/

namespace Mailgrid

open Markup (AttributeValue Element Forest Quotable Tag bareStyle)

/-- The rules of an engine with the standard tags and a grid of this width. -/
def Rules.standard (width : Int) : Rules :=
  ⟨.int width, some "columns", some "row", some "item"⟩

namespace Expansion

-- ---------------------------------------------------------------------------
-- Frames

/-- The attributes that a plain element passes on. -/
def carriedTexts (t : Tag) : List (String × String) :=
  (t.attributes.filter fun (name, _) => !consumed.contains name).map fun (name, value) =>
    (name, value.shown)

/-- The place of what is inside. -/
def inside : Template :=
  .raw ""

/-- The size of a column on large screens. -/
def evenSize (width : Int) (t : Tag) (total : Nat) : String :=
  match t.filled? "large", t.filled? "small" with
  | some size, _ => size
  | none, some size => size
  | none, none => toString (Int.fdiv width total)

/-- The template around what is inside a component. -/
def frame (width : Int) (kind : Component) (t : Tag) (children : Forest α) (around : Neighbours) :
    Template :=
  match kind with
  | .line => line t
  | .row => row (carriedTexts t) t inside
  | .button => button (if (t.filled? "href").isSome then carriedTexts t else []) t inside
  | .container => container (carriedTexts t) t inside
  | .marker => .raw marker
  | .blockGrid => blockGrid t inside
  | .menu => menu (carriedTexts t) t inside
  | .menuItem => menuItem (carriedTexts t) t inside
  | .callout => callout (carriedTexts t) t inside
  | .spacer => spacer (carriedTexts t) t
  | .wrapper => wrapper (carriedTexts t) t inside
  | .columns =>
    let large := evenSize width t around.total
    columns (columnClasses (.standard width) t around large) (carriedTexts t)
      (hasExpander (.standard width) t children large) inside
  | .center => plainRow inside

-- ---------------------------------------------------------------------------
-- Templates are filled frames

theorem quoteEscaped_of_not_mem {s : String} (h : '"' ∉ s.toList) : quoteEscaped s = s := by
  have hchars : s.toList.flatMap (fun c => if c = '"' then "&quot;".toList else [c]) =
      s.toList :=
    (List.flatMap_congr fun c hc => if_neg (ne_of_mem_of_not_mem hc h)).trans
      (List.flatMap_singleton' _)
  rw [quoteEscaped, hchars, String.ofList_toList]

theorem carried_plain {t : Tag} (h : t.Plain) : carried t = .ok (carriedTexts t) := by
  obtain ⟨-, -, hattributes, -⟩ := h
  refine mapM_eq_ok fun a ha => ?_
  obtain ⟨name, value⟩ := a
  have hl := (hattributes _ (List.mem_of_mem_filter ha)).2
  cases value with
  | text s =>
    have hquote : '"' ∉ s.toList := fun hm => (Markup.isLegibleValue_text.mp hl _ hm).1 rfl
    simp only [carriedValue, AttributeValue.shown, quoteEscaped_of_not_mem hquote]
    rfl
  | _ => cases hl

theorem largeSize_standard (width : Int) (t : Tag) (total : Nat) :
    largeSize (.standard width) t total = .ok (evenSize width t total) := by
  unfold largeSize evenSize
  cases t.filled? "large" with
  | some => rfl
  | none => cases t.filled? "small" <;> rfl

section
variable (s : String)

theorem fill_append (t u : Template) : (t ++ u).fill s = t.fill s ++ u.fill s := by
  change (t.append u).fill s = (t.fill s).append (u.fill s)
  induction t with
  | nil => rfl
  | piece markup next ih => rw [Template.append, Template.fill, ih]; rfl
  | element name attributes content next _ ih => rw [Template.append, Template.fill, ih]; rfl

theorem fill_linked (attributes : List (String × String)) (t : Tag) :
    (linked attributes t inside).fill s = linked attributes t (.raw s) := by
  unfold linked
  split <;> rfl

theorem fill_button (attributes : List (String × String)) (t : Tag) :
    (button attributes t inside).fill s = button attributes t (.raw s) := by
  have hlink := fill_linked s attributes t
  unfold button
  cases t.hasClass "expand" || t.hasClass "expanded" with
  | false => exact congrArg (fun link => table _ (cell (table [] (cell link)))) hlink
  | true =>
    exact congrArg (fun link => table _ (cell (table [] (cell (.node "center" [] link))) ++
      (nextLine ++ expander "td"))) hlink

theorem fill_spacer (attributes : List (String × String)) (t : Tag) :
    (spacer attributes t).fill s = spacer attributes t := by
  unfold spacer
  simp only
  split
  · rw [fill_append]
    congr 1
    · cases t.filled? "size-sm" <;> rfl
    · cases t.filled? "size-lg" <;> rfl
  · rfl

end

theorem template_of_write (width : Int) (kind : Component) {t : Tag}
    (hc : carried t = .ok (carriedTexts t)) {format : Format} {children : Forest Nat} {s : String}
    (hw : format.write (some t.name) children = .ok s) (before after : List (Element Nat)) :
    template (.standard width) format (some kind) t children before after =
      .ok ((frame width kind t children (neighbours (.standard width) before after)).fill s) := by
  cases kind with
  | line => rfl
  | marker => rfl
  | center | blockGrid =>
    rw [template, hw]
    rfl
  | row | container | menu | menuItem | callout | wrapper =>
    rw [template, hc, hw]
    rfl
  | spacer =>
    rw [template, hc]
    exact congrArg Except.ok (fill_spacer _ _ t).symm
  | button =>
    rw [template, frame, fill_button, hw]
    cases t.filled? "href" with
    | none => rfl
    | some => rw [hc]; rfl
  | columns =>
    rw [template, hc, hw, frame]
    simp only [largeSize_standard, ok_bind]
    cases hx : hasExpander (.standard width) t children
      (evenSize width t (neighbours (.standard width) before after).total) <;> rfl

theorem template_eq_fill (width : Int) (kind : Component) {t : Tag}
    (hc : carried t = .ok (carriedTexts t)) (children : Forest Nat)
    (before after : List (Element Nat)) :
    template (.standard width) Format.standard (some kind) t children before after =
      .ok ((frame width kind t children (neighbours (.standard width) before after)).fill
        (String.ofList (bareStyle.write (some t.name) children))) :=
  template_of_write width kind hc (Format.write_standard _ _) before after

-- ---------------------------------------------------------------------------
-- What frames are made of

theorem mem_toString_int {n : Int} {c : Char} (h : c ∈ (toString n).toList) :
    c.isDigit = true ∨ c = '-' := by
  cases n with
  | ofNat n =>
    change c ∈ (String.ofList (Nat.toDigits 10 n)).toList at h
    rw [String.toList_ofList] at h
    exact .inl (Nat.isDigit_of_mem_toDigits (by decide) (by decide) h)
  | negSucc n =>
    change c ∈ ("-" ++ String.ofList (Nat.toDigits 10 (n + 1))).toList at h
    rw [String.toList_append, List.mem_append] at h
    rcases h with h | h
    · exact .inr (by simpa using h)
    · rw [String.toList_ofList] at h
      exact .inl (Nat.isDigit_of_mem_toDigits (by decide) (by decide) h)

theorem quotable_toString (n : Int) : Quotable (toString n) := by
  intro c hc
  refine ⟨?_, ?_⟩
  · rintro rfl
    rcases mem_toString_int hc with h | h <;> cases h
  · rintro rfl
    rcases mem_toString_int hc with h | h <;> cases h

/-- A size that a spacer may have: one that its tag gives, or the usual one. -/
def IsSpacerSize (t : Tag) (size : String) : Prop :=
  size = "16" ∨ ∃ name, t.filled? name = some size

theorem spacer_cases (attributes : List (String × String)) (t : Tag) :
    (∃ shown ∈ ["", " hide-for-large", " show-for-large"], ∃ size, IsSpacerSize t size ∧
        spacer attributes t = spacerTable attributes (classText t ["spacer"] ++ shown) size) ∨
      ∃ size size', IsSpacerSize t size ∧ IsSpacerSize t size' ∧ spacer attributes t =
        spacerTable attributes (classText t ["spacer"] ++ " hide-for-large") size ++
          spacerTable attributes (classText t ["spacer"] ++ " show-for-large") size' := by
  unfold spacer
  cases hsm : t.filled? "size-sm" with
  | some size =>
    cases hlg : t.filled? "size-lg" with
    | some size' =>
      exact .inr ⟨size, size', .inr ⟨_, hsm⟩, .inr ⟨_, hlg⟩, by simp [hsm, hlg]⟩
    | none =>
      exact .inl ⟨" hide-for-large", by decide, size, .inr ⟨_, hsm⟩, by simp [hsm, hlg]; rfl⟩
  | none =>
    cases hlg : t.filled? "size-lg" with
    | some size =>
      exact .inl ⟨" show-for-large", by decide, size, .inr ⟨_, hlg⟩, by simp [hsm, hlg]; rfl⟩
    | none =>
      refine .inl ⟨"", by decide, (t.filled? "size").getD "16", ?_, by simp⟩
      cases hv : t.filled? "size" with
      | none => exact .inl rfl
      | some size => exact .inr ⟨_, hv⟩

theorem blockGrid_eq (t : Tag) (inner : Template) :
    blockGrid t inner = table [("class", classText t
      ("block-grid" :: ((t.filled? "up").map ("up-" ++ ·)).toList))] inner := by
  unfold blockGrid
  cases t.filled? "up" <;> rfl

/-- What a tag gives to its frame has these properties, and so have literals. -/
structure Supplies (P : String × String → Prop) (V : String → Prop) (t : Tag) : Prop where
  pair : ∀ {name value}, Markup.isPlainName name = true → V value → P (name, value)
  literal : ∀ {s}, Quotable s → V s
  append : ∀ {a b}, V a → V b → V (a ++ b)
  carried : ∀ a ∈ carriedTexts t, P a
  classes : ∀ c ∈ t.classes, V c
  filled : ∀ {name s}, t.filled? name = some s → V s

section
variable {P : String × String → Prop}

theorem framed_node {name : String} {attributes : List (String × String)} {content : Template}
    (hn : Template.isElementName name = true) (ha : ∀ a ∈ attributes, P a)
    (hc : content.Framed P) : (Template.node name attributes content).Framed P :=
  ⟨hn, ha, rfl, hc, trivial⟩

theorem framed_table {attributes : List (String × String)} {cells : Template}
    (ha : ∀ a ∈ attributes, P a) (hc : cells.Framed P) : (table attributes cells).Framed P :=
  framed_node (by decide) ha (framed_node (by decide) nofun (framed_node (by decide) nofun hc))

theorem framed_cell {content : Template} (h : content.Framed P) : (cell content).Framed P :=
  framed_node (by decide) nofun h

theorem framed_inside : inside.Framed P := by
  simp [inside, Template.raw, Template.Framed]

theorem framed_nbsp : (Template.raw "&nbsp;").Framed P := by
  refine ⟨?_, trivial⟩
  rw [if_neg (by decide)]
  exact ⟨by decide, rfl, rfl⟩

end

namespace Supplies

variable {P : String × String → Prop} {V : String → Prop} {t : Tag} (h : Supplies P V t)
include h

theorem intercalate {l : List String} (hl : ∀ s ∈ l, V s) : V (" ".intercalate l) :=
  Markup.of_intercalate (h.literal (by decide)) (h.literal (by decide)) h.append hl

theorem one {name value : String} (hn : Markup.isPlainName name = true) (hv : V value) :
    ∀ a ∈ [(name, value)], P a :=
  List.forall_mem_singleton.mpr (h.pair hn hv)

theorem classText {kinds : List String} (hk : ∀ k ∈ kinds, V k) :
    V (Expansion.classText t kinds) :=
  h.intercalate (List.forall_mem_append.mpr ⟨hk, h.classes⟩)

theorem kindClass {kind : String} (hk : Quotable kind) :
    ∀ a ∈ [("class", Expansion.classText t [kind])], P a :=
  h.one (by decide) (h.classText (List.forall_mem_singleton.mpr (h.literal hk)))

theorem filledOr {name usual : String} (hu : V usual) : V ((t.filled? name).getD usual) := by
  cases hv : t.filled? name with
  | none => exact hu
  | some s => exact h.filled hv

theorem target : ∀ a ∈ Expansion.target t, P a := by
  unfold Expansion.target
  split
  · rename_i value hv
    exact h.one (by decide) (h.filled hv)
  · exact nofun

theorem expander {name : String} (hn : Template.isElementName name = true) :
    (Expansion.expander name).Framed P :=
  framed_node hn (h.one (by decide) (h.literal (by decide))) trivial

theorem nextLine {name : String} (hn : Template.isElementName name = true) :
    (Expansion.nextLine ++ Expansion.expander name).Framed P := by
  refine ⟨?_, h.expander hn⟩
  rw [if_neg (by decide)]
  exact ⟨by decide, rfl, rfl⟩

theorem linked {attributes : List (String × String)} (ha : ∀ a ∈ attributes, P a) :
    (Expansion.linked attributes t inside).Framed P := by
  unfold Expansion.linked
  split
  · rename_i href hv
    refine framed_node (by decide) (List.forall_mem_append.mpr ⟨ha, ?_⟩) framed_inside
    exact List.forall_mem_cons.mpr ⟨h.pair (by decide) (h.filled hv), h.target⟩
  · exact framed_inside

theorem button {attributes : List (String × String)} (ha : ∀ a ∈ attributes, P a) :
    (Expansion.button attributes t inside).Framed P := by
  have hlink := h.linked ha
  unfold Expansion.button
  refine framed_table (h.kindClass (by decide)) ?_
  cases t.hasClass "expand" || t.hasClass "expanded" with
  | false => exact framed_cell (framed_table nofun (framed_cell hlink))
  | true =>
    have hcenter : (Template.node "center" [] (Expansion.linked attributes t inside)).Framed P :=
      framed_node (by decide) nofun hlink
    exact ⟨by decide, nofun, rfl, framed_table nofun (framed_cell hcenter),
      h.nextLine (by decide)⟩

theorem blockGrid : (Expansion.blockGrid t inside).Framed P := by
  have hkinds : ∀ k ∈ "block-grid" :: ((t.filled? "up").map ("up-" ++ ·)).toList, V k := by
    refine List.forall_mem_cons.mpr ⟨h.literal (by decide), fun k hk => ?_⟩
    obtain ⟨up, hv, rfl⟩ := Option.map_eq_some_iff.mp (Option.mem_toList.mp hk)
    exact h.append (h.literal (by decide)) (h.filled hv)
  rw [blockGrid_eq]
  exact framed_table (h.one (by decide) (h.classText hkinds)) framed_inside

theorem spacerTable {classes size : String} (hc : V classes) (hs : V size) :
    (Expansion.spacerTable (carriedTexts t) classes size).Framed P := by
  have hstyle : V ("font-size:" ++ size ++ "px;line-height:" ++ size ++ "px;") := by
    have hunit {s : String} (hv : V s) : V (s ++ size) := h.append hv hs
    refine h.append (hunit (h.append (hunit (h.literal ?_)) (h.literal ?_))) (h.literal ?_) <;>
      decide
  refine framed_table (List.forall_mem_append.mpr ⟨h.carried, h.one (by decide) hc⟩) ?_
  refine framed_node (by decide) (List.forall_mem_cons.mpr ⟨?_, ?_⟩) framed_nbsp
  · exact h.pair (by decide) hs
  · exact h.one (by decide) hstyle

theorem size {size : String} (hs : IsSpacerSize t size) : V size := by
  rcases hs with rfl | ⟨name, hv⟩
  · exact h.literal (by decide)
  · exact h.filled hv

theorem spacer : (Expansion.spacer (carriedTexts t) t).Framed P := by
  have hone {shown : String} (hshown : Quotable shown) {size : String} (hs : IsSpacerSize t size) :
      (Expansion.spacerTable (carriedTexts t) (Expansion.classText t ["spacer"] ++ shown)
        size).Framed P :=
    h.spacerTable (h.append (h.classText (List.forall_mem_singleton.mpr (h.literal (by decide))))
      (h.literal hshown)) (h.size hs)
  rcases spacer_cases (carriedTexts t) t with
    ⟨shown, hmem, size, hs, heq⟩ | ⟨size, size', hs, hs', heq⟩
  · have hshown : ∀ s ∈ ["", " hide-for-large", " show-for-large"], Quotable s := by decide
    rw [heq]
    exact hone (hshown _ hmem) hs
  · have hhide : Quotable " hide-for-large" := by decide
    obtain ⟨hname, hattributes, -, hcontent, -⟩ := hone hhide hs
    rw [heq]
    exact ⟨hname, hattributes, rfl, hcontent, hone (by decide) hs'⟩

theorem columnClasses (width : Int) (around : Neighbours) {large : String} (hl : V large) :
    ∀ c ∈ Expansion.columnClasses (.standard width) t around large, V c := by
  have hlast (shown : Bool) {s : String} (hs : Quotable s) :
      ∀ c ∈ if shown then [s] else [], V c := by
    split
    · exact List.forall_mem_singleton.mpr (h.literal hs)
    · exact nofun
  simp only [Expansion.columnClasses, List.forall_mem_append, List.forall_mem_cons]
  refine ⟨⟨⟨h.classes, ?_, ?_, h.literal (by decide), nofun⟩, hlast _ (by decide)⟩,
    hlast _ (by decide)⟩
  · exact h.append (h.literal (by decide)) (h.filledOr (h.literal (quotable_toString width)))
  · exact h.append (h.literal (by decide)) hl

theorem evenSize (width : Int) (total : Nat) : V (Expansion.evenSize width t total) := by
  unfold Expansion.evenSize
  split
  · rename_i hv
    exact h.filled hv
  · rename_i hv
    exact h.filled hv
  · exact h.literal (quotable_toString _)

theorem frame (width : Int) {kind : Component} (children : Forest α) (around : Neighbours)
    (hk : kind ≠ .marker) : (Expansion.frame width kind t children around).Framed P := by
  have hcarried {more : List (String × String)} (hm : ∀ a ∈ more, P a) :
      ∀ a ∈ carriedTexts t ++ more, P a :=
    List.forall_mem_append.mpr ⟨h.carried, hm⟩
  have halign : P ("align", "center") := h.pair (by decide) (h.literal (by decide))
  cases kind with
  | marker => exact absurd rfl hk
  | center => exact framed_node (by decide) nofun (framed_cell framed_inside)
  | line =>
    exact framed_node (by decide) (h.kindClass (by decide))
      (framed_node (by decide) nofun (framed_node (by decide) nofun framed_nbsp))
  | row => exact framed_table (hcarried (h.kindClass (by decide))) framed_inside
  | button =>
    refine h.button ?_
    split
    · exact h.carried
    · exact nofun
  | container =>
    refine framed_table (hcarried ?_) (framed_cell framed_inside)
    exact List.forall_mem_cons.mpr ⟨halign, h.kindClass (by decide)⟩
  | blockGrid => exact h.blockGrid
  | menu =>
    exact framed_table (hcarried (h.kindClass (by decide)))
      (framed_cell (framed_table nofun framed_inside))
  | menuItem =>
    have hhref : P ("href", (t.filled? "href").getD "") :=
      h.pair (by decide) (h.filledOr (h.literal (by decide)))
    exact framed_node (by decide) (hcarried (h.kindClass (by decide)))
      (framed_node (by decide) (List.forall_mem_cons.mpr ⟨hhref, h.target⟩) framed_inside)
  | callout =>
    refine framed_table (hcarried (h.one (by decide) (h.literal (by decide)))) ?_
    exact ⟨by decide, h.kindClass (by decide), rfl, framed_inside, h.expander (by decide)⟩
  | spacer => exact h.spacer
  | wrapper =>
    have hclass : P ("class", Expansion.classText t ["wrapper"]) :=
      h.kindClass (by decide) _ List.mem_cons_self
    refine framed_table (hcarried (List.forall_mem_cons.mpr ⟨hclass, ?_⟩)) ?_
    · exact List.forall_mem_singleton.mpr halign
    · exact framed_node (by decide) (h.one (by decide) (h.literal (by decide))) framed_inside
  | columns =>
    have hlarge := h.evenSize width around.total
    have hclass : P ("class", " ".intercalate (Expansion.columnClasses (.standard width) t around
        (Expansion.evenSize width t around.total))) :=
      h.pair (by decide) (h.intercalate (h.columnClasses width around hlarge))
    refine framed_node (by decide) (List.forall_mem_cons.mpr ⟨hclass, h.carried⟩) ?_
    refine framed_node (by decide) nofun (framed_node (by decide) nofun (framed_node (by decide)
      nofun ?_))
    cases hasExpander (.standard width) t children (Expansion.evenSize width t around.total) with
    | false => exact ⟨by decide, nofun, rfl, framed_inside, trivial⟩
    | true => exact ⟨by decide, nofun, rfl, framed_inside, h.nextLine (by decide)⟩

end Supplies

-- ---------------------------------------------------------------------------
-- Frames of plain tags

section
variable {t : Tag}

theorem plain_carriedTexts (h : t.Plain) : Template.PlainAttributes (carriedTexts t) := by
  intro a ha
  obtain ⟨⟨name, value⟩, hm, rfl⟩ := List.mem_map.mp ha
  obtain ⟨hn, hv⟩ := h.2.2.1 _ (List.mem_of_mem_filter hm)
  cases value with
  | text s => exact ⟨hn, hv⟩
  | _ => cases hv

theorem supplies_plain (h : t.Plain) : Supplies (fun a =>
    Markup.isPlainName a.1 = true ∧ Markup.isLegibleValue (.text a.2) = true) Quotable t where
  pair hn hv := ⟨hn, Markup.isLegibleValue_text.mpr hv⟩
  literal := id
  append := Quotable.append
  carried := plain_carriedTexts h
  classes := h.classes.2
  filled := h.filled

theorem plain_frame (width : Int) {kind : Component} (h : t.Plain) (children : Forest α)
    (around : Neighbours) (hk : kind ≠ .marker) :
    (frame width kind t children around).Plain :=
  Template.plain_iff.mpr ((supplies_plain h).frame width children around hk)

end

end Expansion

end Mailgrid
