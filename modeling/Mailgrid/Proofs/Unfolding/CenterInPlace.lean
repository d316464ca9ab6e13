import Mailgrid.Proofs.Expansion.CenterFrame
import Mailgrid.Proofs.Unfolding.Order
import Mailgrid.Proofs.Unfolding.Parsed

/-!
# Centers in their documents

Expanding a center changes the tags of what is centered in it, and nothing else
in the document. `expand_center_frame`: which tags these are and what becomes of them,
and that a second expansion of the same center finds nothing left to change. It
takes classes that are words, as they are in all documents along a run.
-/

namespace Mailgrid

open Expansion
open Markup (Element Forest Tag)

/-- The component is a center that stands in the document as this element. -/
structure Pending.Centers (p : Pending) (d : Draft) (e : Element Nat) : Prop where
  kind : p.kind = .center
  mark : p.place.mark = e.mark
  node : p.place.node = .element e.tag e.children
  named : e.tag.name ≠ ""
  mem : e ∈ d.document.content.descendants

/-- The draft when what is in an element is centered, by marks. -/
def Draft.centeredIn (d : Draft) (rules : Rules) (e : Element Nat) : Draft :=
  ⟨{ d.document with content := d.document.content.mapMarked (centering rules e.children) },
    d.settled ++ [e.mark]⟩

-- ---------------------------------------------------------------------------
-- Classes along a run

section
variable {u : Unfolder} {d e : Draft} {p : Pending} {n : Nat} {format : Format} {text : String}

theorem Format.listsWords_of_read {f : Forest Unit} (h : format.read text = .ok f) :
    f.Tags Tag.ListsWords := by
  simp only [Format.read, bind_eq_ok] at h
  obtain ⟨grammar, -, h⟩ := h
  exact Markup.listsWords_of_parse h

theorem Expansion.listsWords_center (rules : Rules) {f : Forest α} (h : f.Tags Tag.ListsWords) :
    (center rules f).Tags Tag.ListsWords := by
  refine (h.mapTop fun ht => ?_).mapTags fun ht => ?_
  · exact (ht.set_of_ne (by decide) _).addClass wordsOf_floatCenter
  · split
    · exact ht.addClass wordsOf_floatCenter
    · exact ht

theorem Draft.listsWords_step (h : d.document.content.Tags Tag.ListsWords)
    (selected : u.pending? d = some p) (expanded : u.expand d p = .ok e) :
    e.document.content.Tags Tag.ListsWords := by
  obtain ⟨-, -, -, t, children, -, -, hnode, -, -, -⟩ := Unfolder.between_of_pending? selected
  obtain ⟨-, hchildren⟩ := h.of_placeAfter? (Unfolder.place_of_pending? selected).1 hnode
  simp only [Unfolder.expand, bind_eq_ok] at expanded
  obtain ⟨expansion, hx, hput⟩ := expanded
  cases expansion with
  | inPlace content =>
    obtain rfl := content_of_ofPlace hnode hx
    cases hput
    exact h.adapt (listsWords_center u.rules hchildren) _
  | markup text =>
    simp only [Unfolder.put, Document.replace, bind_eq_ok, pure_eq_ok, Prod.exists] at hput
    obtain ⟨document, topMarks, ⟨new, hnew, hd⟩, rfl⟩ := hput
    cases hd
    exact h.replace ((Format.listsWords_of_read hnew).number _) _

/-- All drafts of a run have marks that are all different and classes that are words. -/
theorem Draft.listsWords_of_steps {document : Document}
    (loaded : Document.load format text = .ok document) (hs : u.Steps n ⟨document, []⟩ d) :
    d.document.Marked ∧ d.document.content.Tags Tag.ListsWords := by
  have hstart : document.Marked ∧ document.content.Tags Tag.ListsWords := by
    refine ⟨Document.marked_of_load loaded, ?_⟩
    simp only [Document.load, Document.read, bind_eq_ok, pure_eq_ok] at loaded
    obtain ⟨f, hf, rfl⟩ := loaded
    exact (Format.listsWords_of_read hf).leading.number _
  refine hs.keeps (P := fun d => d.document.Marked ∧ d.document.content.Tags Tag.ListsWords)
    (fun h selected expanded => ?_) hstart
  exact ⟨Unfolder.marked_of_step h.1 selected expanded, Draft.listsWords_step h.2 selected expanded⟩

end

-- ---------------------------------------------------------------------------
-- Expanding a center

namespace Unfolder

variable {u : Unfolder} {d : Draft} {p : Pending} {e : Element Nat}

theorem expand_of_centers (u : Unfolder) (hp : p.Centers d e) : u.expand d p =
    .ok ⟨d.document.adapt e.mark fun tag _ => (tag, center u.rules e.children),
      d.settled ++ [e.mark]⟩ := by
  have hnamed : e.tag.name.isEmpty = false := by simpa using hp.named
  simp only [expand, hp.kind, hp.mark, ofPlace, hp.node, hnamed]
  rfl

theorem expand_eq_centeredIn (u : Unfolder) (marked : d.document.Marked) (hp : p.Centers d e) :
    u.expand d p = .ok (d.centeredIn u.rules e) := by
  have hinner := Forest.nodup_children marked.nodup hp.mem
  have hcontent := Forest.adapt_eq_mapMarked (centering u.rules e.children) marked.nodup hp.mem
    fun x _ hx => centering_of_not_mem hx
  rw [expand_of_centers u hp, Document.adapt, center_eq_mapMarked u.rules hinner, hcontent]
  rfl

theorem children_of_centeredIn (marked : d.document.Marked) (he : e ∈ d.document.content.descendants)
    {rules : Rules} {x : Element Nat} (hx : x ∈ (d.centeredIn rules e).document.content.descendants)
    (hmark : x.mark = e.mark) : x.children = center rules e.children := by
  have hinner := Forest.nodup_children marked.nodup he
  have hmarks : (d.centeredIn rules e).document.content.marks.Nodup := by
    simpa [Draft.centeredIn] using marked.nodup
  have hkept := Forest.mem_descendants_mapMarked (centering rules e.children) he
  rw [Forest.eq_of_mark_eq hmarks hx hkept hmark, center_eq_mapMarked rules hinner]

/-- A center changes the tags of what it centers, and nothing else: neither other elements nor
texts, and not the order of anything. When it is expanded again it changes nothing at all. -/
theorem expand_center_frame (u : Unfolder) (marked : d.document.Marked)
    (words : d.document.content.Tags Tag.ListsWords) (hp : p.Centers d e) :
    u.expand d p = .ok (d.centeredIn u.rules e) ∧
      (∀ x ∈ d.document.content.descendants,
        TagCentered u.rules e.children x (centering u.rules e.children x.mark x.tag)) ∧
      ∀ q x, q.Centers (d.centeredIn u.rules e) x → x.mark = e.mark →
        u.expand (d.centeredIn u.rules e) q =
          .ok ⟨(d.centeredIn u.rules e).document, d.settled ++ [e.mark] ++ [e.mark]⟩ := by
  refine ⟨expand_eq_centeredIn u marked hp,
    fun x hx => tagCentered_centering u.rules marked.nodup hp.mem hx (words x hx),
    fun q x hq hmark => ?_⟩
  have hchildren := children_of_centeredIn marked hp.mem hq.mem hmark
  have hmarks : (d.centeredIn u.rules e).document.content.marks.Nodup := by
    simpa [Draft.centeredIn] using marked.nodup
  have hsame : (d.centeredIn u.rules e).document.adapt x.mark
      (fun tag _ => (tag, center u.rules x.children)) = (d.centeredIn u.rules e).document := by
    refine congrArg (fun content => { d.document with content := content })
      (Forest.adapt_of_forall fun y hy hm => ?_)
    rw [Forest.eq_of_mark_eq hmarks hy hq.mem (by simpa using hm), hchildren, center_center]
  rw [expand_of_centers u hq, hsame, hmark]
  rfl

/-- A center with a menu that floats already and another center in it, and an item behind it. -/
def nestedCenter : Element Nat :=
  ⟨0, ⟨"center", [], false⟩,
    .element 1 ⟨"menu", [("class", .text "wide\tfloat-center")], false⟩
      (.element 2 ⟨"item", [("class", .text " a  b "), ("href", .text "#")], false⟩
        (.leaf 3 (.text .plain) "Go" .nil) .nil)
      (.leaf 4 (.text .plain) "or"
        (.element 5 ⟨"center", [("align", .text "left")], false⟩
          (.element 6 ⟨"th", [("class", .text "menu-item")], false⟩ .nil .nil) .nil))⟩

def nestedCenterDraft : Draft :=
  ⟨⟨Format.standard, .empty, .element 0 nestedCenter.tag nestedCenter.children
    (.element 7 ⟨"item", [], false⟩ .nil .nil), 8⟩, []⟩

/-- The same center when it is expanded. -/
def nestedCenterExpanded : Element Nat :=
  ⟨0, ⟨"center", [], false⟩,
    .element 1 ⟨"menu", [("class", .text "wide\tfloat-center"), ("align", .text "center")], false⟩
      (.element 2 ⟨"item", [("class", .text "a b float-center"), ("href", .text "#")], false⟩
        (.leaf 3 (.text .plain) "Go" .nil) .nil)
      (.leaf 4 (.text .plain) "or"
        (.element 5
          ⟨"center", [("align", .text "center"), ("class", .text "float-center")], false⟩
          (.element 6 ⟨"th", [("class", .text "menu-item float-center")], false⟩ .nil .nil) .nil))⟩

/-- An element as a component to be centered. -/
def centerPending (e : Element Nat) : Pending :=
  ⟨⟨e.mark, .element e.tag e.children, [], []⟩, e.tag.name, .center⟩

theorem expand_center_frame_nested :
    nestedCenterDraft.document.Marked ∧
      nestedCenterDraft.document.content.Tags Tag.ListsWords ∧
      (centerPending nestedCenter).Centers nestedCenterDraft nestedCenter ∧
      (let next := nestedCenterDraft.centeredIn (.standard 12) nestedCenter
      next.document.content = .element 0 nestedCenterExpanded.tag nestedCenterExpanded.children
          (.element 7 ⟨"item", [], false⟩ .nil .nil) ∧
        (Unfolder.standard 12).expand nestedCenterDraft (centerPending nestedCenter) = .ok next ∧
        (Unfolder.standard 12).expand next (centerPending nestedCenterExpanded) =
          .ok ⟨next.document, [0, 0]⟩) := by
  have hmarked : nestedCenterDraft.document.Marked := ⟨by decide, by decide⟩
  have hwords : ∀ e ∈ nestedCenterDraft.document.content.descendants, e.tag.ListsWords := by decide
  have hfirst : nestedCenter ∈ nestedCenterDraft.document.content.descendants :=
    List.mem_cons_self
  have hcenters : (centerPending nestedCenter).Centers nestedCenterDraft nestedCenter :=
    ⟨rfl, rfl, rfl, by decide, hfirst⟩
  have hcontent : (nestedCenterDraft.centeredIn (.standard 12) nestedCenter).document.content =
      .element 0 nestedCenterExpanded.tag nestedCenterExpanded.children
        (.element 7 ⟨"item", [], false⟩ .nil .nil) := by decide
  have hkept : nestedCenterExpanded ∈
      (nestedCenterDraft.centeredIn (.standard 12) nestedCenter).document.content.descendants := by
    rw [hcontent]
    exact List.mem_cons_self
  have hagain : (centerPending nestedCenterExpanded).Centers
      (nestedCenterDraft.centeredIn (.standard 12) nestedCenter) nestedCenterExpanded :=
    ⟨rfl, rfl, rfl, by decide, hkept⟩
  obtain ⟨hexpand, -, htwice⟩ := expand_center_frame (.standard 12) hmarked hwords hcenters
  exact ⟨hmarked, hwords, hcenters, hcontent, hexpand, htwice _ _ hagain rfl⟩

end Unfolder

end Mailgrid
