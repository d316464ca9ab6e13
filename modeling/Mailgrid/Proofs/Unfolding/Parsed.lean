import Mailgrid.Proofs.Markup.Names
import Mailgrid.Proofs.Unfolding.Step
import Mailgrid.Proofs.Unfolding.Unfolded

/-!
# Tags along a run

All tags of a document are as the reader gives them, also those that expansions
bring in, and centering keeps them so. So whatever component a run comes to, its
attributes are texts under names that are read again as they are.
-/

namespace Mailgrid

open Markup (AttributeValue Forest IsReadName Place Tag)

-- ---------------------------------------------------------------------------
-- Changes of a tag

namespace Markup.Tag

variable {t : Tag} {name : String}

theorem IsParsed.set (h : t.IsParsed) (hname : IsReadName name) (text : String) :
    (t.set name (.text text)).IsParsed := by
  refine ⟨fun a ha => ?_, Table.nodup_assign name (AttributeValue.text text) h.nodup⟩
  rcases Table.mem_of_mem_assign ha with rfl | ha
  · exact ⟨⟨text, rfl⟩, hname⟩
  · exact h.attributes a ha

theorem IsParsed.addClass (h : t.IsParsed) (name : String) : (t.addClass name).IsParsed := by
  unfold Tag.addClass
  split
  · exact h
  · exact h.set (isReadName_of_isPlainName (by decide)) _

/-- As the reader gives it; the attributes of one element may be something else. -/
def IsKnown (t : Tag) : Prop :=
  t.name ≠ "meta" → t.IsParsed

end Markup.Tag

theorem Expansion.isKnown_centered {t : Tag} (h : t.IsKnown) : (centered t).IsKnown := by
  intro hname
  rw [name_centered] at hname
  exact ((h hname).set (Markup.isReadName_of_isPlainName (by decide)) "center").addClass _

theorem Expansion.isKnown_centeredItem {t : Tag} (h : t.IsKnown) : (centeredItem t).IsKnown := by
  intro hname
  rw [name_centeredItem] at hname
  unfold centeredItem
  split
  · exact (h hname).addClass _
  · exact h hname

-- ---------------------------------------------------------------------------
-- Changes of a forest

namespace Markup.Forest

/-- All tags have this property. -/
def Tags (P : Tag → Prop) (f : Forest α) : Prop :=
  f.Every fun t _ => P t

variable {P : Tag → Prop} {f new : Forest α} {change : Tag → Tag}

theorem Tags.number (h : f.Tags P) (next : Nat) : (f.number next).1.Tags P := by
  have hbare : (f.number next).1.bare.Tags P := by
    rw [bare_number]
    exact every_bare.mpr h
  exact every_bare.mp hbare

theorem Tags.leading (h : f.Tags P) : f.leading.Tags P := by
  induction f with
  | nil => exact h
  | leaf m kind content next ih => exact ih h
  | element m tag children next _ ih =>
    obtain ⟨htag, hchildren, hnext⟩ := every_element.mp h
    exact every_element.mpr ⟨htag, hchildren, ih hnext⟩

theorem Tags.replace (h : f.Tags P) (hnew : new.Tags P) (wanted : α → Bool) :
    (f.replace wanted new).Tags P := by
  induction f with
  | nil => exact h
  | leaf m kind content next ih =>
    rw [Forest.replace]
    split
    · exact every_append.mpr ⟨hnew, h⟩
    · exact ih h
  | element m tag children next ihc ih =>
    obtain ⟨htag, hchildren, hnext⟩ := every_element.mp h
    rw [Forest.replace]
    split
    · exact every_append.mpr ⟨hnew, hnext⟩
    · exact every_element.mpr ⟨htag, ihc hchildren, ih hnext⟩

theorem Tags.adapt {children : Forest α} (h : f.Tags P) (hc : children.Tags P)
    (wanted : α → Bool) : (f.adapt wanted fun tag _ => (tag, children)).Tags P := by
  induction f with
  | nil => exact h
  | leaf m kind content next ih => exact ih h
  | element m tag old next ihc ih =>
    obtain ⟨htag, hold, hnext⟩ := every_element.mp h
    rw [Forest.adapt]
    split
    · exact every_element.mpr ⟨htag, hc, hnext⟩
    · exact every_element.mpr ⟨htag, ihc hold, ih hnext⟩

theorem Tags.mapTop (h : f.Tags P) (hc : ∀ {t}, P t → P (change t)) :
    (f.mapTop change).Tags P := by
  induction f with
  | nil => exact h
  | leaf m kind content next ih => exact ih h
  | element m tag children next _ ih =>
    obtain ⟨htag, hchildren, hnext⟩ := every_element.mp h
    exact every_element.mpr ⟨hc htag, hchildren, ih hnext⟩

theorem Tags.mapTags (h : f.Tags P) (hc : ∀ {t}, P t → P (change t)) :
    (f.mapTags change).Tags P := by
  induction f with
  | nil => exact h
  | leaf m kind content next ih => exact ih h
  | element m tag children next ihc ih =>
    obtain ⟨htag, hchildren, hnext⟩ := every_element.mp h
    exact every_element.mpr ⟨hc htag, ihc hchildren, ih hnext⟩

theorem Tags.of_placeAfter? {wanted : α → Node α → Bool} (h : f.Tags P)
    {before : List (Element α)} {place : Place α} (hp : f.placeAfter? wanted before = some place)
    {t : Tag} {children : Forest α} (hn : place.node = .element t children) :
    P t ∧ children.Tags P := by
  induction f generalizing before with
  | nil => cases hp
  | leaf m kind content next ih =>
    rw [placeAfter?] at hp
    split at hp
    · cases hp
      cases hn
    · exact ih h hp
  | element m tag inner next ihc ih =>
    obtain ⟨htag, hinner, hnext⟩ := every_element.mp h
    rw [placeAfter?] at hp
    split at hp
    · cases hp
      cases hn
      exact ⟨htag, hinner⟩
    · split at hp
      · rename_i hc
        cases hp
        exact ihc hinner hc
      · exact ih hnext hp

end Markup.Forest

theorem Expansion.tags_center {P : Tag → Prop} (hc : ∀ t, P t → P (centered t))
    (hitem : ∀ t, P t → P (centeredItem t)) (width : Int) {f : Forest α} (h : f.Tags P) :
    (center (.standard width) f).Tags P := by
  rw [center_standard]
  exact (h.mapTop fun ht => hc _ ht).mapTags fun ht => hitem _ ht

-- ---------------------------------------------------------------------------
-- Documents

theorem Format.known_of_read {text : String} {f : Forest Unit}
    (h : standard.read text = .ok f) : f.Tags Tag.IsKnown := by
  rw [read_standard] at h
  exact Markup.isParsed_of_parse (not_mem_protectedChars _) h

-- ---------------------------------------------------------------------------
-- Runs

/-- All tags of the draft are as the reader gives them. -/
structure Draft.Known (d : Draft) : Prop where
  format : d.document.format = Format.standard
  tags : d.document.content.Tags Tag.IsKnown

section
variable {width : Int} {d e : Draft} {p : Pending} {n : Nat}

theorem Draft.Known.isParsed (h : d.Known)
    (selected : (Unfolder.standard width).pending? d = some p) {t : Tag} {children : Forest Nat}
    (hnode : p.place.node = .element t children) : t.IsParsed := by
  obtain ⟨-, -, -, t', children', -, -, hnode', -, hlookup, -⟩ :=
    Unfolder.between_of_pending? selected
  cases hnode.symm.trans hnode'
  obtain ⟨hknown, -⟩ := h.tags.of_placeAfter? (Unfolder.place_of_pending? selected).1 hnode
  have hnamed : Component.named? t.name = some p.kind := hlookup
  refine hknown ?_
  intro hmeta
  rw [hmeta] at hnamed
  cases hnamed

theorem content_of_ofPlace {rules : Rules} {format : Format} {kind : Option Component}
    {place : Place Nat} {t : Tag} {children content : Forest Nat}
    (hnode : place.node = .element t children)
    (h : Expansion.ofPlace rules format kind place = .ok (.inPlace content)) :
    content = Expansion.center rules children := by
  simp only [Expansion.ofPlace, hnode] at h
  split at h
  · cases h
  · split at h
    · cases h
      rfl
    · simp only [bind_eq_ok, pure_eq_ok] at h
      obtain ⟨_, -, h⟩ := h
      cases h

/-- What is so of all tags that are read, and what centering keeps, a step keeps. -/
theorem Draft.tags_of_step {P : Tag → Prop}
    (hread : ∀ {text f}, Format.standard.read text = .ok f → f.Tags P)
    (hc : ∀ t, P t → P (Expansion.centered t)) (hitem : ∀ t, P t → P (Expansion.centeredItem t))
    (format : d.document.format = Format.standard) (tags : d.document.content.Tags P)
    (selected : (Unfolder.standard width).pending? d = some p)
    (expanded : (Unfolder.standard width).expand d p = .ok e) :
    e.document.format = Format.standard ∧ e.document.spelling = d.document.spelling ∧
      e.document.content.Tags P := by
  obtain ⟨-, -, -, t, children, -, -, hnode, -, -, -⟩ := Unfolder.between_of_pending? selected
  obtain ⟨-, hchildren⟩ := tags.of_placeAfter? (Unfolder.place_of_pending? selected).1 hnode
  simp only [Unfolder.expand, bind_eq_ok] at expanded
  obtain ⟨expansion, hx, hput⟩ := expanded
  cases expansion with
  | inPlace content =>
    obtain rfl := content_of_ofPlace hnode hx
    cases hput
    exact ⟨format, rfl, tags.adapt (Expansion.tags_center hc hitem width hchildren) _⟩
  | markup text =>
    simp only [Unfolder.put, Document.replace, format, bind_eq_ok, pure_eq_ok,
      Prod.exists] at hput
    obtain ⟨document, topMarks, ⟨new, hnew, hd⟩, rfl⟩ := hput
    cases hd
    exact ⟨rfl, rfl, tags.replace ((hread hnew).number _) _⟩

theorem Draft.Known.step (h : d.Known)
    (selected : (Unfolder.standard width).pending? d = some p)
    (expanded : (Unfolder.standard width).expand d p = .ok e) : e.Known := by
  obtain ⟨hformat, -, htags⟩ := Draft.tags_of_step Format.known_of_read
    (fun _ => Expansion.isKnown_centered) (fun _ => Expansion.isKnown_centeredItem) h.format h.tags selected expanded
  exact ⟨hformat, htags⟩

theorem Draft.Known.steps (h : d.Known) (hs : (Unfolder.standard width).Steps n d e) : e.Known :=
  hs.keeps Draft.Known.step h

theorem Document.tags_of_load {P : Tag → Prop}
    (hread : ∀ {text f}, Format.standard.read text = .ok f → f.Tags P) {text : String}
    {document : Document} (h : Document.load Format.standard text = .ok document) :
    document.format = Format.standard ∧ document.spelling = Markup.Spelling.ofText text ∧
      document.content.Tags P := by
  simp only [Document.load, Document.read, Document.noteSpelling, Document.empty, bind_eq_ok,
    pure_eq_ok] at h
  obtain ⟨f, hf, rfl⟩ := h
  exact ⟨rfl, rfl, (hread hf).leading.number 0⟩

theorem Draft.known_of_load {text : String} {document : Document}
    (h : Document.load Format.standard text = .ok document) : Draft.Known ⟨document, []⟩ := by
  obtain ⟨hformat, -, htags⟩ := Document.tags_of_load Format.known_of_read h
  exact ⟨hformat, htags⟩

/-- The tag of every component that the run of a document comes to is as the reader gives it. -/
theorem Draft.isParsed_of_steps {text : String} {document : Document}
    (loaded : Document.load Format.standard text = .ok document)
    (hs : (Unfolder.standard width).Steps n ⟨document, []⟩ d)
    (selected : (Unfolder.standard width).pending? d = some p) {t : Tag} {children : Forest Nat}
    (hnode : p.place.node = .element t children) : t.IsParsed :=
  ((Draft.known_of_load loaded).steps hs).isParsed selected hnode

end

end Mailgrid
