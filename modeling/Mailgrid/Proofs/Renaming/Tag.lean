import Mailgrid.Proofs.Expansion.Result
import Mailgrid.Proofs.Markup.Tidy
import Mailgrid.Proofs.Text.Lower
import Mailgrid.Unfolding

/-!
# Components with other tags

A component may go by another name, if the name means nothing to the reader, to
the other components and to what expansions generate. With its elements renamed
nothing that looks at tags sees a difference.
-/

namespace Mailgrid

open Markup (Grammar Tag isPlainName)

namespace Component

/-- The names of all elements that expansions generate. -/
def generatedNames : List String :=
  ["table", "tbody", "tr", "td", "th", "a", "center", "img"]

/-- A name that the elements of a component can have. -/
structure CanBe (kind : Component) (name : String) : Prop where
  plain : isPlainName name = true
  apart : ∀ other, other ≠ kind → other.standardTag ≠ name
  unreserved : ("raw" :: Markup.reservedNames).contains name = false
  holds : Grammar.standard.void.contains name = false
  blanks : Grammar.standard.keepsBlanks.contains name = false
  generated : generatedNames.contains name = false

/-- The tag of each component, where one of them goes by this name. -/
def tagWith (kind : Component) (name : String) (c : Component) : String :=
  if c = kind then name else c.standardTag

theorem standardTag_inj {c other : Component} : c.standardTag = other.standardTag ↔ c = other := by
  refine ⟨fun h => ?_, congrArg _⟩
  have hc : Component.named? c.standardTag = some c := named?_eq_some.mpr rfl
  rw [h, named?_eq_some.mpr rfl] at hc
  exact (Option.some.inj hc).symm

end Component

open Component (CanBe tagWith)

/-- Elements of the component get this name. No element of this name is void. -/
def Markup.Tag.renamed (kind : Component) (name : String) (t : Tag) : Tag :=
  if Text.lowerString t.name = kind.standardTag then { t with name, void := false } else t

variable {kind : Component} {name : String} {t : Tag}

namespace Markup.Tag

-- ---------------------------------------------------------------------------
-- What renaming leaves

@[simp] theorem attributes_renamed (kind : Component) (name : String) (t : Tag) :
    (t.renamed kind name).attributes = t.attributes := by
  unfold renamed
  split <;> rfl

@[simp] theorem get?_renamed (key : String) : (t.renamed kind name).get? key = t.get? key := by
  rw [get?, attributes_renamed, get?]

@[simp] theorem classes_renamed : (t.renamed kind name).classes = t.classes := by
  rw [classes, get?_renamed, classes]

@[simp] theorem hasClass_renamed (key : String) :
    (t.renamed kind name).hasClass key = t.hasClass key := by
  rw [hasClass, classes_renamed, hasClass]

theorem set_renamed (key : String) (value : AttributeValue) :
    (t.renamed kind name).set key value = (t.set key value).renamed kind name := by
  unfold renamed
  rw [name_set]
  split <;> rfl

theorem addClass_renamed (key : String) :
    (t.renamed kind name).addClass key = (t.addClass key).renamed kind name := by
  rw [addClass, addClass, hasClass_renamed, classes_renamed, set_renamed]
  split <;> rfl

theorem void_of_renamed (h : (t.renamed kind name).void = true) : t.void = true := by
  unfold renamed at h
  split at h
  · cases h
  · exact h

-- ---------------------------------------------------------------------------
-- Names

theorem reread_renamed (hc : CanBe kind name) :
    (t.renamed kind name).reread = t.reread.renamed kind name := by
  have hread : t.reread.name = Text.lowerString t.name := rfl
  have hidem := Text.lowerString_lowerString t.name
  by_cases hk : Text.lowerString t.name = kind.standardTag
  · have hrenamed : t.renamed kind name = { t with name, void := false } := if_pos hk
    have hthere : t.reread.renamed kind name = { t.reread with name, void := false } :=
      if_pos (by rw [hread, hidem, hk])
    rw [hrenamed, hthere, reread, (of_isPlainName hc.plain).2, hc.holds]
    rfl
  · have hrenamed : t.renamed kind name = t := if_neg hk
    have hthere : t.reread.renamed kind name = t.reread :=
      if_neg (by rw [hread, hidem]; exact hk)
    rw [hrenamed, hthere]

end Markup.Tag

open Markup.Tag

theorem renamed_cases (kind : Component) (name : String) (h : t.Plain) :
    (t.name = kind.standardTag ∧ t.renamed kind name = { t with name, void := false }) ∨
      (t.name ≠ kind.standardTag ∧ t.renamed kind name = t) := by
  have hlower := (Markup.of_isPlainName h.1).2
  unfold renamed
  rw [hlower]
  split
  · rename_i hk
    exact .inl ⟨hk, rfl⟩
  · rename_i hk
    exact .inr ⟨hk, rfl⟩

theorem plain_renamed (hc : CanBe kind name) (h : t.Plain) : (t.renamed kind name).Plain := by
  obtain ⟨-, he⟩ | ⟨-, he⟩ := renamed_cases kind name h
  · obtain ⟨-, -, hattributes, hnodup, -⟩ := h
    have hreserved := hc.unreserved
    rw [List.contains_cons, Bool.or_eq_false_iff] at hreserved
    rw [he]
    exact ⟨hc.plain, hreserved.2, hattributes, hnodup, hc.holds.symm⟩
  · rwa [he]

theorem keepsBlanks_renamed (hc : CanBe kind name) (h : t.Plain) :
    Grammar.standard.keepsBlanks.contains (t.renamed kind name).name =
      Grammar.standard.keepsBlanks.contains t.name := by
  obtain ⟨hk, he⟩ | ⟨-, he⟩ := renamed_cases kind name h
  · rw [he, hk, hc.blanks]
    cases kind <;> rfl
  · rw [he]

-- ---------------------------------------------------------------------------
-- Tags that can be renamed

/-- A plain tag without the new name. If centers are renamed, it is no wide button, which would
hold a center of its own. -/
structure Markup.Tag.Renamable (kind : Component) (name : String) (t : Tag) : Prop where
  plain : t.Plain
  fresh : t.name ≠ name
  narrow : kind = .center → t.name = "button" → Expansion.isWide t = false

namespace Markup.Tag.Renamable

theorem name_renamed (h : t.Renamable kind name) (hc : CanBe kind name) (c : Component) :
    (t.renamed kind name).name = tagWith kind name c ↔ t.name = c.standardTag := by
  unfold tagWith
  obtain ⟨hk, he⟩ | ⟨hk, he⟩ := renamed_cases kind name h.plain
  · rw [he, hk]
    split
    · rename_i hck
      exact iff_of_true rfl (by rw [hck])
    · rename_i hck
      exact iff_of_false (hc.apart c hck).symm fun ht => hck (Component.standardTag_inj.mp ht.symm)
  · rw [he]
    split
    · rename_i hck
      exact iff_of_false h.fresh (hck ▸ hk)
    · exact Iff.rfl

theorem name_renamed_th (h : t.Renamable kind name) (hc : CanBe kind name) :
    (t.renamed kind name).name = "th" ↔ t.name = "th" := by
  obtain ⟨hk, he⟩ | ⟨-, he⟩ := renamed_cases kind name h.plain
  · have hth : name ≠ "th" := by
      rintro rfl
      exact absurd hc.generated (by decide)
    rw [he, hk]
    refine iff_of_false hth ?_
    cases kind <;> decide
  · rw [he]

end Markup.Tag.Renamable

-- ---------------------------------------------------------------------------
-- Rules

/-- The rules of an engine where a component goes by this name. -/
def Rules.renamed (width : Int) (kind : Component) (name : String) : Rules :=
  ⟨.int width, some (tagWith kind name .columns), some (tagWith kind name .row),
    some (tagWith kind name .menuItem)⟩

/-- The unfolder of an engine where a component goes by this name. -/
def Unfolder.renamed (width : Int) (kind : Component) (name : String) : Unfolder :=
  ⟨.renamed width kind name, Component.all.map fun c => (tagWith kind name c, c)⟩

namespace Expansion

variable {width : Int}

theorem isColumn_renamed (h : t.Renamable kind name) (hc : CanBe kind name) :
    isColumn (.renamed width kind name) (t.renamed kind name) = isColumn (.standard width) t := by
  have hname := h.name_renamed hc .columns
  have hth := h.name_renamed_th hc
  rw [Bool.eq_iff_iff]
  simp [isColumn, Rules.renamed, Rules.standard, hname, hth, Component.standardTag]

theorem isRow_renamed (h : t.Renamable kind name) (hc : CanBe kind name) :
    isRow (.renamed width kind name) (t.renamed kind name) = isRow (.standard width) t := by
  have hname := h.name_renamed hc .row
  rw [Bool.eq_iff_iff]
  simp [isRow, Rules.renamed, Rules.standard, hname, Component.standardTag]

theorem isItem_renamed (h : t.Renamable kind name) (hc : CanBe kind name) :
    isItem (.renamed width kind name) (t.renamed kind name) = isItem (.standard width) t := by
  have hname := h.name_renamed hc .menuItem
  rw [Bool.eq_iff_iff]
  simp [isItem, Rules.renamed, Rules.standard, hname, Component.standardTag]

end Expansion

theorem Unfolder.lookup_renamed {width : Int} (h : t.Renamable kind name) (hc : CanBe kind name) :
    (Unfolder.renamed width kind name).components.lookup (t.renamed kind name).name =
      Component.named? t.name := by
  have hsame (all : List Component) :
      (all.map fun c => (tagWith kind name c, c)).lookup (t.renamed kind name).name =
        (all.map fun c => (c.standardTag, c)).lookup t.name := by
    induction all with
    | nil => rfl
    | cons c all ih =>
      have hname := h.name_renamed hc c
      rw [List.map_cons, List.map_cons, List.lookup_cons, List.lookup_cons, ih]
      by_cases hk : t.name = c.standardTag
      · rw [beq_iff_eq.mpr hk, beq_iff_eq.mpr (hname.mpr hk)]
      · rw [beq_false_of_ne hk, beq_false_of_ne (fun he => hk (hname.mp he))]
  exact hsame Component.all

end Mailgrid
