import Mailgrid.Proofs.Markup.Tidy

/-!
# Ordinary documents

Tidy documents that read as they are written: names are not all capital, blanks
are as the reader leaves them, and the writer and the reader take the same elements
for void. A name is spelled in one way throughout the document.
-/

namespace Mailgrid.Markup

open Mailgrid.Text (lowerString)

-- ---------------------------------------------------------------------------
-- Ordinary nodes

/-- Letters, digits and dashes, a letter first, and a small letter among them. -/
def isOrdinaryName (name : String) : Bool :=
  isLegible name && name.toList.any Char.isLower

/-- A tag that is neither a raw marker nor has literal content, and void if and only if the writer
and the reader take its name for that of a void element. -/
structure Tag.Ordinary (t : Tag) : Prop where
  name : isOrdinaryName t.name = true
  apart : ("raw" :: reservedNames).contains (lowerString t.name) = false
  void : t.void = VoidElement.names.contains (lowerString t.name)
  known : Grammar.standard.void.contains (lowerString t.name) = t.void
  attributes : ∀ a ∈ t.attributes, isOrdinaryName a.1 = true ∧ isOrdinaryValue a.2 = true
  nodup : (t.attributes.map (·.1)).Nodup

instance (t : Tag) : Decidable t.Ordinary :=
  decidable_of_iff (_ ∧ _ ∧ _ ∧ _ ∧ _ ∧ _)
    ⟨fun ⟨name, apart, void, known, attributes, nodup⟩ =>
      ⟨name, apart, void, known, attributes, nodup⟩,
    fun ⟨name, apart, void, known, attributes, nodup⟩ =>
      ⟨name, apart, void, known, attributes, nodup⟩⟩

/-- Not empty, without tags and placeholders; of blanks alone a single space or line break. -/
def OrdinaryText (content : String) : Prop :=
  content ≠ "" ∧ lacks ['<', '\ue000'] content = true ∧
    (content.toList.all Growth.isSpace = true → content = " " ∨ content = "\n")

def OrdinaryComment (content : String) : Prop :=
  lacks ['<', '>', '-', '\ue000'] content = true ∧ content.toList.all Growth.isSpace = false

instance (content : String) : Decidable (OrdinaryText content) :=
  inferInstanceAs (Decidable (_ ∧ _ ∧ (_ → _ ∨ _)))

instance (content : String) : Decidable (OrdinaryComment content) :=
  inferInstanceAs (Decidable (_ ∧ _))

namespace Forest

/-- Ordinary elements, void ones without content, and ordinary texts and comments, no two texts in a
row. -/
def Ordinary : Forest α → Prop
  | nil => True
  | leaf _ (.text _) content next =>
    OrdinaryText content ∧ next.startsWithText = false ∧ next.Ordinary
  | leaf _ .comment content next => OrdinaryComment content ∧ next.Ordinary
  | leaf _ _ _ _ => False
  | element _ tag children next =>
    tag.Ordinary ∧ (tag.void = true → children.isNil = true) ∧ children.Ordinary ∧ next.Ordinary

instance decidableOrdinary : (f : Forest α) → Decidable f.Ordinary
  | nil => .isTrue trivial
  | leaf _ (.text _) _ next =>
    have := decidableOrdinary next
    inferInstanceAs (Decidable (_ ∧ _ ∧ _))
  | leaf _ .comment _ next =>
    have := decidableOrdinary next
    inferInstanceAs (Decidable (_ ∧ _))
  | leaf _ .cdata _ _ | leaf _ .instruction _ _ | leaf _ .declaration _ _ | leaf _ .docType _ _
  | leaf _ .leadingDocType _ _ => .isFalse id
  | element _ _ children next =>
    have := decidableOrdinary children
    have := decidableOrdinary next
    inferInstanceAs (Decidable (_ ∧ (_ → _) ∧ _ ∧ _))

/-- Ordinary, perhaps below a document type. -/
def Headed : Forest α → Prop
  | leaf _ .leadingDocType name next => Markup.isLegible name = true ∧ next.Ordinary
  | f => f.Ordinary

instance decidableHeaded : (f : Forest α) → Decidable f.Headed
  | nil => .isTrue trivial
  | leaf _ .leadingDocType name next =>
    inferInstanceAs (Decidable (Markup.isLegible name = true ∧ next.Ordinary))
  | leaf m (.text kind) content next => decidableOrdinary (leaf m (.text kind) content next)
  | leaf m .comment content next => decidableOrdinary (leaf m .comment content next)
  | leaf _ .cdata _ _ | leaf _ .instruction _ _ | leaf _ .declaration _ _ | leaf _ .docType _ _ =>
    .isFalse id
  | element m tag children next => decidableOrdinary (element m tag children next)

/-- Has each name one spelling? -/
def SpelledOnce (f : Forest α) : Prop :=
  ∀ e ∈ f.descendants, ∀ x ∈ f.descendants,
    (lowerString e.tag.name = lowerString x.tag.name → e.tag.name = x.tag.name) ∧
      ∀ a ∈ e.tag.attributes, ∀ b ∈ x.tag.attributes,
        lowerString a.1 = lowerString b.1 → a.1 = b.1

instance (f : Forest α) : Decidable f.SpelledOnce :=
  inferInstanceAs (Decidable (∀ e ∈ f.descendants, ∀ x ∈ f.descendants, _ ∧ ∀ a ∈ _, ∀ b ∈ _, _))

end Forest

-- ---------------------------------------------------------------------------
-- Ordinary documents are tidy

theorem isLegible_of_ordinary {name : String} (h : isOrdinaryName name = true) :
    isLegible name = true :=
  (Bool.and_eq_true _ _ ▸ h).1

namespace Tag.Ordinary

variable {t : Tag}

theorem reread_void (h : t.Ordinary) : t.reread.void = t.void :=
  h.known

theorem tidy (h : t.Ordinary) : t.Tidy where
  legible := isLegible_of_ordinary h.name
  apart := h.apart
  void := h.void
  attributes a ha := ⟨isLegible_of_ordinary (h.attributes a ha).1, (h.attributes a ha).2⟩

end Tag.Ordinary

namespace Forest

theorem Ordinary.tidy {f : Forest α} (h : f.Ordinary) : f.Tidy := by
  induction f with
  | nil => trivial
  | leaf m kind content next ih =>
    cases kind with
    | text => exact ⟨h.1.2.1, ih h.2.2⟩
    | comment => exact ⟨h.1.1, ih h.2⟩
    | _ => exact absurd h id
  | element m tag children next ihc ih =>
    obtain ⟨htag, hhollow, hchildren, hnext⟩ := h
    refine ⟨htag.tidy, fun hv => ?_, ihc hchildren, ih hnext⟩
    rw [htag.reread_void, Bool.or_self] at hv
    exact hhollow hv

theorem Headed.tidy {f : Forest α} (h : f.Headed) : f.TidyBelow := by
  cases f with
  | leaf m kind content next =>
    cases kind with
    | leadingDocType => exact ⟨h.1, h.2.tidy⟩
    | _ => exact Ordinary.tidy h
  | _ => exact Ordinary.tidy h

theorem Ordinary.tags {f : Forest α} (h : f.Ordinary) : ∀ e ∈ f.descendants, e.tag.Ordinary := by
  induction f with
  | nil => exact nofun
  | leaf m kind content next ih =>
    cases kind with
    | text => exact ih h.2.2
    | comment => exact ih h.2
    | _ => exact absurd h id
  | element m tag children next ihc ih =>
    obtain ⟨htag, -, hchildren, hnext⟩ := h
    exact List.forall_mem_cons.mpr
      ⟨htag, List.forall_mem_append.mpr ⟨ihc hchildren, ih hnext⟩⟩

theorem Headed.tags {f : Forest α} (h : f.Headed) : ∀ e ∈ f.descendants, e.tag.Ordinary := by
  unfold Headed at h
  split at h
  · exact h.2.tags
  · exact h.tags

end Forest

end Mailgrid.Markup
