import Mailgrid.Proofs.RawBlock.Cut

/-!
# Texts with their markers

A marker reaches from one `<` to the next `>`, with nothing but blanks, a slash
and the letters of its name between. So two markers share no character, and a
marker that starts in a part of a text ends in it, unless the part is cut off
within the marker.

A text is put down here with all its markers: where its blocks are is said of
each part alone, and so the contents may be others.
-/

namespace Mailgrid.RawBlock

open Mailgrid.Text (isBlank isLike)

variable {s t u rest content : List Char}

-- ---------------------------------------------------------------------------
-- The inside of a marker

/-- A marker between its angle brackets. -/
def Opens (body : List Char) : Prop :=
  ∃ blanks name more, (∀ c ∈ blanks ++ more, isBlank c = true) ∧
    List.Forall₂ (fun w c => isLike w c = true) "raw".toList name ∧ body = blanks ++ name ++ more

def Closes (body : List Char) : Prop :=
  ∃ blanks name, (∀ c ∈ blanks, isBlank c = true) ∧ Opens name ∧ body = blanks ++ '/' :: name

/-- `s` starts with a marker, with `rest` behind it. -/
def Starts (body : List Char → Prop) (s rest : List Char) : Prop :=
  ∃ held, body held ∧ s = '<' :: (held ++ '>' :: rest)

theorem isMarkerName_iff : IsMarkerName s rest ↔ ∃ held, Opens held ∧ s = held ++ '>' :: rest := by
  constructor
  · rintro ⟨blanks, name, more, hblank, hname, rfl⟩
    exact ⟨_, ⟨blanks, name, more, hblank, hname, rfl⟩, by simp⟩
  · rintro ⟨_, ⟨blanks, name, more, hblank, hname, rfl⟩, rfl⟩
    exact ⟨blanks, name, more, hblank, hname, by simp⟩

theorem isOpening_iff : IsOpening s rest ↔ Starts Opens s rest := by
  constructor
  · rintro ⟨t, rfl, h⟩
    obtain ⟨held, hheld, rfl⟩ := isMarkerName_iff.mp h
    exact ⟨held, hheld, rfl⟩
  · rintro ⟨held, hheld, rfl⟩
    exact ⟨_, rfl, isMarkerName_iff.mpr ⟨held, hheld, rfl⟩⟩

theorem isClosing_iff : IsClosing s rest ↔ Starts Closes s rest := by
  constructor
  · rintro ⟨blanks, t, hblanks, rfl, h⟩
    obtain ⟨held, hheld, rfl⟩ := isMarkerName_iff.mp h
    exact ⟨blanks ++ '/' :: held, ⟨blanks, held, hblanks, hheld, rfl⟩, by simp⟩
  · rintro ⟨_, ⟨blanks, held, hblanks, hheld, rfl⟩, rfl⟩
    exact ⟨blanks, held ++ '>' :: rest, hblanks, by simp,
      isMarkerName_iff.mpr ⟨held, hheld, rfl⟩⟩

/-- A character that may stand within a marker. -/
def isInner (c : Char) : Bool :=
  isBlank c || c == '/' || "raw".toList.any (isLike · c)

theorem exists_left_of_mem {α β : Type} {R : α → β → Prop} {xs : List α} {ys : List β} {y : β}
    (h : List.Forall₂ R xs ys) (hy : y ∈ ys) : ∃ x ∈ xs, R x y := by
  induction h with
  | nil => cases hy
  | cons hR _ ih =>
    rcases List.mem_cons.mp hy with rfl | hy
    · exact ⟨_, List.mem_cons_self, hR⟩
    · obtain ⟨x, hx, hR⟩ := ih hy
      exact ⟨x, List.mem_cons_of_mem _ hx, hR⟩

theorem isInner_of_opens (h : Opens s) : ∀ c ∈ s, isInner c = true := by
  obtain ⟨blanks, name, more, hblank, hname, rfl⟩ := h
  obtain ⟨hblanks, hmore⟩ := List.forall_mem_append.mp hblank
  have hletters : ∀ c ∈ name, "raw".toList.any (isLike · c) = true := by
    intro c hc
    obtain ⟨w, hw, hlike⟩ := exists_left_of_mem hname hc
    exact List.any_eq_true.mpr ⟨w, hw, hlike⟩
  intro c hc
  rw [isInner]
  rcases List.mem_append.mp hc with hc | hc
  · rcases List.mem_append.mp hc with hc | hc
    · simp [hblanks c hc]
    · rw [hletters c hc, Bool.or_true]
  · simp [hmore c hc]

theorem isInner_of_closes (h : Closes s) : ∀ c ∈ s, isInner c = true := by
  obtain ⟨blanks, name, hblanks, hname, rfl⟩ := h
  intro c hc
  rcases List.mem_append.mp hc with hc | hc
  · simp [isInner, hblanks c hc]
  · rcases List.mem_cons.mp hc with rfl | hc
    · rfl
    · exact isInner_of_opens hname c hc

-- ---------------------------------------------------------------------------
-- Markers in a part of a text

/-- No marker that starts before this text ends in it. -/
def Barred (t : List Char) : Prop :=
  ∀ held rest, (∀ c ∈ held, isInner c = true) → t ≠ held ++ '>' :: rest

theorem barred_cons {c : Char} (hc : isInner c = false) (hne : c ≠ '>') (t : List Char) :
    Barred (c :: t) := by
  rintro (_ | ⟨d, held⟩) rest hheld h
  · exact hne (List.cons.inj h).1
  · obtain rfl := (List.cons.inj h).1
    rw [hheld c List.mem_cons_self] at hc
    cases hc

section
variable {body : List Char → Prop}

theorem Starts.append (h : Starts body s rest) (t : List Char) :
    Starts body (s ++ t) (rest ++ t) := by
  obtain ⟨held, hheld, rfl⟩ := h
  exact ⟨held, hheld, by simp⟩

theorem Starts.of_append (hbody : ∀ held, body held → ∀ c ∈ held, isInner c = true)
    (h : Starts body (s ++ t) rest) (hs : s ≠ []) (ht : Barred t) :
    ∃ r, Starts body s r ∧ rest = r ++ t := by
  obtain ⟨held, hheld, he⟩ := h
  obtain ⟨c, s, rfl⟩ := List.exists_cons_of_ne_nil hs
  rw [List.cons_append] at he
  obtain ⟨rfl, hbehind⟩ := List.cons.inj he
  rcases List.append_eq_append_iff.mp hbehind with ⟨v, rfl, hv⟩ | ⟨v, rfl, hv⟩
  · exact absurd hv (ht v rest fun c hc => hbody _ hheld c (List.mem_append_right _ hc))
  · cases v with
    | nil => exact absurd hv.symm (ht [] rest nofun)
    | cons d v =>
      obtain ⟨rfl, rfl⟩ := List.cons.inj hv
      exact ⟨v, ⟨held, hheld, rfl⟩, rfl⟩

theorem Starts.barred (h : Starts body s rest) (t : List Char) : Barred (s ++ t) := by
  obtain ⟨held, -, rfl⟩ := h
  exact barred_cons (by decide) (by decide) _

theorem Starts.exists_marker (h : Starts body s rest) :
    ∃ marker, Starts body marker [] ∧ s = marker ++ rest := by
  obtain ⟨held, hheld, rfl⟩ := h
  exact ⟨'<' :: (held ++ ['>']), ⟨held, hheld, rfl⟩, by simp⟩

end

/-- A marker of a kind stands somewhere in a text. -/
def Holds (marker : List Char → List Char → Prop) (s : List Char) : Prop :=
  ∃ before after rest, s = before ++ after ∧ marker after rest

theorem not_holds_closing_cut (h : ¬ Holds IsClosing content) (hclosing : IsClosing s rest)
    {before after behind : List Char} (he : content ++ s = before ++ after)
    (hafter : IsClosing after behind) : content.length ≤ before.length := by
  rcases List.append_eq_append_iff.mp he with ⟨x, rfl, -⟩ | ⟨x, rfl, rfl⟩
  · simp
  · cases x with
    | nil => simp
    | cons c x =>
      -- the marker would stand in the content, since the one behind it does not end it
      have hbarred : Barred s := by
        simpa using (isClosing_iff.mp hclosing).barred []
      obtain ⟨r, hr, -⟩ := (isClosing_iff.mp hafter).of_append (fun _ => isInner_of_closes)
        (List.cons_ne_nil c x) hbarred
      exact absurd ⟨before, c :: x, r, rfl, isClosing_iff.mpr hr⟩ h

/-- A block reaches from an opening marker to the first closing marker behind it. -/
theorem isBlock_iff_markers : IsBlock s content rest ↔ ∃ opening closing,
    IsOpening opening [] ∧ IsClosing closing [] ∧ ¬ Holds IsClosing content ∧
      s = opening ++ (content ++ (closing ++ rest)) := by
  constructor
  · rintro ⟨closing, ho, hc, hfirst⟩
    obtain ⟨opening, hopening, rfl⟩ := (isOpening_iff.mp ho).exists_marker
    obtain ⟨closing, hclosing, rfl⟩ := (isClosing_iff.mp hc).exists_marker
    refine ⟨opening, closing, isOpening_iff.mpr hopening, isClosing_iff.mpr hclosing, ?_, rfl⟩
    rintro ⟨before, after, behind, rfl, hafter⟩
    have hlong := hfirst before (after ++ (closing ++ rest)) _ (List.append_assoc _ _ _)
      (isClosing_iff.mpr ((isClosing_iff.mp hafter).append _))
    obtain ⟨held, -, rfl⟩ := isClosing_iff.mp hafter
    simp only [List.length_append, List.length_cons] at hlong
    omega
  · rintro ⟨opening, closing, ho, hc, hnone, rfl⟩
    have hclosing : IsClosing (closing ++ rest) rest :=
      isClosing_iff.mpr ((isClosing_iff.mp hc).append rest)
    exact ⟨closing ++ rest, isOpening_iff.mpr ((isOpening_iff.mp ho).append _), hclosing,
      fun before after behind he hafter => not_holds_closing_cut hnone hclosing he hafter⟩

theorem exists_isBlock (h : IsOpening s rest) (hc : Holds IsClosing rest) :
    ∃ content behind, IsBlock s content behind := by
  have hsome : Text.cutAt closing? rest ≠ none := by
    intro hnone
    obtain ⟨before, after, behind, rfl, hafter⟩ := hc
    have hlook := Text.look_of_cutAt_none hnone after (List.suffix_append before after)
    rw [closing?_eq_some_iff.mpr hafter] at hlook
    cases hlook
  obtain ⟨⟨content, behind⟩, hcut⟩ := Option.ne_none_iff_exists'.mp hsome
  exact ⟨content, behind, isBlock_iff.mpr ⟨rest, opening?_eq_some_iff.mpr h, hcut⟩⟩

-- ---------------------------------------------------------------------------
-- Cuts with their markers

/-- A raw block with its markers, and what stands behind it up to the next one. -/
structure Block where
  opening : List Char
  content : List Char
  closing : List Char
  gap : List Char

def Block.write (block : Block) : List Char :=
  block.opening ++ (block.content ++ (block.closing ++ block.gap))

/-- A text in parts, with the markers that a cut leaves out. -/
structure Marked where
  first : List Char
  blocks : List Block

def Marked.write (marked : Marked) : List Char :=
  marked.first ++ marked.blocks.flatMap Block.write

def Marked.cut (marked : Marked) : Cut :=
  ⟨marked.first, marked.blocks.map fun block => (block.content, block.gap)⟩

/-- Nothing opens before a block, no content goes on behind a closing marker, and what opens behind
the last block is not closed. -/
def IsLeftmost : List Char → List Block → Prop
  | gap, [] => ∀ before after rest, gap = before ++ after → IsOpening after rest →
      ¬ Holds IsClosing rest
  | gap, block :: blocks => ¬ Holds IsOpening gap ∧ IsOpening block.opening [] ∧
      ¬ Holds IsClosing block.content ∧ IsClosing block.closing [] ∧ IsLeftmost block.gap blocks

theorem Holds.of_suffix {marker : List Char → List Char → Prop} (h : Holds marker t)
    (hs : t <:+ s) : Holds marker s := by
  obtain ⟨before, after, rest, rfl, hafter⟩ := h
  obtain ⟨u, rfl⟩ := hs
  exact ⟨u ++ before, after, rest, (List.append_assoc _ _ _).symm, hafter⟩

theorem Holds.cons {marker : List Char → List Char → Prop} {c : Char}
    (h : Holds marker (c :: s)) : (∃ rest, marker (c :: s) rest) ∨ Holds marker s := by
  obtain ⟨before, after, rest, he, hafter⟩ := h
  cases before with
  | nil => exact .inl ⟨rest, he ▸ hafter⟩
  | cons d before => exact .inr ⟨before, after, rest, (List.cons.inj he).2, hafter⟩

theorem isCut_of_isLeftmost {gap : List Char} {blocks : List Block} (h : IsLeftmost gap blocks) :
    IsCut (Marked.mk gap blocks).write (Marked.mk gap blocks).cut := by
  induction blocks generalizing gap with
  | nil =>
    induction gap with
    | nil => exact .nil
    | cons c gap ih =>
      refine .plain (fun content rest hblock => ?_) (ih fun before after rest he =>
        h (c :: before) after rest (congrArg (c :: ·) he))
      obtain ⟨closing, ho, hc, -⟩ := hblock
      have hopening : IsOpening (c :: (gap ++ [])) (content ++ closing) := ho
      rw [List.append_nil] at hopening
      exact h [] _ _ rfl hopening ⟨content, closing, rest, rfl, hc⟩
  | cons block blocks ih =>
    obtain ⟨hgap, ho, hcontent, hc, hrest⟩ := h
    induction gap with
    | nil =>
      refine .block (isBlock_iff_markers.mpr
        ⟨block.opening, block.closing, ho, hc, hcontent, ?_⟩) (ih hrest)
      simp [Marked.write, Block.write]
    | cons c gap ihGap =>
      refine .plain (fun content rest hblock => ?_)
        (ihGap fun hholds => hgap (hholds.of_suffix (List.suffix_cons c gap)))
      -- what opens before the first block would open in the gap
      obtain ⟨closing, hopening, -⟩ := hblock
      have hbarred : Barred ((block :: blocks).flatMap Block.write) := by
        rw [List.flatMap_cons, Block.write, List.append_assoc]
        exact (isOpening_iff.mp ho).barred _
      obtain ⟨r, hr, -⟩ := (isOpening_iff.mp hopening).of_append (fun _ => isInner_of_opens)
        (List.cons_ne_nil c gap) hbarred
      exact hgap ⟨[], c :: gap, r, rfl, isOpening_iff.mpr hr⟩

/-- Every cut is one without the markers of its text. -/
theorem exists_isLeftmost {cut : Cut} (h : IsCut s cut) :
    ∃ blocks, IsLeftmost cut.first blocks ∧ s = (Marked.mk cut.first blocks).write ∧
      (Marked.mk cut.first blocks).cut = cut := by
  induction h with
  | nil =>
    refine ⟨[], fun before after rest he ho => ?_, rfl, rfl⟩
    obtain ⟨t, rfl, -⟩ := ho
    simp at he
  | @plain c s gap pairs hno _ ih =>
    obtain ⟨blocks, hleft, rfl, hcut⟩ := ih
    refine ⟨blocks, ?_, rfl, congrArg (Cut.mk (c :: gap)) (congrArg Cut.blocks hcut)⟩
    cases blocks with
    | nil =>
      intro before after rest he ho hholds
      cases before with
      | nil =>
        obtain rfl : c :: gap = after := he
        obtain ⟨content, behind, hblock⟩ := exists_isBlock ho hholds
        refine hno content behind ?_
        rwa [Marked.write, List.flatMap_nil, List.append_nil]
      | cons d before => exact hleft before after rest (List.cons.inj he).2 ho hholds
    | cons block blocks =>
      obtain ⟨hgap, ho, hcontent, hc, hrest⟩ := hleft
      refine ⟨fun hholds => ?_, ho, hcontent, hc, hrest⟩
      obtain ⟨rest, hopening⟩ | hholds := hholds.cons
      · have hclosed : Holds IsClosing (rest ++ (block :: blocks).flatMap Block.write) :=
          ⟨rest ++ block.opening ++ block.content,
            block.closing ++ (block.gap ++ blocks.flatMap Block.write),
            block.gap ++ blocks.flatMap Block.write, by simp [Block.write],
            isClosing_iff.mpr ((isClosing_iff.mp hc).append _)⟩
        obtain ⟨content, behind, hblock⟩ := exists_isBlock
          (isOpening_iff.mpr ((isOpening_iff.mp hopening).append _)) hclosed
        exact hno content behind hblock
      · exact hgap hholds
  | @block s content rest gap pairs hblock _ ih =>
    obtain ⟨blocks, hleft, rfl, hcut⟩ := ih
    obtain ⟨opening, closing, ho, hc, hcontent, rfl⟩ := isBlock_iff_markers.mp hblock
    refine ⟨⟨opening, content, closing, gap⟩ :: blocks, ⟨?_, ho, hcontent, hc, hleft⟩, ?_,
      congrArg (fun pairs => Cut.mk [] ((content, gap) :: pairs)) (congrArg Cut.blocks hcut)⟩
    · rintro ⟨before, after, rest, he, ⟨t, rfl, -⟩⟩
      simp at he
    · simp [Marked.write, Block.write]

end Mailgrid.RawBlock
