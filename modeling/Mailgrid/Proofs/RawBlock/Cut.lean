import Mailgrid.Proofs.Text.Search
import Mailgrid.RawBlock
import Mathlib.Data.List.Forall2
import Mathlib.Data.List.TakeWhile

/-!
# How a text is cut at its raw blocks

What a marker and a raw block are, said without a scan; and every text is cut at
its raw blocks in one way, the leftmost block first and each as short as it can
be. Shielding a text leaves the gaps of its cut and the numbers of its blocks.
-/

namespace Mailgrid.RawBlock

open Mailgrid.Text (isBlank skipBlanks)

variable {c : Char} {s rest content : List Char}

-- ---------------------------------------------------------------------------
-- Markers

/-- `s` starts with the name of a marker and its `>`, with `rest` behind them. -/
def IsMarkerName (s rest : List Char) : Prop :=
  ∃ blanks name more, (∀ c ∈ blanks ++ more, isBlank c = true) ∧
    List.Forall₂ (fun w c => Text.isLike w c = true) "raw".toList name ∧
    s = blanks ++ name ++ more ++ '>' :: rest

def IsOpening (s rest : List Char) : Prop :=
  ∃ t, s = '<' :: t ∧ IsMarkerName t rest

def IsClosing (s rest : List Char) : Prop :=
  ∃ blanks t, (∀ c ∈ blanks, isBlank c = true) ∧ s = '<' :: (blanks ++ '/' :: t) ∧
    IsMarkerName t rest

theorem skipBlanks_append {blanks : List Char} (h : ∀ c ∈ blanks, isBlank c = true)
    (s : List Char) : skipBlanks (blanks ++ s) = skipBlanks s :=
  List.dropWhile_append_of_pos h

theorem exists_blanks (s : List Char) :
    ∃ blanks, (∀ c ∈ blanks, isBlank c = true) ∧ s = blanks ++ skipBlanks s :=
  ⟨s.takeWhile isBlank, fun _ => List.mem_takeWhile_imp, List.takeWhile_append_dropWhile.symm⟩

theorem spelling?_eq_some_iff {word spelled : List Char} :
    Text.spelling? word s = some (spelled, rest) ↔
      List.Forall₂ (fun w c => Text.isLike w c = true) word spelled ∧ s = spelled ++ rest := by
  induction word generalizing s spelled with
  | nil =>
    rw [Text.spelling?, Option.some.injEq, Prod.mk.injEq, List.forall₂_nil_left_iff]
    constructor
    · rintro ⟨rfl, rfl⟩
      exact ⟨rfl, rfl⟩
    · rintro ⟨rfl, rfl⟩
      exact ⟨rfl, rfl⟩
  | cons w word ih =>
    constructor
    · intro h
      cases s with
      | nil => cases h
      | cons c s =>
        rw [Text.spelling?] at h
        split at h
        · rename_i hc
          obtain ⟨⟨spelled, after⟩, hs, he⟩ := Option.map_eq_some_iff.mp h
          cases he
          obtain ⟨hall, rfl⟩ := ih.mp hs
          exact ⟨.cons hc hall, rfl⟩
        · cases h
    · rintro ⟨hall, rfl⟩
      cases hall with
      | cons hc hall =>
        rw [List.cons_append, Text.spelling?, if_pos hc, ih.mpr ⟨hall, rfl⟩]
        rfl

theorem not_blank_of_isLike (h : Text.isLike 'r' c = true) : isBlank c = false := by
  have hlower : c.toLower = 'r' := by
    simp only [Text.isLike, Text.foldKey, Bool.or_eq_true, Bool.and_eq_true, beq_iff_eq] at h
    rcases h with (h | ⟨h, -⟩) | ⟨h, -⟩
    · split at h
      · exact absurd h (by decide)
      · split at h
        · exact absurd h (by decide)
        · exact h
    · exact absurd h (by decide)
    · exact absurd h (by decide)
  cases hb : isBlank c with
  | false => rfl
  | true =>
    have hsame : c.toLower = c := by
      refine dif_neg ?_
      simp only [isBlank, Bool.or_eq_true, Bool.and_eq_true, decide_eq_true_eq, beq_iff_eq] at hb
      simp only [ge_iff_le, UInt32.le_iff_toNat_le]
      have hval : c.toNat = c.val.toNat := rfl
      have hfirst : 'A'.val.toNat = 65 := rfl
      have hlast : 'Z'.val.toNat = 90 := rfl
      omega
    rw [hsame] at hlower
    subst hlower
    exact absurd hb (by decide)

theorem markerName?_eq_some_iff : markerName? s = some rest ↔ IsMarkerName s rest := by
  constructor
  · intro h
    unfold markerName? at h
    split at h
    · rename_i name behind hname
      split at h
      · rename_i after hafter
        cases h
        obtain ⟨hlike, he⟩ := spelling?_eq_some_iff.mp hname
        obtain ⟨blanks, hblanks, hs⟩ := exists_blanks s
        obtain ⟨more, hmore, hbehind⟩ := exists_blanks behind
        refine ⟨blanks, name, more, List.forall_mem_append.mpr ⟨hblanks, hmore⟩, hlike, ?_⟩
        rw [hs, he, hbehind, hafter]
        simp only [List.append_assoc]
      · cases h
    · cases h
  · rintro ⟨blanks, name, more, hblank, hlike, rfl⟩
    obtain ⟨hblanks, hmore⟩ := List.forall_mem_append.mp hblank
    have hname : skipBlanks (name ++ (more ++ '>' :: rest)) = name ++ (more ++ '>' :: rest) := by
      cases hlike with
      | cons hc _ => exact Text.skipBlanks_of_not_blank (not_blank_of_isLike hc) _
    have hspelled : Text.spelling? "raw".toList (name ++ (more ++ '>' :: rest)) =
        some (name, more ++ '>' :: rest) := spelling?_eq_some_iff.mpr ⟨hlike, rfl⟩
    have hend : skipBlanks (more ++ '>' :: rest) = '>' :: rest := by
      rw [skipBlanks_append hmore]
      exact Text.skipBlanks_of_not_blank (by decide) rest
    simp only [markerName?, List.append_assoc, skipBlanks_append hblanks, hname, hspelled, hend]

theorem opening?_eq_some_iff : opening? s = some rest ↔ IsOpening s rest := by
  constructor
  · intro h
    unfold opening? at h
    split at h
    · exact ⟨_, rfl, markerName?_eq_some_iff.mp h⟩
    · cases h
  · rintro ⟨t, rfl, h⟩
    exact markerName?_eq_some_iff.mpr h

theorem closing?_eq_some_iff : closing? s = some rest ↔ IsClosing s rest := by
  constructor
  · intro h
    unfold closing? at h
    split at h
    · rename_i s
      split at h
      · rename_i after hafter
        obtain ⟨blanks, hblanks, hs⟩ := exists_blanks s
        exact ⟨blanks, after, hblanks, by rw [hs, hafter], markerName?_eq_some_iff.mp h⟩
      · cases h
    · cases h
  · rintro ⟨blanks, t, hblanks, rfl, h⟩
    have hslash : skipBlanks (blanks ++ '/' :: t) = '/' :: t := by
      rw [skipBlanks_append hblanks]
      exact Text.skipBlanks_of_not_blank (by decide) t
    simp only [closing?, hslash]
    exact markerName?_eq_some_iff.mpr h

-- ---------------------------------------------------------------------------
-- Blocks

/-- `s` starts with a raw block, with `rest` behind it. The block ends at the first closing marker. -/
def IsBlock (s content rest : List Char) : Prop :=
  ∃ closing, IsOpening s (content ++ closing) ∧ IsClosing closing rest ∧
    ∀ before after behind, content ++ closing = before ++ after → IsClosing after behind →
      content.length ≤ before.length

theorem isBlock_iff : IsBlock s content rest ↔
    ∃ inside, opening? s = some inside ∧
      Text.cutAt closing? inside = some (content, rest) := by
  simp only [IsBlock, opening?_eq_some_iff, Text.cutAt_eq_some_iff, closing?_eq_some_iff]
  constructor
  · rintro ⟨closing, ho, hc, hfirst⟩
    exact ⟨content ++ closing, ho, closing, rfl, hc, hfirst⟩
  · rintro ⟨inside, ho, closing, rfl, hc, hfirst⟩
    exact ⟨closing, ho, hc, hfirst⟩

theorem isBlock_of_block? {m : Text.Match (List Char) s} (h : block? s = some m) :
    IsBlock s m.value m.rest := by
  unfold block? at h
  split at h
  · cases h
  · rename_i inside ho
    split at h
    · cases h
    · rename_i hc
      cases h
      exact isBlock_iff.mpr ⟨inside, ho, hc⟩

theorem block?_of_isBlock (h : IsBlock s content rest) :
    ∃ shorter, block? s = some ⟨content, rest, shorter⟩ := by
  obtain ⟨inside, ho, hc⟩ := isBlock_iff.mp h
  have hshorter : rest.length < s.length := by
    obtain ⟨after, rfl, ha⟩ := Text.look_of_cutAt hc
    have h1 := length_of_opening? ho
    have h2 := length_of_closing? ha
    simp only [List.length_append] at h1
    omega
  refine ⟨hshorter, ?_⟩
  unfold block?
  split
  · rename_i hno
    rw [ho] at hno
    cases hno
  · rename_i found hfound
    rw [ho] at hfound
    cases hfound
    split
    · rename_i hno
      rw [hc] at hno
      cases hno
    · rename_i hfound
      rw [hc] at hfound
      cases hfound
      rfl

theorem block?_eq_none_iff : block? s = none ↔ ∀ content rest, ¬ IsBlock s content rest := by
  constructor
  · intro h content rest hb
    obtain ⟨_, hs⟩ := block?_of_isBlock hb
    rw [h] at hs
    cases hs
  · intro h
    cases hb : block? s with
    | none => rfl
    | some m => exact absurd (isBlock_of_block? hb) (h _ _)

-- ---------------------------------------------------------------------------
-- Cuts

/-- A text in parts: what stands before its first raw block, and the content of each block with
what stands behind it up to the next one. -/
structure Cut where
  first : List Char
  blocks : List (List Char × List Char)
  deriving DecidableEq

namespace Cut

def gaps (cut : Cut) : List (List Char) :=
  cut.first :: cut.blocks.map Prod.snd

def contents (cut : Cut) : List (List Char) :=
  cut.blocks.map Prod.fst

/-- The text without the markers. -/
def joined (cut : Cut) : List Char :=
  cut.first ++ cut.blocks.flatMap fun (content, gap) => content ++ gap

def pieces (cut : Cut) : List (Text.Piece (List Char)) :=
  cut.first.map .plain ++
    cut.blocks.flatMap fun (content, gap) => .found content :: gap.map .plain

end Cut

/-- Where a raw block starts it is cut out; a character that starts none belongs to a gap. -/
inductive IsCut : List Char → Cut → Prop
  | nil : IsCut [] ⟨[], []⟩
  | plain {c : Char} {s gap : List Char} {blocks : List (List Char × List Char)} :
      (∀ content rest, ¬ IsBlock (c :: s) content rest) → IsCut s ⟨gap, blocks⟩ →
      IsCut (c :: s) ⟨c :: gap, blocks⟩
  | block {s content rest gap : List Char} {blocks : List (List Char × List Char)} :
      IsBlock s content rest → IsCut rest ⟨gap, blocks⟩ →
      IsCut s ⟨[], (content, gap) :: blocks⟩

/-- The parts that the scan of a text finds. -/
def Cut.ofPieces : List (Text.Piece (List Char)) → Cut
  | [] => ⟨[], []⟩
  | .plain c :: rest => ⟨c :: (ofPieces rest).first, (ofPieces rest).blocks⟩
  | .found content :: rest => ⟨[], (content, (ofPieces rest).first) :: (ofPieces rest).blocks⟩

def cutOf (s : List Char) : Cut :=
  .ofPieces (Text.pieces block? s)

theorem isCut_cutOf (s : List Char) : IsCut s (cutOf s) := by
  unfold cutOf
  induction s using Text.pieces.induct block? with
  | case1 =>
    rw [Text.pieces]
    exact .nil
  | case2 c rest m hm ih =>
    rw [Text.pieces, hm]
    exact .block (isBlock_of_block? hm) ih
  | case3 c rest hn ih =>
    rw [Text.pieces, hn]
    exact .plain (block?_eq_none_iff.mp hn) ih

theorem IsBlock.ne_nil (h : IsBlock s content rest) : s ≠ [] := by
  obtain ⟨_, ⟨t, rfl, -⟩, -⟩ := h
  exact List.cons_ne_nil '<' t

theorem IsBlock.unique {content' rest' : List Char} (h : IsBlock s content rest)
    (h' : IsBlock s content' rest') : content = content' ∧ rest = rest' := by
  obtain ⟨inside, ho, hc⟩ := isBlock_iff.mp h
  obtain ⟨inside', ho', hc'⟩ := isBlock_iff.mp h'
  rw [ho] at ho'
  cases ho'
  rw [hc] at hc'
  cases hc'
  exact ⟨rfl, rfl⟩

theorem IsCut.unique {cut cut' : Cut} (h : IsCut s cut) (h' : IsCut s cut') : cut' = cut := by
  induction h generalizing cut' with
  | nil =>
    cases h' with
    | nil => rfl
    | block hb _ => exact absurd rfl hb.ne_nil
  | plain hno _ ih =>
    cases h' with
    | plain _ hcut =>
      cases ih hcut
      rfl
    | block hb _ => exact absurd hb (hno _ _)
  | block hb _ ih =>
    cases h' with
    | nil => exact absurd rfl hb.ne_nil
    | plain hno _ => exact absurd hb (hno _ _)
    | block hb' hcut =>
      obtain ⟨rfl, rfl⟩ := hb.unique hb'
      cases ih hcut
      rfl

/-- A text is cut in one way only. -/
theorem isCut_iff {cut : Cut} : IsCut s cut ↔ cut = cutOf s := by
  refine ⟨fun h => (isCut_cutOf s).unique h, ?_⟩
  rintro rfl
  exact isCut_cutOf s

theorem pieces_of_isCut {cut : Cut} (h : IsCut s cut) : Text.pieces block? s = cut.pieces := by
  induction h with
  | nil =>
    rw [Text.pieces]
    rfl
  | plain hno _ ih =>
    rw [Text.pieces, block?_eq_none_iff.mpr hno, ih]
    rfl
  | @block s content rest gap blocks hb _ ih =>
    obtain ⟨_, hs⟩ := block?_of_isBlock hb
    cases s with
    | nil => exact absurd rfl hb.ne_nil
    | cons c s =>
      rw [Text.pieces, hs]
      dsimp only
      rw [ih]
      rfl

-- ---------------------------------------------------------------------------
-- Shielding

/-- The gaps behind blocks, each behind the placeholder of its block. -/
def numbered (settings : Settings) (index : Nat) : List (List Char × List Char) → List Char
  | [] => []
  | (_, gap) :: blocks =>
    (settings.placeholder index).toList ++ (gap ++ numbered settings (index + 1) blocks)

theorem placeholders_append (settings : Settings) (index : Nat) (gap : List Char)
    (pieces : List (Text.Piece (List Char))) :
    placeholders settings index (gap.map .plain ++ pieces) =
      gap ++ placeholders settings index pieces := by
  induction gap with
  | nil => rfl
  | cons c gap ih => exact congrArg (c :: ·) ih

theorem placeholders_pieces (settings : Settings) (index : Nat)
    (blocks : List (List Char × List Char)) :
    placeholders settings index (blocks.flatMap fun (content, gap) =>
      .found content :: gap.map .plain) = numbered settings index blocks := by
  induction blocks generalizing index with
  | nil => rfl
  | cons block blocks ih =>
    rw [List.flatMap_cons, List.cons_append, placeholders, placeholders_append, ih, numbered]

theorem values_pieces (cut : Cut) : cut.pieces.filterMap Text.Piece.value? = cut.contents := by
  have hgap (gap : List Char) :
      (gap.map Text.Piece.plain).filterMap (@Text.Piece.value? (List Char)) = [] := by
    induction gap with
    | nil => rfl
    | cons c gap ih => exact ih
  rw [Cut.pieces, List.filterMap_append, hgap, List.nil_append, Cut.contents]
  induction cut.blocks with
  | nil => rfl
  | cons block blocks ih =>
    have hfound : Text.Piece.value? (.found block.1) = some block.1 := rfl
    rw [List.flatMap_cons, List.cons_append, List.filterMap_cons_some hfound,
      List.filterMap_append, hgap, List.nil_append, ih]
    rfl

theorem shield_of_isCut (settings : Settings) {text : String} {cut : Cut}
    (h : IsCut text.toList cut) : shield settings text =
      ⟨String.ofList (cut.first ++ numbered settings 0 cut.blocks),
        cut.contents.map String.ofList⟩ := by
  rw [shield, pieces_of_isCut h, values_pieces, Cut.pieces, placeholders_append,
    placeholders_pieces]

end Mailgrid.RawBlock
