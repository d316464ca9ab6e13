import Mailgrid.Proofs.RawBlock.Marked
import Mailgrid.Proofs.RawBlock.RoundTrip

/-!
# Shielding in one pass

A search that replaces one block in the text, and goes on in the new text behind
the placeholder, comes to what one pass over the old text does: what it has
passed is done, and what is still to come stands there as it did.

No marker is left that could still be closed. A placeholder has a digit in it,
which no marker has, so no marker reaches over one; and the contents do not
count for where the next block starts.
-/

namespace Mailgrid.RawBlock

variable {settings : Settings} {s t rest content : List Char}

-- ---------------------------------------------------------------------------
-- One block after the other

/-- A text in which blocks are replaced, and where the search goes on in it. -/
structure Pass where
  text : List Char
  offset : Nat
  blocks : List (List Char)

/-- What stands before the first raw block of a text, its content, and what stands behind it. -/
def firstBlock? : List Char → Option (List Char × List Char × List Char) :=
  Text.cutAt fun s => (block? s).map fun found => (found.value, found.rest)

namespace Pass

def ahead (pass : Pass) : List Char :=
  pass.text.drop pass.offset

/-- Writes a placeholder over the next block, and goes on behind it. -/
def next? (settings : Settings) (pass : Pass) : Option Pass :=
  (firstBlock? pass.ahead).map fun (before, content, rest) =>
    let start := pass.offset + before.length
    let placeholder := (settings.placeholder pass.blocks.length).toList
    ⟨pass.text.take start ++ placeholder ++ rest, start + placeholder.length,
      pass.blocks ++ [content]⟩

end Pass

theorem length_of_firstBlock? {before : List Char}
    (h : firstBlock? s = some (before, content, rest)) :
    before.length + rest.length < s.length := by
  obtain ⟨after, rfl, hafter⟩ := Text.look_of_cutAt h
  obtain ⟨found, -, he⟩ := Option.map_eq_some_iff.mp hafter
  cases he
  have := found.shorter
  rw [List.length_append]
  omega

namespace Pass

theorem length_ahead {pass next : Pass} (h : pass.next? settings = some next) :
    next.ahead.length < pass.ahead.length := by
  obtain ⟨⟨before, content, rest⟩, hfirst, rfl⟩ := Option.map_eq_some_iff.mp h
  have hlength := length_of_firstBlock? hfirst
  have hahead : pass.ahead.length = pass.text.length - pass.offset := List.length_drop
  simp only [ahead, List.length_drop, List.length_append, List.length_take] at *
  omega

/-- Goes on until no block is left. -/
def run (settings : Settings) (pass : Pass) : Pass :=
  match _h : pass.next? settings with
  | some next => run settings next
  | none => pass
termination_by pass.ahead.length
decreasing_by exact length_ahead ‹_›

theorem run_of_none {pass : Pass} (h : pass.next? settings = none) : pass.run settings = pass := by
  rw [run]
  split
  · rename_i hn
    cases h.symm.trans hn
  · rfl

theorem run_of_some {pass next : Pass} (h : pass.next? settings = some next) :
    pass.run settings = next.run settings := by
  rw [run]
  split
  · rename_i hn
    cases h.symm.trans hn
    rfl
  · rename_i hn
    cases h.symm.trans hn

def shielded (pass : Pass) : Shielded :=
  ⟨String.ofList pass.text, pass.blocks.map String.ofList⟩

end Pass

-- ---------------------------------------------------------------------------
-- The search and the cut

theorem firstBlock?_of_isCut {gap : List Char} (h : IsCut s ⟨gap, []⟩) :
    firstBlock? s = none ∧ s = gap := by
  generalize hcut : Cut.mk gap [] = cut at h
  induction h generalizing gap with
  | nil =>
    cases hcut
    exact ⟨rfl, rfl⟩
  | plain hno _ ih =>
    cases hcut
    obtain ⟨hnone, rfl⟩ := ih rfl
    refine ⟨?_, rfl⟩
    rw [firstBlock?, Text.cutAt, block?_eq_none_iff.mpr hno]
    exact Option.map_eq_none_iff.mpr hnone
  | block => cases hcut

theorem exists_firstBlock? {gap next : List Char} {pairs : List (List Char × List Char)}
    (h : IsCut s ⟨gap, (content, next) :: pairs⟩) :
    ∃ rest, firstBlock? s = some (gap, content, rest) ∧ IsCut rest ⟨next, pairs⟩ ∧ gap <+: s := by
  generalize hcut : Cut.mk gap ((content, next) :: pairs) = cut at h
  induction h generalizing gap with
  | nil => cases hcut
  | plain hno _ ih =>
    cases hcut
    obtain ⟨rest, hfirst, hrest, block, rfl⟩ := ih rfl
    refine ⟨rest, ?_, hrest, block, rfl⟩
    rw [firstBlock?, Text.cutAt, block?_eq_none_iff.mpr hno]
    exact Option.map_eq_some_iff.mpr ⟨_, hfirst, rfl⟩
  | @block s _ rest _ _ hblock hrest _ =>
    cases hcut
    obtain ⟨shorter, hfound⟩ := block?_of_isBlock hblock
    refine ⟨rest, ?_, hrest, s, rfl⟩
    obtain ⟨c, s, rfl⟩ := List.exists_cons_of_ne_nil hblock.ne_nil
    rw [firstBlock?, Text.cutAt, hfound]
    rfl

theorem next_of_firstBlock? {gap : List Char} (h : firstBlock? s = some (gap, content, rest))
    (hgap : gap <+: s) (done : List Char) (blocks : List (List Char)) :
    let passed := done ++ gap ++ (settings.placeholder blocks.length).toList
    Pass.next? settings ⟨done ++ s, done.length, blocks⟩ =
      some ⟨passed ++ rest, passed.length, blocks ++ [content]⟩ := by
  obtain ⟨behind, rfl⟩ := hgap
  have htake : (done ++ (gap ++ behind)).take (done.length + gap.length) = done ++ gap := by
    rw [← List.append_assoc, ← List.length_append, List.take_left]
  simp only [Pass.next?, Pass.ahead, List.drop_left, h, Option.map_some, htake,
    List.length_append]

/-- What is passed stays, and what is ahead is cut as it was: the induction is on its blocks. -/
theorem run_of_isCut {cut : Cut} (h : IsCut s cut) (done : List Char) (blocks : List (List Char)) :
    ∃ offset, Pass.run settings ⟨done ++ s, done.length, blocks⟩ =
      ⟨done ++ (cut.first ++ numbered settings blocks.length cut.blocks), offset,
        blocks ++ cut.contents⟩ := by
  obtain ⟨gap, pairs⟩ := cut
  induction pairs generalizing s gap done blocks with
  | nil =>
    obtain ⟨hnone, rfl⟩ := firstBlock?_of_isCut h
    have hend : Pass.next? settings ⟨done ++ s, done.length, blocks⟩ = none := by
      rw [Pass.next?, Pass.ahead, List.drop_left, hnone]
      rfl
    refine ⟨done.length, ?_⟩
    rw [Pass.run_of_none hend]
    simp [numbered, Cut.contents]
  | cons pair pairs ih =>
    obtain ⟨content, next⟩ := pair
    obtain ⟨rest, hfirst, hrest, hgap⟩ := exists_firstBlock? h
    obtain ⟨offset, hrun⟩ := ih (done ++ gap ++ (settings.placeholder blocks.length).toList)
      (blocks ++ [content]) next hrest
    refine ⟨offset, ?_⟩
    rw [Pass.run_of_some (next_of_firstBlock? hfirst hgap done blocks), hrun]
    simp [numbered, Cut.contents]

theorem run_eq_shield (settings : Settings) (text : String) :
    (Pass.run settings ⟨text.toList, 0, []⟩).shielded = shield settings text := by
  have hcut := isCut_cutOf text.toList
  obtain ⟨offset, hrun⟩ := run_of_isCut hcut [] []
  rw [shield_of_isCut settings hcut]
  exact congrArg Pass.shielded hrun

-- ---------------------------------------------------------------------------
-- What is left opens nothing

theorem of_isDigit {c : Char} (h : c.isDigit = true) :
    isInner c = false ∧ c ≠ '<' ∧ c ≠ '>' := by
  have hall : ∀ n < 58, (Char.ofNat n).isDigit = true → isInner (Char.ofNat n) = false ∧
      Char.ofNat n ≠ '<' ∧ Char.ofNat n ≠ '>' := by decide
  have hlast := (Text.toNat_of_isDigit h).2
  have hc := hall c.toNat (by omega)
  rw [Char.ofNat_toNat] at hc
  exact hc h

/-- Settings whose placeholders have no angle bracket. -/
def IsPlain (settings : Settings) : Prop :=
  ∀ c ∈ settings.rawStart.toList ++ settings.rawEnd.toList, c ≠ '<' ∧ c ≠ '>'

theorem IsPlain.placeholder (h : IsPlain settings) (index : Nat) :
    ∀ c ∈ (settings.placeholder index).toList, c ≠ '<' ∧ c ≠ '>' := by
  obtain ⟨hstart, hend⟩ := List.forall_mem_append.mp h
  rw [placeholder_toList]
  refine List.forall_mem_append.mpr ⟨List.forall_mem_append.mpr ⟨hstart, ?_⟩, hend⟩
  exact fun c hc => (of_isDigit (Text.isDigit_of_mem_toString hc)).2

/-- No marker reaches over a placeholder: its number would be within the marker. -/
theorem barred_placeholder (h : IsPlain settings) (index : Nat) (t : List Char) :
    Barred ((settings.placeholder index).toList ++ t) := by
  obtain ⟨d, digits, hdigits⟩ := List.exists_cons_of_ne_nil (Text.toString_ne_nil index)
  have hdigit : d.isDigit = true :=
    Text.isDigit_of_mem_toString (n := index) (hdigits ▸ List.mem_cons_self)
  have hinner := (of_isDigit hdigit).1
  have hmem : d ∈ (settings.placeholder index).toList := by
    rw [placeholder_toList, hdigits]
    simp
  intro held rest hheld he
  have hin : d ∈ held := by
    rcases List.append_eq_append_iff.mp he with ⟨more, rfl, -⟩ | ⟨more, hplaceholder, hrest⟩
    · exact List.mem_append_left _ hmem
    · cases more with
      | nil =>
        rw [List.append_nil] at hplaceholder
        exact hplaceholder ▸ hmem
      | cons c more =>
        obtain rfl := (List.cons.inj hrest).1
        exact absurd rfl ((h.placeholder index '>' (by simp [hplaceholder])).2)
  rw [hheld d hin] at hinner
  cases hinner

theorem not_closed_of_isLeftmost (h : IsPlain settings) {gap : List Char} {blocks : List Block}
    (hleft : IsLeftmost gap blocks) (index : Nat)
    (hs : s <:+ gap ++ numbered settings index (Marked.mk gap blocks).cut.blocks)
    (ho : IsOpening s rest) : ¬ Holds IsClosing rest := by
  induction blocks generalizing gap index with
  | nil =>
    obtain ⟨before, he⟩ := hs
    have hgap : numbered settings index (Marked.mk gap []).cut.blocks = [] := rfl
    rw [hgap, List.append_nil] at he
    exact hleft before s rest he.symm ho
  | cons block blocks ih =>
    obtain ⟨hgap, -, -, -, hrest⟩ := hleft
    obtain ⟨t, rfl, -⟩ := id ho
    have hbehind : '<' :: t <:+ (settings.placeholder index).toList ++
        (block.gap ++ numbered settings (index + 1) (Marked.mk block.gap blocks).cut.blocks) →
        ¬ Holds IsClosing rest := fun hsuffix =>
      ih hrest (index + 1) (Text.suffix_of_not_mem
        (fun hm => (h.placeholder index '<' hm).1 rfl) hsuffix)
    obtain ⟨before, he⟩ := hs
    rcases List.append_eq_append_iff.mp he with ⟨x, hx, hin⟩ | ⟨x, -, hout⟩
    · cases x with
      | nil => exact hbehind (hin ▸ List.suffix_rfl)
      | cons c x =>
        rw [hin] at ho
        obtain ⟨r, hr, -⟩ := (isOpening_iff.mp ho).of_append (fun _ => isInner_of_opens)
          (List.cons_ne_nil c x) (barred_placeholder h index _)
        exact absurd ⟨before, c :: x, r, hx, isOpening_iff.mpr hr⟩ hgap
    · exact hbehind ⟨x, hout.symm⟩

-- ---------------------------------------------------------------------------
-- Other contents

/-- The text with other contents between the same markers. -/
def Marked.refill (marked : Marked) (contents : List (List Char)) : Marked :=
  ⟨marked.first, marked.blocks.zipWith (fun block content => { block with content }) contents⟩

theorem isLeftmost_refill {gap : List Char} {blocks : List Block} {contents : List (List Char)}
    (h : IsLeftmost gap blocks) (hlength : contents.length = blocks.length)
    (hcontents : ∀ content ∈ contents, ¬ Holds IsClosing content) :
    IsLeftmost gap (Marked.mk gap blocks |>.refill contents).blocks := by
  induction blocks generalizing gap contents with
  | nil => exact h
  | cons block blocks ih =>
    obtain ⟨hgap, ho, -, hc, hrest⟩ := h
    cases contents with
    | nil => cases hlength
    | cons content contents =>
      obtain ⟨hcontent, hcontents⟩ := List.forall_mem_cons.mp hcontents
      exact ⟨hgap, ho, hcontent, hc, ih hrest (Nat.succ.inj hlength) hcontents⟩

theorem cut_refill {m : Marked} {contents : List (List Char)}
    (hlength : contents.length = m.blocks.length) (settings : Settings) (index : Nat) :
    (m.refill contents).cut.contents = contents ∧
      numbered settings index (m.refill contents).cut.blocks =
        numbered settings index m.cut.blocks := by
  obtain ⟨gap, blocks⟩ := m
  induction blocks generalizing contents index with
  | nil =>
    obtain rfl := List.eq_nil_of_length_eq_zero hlength
    exact ⟨rfl, rfl⟩
  | cons block blocks ih =>
    cases contents with
    | nil => cases hlength
    | cons content contents =>
      obtain ⟨hcontents, hnumbered⟩ := ih (index + 1) (Nat.succ.inj hlength)
      refine ⟨congrArg (content :: ·) hcontents, ?_⟩
      exact congrArg (fun more => (settings.placeholder index).toList ++ (block.gap ++ more))
        hnumbered

-- ---------------------------------------------------------------------------
-- Complete in one pass

theorem isPlain_standard : IsPlain .standard := by
  unfold IsPlain
  decide

theorem IsLeftmost.markers {gap : List Char} {blocks : List Block} (h : IsLeftmost gap blocks) :
    ∀ block ∈ blocks, IsOpening block.opening [] ∧ IsClosing block.closing [] ∧
      ¬ Holds IsClosing block.content := by
  induction blocks generalizing gap with
  | nil => exact nofun
  | cons block blocks ih =>
    obtain ⟨-, ho, hcontent, hc, hrest⟩ := h
    exact List.forall_mem_cons.mpr ⟨⟨ho, hc, hcontent⟩, ih hrest⟩

/-- The blocks that are cut out of a text are those of its only cut, and each is replaced by its
number. What is left opens no block that is closed, and is the same for other contents between the
same markers. -/
theorem shield_in_one_pass (h : IsPlain settings) (text : String) :
    (Pass.run settings ⟨text.toList, 0, []⟩).shielded = shield settings text ∧
      ∃ marked : Marked, marked.write = text.toList ∧
        (∀ block ∈ marked.blocks, IsOpening block.opening [] ∧ IsClosing block.closing [] ∧
          ¬ Holds IsClosing block.content) ∧
        (∀ cut, IsCut text.toList cut ↔ cut = marked.cut) ∧
        shield settings text =
          ⟨String.ofList (marked.first ++ numbered settings 0 marked.cut.blocks),
            marked.cut.contents.map String.ofList⟩ ∧
        (∀ s rest, s <:+ (shield settings text).text.toList → IsOpening s rest →
          ¬ Holds IsClosing rest) ∧
        ∀ contents : List String, contents.length = marked.blocks.length →
          (∀ content ∈ contents, ¬ Holds IsClosing content.toList) →
          shield settings (String.ofList (marked.refill (contents.map String.toList)).write) =
            ⟨(shield settings text).text, contents⟩ := by
  refine ⟨run_eq_shield settings text, ?_⟩
  obtain ⟨blocks, hleft, hwrite, hcut⟩ := exists_isLeftmost (isCut_cutOf text.toList)
  generalize (cutOf text.toList).first = gap at hleft hwrite hcut
  have hshield := shield_of_isCut settings (hcut.symm ▸ isCut_cutOf text.toList)
  refine ⟨⟨gap, blocks⟩, hwrite.symm, hleft.markers, fun cut => ?_, hshield, ?_, ?_⟩
  · rw [hcut]
    exact isCut_iff
  · intro s rest hs ho
    rw [hshield, String.toList_ofList] at hs
    exact not_closed_of_isLeftmost h hleft 0 hs ho
  · intro contents hlength hcontents
    have hcount : (contents.map String.toList).length = blocks.length := by
      rw [List.length_map, hlength]
    let refilled := (Marked.mk gap blocks).refill (contents.map String.toList)
    have hrefilled : IsCut (String.ofList refilled.write).toList refilled.cut := by
      rw [String.toList_ofList]
      exact isCut_of_isLeftmost (isLeftmost_refill hleft hcount
        (List.forall_mem_map.mpr hcontents))
    obtain ⟨hvalues, hnumbered⟩ := cut_refill (m := ⟨gap, blocks⟩) hcount settings 0
    rw [shield_of_isCut settings hrefilled, hshield, hvalues, hnumbered]
    simp [refilled, Marked.refill, Marked.cut]

theorem shield_in_one_pass_among_markers :
    shield .standard "a< RAW ><raw></raw >b</raw><raw>" = ⟨"a###RAW0###b</raw><raw>", ["<raw>"]⟩ ∧
      ∀ s rest, s <:+ "a###RAW0###b</raw><raw>".toList → IsOpening s rest →
        ¬ Holds IsClosing rest := by
  have hshield : shield .standard "a< RAW ><raw></raw >b</raw><raw>" =
      ⟨"a###RAW0###b</raw><raw>", ["<raw>"]⟩ := by
    cbv
  obtain ⟨-, marked, -, -, -, -, hleft, -⟩ :=
    shield_in_one_pass isPlain_standard "a< RAW ><raw></raw >b</raw><raw>"
  rw [hshield] at hleft
  exact ⟨hshield, hleft⟩

end Mailgrid.RawBlock
