import Mailgrid.Proofs.VoidElement.Passages

/-!
# Values, comments and bodies

Neither what is done with the void tags of a text before it is read nor what is
done with the tags of a written document looks at quotes. A tag within a value
is written anew like any other, unless it is closed as it should be.
-/

namespace Mailgrid.VoidElement

open Mailgrid.Markup (Passage)

variable {m : List Passage} {text : String}

theorem Keeps.exists_interiors {s : List Char} (h : Keeps m s) :
    ∃ more : List Passage, (∀ p ∈ more, p.WellFormed) ∧ more.flatMap Passage.write = s ∧
      more.flatMap Passage.interiors = m.flatMap Passage.interiors ∧
      more.flatMap Passage.kept = m.flatMap Passage.kept := by
  obtain ⟨more, hmore, hwritten, hkept⟩ := h
  exact ⟨more, hmore, hwritten, Passage.interiors_of_kept hkept, hkept⟩

theorem Keeps.trans {s : List Char} {change : List Char → List Char} (h : Keeps m s)
    (hchange : ∀ more : List Passage, (∀ p ∈ more, p.WellFormed) →
      more.flatMap Passage.kept = m.flatMap Passage.kept →
      Keeps more (change (more.flatMap Passage.write))) : Keeps m (change s) := by
  obtain ⟨first, hfirst, rfl, hkept⟩ := h
  obtain ⟨second, hsecond, hwritten, hsame⟩ := hchange first hfirst hkept
  exact ⟨second, hsecond, hwritten, hsame.trans hkept⟩

/-- A text has the same values, comments and bodies when its void tags are closed, and a document
when it is written, if no tag that would be written anew ends in one of them. -/
theorem interiors_stay (hm : ∀ p ∈ m, p.WellFormed)
    (written : text.toList = m.flatMap Passage.write)
    (hslashed : ∀ p ∈ m, isSlashed p.core = true) :
    (∃ more : List Passage, (∀ p ∈ more, p.WellFormed) ∧
      more.flatMap Passage.write = (normalize text).toList ∧
      more.flatMap Passage.interiors = m.flatMap Passage.interiors ∧
      more.flatMap Passage.kept = m.flatMap Passage.kept) ∧
    ((∀ p ∈ m, isUnpaired p.core = true) → (∀ p ∈ m, isVoidOnly p.core = true) →
      ∃ more : List Passage, (∀ p ∈ more, p.WellFormed) ∧
        more.flatMap Passage.write = (canonicalize text).toList ∧
        more.flatMap Passage.interiors = m.flatMap Passage.interiors ∧
        more.flatMap Passage.kept = m.flatMap Passage.kept) := by
  constructor
  · rw [normalize, written, String.toList_ofList]
    exact (keeps_closeLone hm hslashed).exists_interiors
  · intro hunpaired hvoid
    rw [canonicalize, written, String.toList_ofList]
    apply Keeps.exists_interiors
    have hjoined := keeps_joinPaired hm hslashed hunpaired
    have hclosed : Keeps m (closeLone (joinPaired (m.flatMap Passage.write))) := by
      apply hjoined.trans
      intro more hmore hkept
      exact keeps_closeLone hmore
        (Passage.forall_core_of_kept (P := fun s => isSlashed s = true) hkept rfl hslashed)
    apply hclosed.trans
    intro more hmore hkept
    exact keeps_openClosed hmore
      (Passage.forall_core_of_kept (P := fun s => isVoidOnly s = true) hkept rfl hvoid)

/-- A paragraph with angle brackets in its values, and with tags in its comment and its script. -/
def titledPicture : List Passage :=
  [.opening ⟨"p".toList, [⟨" title=".toList, '"', "a > b".toList⟩], []⟩,
    .opening ⟨"img".toList, [⟨" alt=".toList, '\'', "it\"s <br /> here".toList⟩], " ".toList⟩,
    .text " ".toList, .closing "IMG".toList [], .comment " <hr /> ".toList,
    .opening ⟨"td".toList, [], "/".toList⟩,
    .literal ⟨"script".toList, [], []⟩ "if (a<b) f('<br />');".toList "script".toList [],
    .closing "p".toList []]

theorem wellFormed_titledPicture : ∀ p ∈ titledPicture, p.WellFormed := by
  have hblank : ∀ a ∈ ([] : List Markup.Assignment), a.WellFormed := nofun
  simp only [titledPicture, List.forall_mem_cons]
  refine ⟨⟨rfl, List.forall_mem_singleton.mpr ⟨rfl, rfl, rfl, by decide⟩, rfl⟩,
    ⟨rfl, List.forall_mem_singleton.mpr ⟨rfl, rfl, rfl, by decide⟩, rfl⟩, ?_, ⟨rfl, nofun⟩, rfl,
    ⟨rfl, hblank, rfl⟩, ⟨⟨rfl, hblank, rfl⟩, nofun, rfl, rfl, nofun, rfl⟩, ⟨rfl, nofun⟩, nofun⟩
  change '<' ∉ " ".toList
  decide

theorem interiors_stay_titledPicture :
    (∃ more : List Passage, (∀ p ∈ more, p.WellFormed) ∧
      more.flatMap Passage.write =
        (normalize (String.ofList (titledPicture.flatMap Passage.write))).toList ∧
      more.flatMap Passage.interiors = titledPicture.flatMap Passage.interiors ∧
      more.flatMap Passage.kept = titledPicture.flatMap Passage.kept) ∧
    ∃ more : List Passage, (∀ p ∈ more, p.WellFormed) ∧
      more.flatMap Passage.write =
        (canonicalize (String.ofList (titledPicture.flatMap Passage.write))).toList ∧
      more.flatMap Passage.interiors = titledPicture.flatMap Passage.interiors ∧
      more.flatMap Passage.kept = titledPicture.flatMap Passage.kept := by
  have h := interiors_stay wellFormed_titledPicture String.toList_ofList (by decide)
  exact ⟨h.1, h.2 (by decide) (by decide)⟩

def titledBreak : List Passage :=
  [.opening ⟨"p".toList, [⟨" title=".toList, '"', "<br>".toList⟩], []⟩, .closing "p".toList []]

/-- A tag within a value is written anew when it is not closed as it should be. -/
theorem not_interiors_stay :
    ¬ ∀ m : List Passage, (∀ p ∈ m, p.WellFormed) → Passage.areBalanced names [] m = true →
      ∃ more : List Passage,
        more.flatMap Passage.write = (normalize (String.ofList (m.flatMap Passage.write))).toList ∧
        more.flatMap Passage.interiors = m.flatMap Passage.interiors := by
  intro h
  have hwell : ∀ p ∈ titledBreak, p.WellFormed := by
    refine List.forall_mem_cons.mpr ⟨⟨rfl, ?_, rfl⟩, List.forall_mem_singleton.mpr ⟨rfl, nofun⟩⟩
    exact List.forall_mem_singleton.mpr ⟨rfl, rfl, rfl, by decide⟩
  have hnormal :
      closeLone (titledBreak.flatMap Passage.write) = "<p title=\"<br />\"></p>".toList := by
    have hskip {a t : List Char} (ha : ∀ s ∈ a.tails, s = [] ∨ (lone? (s ++ t)).isNone = true) :
        closeLone (a ++ t) = a ++ closeLone t := by
      apply replaceSpots_append
      intro s hs hne spot hspot
      rcases ha s ((List.mem_tails s a).mpr hs) with hnil | hnone
      · exact absurd hnil hne
      · rw [hspot] at hnone
        cases hnone
    have hlone : lone? "<br>\"></p>".toList = some ⟨"br".toList, [], "\"></p>".toList⟩ := rfl
    have hbreak : closeLone "<br>\"></p>".toList = "<br />".toList ++ closeLone "\"></p>".toList :=
      replaceSpots_of_some hlone
    have hbefore := @hskip "<p title=\"".toList "<br>\"></p>".toList (by decide)
    have hbehind := @hskip "\"></p>".toList [] (by decide)
    have hnil : closeLone [] = [] := Text.substitute_nil _
    rw [hbreak] at hbefore
    rw [List.append_nil, hnil] at hbehind
    rw [hbehind] at hbefore
    exact hbefore
  obtain ⟨more, hwritten, hsame⟩ := h titledBreak hwell rfl
  rw [normalize, String.toList_ofList, String.toList_ofList, hnormal] at hwritten
  have hvalue : "<br>".toList ∈ more.flatMap Passage.interiors := by
    rw [hsame]
    exact List.mem_cons_self
  obtain ⟨p, hp, hin⟩ := List.mem_flatMap.mp hvalue
  have hinside : "<br>".toList <:+: more.flatMap Passage.write :=
    (Passage.interior_within hin).trans (Passage.infix_of_mem Passage.write hp)
  rw [hwritten] at hinside
  exact absurd hinside (by decide)

end Mailgrid.VoidElement
