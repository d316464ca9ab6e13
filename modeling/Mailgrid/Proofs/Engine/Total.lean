import Mailgrid.Proofs.RawBlock
import Mailgrid.Proofs.RawBlock.Cut
import Mailgrid.Proofs.Unfolding.Refusal
import Mailgrid.Proofs.VoidElement
import Mathlib.Data.List.Infix

/-!
# What a conversion comes to

Every text without a bracket is converted, or reaches the limit of expansions,
which is the one failure that tells what is wrong. With a bracket a conversion
can also end in a marked section that is refused, as of a text `<![foo]>`.
-/

namespace Mailgrid

open Markup (Forest)
open Text (BracketsIf)

variable {b : Prop}

-- ---------------------------------------------------------------------------
-- Raw blocks

namespace RawBlock

variable {s rest content : List Char}

theorem IsMarkerName.subset (h : IsMarkerName s rest) : rest ⊆ s := by
  obtain ⟨blanks, name, more, -, -, rfl⟩ := h
  exact fun c hc => by simp [hc]

theorem IsBlock.subset (h : IsBlock s content rest) : rest ⊆ s := by
  obtain ⟨closing, ⟨t, rfl, hopen⟩, ⟨blanks, t', -, rfl, hclose⟩, -⟩ := h
  intro c hc
  have hclosing := hclose.subset hc
  exact List.mem_cons_of_mem _ (hopen.subset (by simp [hclosing]))

theorem IsCut.subset {cut : Cut} (h : IsCut s cut) :
    cut.first ⊆ s ∧ ∀ block ∈ cut.blocks, block.2 ⊆ s := by
  induction h with
  | nil => exact ⟨List.Subset.refl _, nofun⟩
  | plain _ _ ih =>
    exact ⟨List.cons_subset_cons _ ih.1,
      fun block hb => List.subset_cons_of_subset _ (ih.2 block hb)⟩
  | block hb _ ih =>
    refine ⟨List.nil_subset _, List.forall_mem_cons.mpr ⟨List.Subset.trans ih.1 hb.subset, ?_⟩⟩
    exact fun block hm => List.Subset.trans (ih.2 block hm) hb.subset

theorem bracketsIf_numbered {settings : Settings} (hs : '[' ∉ settings.rawStart.toList)
    (he : '[' ∉ settings.rawEnd.toList) {blocks : List (List Char × List Char)}
    (h : ∀ block ∈ blocks, BracketsIf b block.2) (index : Nat) :
    BracketsIf b (numbered settings index blocks) := by
  induction blocks generalizing index with
  | nil => exact Text.bracketsIf_nil
  | cons block blocks ih =>
    obtain ⟨hblock, hblocks⟩ := List.forall_mem_cons.mp h
    have hindex : BracketsIf b (toString index).toList :=
      Expansion.bracketsIf_toString (index : Int)
    simp only [numbered, Settings.placeholder, String.toList_append, Text.bracketsIf_append]
    exact ⟨⟨⟨.of_not_mem hs, hindex⟩, .of_not_mem he⟩, hblock, ih hblocks _⟩

theorem bracketsIf_shield {settings : Settings} (hs : '[' ∉ settings.rawStart.toList)
    (he : '[' ∉ settings.rawEnd.toList) {text : String} (h : BracketsIf b text.toList) :
    BracketsIf b (shield settings text).text.toList := by
  have hcut := isCut_cutOf text.toList
  obtain ⟨hfirst, hblocks⟩ := hcut.subset
  rw [shield_of_isCut settings hcut, String.toList_ofList, Text.bracketsIf_append]
  exact ⟨h.of_subset hfirst,
    bracketsIf_numbered hs he (fun block hm => h.of_subset (hblocks block hm)) 0⟩

end RawBlock

-- ---------------------------------------------------------------------------
-- Void elements

namespace VoidElement

variable {s : List Char} {spot : Spot}

theorem subset_of_startTag? (h : startTag? s = some spot) :
    spot.name ⊆ s ∧ spot.inner ⊆ s ∧ spot.rest ⊆ s := by
  unfold startTag? at h
  split at h
  · rename_i s
    split at h
    · cases h
    · rename_i hn
      obtain ⟨name, -, hs⟩ := List.exists_of_findSome?_eq_some hn
      obtain ⟨hname, hafter⟩ := Text.subset_of_spelling? hs
      split at h
      · rename_i hc
        obtain ⟨hinner, hrest⟩ := Text.subset_of_cutAtChar hc
        split at h
        · cases h
          exact ⟨List.subset_cons_of_subset _ hname,
            List.subset_cons_of_subset _ (List.Subset.trans hinner hafter),
            List.subset_cons_of_subset _ (List.Subset.trans hrest hafter)⟩
        · cases h
      · cases h
  · cases h

theorem subset_of_lone? (h : lone? s = some spot) :
    spot.name ⊆ s ∧ spot.inner ⊆ s ∧ spot.rest ⊆ s := by
  unfold lone? at h
  split at h
  · rename_i hs
    split at h
    · cases h
    · cases h
      exact subset_of_startTag? hs
  · cases h

theorem bracketsIf_normalize {text : String} (h : BracketsIf b text.toList) :
    BracketsIf b (normalize text).toList := by
  rw [normalize, String.toList_ofList]
  refine BracketsIf.substitute (fun {s m} hm hs => ?_) h
  split at hm
  · rename_i spot hspot
    cases hm
    obtain ⟨hname, hinner, hrest⟩ := subset_of_lone? hspot
    refine ⟨?_, hs.of_subset hrest⟩
    dsimp only
    split
    · simp [Spot.whole, hs.of_subset hname, hs.of_subset hinner]
    · simp [withSlash, hs.of_subset hname, hs.of_subset hinner]
  · cases hm

end VoidElement

-- ---------------------------------------------------------------------------
-- Conversions

theorem Engine.exists_finish (engine : Engine) (blocks : List String) {d : Document}
    (h : d.format = Format.standard) : ∃ written, engine.finish blocks d = .ok written := by
  obtain ⟨format, spelling, content, next⟩ := d
  cases h
  exact ⟨_, rfl⟩

theorem Engine.convert_ends {engine : Engine} {width : Int}
    (hstart : engine.settings.rawStart = Settings.standard.rawStart)
    (hend : engine.settings.rawEnd = Settings.standard.rawEnd)
    (hformat : engine.format = Format.standard) (hunfolder : engine.unfolder = .standard width)
    {text : String} (h : BracketsIf b text.toList) :
    (∃ written, (engine.convert text).result = .ok written) ∨
      (∃ tag, (engine.convert text).result =
        .error (.expansionLimit engine.settings.maxExpansions tag)) ∨
      (engine.convert text).result = .error .refusedMarkup ∧ b := by
  have hshield : BracketsIf b (RawBlock.shield engine.settings text).text.toList :=
    RawBlock.bracketsIf_shield (hstart ▸ by decide) (hend ▸ by decide) h
  have hloaded := Document.within_load (VoidElement.bracketsIf_normalize hshield)
  obtain ⟨document, hload, hwithin⟩ | ⟨hload, hb⟩ := hloaded
  · have hdraft : (⟨document, []⟩ : Draft).document.Within b := hwithin
    have hrun := @Unfolder.within_runFrom b width _ engine.settings.maxExpansions 0
      engine.settings.maxExpansions.toNat hdraft
    simp only [convert, hformat, hload, hunfolder, Unfolder.run]
    obtain ⟨hnone, hend⟩ | ⟨tag, hlimit⟩ | ⟨hrefused, hb⟩ := hrun
    · rw [hnone]
      exact .inl (engine.exists_finish _ hend.1)
    · rw [hlimit]
      exact .inr (.inl ⟨tag, rfl⟩)
    · rw [hrefused]
      exact .inr (.inr ⟨rfl, hb⟩)
  · simp only [convert, hformat, hload]
    exact .inr (.inr ⟨trivial, hb⟩)

/-- A conversion with the standard tags comes to a text, or to its limit; or it is refused, and then
the text has a bracket. -/
theorem Engine.convert_total (width limit : Int) :
    ∃ engine, Engine.build
        { Settings.standard with columnCount := width, maxExpansions := limit } .null =
          .ok (engine, []) ∧
      ∀ text, (∃ written, (engine.convert text).result = .ok written) ∨
        (∃ tag, (engine.convert text).result = .error (.expansionLimit limit tag)) ∨
        (engine.convert text).result = .error .refusedMarkup ∧ '[' ∈ text.toList :=
  ⟨_, rfl, fun _ => convert_ends rfl rfl rfl rfl id⟩

/-- A section of an unknown kind ends a conversion with a failure that tells nothing. -/
theorem Engine.not_convert_total :
    ¬ ∀ engine log, Engine.build .standard .null = .ok (engine, log) → ∀ text,
      (∃ written, (engine.convert text).result = .ok written) ∨
        ∃ failure, (engine.convert text).result = .error failure ∧
          failure.message?.isSome = true := by
  intro h
  obtain ⟨engine, hbuild, hsettings, hformat⟩ : ∃ engine, Engine.build .standard .null =
      .ok (engine, []) ∧ engine.settings = .standard ∧ engine.format = Format.standard :=
    ⟨_, rfl, rfl, rfl⟩
  have hshield : RawBlock.shield .standard "<![foo]>" = ⟨"<![foo]>", []⟩ := by
    refine RawBlock.shield_of_not_opening _ fun s hs => ?_
    have htails : ∀ s ∈ "<![foo]>".toList.tails, RawBlock.opening? s = none := by decide
    exact htails s ((List.mem_tails s _).mpr hs)
  have hnormal : VoidElement.normalize "<![foo]>" = "<![foo]>" := by
    rw [VoidElement.normalize, VoidElement.closeLone, VoidElement.replaceSpots_eq_self,
      String.ofList_toList]
    intro s spot hs hspot
    have htails : ∀ s ∈ "<![foo]>".toList.tails, (VoidElement.lone? s).isNone = true := by decide
    have hnone := htails s ((List.mem_tails s _).mpr hs)
    rw [hspot] at hnone
    cases hnone
  have htokens : Markup.Token.ofText "<![foo]>".toList = [.refused .refusedMarkup] := by
    have hsection : Markup.Token.constructAt "![foo]>".toList = .refused .refusedMarkup := rfl
    change Markup.Token.scan false none ('<' :: "![foo]>".toList) = _
    rw [Markup.Token.scan]
    split
    · rename_i hr; cases hsection.symm.trans hr
    · rename_i hr; cases hsection.symm.trans hr; rfl
    · rename_i hr; cases hsection.symm.trans hr
  have hread : Format.standard.read "<![foo]>" = .error .refusedMarkup := by
    rw [Format.read_standard, Format.protectedChars_of_not_mem (by decide), Forest.parse, htokens]
    rfl
  have hload : Document.load Format.standard "<![foo]>" = .error .refusedMarkup := by
    change (Format.standard.read "<![foo]>" >>= _) = _
    rw [hread]
    rfl
  have hrefused : (engine.convert "<![foo]>").result = .error .refusedMarkup := by
    simp only [convert, hsettings, hshield, hnormal, hformat, hload]
  obtain ⟨written, hw⟩ | ⟨failure, hf, hmessage⟩ := h engine [] hbuild "<![foo]>"
  · rw [hrefused] at hw
    cases hw
  · rw [hrefused] at hf
    cases hf
    cases hmessage

end Mailgrid
