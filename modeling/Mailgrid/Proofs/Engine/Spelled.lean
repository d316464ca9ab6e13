import Mailgrid.Proofs.Engine
import Mailgrid.Proofs.Engine.Renamed
import Mailgrid.Proofs.Markup.Spelled
import Mailgrid.Proofs.VoidElement.Slashed

/-!
# The spellings of names in what is written

A document that is worked on has all its names in lower case. When it is written,
each gets the first mixed-case spelling that the text has for it, whether it stems
from the text or from an expansion. So two elements of one name come out alike,
however they were spelled.
-/

namespace Mailgrid

open Markup (Forest Opening Spelling Stretch Tag bareStyle)

/-- A name comes back as its tags spell it, if they do not differ, and stays as it is if none of
them spells it in mixed case. -/
structure Markup.Spelling.Faithful (spellings : List (List Char)) (name shown : String) : Prop where
  alike : ∀ s ∈ spellings, nameOf s = name →
    (∀ other ∈ spellings, nameOf other = name → own other = own s) → shown = own s
  unspelled : (∀ s ∈ spellings, nameOf s = name → Text.isMixedCase s = false) → shown = name

theorem Markup.Spelling.faithful_first (spellings : List (List Char)) (name : String) :
    Faithful spellings name (first spellings name) := by
  refine ⟨fun s hs hname alike => ?_, first_of_none⟩
  subst hname
  exact first_of_alike hs alike

namespace Engine

section
variable {engine : Engine} {u : Unfolder} {limit : Int} {text out : String}

theorem convert_eq_ok_iff (formats : engine.format = Format.standard)
    (unfolds : engine.unfolder = u) (limited : engine.settings.maxExpansions = limit) :
    (engine.convert text).result = .ok out ↔
      ∃ document, Document.load Format.standard
          (VoidElement.normalize (RawBlock.shield engine.settings text).text) = .ok document ∧
        (u.run limit ⟨document, []⟩).failure = none ∧
        engine.finish (RawBlock.shield engine.settings text).blocks
          (u.run limit ⟨document, []⟩).draft.document = .ok out := by
  simp only [convert, formats, unfolds, limited]
  constructor
  · intro converted
    split at converted
    · cases converted
    · rename_i document hload
      split at converted
      · cases converted
      · rename_i hnone
        exact ⟨document, hload, hnone, converted⟩
  · rintro ⟨document, hload, hnone, hfinish⟩
    simp only [hload, hnone, hfinish]

theorem finish_of_lower {document : Document} (formatted : document.format = Format.standard)
    {tags attributes : List (List Char)}
    (spelled : document.spelling =
      ⟨tags.foldl Spelling.note [], attributes.foldl Spelling.note []⟩)
    (lower : document.content.Tags Tag.IsLower) (blocks : List String) :
    engine.finish blocks document = .ok (RawBlock.restore engine.settings blocks
      (published (document.content.mapTags (Tag.spelled tags attributes)))) := by
  have hcontent : document.respell.content =
      document.content.mapTags (Tag.spelled tags attributes) := by
    rw [Document.respell, spelled]
    exact Forest.mapTags_congr lower fun t ht => ht.restore_spelled tags attributes
  have hformat : document.respell.format = Format.standard := formatted
  rw [finish, Document.text, hformat, Format.write_standard, hcontent]
  rfl

end

/-- A document is written with all its names in lower case but for those that are given the first
mixed-case spelling found for them. All that is found stands in the text, and in a plain text it is
the names in its tags, so a name that these spell in one way comes back as they spell it, and one that
none of them spells in mixed case stays as it was read or generated. -/
theorem convert_spelled (width limit : Int) :
    ∃ engine : Engine,
      Engine.build { Settings.standard with columnCount := width, maxExpansions := limit } .null =
        .ok (engine, []) ∧
      ∀ text : String,
        let shielded := RawBlock.shield engine.settings text
        let tags := Spelling.foundTags shielded.text.toList
        let attributes := Spelling.foundAttributes shielded.text.toList
        let run (document : Document) := (Unfolder.standard width).run limit ⟨document, []⟩
        (∀ s ∈ tags ++ attributes, s <:+: shielded.text.toList) ∧
        (∀ m : List Stretch, (∀ p ∈ m, p.Plain) →
          shielded.text.toList = m.flatMap Stretch.write →
          tags = Stretch.tagNames m ∧ attributes = Stretch.attributeNames m) ∧
        (∀ out : String, (engine.convert text).result = .ok out ↔
          ∃ document,
            Document.load Format.standard (VoidElement.normalize shielded.text) = .ok document ∧
            (run document).failure = none ∧
            out = RawBlock.restore engine.settings shielded.blocks
              (published ((run document).draft.document.content.mapTags
                (Tag.spelled tags attributes)))) ∧
        ∀ document,
          Document.load Format.standard (VoidElement.normalize shielded.text) = .ok document →
          ∀ e ∈ (run document).draft.document.content.descendants, e.tag.IsLower ∧
            Spelling.Faithful tags e.tag.name (e.tag.spelled tags attributes).name ∧
            ∀ a ∈ e.tag.attributes,
              Spelling.Faithful attributes a.1 (Spelling.first attributes a.1) := by
  obtain ⟨engine, hbuild, hformat, hunfolder, hlimit⟩ : ∃ engine : Engine,
      build { Settings.standard with columnCount := width, maxExpansions := limit } .null =
        .ok (engine, []) ∧ engine.format = Format.standard ∧ engine.unfolder = .standard width ∧
          engine.settings.maxExpansions = limit := ⟨_, rfl, rfl, rfl, rfl⟩
  refine ⟨engine, hbuild, fun text => ?_⟩
  intro shielded tags attributes run
  have hlower (document : Document)
      (hload : Document.load Format.standard (VoidElement.normalize shielded.text) =
        .ok document) :
      (run document).draft.Lower
        ⟨tags.foldl Spelling.note [], attributes.foldl Spelling.note []⟩ := by
    have hsteps := (Unfolder.steps_of_run (Unfolder.standard width) limit ⟨document, []⟩).1
    have hspelling := Spelling.ofText_found shielded.text
    rw [← Spelling.ofText_normalize] at hspelling
    exact hspelling ▸ Draft.lower_of_steps hload hsteps
  refine ⟨fun s => Spelling.infix_of_found, fun m plain written => ?_, fun out => ?_,
    fun document hload e he => ?_⟩
  · have hfound := Spelling.found_stretches plain
    rwa [← written] at hfound
  · rw [convert_eq_ok_iff hformat hunfolder hlimit]
    refine exists_congr fun document => and_congr_right fun hload => and_congr_right fun _ => ?_
    obtain ⟨hdocument, hspelling, htags⟩ := hlower document hload
    rw [finish_of_lower hdocument hspelling htags, Except.ok.injEq, eq_comm]
  · exact ⟨(hlower document hload).tags e he, Spelling.faithful_first _ _,
      fun a _ => Spelling.faithful_first _ _⟩

-- ---------------------------------------------------------------------------
-- Documents without components

theorem convert_free {engine : Engine} {log : List Message}
    (built : build .standard .null = .ok (engine, log)) {f : Forest Unit} (tidy : f.TidyBelow)
    {text : String} (written : text.toList = bareStyle.write none f) {content : Forest Nat × Nat}
    (read : (f.veiled.reread [] "").leading.number 0 = content) {spelling : Spelling}
    (spelled : Spelling.ofText text = spelling)
    (free : ∀ t ∈ content.1.descendants.map (·.tag), Component.named? t.name = none) :
    let d : Document := ⟨Format.standard, spelling, content.1, content.2⟩
    Document.load Format.standard text = .ok d ∧
      ((Unfolder.standard 12).run Settings.standard.maxExpansions ⟨d, []⟩).draft.document = d ∧
      (engine.convert text).result = .ok (published d.respell.content) := by
  intro d
  obtain ⟨engine', hbuild, hlimit, hunfolder, hformat⟩ : ∃ engine',
      Engine.build .standard .null = .ok (engine', []) ∧
        engine'.settings.maxExpansions = Settings.standard.maxExpansions ∧
        engine'.unfolder = .standard 12 ∧ engine'.format = Format.standard :=
    ⟨_, rfl, rfl, rfl, rfl⟩
  rw [hbuild] at built
  cases built
  have hload := Document.load_tidy tidy written
  rw [read, spelled] at hload
  have hfree : (Unfolder.standard 12).pending? ⟨d, []⟩ = none :=
    Unfolder.not_pending_of_free free
  have hrun := Unfolder.run_of_not_pending hfree Settings.standard.maxExpansions
  obtain ⟨hshield, hnormal⟩ := prepared_tidy engine.settings tidy written
  obtain ⟨-, hdone⟩ := convert_loaded hformat hunfolder hlimit hshield (hnormal.symm ▸ hload)
  rw [hrun] at hdone ⊢
  exact ⟨hload, rfl, hdone rfl rfl⟩

/-- A picture with an attribute in mixed case. -/
def picture : List Stretch :=
  [.opening ⟨"svg".toList, [⟨" viewBox=".toList, '"', "0 1".toList⟩], []⟩,
    .closing "svg".toList []]

theorem plain_picture : ∀ p ∈ picture, p.Plain := by
  let svg : Opening := ⟨"svg".toList, [⟨" viewBox=".toList, '"', "0 1".toList⟩], []⟩
  have hname : ∀ c ∈ svg.name, Spelling.isNameChar c = true := List.all_eq_true.mp (by decide)
  have hassignments : ∀ a ∈ svg.assignments, a.WellFormed :=
    List.forall_mem_singleton.mpr ⟨by decide, by decide, by decide, by decide⟩
  have hgaps : ∀ a ∈ svg.assignments, Spelling.isSpaced a.names = true ∧
      ∃ blanks, a.gap = a.names ++ '=' :: blanks ∧ ∀ c ∈ blanks, Text.isBlank c = true :=
    List.forall_mem_singleton.mpr ⟨by decide, [], by decide, nofun⟩
  have hopening : svg.Plain :=
    ⟨⟨by decide, hassignments, by decide⟩, hname, hgaps, by decide, by decide⟩
  have hclosing : (Stretch.closing "svg".toList []).Plain := ⟨by decide, hname, nofun⟩
  exact List.forall_mem_cons.mpr ⟨hopening, List.forall_mem_singleton.mpr hclosing⟩

theorem convert_spelled_picture :
    ∃ engine, Engine.build .standard .null = .ok (engine, []) ∧
      (engine.convert "<svg viewBox=\"0 1\"></svg>").result = .ok "<svg viewBox=\"0 1\"></svg>" := by
  obtain ⟨engine, built, h⟩ := convert_spelled 12 Settings.standard.maxExpansions
  refine ⟨engine, built, ?_⟩
  generalize htext : "<svg viewBox=\"0 1\"></svg>" = text
  let f : Forest Unit := .element () ⟨"svg", [("viewBox", .text "0 1")], false⟩ .nil .nil
  let g : Forest Nat := .element 0 ⟨"svg", [("viewBox", .text "0 1")], false⟩ .nil .nil
  let lower : Forest Nat := .element 0 ⟨"svg", [("viewbox", .text "0 1")], false⟩ .nil .nil
  have tidy : f.TidyBelow := by decide
  have written : text.toList = bareStyle.write none f := by
    rw [← htext]
    decide
  have hread : (f.veiled.reread [] "").leading.number 0 = (lower, 1) := by decide +kernel
  have hcut : text.toList = picture.flatMap Stretch.write := by
    rw [← htext]
    decide
  have hspelled : lower.mapTags
      (Tag.spelled (Stretch.tagNames picture) (Stretch.attributeNames picture)) = g := by
    decide +kernel
  have hpublished : published g = text := by
    rw [published_tidy (g := g) (by decide), ← htext]
    decide
  obtain ⟨hload, hrun, hresult⟩ := convert_free built tidy written hread rfl (by decide)
  obtain ⟨hshield, hnormal⟩ := prepared_tidy engine.settings tidy written
  obtain ⟨-, hplain, hwritten, -⟩ := h text
  obtain ⟨document, hload', -, hout⟩ := (hwritten _).mp hresult
  rw [hshield] at hload' hplain hout
  rw [hnormal, hload] at hload'
  cases hload'
  obtain ⟨htags, hattributes⟩ := hplain picture plain_picture hcut
  rw [hrun, htags, hattributes] at hout
  rw [hresult]
  exact congrArg Except.ok (hout.trans ((congrArg published hspelled).trans hpublished))

/-- Not every name comes back as its tag spells it. -/
theorem not_convert_spelled : ¬ ∀ (engine : Engine) (log : List Message),
    Engine.build .standard .null = .ok (engine, log) →
    ∀ f : Forest Unit, f.Headed →
      (∀ e ∈ f.descendants, Component.named? (Text.lowerString e.tag.name) = none) →
      ∀ text : String, text.toList = bareStyle.write none f →
        (engine.convert text).result = .ok text := by
  intro h
  obtain ⟨engine, built⟩ : ∃ engine, Engine.build .standard .null = .ok (engine, []) := ⟨_, rfl⟩
  let f : Forest Unit :=
    .element () ⟨"fooBar", [], false⟩ .nil (.element () ⟨"FOObar", [], false⟩ .nil .nil)
  have ordinary : f.Headed := by decide
  have tidy : f.TidyBelow := by decide
  have written : "<fooBar></fooBar><FOObar></FOObar>".toList = bareStyle.write none f := by decide
  have hread : (f.veiled.reread [] "").leading.number 0 =
      (.element 0 ⟨"foobar", [], false⟩ .nil (.element 1 ⟨"foobar", [], false⟩ .nil .nil), 2) := by
    decide +kernel
  have hspelling : Spelling.ofText "<fooBar></fooBar><FOObar></FOObar>" =
      ⟨[("foobar", "fooBar")], []⟩ := by
    rw [Spelling.ofText_parts tidy.parts (written.trans (tidy.write none))]
    decide
  obtain ⟨-, -, hresult⟩ := convert_free built tidy written hread hspelling (by decide)
  have hsame := h engine [] built f ordinary (by decide) _ written
  rw [hresult] at hsame
  let g : Forest Nat :=
    .element 0 ⟨"fooBar", [], false⟩ .nil (.element 1 ⟨"fooBar", [], false⟩ .nil .nil)
  have hrestored : (Forest.element 0 ⟨"foobar", [], false⟩ .nil
      (.element 1 ⟨"foobar", [], false⟩ .nil .nil)).mapTags
      (Spelling.restore ⟨[("foobar", "fooBar")], []⟩) = g := by decide +kernel
  have hpublished := published_tidy (g := g) (by decide)
  rw [Document.respell, hrestored, hpublished] at hsame
  exact absurd (Except.ok.inj hsame) (by decide)

end Engine

end Mailgrid
