import Mailgrid.Proofs.Document.Parts
import Mailgrid.Proofs.Engine.Renamed
import Mailgrid.Proofs.Markup.Passed

/-!
# Spacers with content

A spacer is to ignore what is inside it, but the reader takes a spacer for a void
element. So there never is anything inside: the end tag is passed over, and what
stands between the tags comes behind the spacer, where it is converted as anything
else.
-/

namespace Mailgrid

open Markup (Forest Part Spelling Tag Token bareStyle)
open Text (lowerString)

section
variable {t : Tag} {before inner after : List Part}

/-- The parts of a document with an element around some of them. -/
def Markup.Part.around (t : Tag) (before inner after : List Part) : List Part :=
  before ++ .startTag t :: (inner ++ .endTag t :: after)

-- ---------------------------------------------------------------------------
-- Reading

namespace Markup

theorem Part.mem_around {p : Part} : p ∈ Part.around t before inner after ↔
    p ∈ before ∨ p = .startTag t ∨ p ∈ inner ∨ p = .endTag t ∨ p ∈ after := by
  simp [around]

theorem Part.around_tidy (h : ∀ p ∈ around t before inner after, p.Tidy) :
    ∀ p ∈ around t before [] (inner ++ after), p.Tidy := by
  intro p hp
  refine h p ?_
  simp only [mem_around, List.mem_append, List.not_mem_nil, false_or] at hp ⊢
  tauto

theorem Spelling.ofText_around {text : String}
    (tidy : ∀ p ∈ Part.around t before inner after, p.Tidy)
    (written : text.toList = (Part.around t before inner after).flatMap Part.write) :
    Spelling.ofText text =
      ⟨(((((before ++ .startTag t :: (inner ++ after)).filterMap Part.started?) ++
          (before ++ (inner ++ after)).filterMap Part.ended?).map (·.name)).map
            String.toList).foldl note [],
        ((((before ++ .startTag t :: (inner ++ after)).filterMap Part.started?).flatMap fun t =>
          t.attributes.map (·.1)).map String.toList).foldl note []⟩ := by
  have hstarted : (Part.around t before inner after).filterMap Part.started? =
      (before ++ .startTag t :: (inner ++ after)).filterMap Part.started? := by
    simp [Part.around, List.filterMap_cons, Part.started?]
  have hended : (Part.around t before inner after).filterMap Part.ended? =
      (before ++ inner).filterMap Part.ended? ++ t :: after.filterMap Part.ended? := by
    simp [Part.around, List.filterMap_cons, Part.ended?]
  rw [ofText_parts tidy written, hstarted, hended]
  congr 1
  generalize hs : (before ++ .startTag t :: (inner ++ after)).filterMap Part.started? = started
  have hmem : t ∈ started := by
    rw [← hs]
    simp [Part.started?]
  have hname : t.name.toList ∈ ((started ++ (before ++ inner).filterMap Part.ended?).map
      (·.name)).map String.toList := by
    rw [List.map_map]
    exact List.mem_map_of_mem (List.mem_append_left _ hmem)
  have hagain := foldl_note_again hname
    (((after.filterMap Part.ended?).map (·.name)).map String.toList) []
  simpa using hagain

/-- The end tag of a void element may stand at once behind its start tag. -/
theorem parse_around (tidy : ∀ p ∈ Part.around t before inner after, p.Tidy)
    (hopen : t.void = false) (hvoid : t.reread.void = true)
    (hinner : ∀ u, .endTag u ∈ inner → lowerString u.name ≠ lowerString t.name) :
    Forest.parse Grammar.standard
        (Format.protectedChars ((Part.around t before inner after).flatMap Part.write)) =
      Forest.parse Grammar.standard (Format.protectedChars
        ((Part.around t before [] (inner ++ after)).flatMap Part.write)) := by
  have hend : .endTag (lowerString t.name) ∉ inner.flatMap Part.tokens := by
    intro hm
    obtain ⟨p, hp, hm⟩ := List.mem_flatMap.mp hm
    obtain ⟨u, rfl, hname⟩ := Part.of_endTag_mem_tokens hm
    exact hinner u hp hname
  have htokens := @Forest.ofTokens_void Grammar.standard
    ⟨lowerString t.name, readPairs t.veiled.attributes, t.void⟩ hopen hvoid
    (before.flatMap Part.tokens) _ (after.flatMap Part.tokens) hend
  rw [Growth.parse_of_follows (Part.follows_parts tidy),
    Growth.parse_of_follows (Part.follows_parts (Part.around_tidy tidy))]
  simpa [Part.around, Part.tokens] using htokens

end Markup

theorem Document.load_around (tidy : ∀ p ∈ Part.around t before inner after, p.Tidy)
    (hopen : t.void = false) (hvoid : t.reread.void = true)
    (hinner : ∀ u, .endTag u ∈ inner → lowerString u.name ≠ lowerString t.name)
    {text text' : String}
    (written : text.toList = (Part.around t before inner after).flatMap Part.write)
    (written' : text'.toList = (Part.around t before [] (inner ++ after)).flatMap Part.write) :
    load Format.standard text = load Format.standard text' := by
  have hspelling : Spelling.ofText text = Spelling.ofText text' := by
    rw [Spelling.ofText_around tidy written,
      Spelling.ofText_around (Part.around_tidy tidy) written']
    rfl
  have hread : Format.standard.read text = Format.standard.read text' := by
    rw [Format.read_standard, Format.read_standard, written, written']
    exact Markup.parse_around tidy hopen hvoid hinner
  simp only [load, noteSpelling, read, empty, hspelling, hread]

-- ---------------------------------------------------------------------------
-- Conversions

/-- What is inside a spacer is converted as if it stood behind it. -/
theorem Engine.convert_spacer {engine : Engine} (formats : engine.format = Format.standard)
    (spacer : lowerString t.name = Component.spacer.standardTag)
    (tidy : ∀ p ∈ Part.around t before inner after, p.Tidy)
    (closed : ∀ u, .endTag u ∈ inner → lowerString u.name ≠ lowerString t.name)
    {text text' : String}
    (written : text.toList = (Part.around t before inner after).flatMap Part.write)
    (written' : text'.toList = (Part.around t before [] (inner ++ after)).flatMap Part.write) :
    engine.convert text = engine.convert text' := by
  have ht : t.Tidy := tidy (.startTag t) (Part.mem_around.mpr (.inr (.inl rfl)))
  have hopen : t.void = false := by
    rw [ht.void, spacer]
    rfl
  have hvoid : t.reread.void = true := by
    rw [Tag.reread, spacer]
    rfl
  have hload := Document.load_around tidy hopen hvoid closed written written'
  have tidy' := Part.around_tidy tidy
  have hlength : text.length = text'.length := by
    rw [← String.length_toList, ← String.length_toList, written, written']
    simp [Part.around]
    omega
  simp only [convert, RawBlock.shield_tidy _ tidy written, RawBlock.shield_tidy _ tidy' written',
    VoidElement.normalize_tidy tidy written, VoidElement.normalize_tidy tidy' written', formats,
    hload, convertedMessage, hlength]

theorem Engine.convert_spacer_greeting : ∃ engine,
    Engine.build .standard .null = .ok (engine, []) ∧
      engine.convert "<row><spacer>Hi</spacer></row>" =
        engine.convert "<row><spacer></spacer>Hi</row>" := by
  obtain ⟨engine, built, formats⟩ : ∃ engine,
    Engine.build .standard .null = .ok (engine, []) ∧ engine.format = Format.standard :=
    ⟨_, rfl, rfl⟩
  let row : Tag := ⟨"row", [], false⟩
  let spacer : Tag := ⟨"spacer", [], false⟩
  let before : List Part := [.startTag row]
  let inner : List Part := [.leaf (.text .plain) "Hi"]
  let after : List Part := [.endTag row]
  have tidy : ∀ p ∈ Part.around spacer before inner after, p.Tidy := by decide
  have closed : ∀ u, .endTag u ∈ inner → lowerString u.name ≠ lowerString spacer.name := by
    simp [inner]
  exact ⟨engine, built, convert_spacer formats (by decide) tidy closed (by decide) (by decide)⟩

/-- The table of a spacer of the usual height, with this space in it. -/
def spacerTable (space : String) : Forest Unit :=
  let element (name : String) (attributes : List (String × String)) (inside : Forest Unit) :=
    Forest.element () ⟨name, attributes.map fun (name, value) => (name, .text value), false⟩
      inside .nil
  element "table" [("class", "spacer")] (element "tbody" [] (element "tr" []
    (element "td" [("height", "16"), ("style", "font-size:16px;line-height:16px;")]
      (.leaf () (.text .plain) space .nil))))

theorem Engine.convert_spacer_before {engine : Engine} {log : List Message}
    (built : Engine.build .standard .null = .ok (engine, log)) {parts : List Part}
    (tidy : ∀ p ∈ parts, p.Tidy) {text : String} (written : text.toList = parts.flatMap Part.write)
    {next : Forest Nat} {n : Nat} {d : Draft}
    (draft : d = ⟨⟨Format.standard, ⟨[], []⟩, .element 0 ⟨"spacer", [], true⟩ .nil next, n⟩, []⟩)
    (loaded : Document.load Format.standard text = .ok d.document)
    (first : (Unfolder.standard 12).pending? d =
      some ⟨⟨0, .element ⟨"spacer", [], true⟩ .nil, [], []⟩, "spacer", .spacer⟩)
    {table : Forest Nat × Nat} (numbered : (spacerTable "\ue000nbsp;").number n = table)
    {e : Draft} (final : e = ⟨⟨Format.standard, ⟨[], []⟩, table.1 ++ next, table.2⟩, []⟩)
    (last : (Unfolder.standard 12).pending? e = none) {f : Forest Unit} (left : f.TidyBelow)
    (restored : Format.restoredChars (bareStyle.write none e.document.respell.content) =
      bareStyle.write none f) :
    (engine.convert text).result = .ok (String.ofList (bareStyle.write none f)) := by
  obtain ⟨engine', hbuild, hlimit, hunfolder, hformat⟩ : ∃ engine',
      Engine.build .standard .null = .ok (engine', []) ∧
        engine'.settings.maxExpansions = Settings.standard.maxExpansions ∧
        engine'.unfolder = .standard 12 ∧ engine'.format = Format.standard :=
    ⟨_, rfl, rfl, rfl, rfl⟩
  rw [hbuild] at built
  cases built
  have hcell : ((Expansion.frame 12 .spacer ⟨"spacer", [], true⟩ (Forest.nil : Forest Nat)
      ⟨true, true, 1⟩).written .nil).reread [] "" = spacerTable "\ue000nbsp;" := by decide
  have hinside : (Forest.nil : Forest Nat).Clear Tag.Plain := trivial
  have hexpand := Unfolder.expand_lone (.standard 12) ⟨[], []⟩ .spacer nofun nofun
    (by decide : Tag.Plain ⟨"spacer", [], true⟩) next n hinside rfl hcell
  rw [numbered, ← draft, ← final] at hexpand
  have hshield := RawBlock.shield_tidy engine.settings tidy written
  have hformatted : e.document.format = Format.standard := by rw [final]
  have hpositive : 0 < Settings.standard.maxExpansions := by decide
  rw [← VoidElement.normalize_tidy tidy written] at loaded
  have hpublished := published_of_tidy left restored
  rw [← hpublished]
  subst draft
  exact convert_of_last hformat hunfolder hlimit hshield loaded first hexpand hformatted last
    hpositive

/-- What is inside a spacer does come to the reader. -/
theorem Engine.not_convert_spacer : ¬ ∀ (engine : Engine) (log : List Message),
    Engine.build .standard .null = .ok (engine, log) →
    ∀ (t : Tag) (before inner after : Forest Unit),
      lowerString t.name = Component.spacer.standardTag → t.Tidy → before.Tidy → inner.Tidy →
      after.Tidy → (∀ e ∈ inner.descendants, lowerString e.tag.name ≠ lowerString t.name) →
      ∀ text text' : String,
        text.toList = (Part.around t before.parts inner.parts after.parts).flatMap Part.write →
        text'.toList = (Part.around t before.parts [] after.parts).flatMap Part.write →
          (engine.convert text).result = (engine.convert text').result := by
  intro h
  obtain ⟨engine, built⟩ : ∃ engine, Engine.build .standard .null = .ok (engine, []) := ⟨_, rfl⟩
  let t : Tag := ⟨"spacer", [], false⟩
  let behind : Forest Unit := .leaf () (.text .plain) "Hi" .nil
  have hsame := h engine [] built t .nil behind .nil (by decide) (by decide) trivial (by decide)
    trivial nofun "<spacer>Hi</spacer>" "<spacer></spacer>" (by decide) (by decide)
  have hhi : (engine.convert "<spacer>Hi</spacer>").result =
      .ok (String.ofList (bareStyle.write none (spacerTable "&nbsp;" ++ behind))) := by
    let f : Forest Unit := .element () t .nil behind
    have tidy : ∀ p ∈ Part.around t [] behind.parts [], p.Tidy := by decide
    have written : "<spacer>Hi</spacer>".toList =
      (Part.around t [] behind.parts []).flatMap Part.write := by decide
    have hmoved : Document.load Format.standard "<spacer>Hi</spacer>" =
        Document.load Format.standard "<spacer></spacer>Hi" :=
      Document.load_around tidy rfl (by decide) (by simp [behind, Forest.parts]) written (by decide)
    have htidy : f.TidyBelow := by decide
    have hwritten : "<spacer></spacer>Hi".toList = f.parts.flatMap Part.write := by decide
    have hspelling : Spelling.ofText "<spacer></spacer>Hi" = ⟨[], []⟩ := by
      rw [Spelling.ofText_parts htidy.parts hwritten]
      decide
    have hread : (f.veiled.reread [] "").leading.number 0 =
      (.element 0 ⟨"spacer", [], true⟩ .nil (.leaf 1 (.text .plain) "Hi" .nil), 2) := by
        cbv
    have loaded := Document.load_tidy htidy (hwritten.trans (htidy.write none).symm)
    rw [hread, hspelling, ← hmoved] at loaded
    exact convert_spacer_before built tidy written rfl loaded rfl rfl rfl rfl
      (by decide) (by decide)
  have hnone : (engine.convert "<spacer></spacer>").result =
      .ok (String.ofList (bareStyle.write none (spacerTable "&nbsp;"))) := by
    let f : Forest Unit := .element () t .nil .nil
    have htidy : f.TidyBelow := by decide
    have hwritten : "<spacer></spacer>".toList = f.parts.flatMap Part.write := by decide
    have hspelling : Spelling.ofText "<spacer></spacer>" = ⟨[], []⟩ := by
      rw [Spelling.ofText_parts htidy.parts hwritten]
      decide
    have hread : (f.veiled.reread [] "").leading.number 0 =
      (.element 0 ⟨"spacer", [], true⟩ .nil .nil, 1) := by decide
    have loaded := Document.load_tidy htidy (hwritten.trans (htidy.write none).symm)
    rw [hread, hspelling] at loaded
    exact convert_spacer_before built htidy.parts hwritten rfl loaded rfl rfl rfl rfl
      (by decide) (by decide)
  rw [hhi, hnone] at hsame
  have hlonger : String.ofList (bareStyle.write none (spacerTable "&nbsp;" ++ behind)) ≠
      String.ofList (bareStyle.write none (spacerTable "&nbsp;")) := by
    set_option maxRecDepth 4000 in decide
  exact hlonger (Except.ok.inj hsame)

end

end Mailgrid
