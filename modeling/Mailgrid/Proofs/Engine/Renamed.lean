import Mathlib
import Mailgrid.Engine
import Mailgrid.Proofs.RawBlock
import Mailgrid.Proofs.Renaming.Document
import Mailgrid.Proofs.Unfolding.Order
import Mailgrid.Proofs.VoidElement

/-!
# Conversions with renamed components

A document with a component renamed, converted by an engine that knows the
component by its new name, comes to what the document comes to: the same text,
or the same but for the names of the centers that are left.
-/

namespace Mailgrid

open Component (CanBe generatedNames tagWith)
open Expansion (frame)
open Markup (Forest Spelling Tag Token bareStyle of_isPlainName)
open Text (lowerString)

variable {kind : Component} {name : String}

-- ---------------------------------------------------------------------------
-- Options

/-- Options in which a component goes by this name. -/
def Component.called (kind : Component) (name : String) : Value :=
  .mapping [(.text "components", .mapping [(.text kind.key, .text name)])]

theorem Component.lowerString_tagWith (hc : CanBe kind name) (c : Component) :
    lowerString (tagWith kind name c) = tagWith kind name c := by
  unfold tagWith
  split
  · exact (of_isPlainName hc.plain).2
  · have hplain : Markup.isPlainName c.standardTag = true := by cases c <;> rfl
    exact (of_isPlainName hplain).2

theorem Component.nodup_tagWith (hc : CanBe kind name) :
    (Component.all.map (tagWith kind name)).Nodup := by
  refine List.Nodup.map_on (fun c _ other _ he => ?_) (by decide)
  unfold tagWith at he
  split at he
  · rename_i hk
    split at he
    · rename_i hk'
      rw [hk, hk']
    · rename_i hk'
      exact absurd he.symm (hc.apart other hk')
  · rename_i hk
    split at he
    · exact absurd he (hc.apart c hk)
    · exact Component.standardTag_inj.mp he

namespace Options

/-- Options in which a component goes by this name, and all else is as it is without options. -/
def calling (settings : Settings) (kind : Component) (name : String) : Options :=
  ⟨.int settings.columnCount,
    Component.all.map fun c => (.text c.key, .text (tagWith kind name c)), []⟩

variable {settings : Settings}

theorem ofValue_called (settings : Settings) (kind : Component) (name : String) :
    ofValue settings (kind.called name) = .ok (calling settings kind name) := by
  cases kind <;> rfl

theorem tag_calling (hc : CanBe kind name) (c : Component) :
    (calling settings kind name).tag c = .ok (some (tagWith kind name c)) := by
  have hlookup : (calling settings kind name).tags.lookup (.text c.key) =
      some (.text (tagWith kind name c)) := by cases c <;> rfl
  rw [tag, hlookup, Option.getD_some, lowerTag, Component.lowerString_tagWith hc]
  rfl

theorem components_calling (hc : CanBe kind name) : (calling settings kind name).components =
    .ok (Component.all.map fun c => (tagWith kind name c, c)) := by
  have hkey (c : Component) : componentOf? (.text c.key) = some c := by cases c <;> rfl
  have hnodup : ((Component.all.map fun c => (tagWith kind name c, c)).map (·.1)).Nodup := by
    rw [List.map_map]
    exact Component.nodup_tagWith hc
  have htable := Table.ofList_of_nodup hnodup
  rw [← htable, components, calling, List.foldlM_map, Table.ofList, List.foldl_map]
  refine foldlM_eq_ok (fun table c => ?_) Component.all []
  simp only [hkey, lowerTag, Component.lowerString_tagWith hc]
  rfl

end Options

namespace Engine

theorem build_called (settings : Settings) (hc : CanBe kind name) :
    build settings (kind.called name) = .ok (⟨settings, .calling settings kind name,
      .renamed settings.columnCount kind name⟩, []) := by
  have hunknown : unknownMessages (.calling settings kind name) = .ok [] := by rfl
  rw [build, Options.ofValue_called, ok_bind, ofOptions, Options.components_calling hc, ok_bind,
    Rules.ofOptions, Options.tag_calling hc, Options.tag_calling hc, Options.tag_calling hc,
    hunknown]
  rfl

-- ---------------------------------------------------------------------------
-- Conversions

/-- What is written of a forest at the end of a conversion. -/
def published (g : Forest α) : String :=
  VoidElement.canonicalize (Format.standard.restore (String.ofList (bareStyle.write none g)))

theorem published_of_tidy {g : Forest α} {f : Forest β} (h : f.TidyBelow)
    (restored : Format.restoredChars (bareStyle.write none g) = bareStyle.write none f) :
    published g = String.ofList (bareStyle.write none f) := by
  have hrestore : Format.standard.restore (String.ofList (bareStyle.write none g)) =
      String.ofList (bareStyle.write none f) := by
    rw [← String.toList_inj, Format.toList_restore, String.toList_ofList, restored,
      String.toList_ofList]
  rw [published, hrestore]
  exact VoidElement.canonicalize_tidy h.parts (by rw [String.toList_ofList, h.write none])

theorem published_tidy {g : Forest α} (h : g.TidyBelow) :
    published g = String.ofList (bareStyle.write none g) := by
  refine published_of_tidy h (Format.restoredChars_of_not_mem ?_)
  rw [h.write none]
  intro hm
  obtain ⟨p, hp, hm⟩ := List.mem_flatMap.mp hm
  exact (h.parts p hp).not_mem_placeholder hm

section
variable {engine : Engine} {u : Unfolder} {limit : Int} {text : String} {d : Document}

/-- A document without raw blocks is converted by a run over what it is read as. -/
theorem convert_loaded (formats : engine.format = Format.standard) (unfolds : engine.unfolder = u)
    (limited : engine.settings.maxExpansions = limit)
    (shielded : RawBlock.shield engine.settings text = ⟨text, []⟩)
    (loaded : Document.load Format.standard (VoidElement.normalize text) = .ok d) :
    let run := u.run limit ⟨d, []⟩
    (∀ failure, run.failure = some failure → (engine.convert text).result = .error failure) ∧
      (run.failure = none → run.draft.document.format = Format.standard →
        (engine.convert text).result = .ok (published run.draft.document.respell.content)) := by
  intro run
  have hrun : engine.unfolder.run engine.settings.maxExpansions ⟨d, []⟩ = run := by
    rw [unfolds, limited]
  refine ⟨fun failure hfailure => ?_, fun hnone hformat => ?_⟩
  · simp only [convert, shielded, formats, loaded, hrun, hfailure]
  · have hwrite : run.draft.document.respell.format = Format.standard := hformat
    simp only [convert, shielded, formats, loaded, hrun, hnone, finish, Document.text, hwrite,
      Format.write_standard, ok_bind]
    rfl

/-- A document with one component that is not settled is converted by the expansion of that. -/
theorem convert_of_last (formats : engine.format = Format.standard) (unfolds : engine.unfolder = u)
    (limited : engine.settings.maxExpansions = limit)
    (shielded : RawBlock.shield engine.settings text = ⟨text, []⟩)
    (loaded : Document.load Format.standard (VoidElement.normalize text) = .ok d)
    {p : Pending} (pending : u.pending? ⟨d, []⟩ = some p) {e : Draft}
    (expanded : u.expand ⟨d, []⟩ p = .ok e) (formatted : e.document.format = Format.standard)
    (last : u.pending? e = none) (positive : 0 < limit) :
    (engine.convert text).result = .ok (published e.document.respell.content) := by
  obtain ⟨hnone, hdraft⟩ := Unfolder.run_of_last pending expanded last positive
  obtain ⟨-, hdone⟩ := convert_loaded formats unfolds limited shielded loaded
  rw [hdraft] at hdone
  exact hdone hnone formatted

theorem prepared_tidy (settings : Settings) {f : Forest α} (h : f.TidyBelow)
    (written : text.toList = bareStyle.write none f) :
    RawBlock.shield settings text = ⟨text, []⟩ ∧ VoidElement.normalize text = text := by
  have hparts : text.toList = f.parts.flatMap Markup.Part.write := written.trans (h.write none)
  exact ⟨RawBlock.shield_tidy settings h.parts hparts, VoidElement.normalize_tidy h.parts hparts⟩

end

end Engine

section
variable {d d' : Draft}

theorem Draft.Renamable.lower_restored (hd : d.Renamable kind name) (h : d.Renamed kind name d') :
    ∀ s ∈ d.document.respell.content.descendants.map (·.tag),
      ∃ t ∈ d.document.content.descendants.map (·.tag), lowerString s.name = t.name := by
  intro s hs
  rw [Document.respell, Forest.tags_mapTags] at hs
  obtain ⟨e, he, rfl⟩ := List.mem_map.mp hs
  have ht := hd.clear.tags e.tag (List.mem_map_of_mem he)
  exact ⟨e.tag, List.mem_map_of_mem he, h.spelling.lower e.tag.name (of_isPlainName ht.plain.1).2⟩

theorem Draft.Renamed.published (hd : d.Renamable kind name) (h : d.Renamed kind name d') :
    Engine.published d'.document.respell.content =
      Engine.published (d.document.respell.content.mapTags (Tag.renamed kind name)) := by
  have hcontent := h.content.mapTags d.document.spelling.restore d'.document.spelling.restore
    fun t ht => h.spelling.restore (hd.clear.tags t ht).plain
  have hbare := hcontent.bare_eq
  rw [← Forest.bare_mapTags] at hbare
  rw [Engine.published, Engine.published, ← Forest.write_bare d'.document.respell.content none none]
  rw [← Forest.write_bare (d.document.respell.content.mapTags _) none none]
  exact congrArg _ (congrArg _ (congrArg _ (congrArg _ hbare)))

end

/-- Of the components only centers are left at the end of a run. -/
theorem Unfolder.only_centers_left {width limit : Int} {d : Document} (hd : d.Marked)
    (ended : ((Unfolder.standard width).run limit ⟨d, []⟩).failure = none) :
    let final := ((Unfolder.standard width).run limit ⟨d, []⟩).draft
    ∀ t ∈ final.document.content.descendants.map (·.tag), t.name = kind.standardTag →
      kind = .center := by
  intro final t ht hname
  obtain ⟨hsteps, hend⟩ := steps_of_run (Unfolder.standard width) limit ⟨d, []⟩
  have hordered := (ordered_of_unsettled (d := ⟨d, []⟩) hd rfl).steps hsteps
  obtain ⟨e, he, rfl⟩ := List.mem_map.mp ht
  obtain ⟨x, hx, -, hheading⟩ := Forest.mem_outline_of_mem_descendants he 0
  have hcomponent : (Unfolder.standard width).components.lookup e.tag.name = some kind :=
    Component.named?_eq_some.mpr hname
  obtain ⟨⟨s, hs, hcenter⟩, -⟩ :=
    hordered.centers_left (hend ended) x hx e.tag hheading (by rw [hcomponent]; rfl)
  rw [hheading] at hs
  cases hs
  exact Option.some.inj (hcomponent.symm.trans hcenter)

/-- A component may go by any name that means nothing else: the document with its elements renamed
comes to what the document comes to. Where centers are renamed, those that are left are renamed in
what is written, and nothing else there has the new name. -/
theorem Engine.convert_renamed {α : Type} (width limit : Int) (named : kind.CanBe name) :
    ∃ engine engine' : Engine,
      Engine.build { Settings.standard with columnCount := width, maxExpansions := limit } .null =
        .ok (engine, []) ∧
      Engine.build { Settings.standard with columnCount := width, maxExpansions := limit }
        (kind.called name) = .ok (engine', []) ∧
      ∀ f : Forest α, f.Renamable kind name → ∀ text text' : String,
        text.toList = bareStyle.write none f →
        text'.toList = bareStyle.write none (f.mapTags (Tag.renamed kind name)) →
        (∃ g : Forest Nat, (∀ e ∈ g.descendants, lowerString e.tag.name ≠ name) ∧
          (engine.convert text).result = .ok (published g) ∧
          (engine'.convert text').result = .ok (published (g.mapTags (Tag.renamed kind name))) ∧
          (kind ≠ .center → (engine'.convert text').result = (engine.convert text).result)) ∨
        ∃ c : Component,
          (engine.convert text).result = .error (.expansionLimit limit c.standardTag) ∧
          (engine'.convert text').result =
            .error (.expansionLimit limit (tagWith kind name c)) := by
  obtain ⟨engine, hbuild, hformat, hunfolder, hlimit⟩ : ∃ engine : Engine,
      build { Settings.standard with columnCount := width, maxExpansions := limit } .null =
        .ok (engine, []) ∧ engine.format = Format.standard ∧ engine.unfolder = .standard width ∧
          engine.settings.maxExpansions = limit := ⟨_, rfl, rfl, rfl, rfl⟩
  obtain ⟨engine', hbuild', hformat', hunfolder', hlimit'⟩ : ∃ engine' : Engine,
      build { Settings.standard with columnCount := width, maxExpansions := limit }
        (kind.called name) = .ok (engine', []) ∧ engine'.format = Format.standard ∧
          engine'.unfolder = .renamed width kind name ∧ engine'.settings.maxExpansions = limit :=
    ⟨_, build_called _ named, rfl, rfl, rfl⟩
  refine ⟨engine, engine', hbuild, hbuild', fun f hf text text' written written' => ?_⟩
  obtain ⟨d, d', hload, hload', hd, hrenamed⟩ := Document.load_renamed named hf written written'
  obtain ⟨hend, hpair, -, hfailure⟩ := Unfolder.run_renamed width named limit hd hrenamed
  obtain ⟨hshield, hnormal⟩ := prepared_tidy engine.settings hf.tidy written
  obtain ⟨hshield', hnormal'⟩ := prepared_tidy engine'.settings (hf.tidy.renamed named) written'
  obtain ⟨hfailed, hdone⟩ :=
    convert_loaded hformat hunfolder hlimit hshield (hnormal.symm ▸ hload)
  obtain ⟨hfailed', hdone'⟩ :=
    convert_loaded hformat' hunfolder' hlimit' hshield' (hnormal'.symm ▸ hload')
  obtain ⟨hnone, hnone'⟩ | ⟨c, hc, hc'⟩ := hfailure
  · have hresult := hdone hnone hend.format
    have hresult' := hdone' hnone' (hpair.format.trans hend.format)
    rw [hpair.published hend] at hresult'
    refine .inl ⟨_, fun e he hname => ?_, hresult, hresult', fun hk => ?_⟩
    · obtain ⟨t, ht, hlower⟩ := hend.lower_restored hpair e.tag (List.mem_map_of_mem he)
      exact (hend.clear.tags t ht).fresh (hlower.symm.trans hname)
    · rw [hresult', hresult]
      refine congrArg (fun g => Except.ok (published g)) (Forest.mapTags_eq_self fun s hs => ?_)
      obtain ⟨t, ht, hlower⟩ := hend.lower_restored hpair s hs
      refine if_neg fun hkind => hk ?_
      exact Unfolder.only_centers_left hd.marked hnone t ht (hlower.symm.trans hkind)
  · exact .inr ⟨c, hfailed _ hc, hfailed' _ hc'⟩

-- ---------------------------------------------------------------------------
-- A column that goes by the name of a void element

theorem Unfolder.expand_lone (u : Unfolder) (s : Spelling) (c : Component) (hmarker : c ≠ .marker)
    (hcenter : c ≠ .center) {t : Tag} (ht : t.Plain) {children : Forest Nat} (next : Forest Nat)
    (n : Nat) (hc : children.Clear Tag.Plain) {around : Expansion.Neighbours}
    (htemplate : Expansion.template u.rules Format.standard (some c) t children [] [] =
      .ok ((frame 12 c t children around).fill
        (String.ofList (bareStyle.write (some t.name) children))))
    {cell : Forest Unit}
    (hcell : ((frame 12 c t children around).written children.bare).reread [] "" = cell) :
    u.expand ⟨⟨Format.standard, s, .element 0 t children next, n⟩, []⟩
        ⟨⟨0, .element t children, [], []⟩, t.name, c⟩ =
      .ok ⟨⟨Format.standard, s, (cell.number n).1 ++ next, (cell.number n).2⟩, []⟩ := by
  let d : Draft := ⟨⟨Format.standard, s, .element 0 t children next, n⟩, []⟩
  let p : Pending := ⟨⟨0, .element t children, [], []⟩, t.name, c⟩
  have hplain : (frame 12 c t children around).Plain :=
    Expansion.plain_frame 12 ht children _ hmarker
  have hread := Template.read_fill_legible hplain ((Forest.clear_bare.mpr hc).isLegible fun _ => id)
    (hc.not_mem_write (fun _ => Tag.Plain.verbatim) (some t.name))
  rw [hcell] at hread
  have hkind : p.kind ≠ .center := hcenter
  exact expand_of_read (u := u) (d := d) (p := p) rfl (isEmpty_of_plain ht) hkind htemplate hread

/-- The cell of a column without neighbours. -/
def loneCell (inside : Forest Unit) : Forest Unit :=
  let element (name : String) (classes : List String) (inside next : Forest Unit) :=
    Forest.element () ⟨name, classes.map fun c => ("class", .text c), false⟩ inside next
  element "th" ["small-12 large-12 columns first last"] (element "table" [] (element "tbody" []
    (element "tr" [] (element "th" [] inside (.leaf () (.text .plain) "\n"
      (element "th" ["expander"] .nil .nil))) .nil) .nil) .nil) .nil

def loneCellText (inside : String) : String :=
  "<th class=\"small-12 large-12 columns first last\"><table><tbody><tr><th>" ++ inside ++
    "</th>\n<th class=\"expander\"></th></tr></tbody></table></th>"

theorem Engine.convert_columns {engine : Engine} {log : List Message}
    (built : Engine.build .standard .null = .ok (engine, log)) :
    (engine.convert "<columns>Hi</columns>").result = .ok (loneCellText "Hi") := by
  obtain ⟨engine', hbuild, hlimit, hunfolder, hformat⟩ : ∃ engine',
      Engine.build .standard .null = .ok (engine', []) ∧
        engine'.settings.maxExpansions = Settings.standard.maxExpansions ∧
        engine'.unfolder = .standard 12 ∧ engine'.format = Format.standard :=
    ⟨_, rfl, rfl, rfl, rfl⟩
  rw [hbuild] at built
  cases built
  let t : Tag := ⟨"columns", [], false⟩
  let inside : Forest Nat := .leaf 1 (.text .plain) "Hi" .nil
  let d : Draft := ⟨⟨Format.standard, ⟨[], []⟩, .element 0 t inside .nil, 2⟩, []⟩
  have htidy : (Forest.element () t inside.bare .nil).TidyBelow := by decide
  have hwritten : "<columns>Hi</columns>".toList =
      bareStyle.write none (Forest.element () t inside.bare .nil) := by decide
  have hload : Document.load Format.standard "<columns>Hi</columns>" = .ok d.document := by
    have hspelling : Spelling.ofText "<columns>Hi</columns>" = ⟨[], []⟩ := by
      rw [Spelling.ofText_parts htidy.parts (hwritten.trans (htidy.write none))]
      decide
    have hread : ((Forest.element () t inside.bare .nil).veiled.reread [] "").leading.number 0 =
      (.element 0 t inside .nil, 2) := by cbv
    rw [Document.load_tidy htidy hwritten, hspelling, hread]
  have hcell : ((frame 12 .columns t inside ⟨true, true, 1⟩).written inside.bare).reread [] "" =
      loneCell inside.bare := by decide
  have hinside : inside.Clear Tag.Plain := ⟨rfl, trivial⟩
  have hexpand := Unfolder.expand_lone (.standard 12) ⟨[], []⟩ .columns (by decide)
    (by decide) (by decide : t.Plain) .nil 2 hinside rfl hcell
  have hpending : (Unfolder.standard 12).pending? d =
      some ⟨⟨0, .element t inside, [], []⟩, "columns", .columns⟩ := rfl
  obtain ⟨hshield, hnormal⟩ := prepared_tidy engine.settings htidy hwritten
  rw [← hnormal] at hload
  refine (convert_of_last hformat hunfolder hlimit hshield hload hpending hexpand rfl rfl
    (by decide)).trans (congrArg Except.ok ?_)
  rw [published_tidy (by decide)]
  set_option maxRecDepth 4000 in decide

theorem Engine.convert_renamed_column :
    ∃ engine, Engine.build .standard (Component.columns.called "column") = .ok (engine, []) ∧
      (engine.convert "<column>Hi</column>").result = .ok (loneCellText "Hi") := by
  have apart : ∀ other, other ≠ Component.columns → other.standardTag ≠ "column" := by
    intro other _
    cases other <;> decide
  have named : Component.columns.CanBe "column" :=
    ⟨by decide, apart, by decide, by decide, by decide, by decide⟩
  let f : Forest Unit :=
    .element () ⟨"columns", [], false⟩ (.leaf () (.text .plain) "Hi" .nil) .nil
  have renamable : f.Renamable .columns "column" := ⟨by decide, by decide, nofun⟩
  obtain ⟨engine, engine', built, built', h⟩ :=
    convert_renamed 12 Settings.standard.maxExpansions named
  have hcolumns := convert_columns built
  refine ⟨engine', built', ?_⟩
  obtain ⟨g, -, -, -, hsame⟩ | ⟨c, hlimit, -⟩ :=
    h f renamable "<columns>Hi</columns>" "<column>Hi</column>" (by decide) (by decide)
  · exact (hsame (by decide)).trans hcolumns
  · rw [hcolumns] at hlimit
    cases hlimit

theorem Engine.convert_col {engine : Engine} {log : List Message}
    (built : Engine.build .standard (Component.columns.called "col") = .ok (engine, log)) :
    (engine.convert "<col>Hi</col>").result = .ok (loneCellText "" ++ "Hi") := by
  obtain ⟨engine', hbuild, hlimit, hunfolder, hformat⟩ : ∃ engine',
      Engine.build .standard (Component.columns.called "col") = .ok (engine', []) ∧
        engine'.settings.maxExpansions = Settings.standard.maxExpansions ∧
        engine'.unfolder = .renamed 12 .columns "col" ∧ engine'.format = Format.standard :=
    ⟨_, rfl, rfl, rfl, rfl⟩
  rw [hbuild] at built
  cases built
  have hshield : RawBlock.shield engine.settings "<col>Hi</col>" = ⟨"<col>Hi</col>", []⟩ := by
    refine RawBlock.shield_of_not_opening _ fun s hs => ?_
    have htails : ∀ s ∈ "<col>Hi</col>".toList.tails, RawBlock.opening? s = none := by decide
    exact htails s ((List.mem_tails s _).mpr hs)
  have hnormal : VoidElement.normalize "<col>Hi</col>" = "<col />Hi</col>" := by decide +kernel
  let t : Tag := ⟨"col", [], true⟩
  let behind : Forest Nat := .leaf 1 (.text .plain) "Hi" .nil
  let d : Draft := ⟨⟨Format.standard, ⟨[], []⟩, .element 0 t .nil behind, 2⟩, []⟩
  have hload : Document.load Format.standard "<col />Hi</col>" = .ok d.document := by
    have hspelling : Spelling.ofText "<col />Hi</col>" = ⟨[], []⟩ := by decide +kernel
    have hstart : Token.constructAt "col />Hi</col>".toList =
        .read [.startTag ⟨"col", [], true⟩] none "Hi</col>".toList := by cbv
    have hend : Token.constructAt "/col>".toList = .read [.endTag "col"] none [] := by cbv
    have htext := @Token.scan_text 'H' ['i'] "</col>".toList (by decide) false
    have htokens : Token.ofText "<col />Hi</col>".toList =
        [.startTag ⟨"col", [], true⟩, .text "Hi", .endTag "col"] := by
      change Token.scan false none ('<' :: "col />Hi</col>".toList) = _
      rw [Token.scan_of_constructAt hstart]
      change _ :: Token.scan false none ('H' :: ['i'] ++ "</col>".toList) = _
      rw [htext]
      change _ :: _ :: Token.scan false none ('<' :: "/col>".toList) = _
      rw [Token.scan_of_constructAt hend, Token.scan_nil]
      rfl
    have hread : Format.standard.read "<col />Hi</col>" =
        .ok (.element () t .nil (.leaf () (.text .plain) "Hi" .nil)) := by
      rw [Format.read_standard, Format.protectedChars_of_not_mem (by decide), Forest.parse, htokens]
      rfl
    rw [Document.load_of_read hread, hspelling]
    rfl
  have hcell : ((frame 12 .columns t (Forest.nil : Forest Nat) ⟨true, true, 1⟩).written
      .nil).reread [] "" = loneCell .nil := by decide +kernel
  have hinside : (Forest.nil : Forest Nat).Clear Tag.Plain := trivial
  have hexpand := Unfolder.expand_lone (.renamed 12 .columns "col") ⟨[], []⟩ .columns (by decide)
    (by decide) (by decide : t.Plain) behind 2 hinside rfl hcell
  have hpending : (Unfolder.renamed 12 .columns "col").pending? d =
      some ⟨⟨0, .element t .nil, [], []⟩, "col", .columns⟩ := rfl
  rw [← hnormal] at hload
  refine (convert_of_last hformat hunfolder hlimit hshield hload hpending hexpand rfl rfl
    (by decide)).trans (congrArg Except.ok ?_)
  rw [published_tidy (by decide +kernel)]
  decide +kernel

/-- Not every unused name will do: columns that go by the name `col` lose what is inside them. -/
theorem Engine.not_convert_renamed :
    ¬ ∀ (kind : Component) (name : String), Markup.isPlainName name = true →
      (∀ other, other ≠ kind → other.standardTag ≠ name) → generatedNames.contains name = false →
      kind ≠ .center →
      ∀ engine engine' log log', Engine.build .standard .null = .ok (engine, log) →
        Engine.build .standard (kind.called name) = .ok (engine', log') →
        ∀ f : Forest Unit, f.TidyBelow → (∀ e ∈ f.descendants, lowerString e.tag.name ≠ name) →
          ∀ text text' : String, text.toList = bareStyle.write none f →
            text'.toList = bareStyle.write none (f.mapTags (Tag.renamed kind name)) →
              (engine'.convert text').result = (engine.convert text).result := by
  intro h
  obtain ⟨engine, hbuild⟩ : ∃ engine, Engine.build .standard .null = .ok (engine, []) := ⟨_, rfl⟩
  obtain ⟨engine', hbuild'⟩ : ∃ engine',
    Engine.build .standard (Component.columns.called "col") = .ok (engine', []) := ⟨_, rfl⟩
  let f : Forest Unit :=
    .element () ⟨"columns", [], false⟩ (.leaf () (.text .plain) "Hi" .nil) .nil
  have hapart : ∀ other, other ≠ Component.columns → other.standardTag ≠ "col" := by
    intro other _
    cases other <;> decide
  have hsame := h .columns "col" (by decide) hapart (by decide) (by decide) engine engine' [] []
    hbuild hbuild' f (by decide) (by decide) "<columns>Hi</columns>" "<col>Hi</col>" (by decide)
    (by decide)
  rw [convert_columns hbuild, convert_col hbuild'] at hsame
  have hdiffer : loneCellText "" ++ "Hi" ≠ loneCellText "Hi" := by decide
  exact hdiffer (Except.ok.inj hsame)

end Mailgrid
