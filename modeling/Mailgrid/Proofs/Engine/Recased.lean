import Mailgrid.Proofs.Document.RecasedTidy
import Mailgrid.Proofs.Engine.Spelled
import Mailgrid.Proofs.Markup.Alike

/-!
# Conversions with components in another case

However the letters in the names of components are cased, a document comes to
the same text: it is read as the same forest, no step of a run looks at the
spellings that were collected, and at its end no component is left whose name
would be spelled in one of them.
-/

namespace Mailgrid

open Markup (Forest Growth OpenTag Part Passage Spelling Tag Token)
open Markup.Token (constructAt)
open VoidElement (IsFirm)

-- ---------------------------------------------------------------------------
-- Spellings of names

section
variable {stands : List Char → List Char → Prop} {literal : Option (List Char)} {s t u : List Char}

theorem Recased.alike (h : Recased stands literal s t) : Spelling.Alike s t := by
  induction h with
  | same _ s => exact .refl s
  | char _ _ ih => exact .cons _ ih
  | bare _ _ ih => exact .cons '<' (.cons _ ih)
  | @startTag _ _ _ u s t _ component spelled respelled apart _ _ ih =>
    refine .name (.inl rfl) component spelled respelled ?_ (Spelling.Alike.behind (.cons '>' ih) u)
    exact takeWhile_eq_nil_of_apart (by decide) (apart_close apart s)
  | @endTag _ _ _ u s t component spelled respelled apart _ _ ih =>
    refine .cons '<' (.name (.inr rfl) component spelled respelled ?_
      (Spelling.Alike.behind (.cons '>' ih) u))
    exact takeWhile_eq_nil_of_apart (by decide) (apart_close apart s)
  | @construct u _ _ _ _ _ _ _ ih => exact .cons '<' (Spelling.Alike.behind (.cons '>' ih) u)
  | @literal _ _ _ u _ _ _ _ _ _ _ ih => exact Spelling.Alike.behind (.cons '>' ih) u

end

-- ---------------------------------------------------------------------------
-- Runs

/-- A document with other spellings for its names. -/
def Document.withSpelling (spelling : Spelling) (d : Document) : Document :=
  { d with spelling }

def Draft.withSpelling (spelling : Spelling) (d : Draft) : Draft :=
  { d with document := d.document.withSpelling spelling }

theorem Document.load_withSpelling {text other : String}
    (same : Format.standard.read other = Format.standard.read text) :
    load Format.standard other =
      (load Format.standard text).map (withSpelling (Spelling.ofText other)) := by
  have hload (text : String) : load Format.standard text =
      (Format.standard.read text).map fun f => ⟨Format.standard, Spelling.ofText text,
        (f.leading.number 0).1, (f.leading.number 0).2⟩ := by
    cases h : Format.standard.read text with
    | error f =>
      have hread : ((empty Format.standard).noteSpelling text).format.read text = .error f := h
      rw [load, read, hread]
      rfl
    | ok f => exact load_of_read h
  rw [hload, hload, same]
  cases Format.standard.read text <;> rfl

namespace Unfolder

variable {u : Unfolder} {d : Draft} (spelling : Spelling)

theorem put_withSpelling (mark : Nat) (e : Expansion) :
    put (d.withSpelling spelling) mark e = (put d mark e).map (Draft.withSpelling spelling) := by
  cases e with
  | inPlace content => rfl
  | markup text =>
    have hformat : (d.withSpelling spelling).document.format = d.document.format := rfl
    simp only [put, Document.replace, hformat]
    cases d.document.format.read text with
    | error f => rfl
    | ok new => rfl

theorem expand_withSpelling (p : Pending) :
    u.expand (d.withSpelling spelling) p = (u.expand d p).map (Draft.withSpelling spelling) := by
  have hformat : (d.withSpelling spelling).document.format = d.document.format := rfl
  rw [expand, expand, hformat]
  cases Expansion.ofPlace u.rules d.document.format (some p.kind) p.place with
  | error f => rfl
  | ok e => exact put_withSpelling spelling p.place.mark e

/-- No step of a run looks at the spellings. -/
theorem runFrom_withSpelling (limit : Int) (count left : Nat) :
    u.runFrom limit count left (d.withSpelling spelling) =
      { u.runFrom limit count left d with
        draft := (u.runFrom limit count left d).draft.withSpelling spelling } := by
  have hpending (d : Draft) : u.pending? (d.withSpelling spelling) = u.pending? d := rfl
  induction left generalizing count d with
  | zero =>
    unfold runFrom
    rw [hpending]
    cases u.pending? d <;> rfl
  | succ left ih =>
    unfold runFrom
    rw [hpending]
    cases u.pending? d with
    | none => rfl
    | some p =>
      simp only [expand_withSpelling]
      cases u.expand d p with
      | error f => rfl
      | ok next =>
        simp only [Except.map, ih]

theorem run_withSpelling (limit : Int) : u.run limit (d.withSpelling spelling) =
    { u.run limit d with draft := (u.run limit d).draft.withSpelling spelling } :=
  runFrom_withSpelling spelling limit 0 limit.toNat

end Unfolder

-- ---------------------------------------------------------------------------
-- Conversions

namespace Engine

theorem published_recased {width limit : Int} {d : Document} (marked : d.Marked)
    (ended : ((Unfolder.standard width).run limit ⟨d, []⟩).failure = none) {s t : List Char}
    (h : Spelling.Alike s t) :
    let final := ((Unfolder.standard width).run limit ⟨d, []⟩).draft.document.content
    published (final.mapTags (Tag.spelled (Spelling.foundTags t) (Spelling.foundAttributes t))) =
      published
        (final.mapTags (Tag.spelled (Spelling.foundTags s) (Spelling.foundAttributes s))) := by
  intro final
  obtain ⟨htags, hattributes⟩ := Spelling.found_alike h
  have hfree : final.Tags fun tag =>
      ∀ kind : Component, tag.name = kind.standardTag → kind = .center := fun e he kind hname =>
    Unfolder.only_centers_left marked ended e.tag (List.mem_map_of_mem he) hname
  refine congrArg published (Forest.mapTags_congr hfree fun tag hname => ?_)
  rw [Tag.spelled, Tag.spelled, hattributes, Spelling.first_same htags hname]

/-- What the run of a document comes to in the end. -/
def outcome (engine : Engine) (u : Unfolder) (limit : Int) (blocks : List String) (d : Document) :
    Except Failure String :=
  let run := u.run limit ⟨d, []⟩
  match run.failure with
  | some failure => .error failure
  | none => engine.finish blocks run.draft.document

theorem result_convert {engine : Engine} {u : Unfolder} {limit : Int}
    (formats : engine.format = Format.standard) (unfolds : engine.unfolder = u)
    (limited : engine.settings.maxExpansions = limit) {text : String} {shielded : Shielded}
    (shields : RawBlock.shield engine.settings text = shielded) :
    (engine.convert text).result =
      Document.load Format.standard (VoidElement.normalize shielded.text) >>=
        engine.outcome u limit shielded.blocks := by
  simp only [convert, formats, unfolds, limited, shields]
  cases Document.load Format.standard (VoidElement.normalize shielded.text) with
  | error f => rfl
  | ok document =>
    simp only [ok_bind, outcome]
    cases (u.run limit ⟨document, []⟩).failure <;> rfl

/-- The spellings of the one text come to the same as those of the other. -/
theorem outcome_recased {engine : Engine} {width limit : Int} {text text' : String} {d : Document}
    (loaded : Document.load Format.standard (VoidElement.normalize text) = .ok d)
    (h : Spelling.Alike text.toList text'.toList) (blocks : List String) :
    engine.outcome (.standard width) limit blocks (d.withSpelling (Spelling.ofText text')) =
      engine.outcome (.standard width) limit blocks d := by
  have hrun : (Unfolder.standard width).run limit ⟨d.withSpelling (Spelling.ofText text'), []⟩ =
      { (Unfolder.standard width).run limit ⟨d, []⟩ with
        draft := ((Unfolder.standard width).run limit ⟨d, []⟩).draft.withSpelling
          (Spelling.ofText text') } :=
    Unfolder.run_withSpelling (d := ⟨d, []⟩) _ limit
  have hsteps := (Unfolder.steps_of_run (.standard width) limit ⟨d, []⟩).1
  obtain ⟨hformat, hspelling, htags⟩ := Draft.lower_of_steps loaded hsteps
  rw [Spelling.ofText_normalize, Spelling.ofText_found] at hspelling
  rw [outcome, outcome, hrun]
  cases hfailure : ((Unfolder.standard width).run limit ⟨d, []⟩).failure with
  | some f => rfl
  | none =>
    have hsame := published_recased (Document.marked_of_load loaded) hfailure h
    have hwritten := @finish_of_lower engine _ hformat _ _ hspelling htags blocks
    have hwritten' := @finish_of_lower engine (((Unfolder.standard width).run limit ⟨d, []⟩).draft
      |>.withSpelling (Spelling.ofText text')).document hformat _ _ (Spelling.ofText_found text')
        htags blocks
    simp only [hwritten]
    exact hwritten'.trans (congrArg _ (congrArg _ hsame))

/-- Documents that differ in the case of letters in the names of their components come to the same
text. Of these names those in tags count that are read as such, outside of raw blocks, and the names
of centers are as they are in both. No comment, no marked section, and no start tag or body of a
script or a style may end in what looks like a void start tag that has neither a slash nor an end
tag. -/
theorem convert_recased (width limit : Int) :
    ∃ engine : Engine,
      Engine.build { Settings.standard with columnCount := width, maxExpansions := limit } .null =
        .ok (engine, []) ∧
      ∀ text text' : String,
        let shielded := RawBlock.shield engine.settings text
        let shielded' := RawBlock.shield engine.settings text'
        shielded'.blocks = shielded.blocks →
        Recased IsFirm none shielded.text.toList shielded'.text.toList →
        (engine.convert text').result = (engine.convert text).result := by
  obtain ⟨engine, hbuild, hformat, hunfolder, hlimit⟩ : ∃ engine : Engine,
      build { Settings.standard with columnCount := width, maxExpansions := limit } .null =
        .ok (engine, []) ∧ engine.format = Format.standard ∧ engine.unfolder = .standard width ∧
          engine.settings.maxExpansions = limit := ⟨_, rfl, rfl, rfl, rfl⟩
  refine ⟨engine, hbuild, fun text text' => ?_⟩
  intro shielded shielded' hblocks hrecased
  rw [result_convert hformat hunfolder hlimit (rfl : _ = shielded),
    result_convert hformat hunfolder hlimit (rfl : _ = shielded'), hblocks,
    Document.load_withSpelling (read_recased hrecased), Spelling.ofText_normalize]
  cases hload : Document.load Format.standard (VoidElement.normalize shielded.text) with
  | error f => rfl
  | ok d => exact outcome_recased hload hrecased.alike shielded.blocks

theorem convert_recased_columns :
    ∃ engine, build .standard .null = .ok (engine, []) ∧
      (engine.convert "<COLumns>Hi</COLUMNS>").result = .ok (loneCellText "Hi") := by
  obtain ⟨engine, built, h⟩ := convert_recased 12 Settings.standard.maxExpansions
  refine ⟨engine, built, ?_⟩
  let column (name : String) : Tag := ⟨name, [], false⟩
  let parts (start behind : String) : List Part :=
    [.startTag (column start), .leaf (.text .plain) "Hi", .endTag (column behind)]
  have htidy (start behind : String) (hstart : (column start).Tidy)
      (hbehind : (column behind).Tidy) : ∀ p ∈ parts start behind, p.Tidy := by
    have htext : Markup.TidyLeaf (.text .plain) "Hi" := by decide
    exact List.forall_mem_cons.mpr ⟨hstart, List.forall_mem_cons.mpr
      ⟨htext, List.forall_mem_singleton.mpr ⟨hbehind, rfl⟩⟩⟩
  have hrecased : List.Forall₂ Part.Recased (parts "columns" "columns") (parts "COLumns" "COLUMNS") :=
    .cons (@Part.Recased.startTag .columns _ _ (by decide) (by decide) (by decide)) <|
      .cons (.same _) <|
        .cons (@Part.Recased.endTag .columns _ _ (by decide) (by decide) (by decide)) .nil
  have hlower : "<columns>Hi</columns>".toList = (parts "columns" "columns").flatMap Part.write := by
    decide
  have hupper : "<COLumns>Hi</COLUMNS>".toList = (parts "COLumns" "COLUMNS").flatMap Part.write := by
    decide
  have hshield := RawBlock.shield_tidy engine.settings
    (htidy "columns" "columns" (by decide) (by decide)) hlower
  have hshield' := RawBlock.shield_tidy engine.settings
    (htidy "COLumns" "COLUMNS" (by decide) (by decide)) hupper
  have htext := recased_of_parts (htidy "columns" "columns" (by decide) (by decide)) hrecased
  rw [← hlower, ← hupper] at htext
  have hsame := h "<columns>Hi</columns>" "<COLumns>Hi</COLUMNS>"
  rw [hshield, hshield'] at hsame
  exact (hsame rfl htext).trans (convert_columns built)

theorem convert_comment {engine : Engine} {log : List Message}
    (built : build .standard .null = .ok (engine, log)) {text : String}
    (shielded : RawBlock.shield engine.settings text = ⟨text, []⟩) {body : List Char}
    (readied : (VoidElement.normalize text).toList = "<!--".toList ++ body ++ "-->".toList)
    (uncut : Text.cutAt Token.commentEnd? body = none)
    (unmarked : '&' ∉ (VoidElement.normalize text).toList) :
    (engine.convert text).result = .ok (published
      (.leaf 0 .comment (Growth.settled false (String.ofList body)) .nil)) := by
  obtain ⟨engine', hbuild, hlimit, hunfolder, hformat⟩ : ∃ engine',
      Engine.build .standard .null = .ok (engine', []) ∧
        engine'.settings.maxExpansions = Settings.standard.maxExpansions ∧
        engine'.unfolder = .standard 12 ∧ engine'.format = Format.standard :=
    ⟨_, rfl, rfl, rfl, rfl⟩
  rw [hbuild] at built
  cases built
  have htokens : Token.ofText (VoidElement.normalize text).toList =
      [.comment (String.ofList body)] := by
    have hscan := Token.scan_comment uncut false []
    rw [List.append_nil, ← readied, Token.scan_nil] at hscan
    exact hscan
  have hread : Format.standard.read (VoidElement.normalize text) =
      .ok (.leaf () .comment (Growth.settled false (String.ofList body)) .nil) := by
    rw [Format.read_standard, Format.protectedChars_of_not_mem unmarked, Forest.parse, htokens]
    rfl
  let d : Document := ⟨Format.standard, Spelling.ofText (VoidElement.normalize text),
    .leaf 0 .comment (Growth.settled false (String.ofList body)) .nil, 1⟩
  have hload : Document.load Format.standard (VoidElement.normalize text) = .ok d :=
    Document.load_of_read hread
  have hpending : (Unfolder.standard 12).pending? ⟨d, []⟩ = none :=
    Unfolder.not_pending_of_free (List.forall_mem_nil _)
  obtain ⟨-, hdone⟩ := convert_loaded hformat hunfolder hlimit shielded hload
  rw [Unfolder.run_of_not_pending hpending] at hdone
  exact hdone rfl rfl

/-- Where a comment ends in what looks like a void start tag, what stands behind it may be drawn into
it as it is spelled. -/
theorem not_convert_recased : ¬ ∀ (engine : Engine) (log : List Message),
    build .standard .null = .ok (engine, log) →
    ∀ m : List Passage, (∀ p ∈ m, p.WellFormed) →
      Passage.areBalanced VoidElement.names [] m = true →
      (∀ tag, .opening tag ∈ m → ¬ Component.center.IsSpelled tag.name) →
      ∀ text text' : String, text.toList = m.flatMap Passage.write →
        let shielded := RawBlock.shield engine.settings text
        let shielded' := RawBlock.shield engine.settings text'
        shielded'.blocks = shielded.blocks →
        Recased (fun _ _ => True) none shielded.text.toList shielded'.text.toList →
        (engine.convert text').result = (engine.convert text).result := by
  intro h
  obtain ⟨engine, built⟩ : ∃ engine, build .standard .null = .ok (engine, []) := ⟨_, rfl⟩
  let m : List Passage := [.comment "<br ".toList, .opening ⟨"row".toList, [], []⟩,
    .closing "row".toList [], .comment " x ".toList]
  have hwell : ∀ p ∈ m, p.WellFormed := by
    have hrow : (Passage.opening ⟨"row".toList, [], []⟩).WellFormed :=
      ⟨rfl, List.forall_mem_nil _, rfl⟩
    have hend : (Passage.closing "row".toList []).WellFormed :=
      ⟨rfl, List.forall_mem_nil _⟩
    exact List.forall_mem_cons.mpr ⟨rfl, List.forall_mem_cons.mpr ⟨hrow, List.forall_mem_cons.mpr
      ⟨hend, List.forall_mem_singleton.mpr rfl⟩⟩⟩
  have hcenter : ∀ tag, .opening tag ∈ m → ¬ Component.center.IsSpelled tag.name := by
    intro tag htag
    obtain rfl : tag = ⟨"row".toList, [], []⟩ := by simpa [m] using htag
    decide
  have hshield (text : String) (htails : ∀ s ∈ text.toList.tails, RawBlock.opening? s = none) :
      RawBlock.shield engine.settings text = ⟨text, []⟩ :=
    RawBlock.shield_of_not_opening _ fun s hs => htails s ((List.mem_tails s _).mpr hs)
  have hlower := hshield "<!--<br --><row></row><!-- x -->" (by decide)
  have hupper := hshield "<!--<br --><ROW></ROW><!-- x -->" (by decide)
  have hcomment : constructAt "!--<br --><row></row><!-- x -->".toList =
      .read [.comment "<br "] none "<row></row><!-- x -->".toList := by cbv
  have hstart : OpenTag.read "row></row><!-- x -->".toList =
      .complete ⟨"row", [], false⟩ "</row><!-- x -->".toList := by cbv
  have hrow : Recased (fun _ _ => True) none "</row><!-- x -->".toList "</ROW><!-- x -->".toList :=
    @Recased.endTag _ .row "row".toList "ROW".toList [] _ _ (by decide) (by decide) (by decide) rfl
      List.not_mem_nil (.same none _)
  have hrecased : Recased (fun _ _ => True) none "<!--<br --><row></row><!-- x -->".toList
      "<!--<br --><ROW></ROW><!-- x -->".toList :=
    @Recased.construct _ "!--<br --".toList _ _ _ none hcomment (fun _ => trivial) <|
      @Recased.startTag _ .row "row".toList "ROW".toList [] _ _ _ (by decide) (by decide) (by decide)
        rfl hstart hrow
  have hsame := h engine [] built m hwell rfl hcenter "<!--<br --><row></row><!-- x -->"
    "<!--<br --><ROW></ROW><!-- x -->" (by decide)
  rw [hlower, hupper] at hsame
  have hsame := hsame rfl hrecased
  have hfirst := @convert_comment _ _ built _ hlower "<br -- /><row></row><!-- x ".toList
    (by decide +kernel) (by decide) (by decide +kernel)
  have hsecond := @convert_comment _ _ built _ hupper "<br -- /><ROW></ROW><!-- x ".toList
    (by decide +kernel) (by decide) (by decide +kernel)
  rw [hfirst, hsecond] at hsame
  exact absurd (Except.ok.inj hsame) (by decide +kernel)

end Engine

end Mailgrid
