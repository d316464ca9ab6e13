import Mathlib
import Mailgrid.Proofs.Engine
import Mailgrid.Proofs.RawBlock.RoundTrip

/-!
# Raw blocks in a conversion

Placeholders in texts, comments and values of an ordinary document come through a
conversion as they are, and so the contents of the blocks reach the output. In
the place of a whole attribute a placeholder is read as a name, which is put in
lower case and is no placeholder any more.
-/

namespace Mailgrid

open Markup (Forest bareStyle)
open RawBlock (Cut IsCut)

theorem RawBlock.numbered_width (width : Int) (index : Nat)
    (blocks : List (List Char × List Char)) :
    numbered { Settings.standard with columnCount := width } index blocks =
      numbered .standard index blocks := by
  induction blocks generalizing index with
  | nil => rfl
  | cons block blocks ih =>
    rw [numbered, numbered, ih]
    rfl

/-- Of a text whose raw blocks stand in texts, comments and values of an ordinary document without
components, a conversion takes the markers and nothing else. -/
theorem Engine.convert_raw (width : Int) {engine : Engine} {log : List Message}
    (built : Engine.build { Settings.standard with columnCount := width } .null =
      .ok (engine, log))
    {text : String} {cut : Cut} (parts : IsCut text.toList cut)
    (numbers : cut.blocks.length ≤ 10 ^ Text.maxDigits)
    (gaps : ∀ gap ∈ cut.gaps, ¬ "###RAW".toList <:+: gap)
    {f : Forest α} (ordinary : f.Headed) (once : f.SpelledOnce)
    (free : ∀ e ∈ f.descendants, Component.named? (Text.lowerString e.tag.name) = none)
    (written : cut.first ++ RawBlock.numbered .standard 0 cut.blocks = bareStyle.write none f) :
    (engine.convert text).result = .ok (String.ofList cut.joined) := by
  obtain ⟨engine', hbuild, hsettings, hunfolder, hformat⟩ : ∃ engine',
      Engine.build { Settings.standard with columnCount := width } .null = .ok (engine', []) ∧
        engine'.settings = { Settings.standard with columnCount := width } ∧
        engine'.unfolder = .standard width ∧ engine'.format = Format.standard :=
    ⟨_, rfl, rfl, rfl, rfl⟩
  rw [hbuild] at built
  cases built
  have hshield := RawBlock.shield_of_isCut engine.settings parts
  rw [hsettings, RawBlock.numbered_width, ← hsettings] at hshield
  have hleft : (String.ofList (cut.first ++ RawBlock.numbered .standard 0 cut.blocks)).toList =
      bareStyle.write none f := by rw [String.toList_ofList, written]
  rw [convert_shielded hunfolder hformat ordinary once free hshield hleft, hsettings]
  exact congrArg Except.ok (RawBlock.restore_numbered numbers gaps)

theorem Engine.convert_raw_value :
    let text := "<p title=\"a <raw>{% x %}</raw>\"><raw><b></raw> y</p>"
    ∃ engine log, Engine.build { Settings.standard with columnCount := 12 } .null =
      .ok (engine, log) ∧ (engine.convert text).result = .ok "<p title=\"a {% x %}\"><b> y</p>" := by
  intro text
  let paragraph : Forest Unit := .element () ⟨"p", [("title", .text "a ###RAW0###")], false⟩
    (.leaf () (.text .plain) "###RAW1### y" .nil) .nil
  have parts : RawBlock.cutOf text.toList = ⟨"<p title=\"a ".toList,
      [("{% x %}".toList, "\">".toList), ("<b>".toList, " y</p>".toList)]⟩ := by cbv
  have numbers : 2 ≤ 10 ^ Text.maxDigits :=
    Nat.le_trans (by decide : 2 ≤ 10 ^ 1) (Nat.pow_le_pow_right (by decide) (by decide))
  have ordinary : paragraph.Headed := by decide
  have once : paragraph.SpelledOnce := by decide
  have free : ∀ e ∈ paragraph.descendants,
      Component.named? (Text.lowerString e.tag.name) = none := by decide
  obtain ⟨engine, built, -⟩ := Unfolder.build_standard 12
  exact ⟨engine, [], built, convert_raw 12 built (RawBlock.isCut_iff.mpr parts.symm) numbers
    (by decide) ordinary once free (by decide)⟩

/-- A block in the place of an attribute is lost: its placeholder is read as a name. -/
theorem Engine.not_convert_raw : ∃ engine, Engine.build .standard .null = .ok (engine, []) ∧
    IsCut "<td <raw>{% x %}</raw>></td>".toList
      ⟨"<td ".toList, [("{% x %}".toList, "></td>".toList)]⟩ ∧
    (engine.convert "<td <raw>{% x %}</raw>></td>").result = .ok "<td ###raw0###=\"\"></td>" ∧
    ¬ "{% x %}".toList <:+: "<td ###raw0###=\"\"></td>".toList := by
  obtain ⟨engine, hbuild, hsettings, hunfolder, hformat⟩ : ∃ engine,
      Engine.build .standard .null = .ok (engine, []) ∧ engine.settings = .standard ∧
        engine.unfolder = .standard 12 ∧ engine.format = Format.standard :=
    ⟨_, rfl, rfl, rfl, rfl⟩
  have hparts : IsCut "<td <raw>{% x %}</raw>></td>".toList
      ⟨"<td ".toList, [("{% x %}".toList, "></td>".toList)]⟩ :=
    RawBlock.isCut_iff.mpr (by cbv)
  have hshield : RawBlock.shield .standard "<td <raw>{% x %}</raw>></td>" =
      ⟨"<td ###RAW0###></td>", ["{% x %}"]⟩ := RawBlock.shield_of_isCut .standard hparts
  have hnormal : VoidElement.normalize "<td ###RAW0###></td>" = "<td ###RAW0###></td>" := by
    decide +kernel
  have hspelling : Markup.Spelling.ofText "<td ###RAW0###></td>" = ⟨[], []⟩ := by decide +kernel
  have hstart : Markup.Token.constructAt "td ###RAW0###></td>".toList =
      .read [.startTag ⟨"td", [("###raw0###", "")], false⟩] none "</td>".toList := by cbv
  have hend : Markup.Token.constructAt "/td>".toList = .read [.endTag "td"] none [] := by cbv
  have htokens : Markup.Token.ofText "<td ###RAW0###></td>".toList =
      [.startTag ⟨"td", [("###raw0###", "")], false⟩, .endTag "td"] := by
    change Markup.Token.scan false none ('<' :: "td ###RAW0###></td>".toList) = _
    rw [Markup.Token.scan_of_constructAt hstart]
    change _ :: Markup.Token.scan false none ('<' :: "/td>".toList) = _
    rw [Markup.Token.scan_of_constructAt hend, Markup.Token.scan_nil]
    rfl
  let td : Markup.Tag := ⟨"td", [("###raw0###", .text "")], false⟩
  have hread : Format.standard.read "<td ###RAW0###></td>" =
      .ok (.element () td .nil .nil) := by
    rw [Format.read_standard, Format.protectedChars_of_not_mem (by decide), Forest.parse, htokens]
    rfl
  let d : Document := ⟨Format.standard, ⟨[], []⟩, .element 0 td .nil .nil, 1⟩
  have hload : Document.load Format.standard "<td ###RAW0###></td>" = .ok d := by
    rw [Document.load_of_read hread, hspelling]
    rfl
  have hpending : engine.unfolder.pending? ⟨d, []⟩ = none := by
    rw [hunfolder]
    refine Unfolder.not_pending_of_free (List.forall_mem_singleton.mpr ?_)
    decide
  have hrespell : d.respell = d := by
    have htag : (⟨[], []⟩ : Markup.Spelling).restore td = td := by decide
    simp only [Document.respell, d, Forest.mapTags, htag]
  have hwrite : bareStyle.write none d.content = "<td ###raw0###=\"\"></td>".toList := by decide
  have htext : d.respell.text = .ok "<td ###raw0###=\"\"></td>" := by
    have hd : d.format = Format.standard := rfl
    rw [hrespell, Document.text, hd, Format.write_standard, ok_bind, hwrite]
    refine congrArg Except.ok (String.toList_inj.mp ?_)
    rw [Format.toList_restore, String.toList_ofList]
    decide
  have hcanonical : VoidElement.canonicalize "<td ###raw0###=\"\"></td>" =
      "<td ###raw0###=\"\"></td>" := by decide +kernel
  have hrestore : RawBlock.restore .standard ["{% x %}"] "<td ###raw0###=\"\"></td>" =
      "<td ###raw0###=\"\"></td>" := by decide +kernel
  have hlost : '{' ∉ "<td ###raw0###=\"\"></td>".toList := by decide
  refine ⟨engine, hbuild, hparts, ?_, fun h => hlost (h.subset List.mem_cons_self)⟩
  simp only [convert, hsettings, hshield, hnormal, hformat, hload,
    Unfolder.run_of_not_pending hpending, finish, htext, ok_bind, hcanonical, hrestore]
  rfl

end Mailgrid
