import Mailgrid.Proofs.Document.Ordinary
import Mailgrid.Proofs.RawBlock
import Mailgrid.Proofs.Unfolding.OnePass
import Mailgrid.Proofs.VoidElement

/-!
# Conversions without components

`convert_ordinary`: an ordinary document without components is converted to
itself. No part of the conversion has anything to do: no raw block is cut out,
no tag is written anew, no component is expanded, and what reading changes is
put back by writing.
-/

namespace Mailgrid

open Expansion
open Markup (Forest Node bareStyle)

theorem Markup.Forest.placeAfter?_eq_none {wanted : α → Node α → Bool} {f : Forest α}
    (hleaf : ∀ m kind content, wanted m (.leaf kind content) = false)
    (h : ∀ e ∈ f.descendants, wanted e.mark (.element e.tag e.children) = false)
    (before : List (Markup.Element α)) : f.placeAfter? wanted before = none := by
  induction f generalizing before with
  | nil => rfl
  | leaf m kind content next ih => rw [placeAfter?, hleaf, if_neg Bool.false_ne_true, ih h]
  | element m tag children next ihc ih =>
    simp only [descendants, List.forall_mem_cons, List.forall_mem_append] at h
    obtain ⟨htag, hchildren, hnext⟩ := h
    rw [placeAfter?, htag, if_neg Bool.false_ne_true, ihc hchildren]
    exact ih hnext _

theorem Unfolder.not_pending_of_free {width : Int} {document : Document}
    (h : ∀ t ∈ document.content.descendants.map (·.tag), Component.named? t.name = none) :
    (Unfolder.standard width).pending? ⟨document, []⟩ = none := by
  have hnone : document.content.place? (fun mark node =>
      ((Unfolder.standard width).kindOf? [] mark node).isSome) = none := by
    refine Forest.placeAfter?_eq_none (fun _ _ _ => rfl) (fun e he => ?_) []
    have hkind := Unfolder.kindOf?_standard width ⟨document, []⟩ e.mark e.tag e.children
    rw [hkind, pendingKind, h e.tag (List.mem_map_of_mem he), ite_self]
    rfl
  rw [Unfolder.pending?, hnone]

/-- Where an ordinary document without components is left of a text by shielding it, the document is
all that its blocks are put back into. -/
theorem Engine.convert_shielded {engine : Engine} {width : Int}
    (unfolds : engine.unfolder = .standard width) (formats : engine.format = Format.standard)
    {f : Forest α} (ordinary : f.Headed) (once : f.SpelledOnce)
    (free : ∀ e ∈ f.descendants, Component.named? (Text.lowerString e.tag.name) = none)
    {text left : String} {blocks : List String}
    (shielded : RawBlock.shield engine.settings text = ⟨left, blocks⟩)
    (written : left.toList = bareStyle.write none f) :
    (engine.convert text).result = .ok (RawBlock.restore engine.settings blocks left) := by
  have hparts : left.toList = f.parts.flatMap Markup.Part.write :=
    written.trans (ordinary.tidy.write none)
  have hnormal := VoidElement.normalize_tidy ordinary.tidy.parts hparts
  have hcanonical := VoidElement.canonicalize_tidy ordinary.tidy.parts hparts
  obtain ⟨d, hload, hd, hspelling, hcontent⟩ := Document.load_ordinary ordinary written
  have hnames : ∀ t ∈ d.content.descendants.map (·.tag), Component.named? t.name = none := by
    intro t ht
    rw [← Forest.tags_bare, hcontent, Forest.tags_bare, Forest.tags_mapTags] at ht
    obtain ⟨x, hx, rfl⟩ := List.mem_map.mp ht
    have hveiled : x.tag ∈ f.veiled.descendants.map (·.tag) := List.mem_map_of_mem hx
    rw [Forest.tags_veiled] at hveiled
    obtain ⟨e, he, htag⟩ := List.mem_map.mp hveiled
    rw [← htag]
    exact free e he
  have hpending : engine.unfolder.pending? ⟨d, []⟩ = none := by
    rw [unfolds]
    exact Unfolder.not_pending_of_free hnames
  have hback := Document.text_respell ordinary once written hd hspelling hcontent
  simp only [convert, shielded, hnormal, formats, hload, Unfolder.run_of_not_pending hpending,
    finish, hback, ok_bind, hcanonical]
  rfl

/-- An engine with the standard tags converts an ordinary document without components to itself. -/
theorem Engine.convert_ordinary (width : Int) {engine : Engine} {log : List Message}
    (built : Engine.build { Settings.standard with columnCount := width } .null =
      .ok (engine, log))
    {f : Forest α} (ordinary : f.Headed) (once : f.SpelledOnce)
    (free : ∀ e ∈ f.descendants, Component.named? (Text.lowerString e.tag.name) = none)
    {text : String} (written : text.toList = bareStyle.write none f) :
    (engine.convert text).result = .ok text := by
  obtain ⟨engine', hbuild, hunfolder, hformat⟩ := Unfolder.build_standard width
  rw [hbuild] at built
  cases built
  have hparts : text.toList = f.parts.flatMap Markup.Part.write :=
    written.trans (ordinary.tidy.write none)
  have hshield := RawBlock.shield_tidy engine.settings ordinary.tidy.parts hparts
  exact convert_shielded hunfolder hformat ordinary once free hshield written

theorem Engine.convert_ordinary_picture :
    let text := "<!DOCTYPE html><svg viewBox=\"0 & 1\">a &amp; b<!-- c --><br/></svg>"
    ∃ engine log, Engine.build { Settings.standard with columnCount := 12 } .null =
      .ok (engine, log) ∧ (engine.convert text).result = .ok text := by
  intro text
  let picture : Forest Unit := .leaf () .leadingDocType "html"
    (.element () ⟨"svg", [("viewBox", .text "0 & 1")], false⟩
      (.leaf () (.text .plain) "a &amp; b" (.leaf () .comment " c "
        (.element () ⟨"br", [], true⟩ .nil .nil))) .nil)
  have ordinary : picture.Headed := by decide
  have once : picture.SpelledOnce := by decide
  have free : ∀ e ∈ picture.descendants,
      Component.named? (Text.lowerString e.tag.name) = none := by decide
  have written : text.toList = bareStyle.write none picture := by decide
  obtain ⟨engine, built, -⟩ := Unfolder.build_standard 12
  exact ⟨engine, [], built, convert_ordinary 12 built ordinary once free written⟩

end Mailgrid
