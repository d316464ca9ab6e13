import Mailgrid.Engine
import Mailgrid.Proofs.Document.Ordinary
import Mailgrid.Proofs.Markup.Protected
import Mailgrid.Proofs.Unfolding.OnePass
import Mailgrid.Proofs.Unfolding.Parsed

/-!
# No reference is ever seen

Unless references are to be decoded, a placeholder stands for each ampersand
before a text is read: for those of the document and for those that a template
brings in. If it has none itself, no ampersand comes into the tree. A step reads
one more text, or adds classes that the engine knows, so this holds as far as any
run goes, with whatever tags, grammar, style and width of the grid.
-/

namespace Mailgrid

open Markup (AttributeValue Element Forest Node Place Tag bareStyle)

-- ---------------------------------------------------------------------------
-- Changes of a forest

namespace Markup.Forest

variable {f new : Forest α}

theorem leaves_number (f : Forest α) (next : Nat) : (f.number next).1.leaves = f.leaves := by
  induction f generalizing next with
  | nil => rfl
  | leaf m kind content rest ih => simp only [number, leaves, ih]
  | element m tag children rest ihc ih => simp only [number, leaves, ihc, ih]

theorem leaves_leading (f : Forest α) : f.leading.leaves = f.leaves := by
  induction f with
  | nil => rfl
  | leaf m kind content next ih => simp only [Forest.leading, leaves, ih]
  | element m tag children next _ ih => simp only [Forest.leading, leaves, ih]

theorem leaves_mapTop (change : Tag → Tag) (f : Forest α) : (f.mapTop change).leaves = f.leaves := by
  induction f with
  | nil => rfl
  | leaf m kind content next ih => simp only [mapTop, leaves, ih]
  | element m tag children next _ ih => simp only [mapTop, leaves, ih]

theorem leaves_mapTags (change : Tag → Tag) (f : Forest α) :
    (f.mapTags change).leaves = f.leaves := by
  induction f with
  | nil => rfl
  | leaf m kind content next ih => simp only [mapTags, leaves, ih]
  | element m tag children next ihc ih => simp only [mapTags, leaves, ihc, ih]

variable {P : String → Prop}

theorem leaves_replace (h : ∀ c ∈ f.leaves, P c) (hnew : ∀ c ∈ new.leaves, P c)
    (wanted : α → Bool) : ∀ c ∈ (f.replace wanted new).leaves, P c := by
  induction f with
  | nil => exact h
  | leaf m kind content next ih =>
    obtain ⟨hcontent, hnext⟩ := List.forall_mem_cons.mp h
    rw [Forest.replace]
    split
    · rw [leaves_append]
      exact List.forall_mem_append.mpr ⟨hnew, hnext⟩
    · exact List.forall_mem_cons.mpr ⟨hcontent, ih hnext⟩
  | element m tag children next ihc ih =>
    obtain ⟨hchildren, hnext⟩ := List.forall_mem_append.mp h
    rw [Forest.replace]
    split
    · rw [leaves_append]
      exact List.forall_mem_append.mpr ⟨hnew, hnext⟩
    · exact List.forall_mem_append.mpr ⟨ihc hchildren, ih hnext⟩

theorem leaves_adapt {children : Forest α} (h : ∀ c ∈ f.leaves, P c)
    (hchildren : ∀ c ∈ children.leaves, P c) (wanted : α → Bool) :
    ∀ c ∈ (f.adapt wanted fun tag _ => (tag, children)).leaves, P c := by
  induction f with
  | nil => exact h
  | leaf m kind content next ih =>
    obtain ⟨hcontent, hnext⟩ := List.forall_mem_cons.mp h
    exact List.forall_mem_cons.mpr ⟨hcontent, ih hnext⟩
  | element m tag old next ihc ih =>
    obtain ⟨hold, hnext⟩ := List.forall_mem_append.mp h
    rw [Forest.adapt]
    split
    · exact List.forall_mem_append.mpr ⟨hchildren, hnext⟩
    · exact List.forall_mem_append.mpr ⟨ihc hold, ih hnext⟩

theorem leaves_of_placeAfter? {wanted : α → Node α → Bool} (h : ∀ c ∈ f.leaves, P c)
    {before : List (Element α)} {place : Place α} (hp : f.placeAfter? wanted before = some place)
    {t : Tag} {children : Forest α} (hn : place.node = .element t children) :
    ∀ c ∈ children.leaves, P c := by
  induction f generalizing before with
  | nil => cases hp
  | leaf m kind content next ih =>
    obtain ⟨-, hnext⟩ := List.forall_mem_cons.mp h
    rw [placeAfter?] at hp
    split at hp
    · cases hp
      cases hn
    · exact ih hnext hp
  | element m tag inner next ihc ih =>
    obtain ⟨hinner, hnext⟩ := List.forall_mem_append.mp h
    rw [placeAfter?] at hp
    split at hp
    · cases hp
      cases hn
      exact hinner
    · split at hp
      · rename_i hc
        cases hp
        exact ihc hinner hc
      · exact ih hnext hp

theorem Protected.number (h : f.Protected) (next : Nat) : (f.number next).1.Protected :=
  ⟨(leaves_number f next).symm ▸ h.leaves, Tags.number h.tags next⟩

theorem Protected.leading (h : f.Protected) : f.leading.Protected :=
  ⟨(leaves_leading f).symm ▸ h.leaves, Tags.leading h.tags⟩

theorem Protected.replace (h : f.Protected) (hnew : new.Protected) (wanted : α → Bool) :
    (f.replace wanted new).Protected :=
  ⟨leaves_replace h.leaves hnew.leaves wanted, Tags.replace h.tags hnew.tags wanted⟩

theorem Protected.adapt {children : Forest α} (h : f.Protected) (hc : children.Protected)
    (wanted : α → Bool) : (f.adapt wanted fun tag _ => (tag, children)).Protected :=
  ⟨leaves_adapt h.leaves hc.leaves wanted, Tags.adapt h.tags hc.tags wanted⟩

end Markup.Forest

theorem Expansion.protected_center (rules : Rules) {f : Forest α} (h : f.Protected) :
    (center rules f).Protected := by
  refine ⟨?_, Forest.Tags.mapTags (Forest.Tags.mapTop h.tags fun {t} ht => ?_) fun {t} ht => ?_⟩
  · rw [center, Forest.leaves_mapTags, Forest.leaves_mapTop]
    exact h.leaves
  · have hcenter : '&' ∉ "center".toList := by decide
    have halign : (AttributeValue.text "center").IsProtected := hcenter
    exact (ht.set (by decide) halign).addClass (by decide)
  · split
    · exact ht.addClass (by decide)
    · exact ht

-- ---------------------------------------------------------------------------
-- Formats and documents

/-- A format that puts something without ampersands in the place of each one. -/
structure Format.Protects (format : Format) : Prop where
  undecoded : format.decodes = false
  placeholder : '&' ∉ format.placeholder.toList

variable {format : Format}

theorem Format.Protects.protect (h : format.Protects) (text : String) :
    '&' ∉ (format.protect text).toList := by
  have hchars : (format.protect text).toList =
      text.toList.flatMap fun c => if c = '&' then format.placeholder.toList else [c] := by
    rw [Format.protect, h.undecoded, if_neg Bool.false_ne_true, String.toList_ofList,
      Format.replaced, Text.replaceAll_char]
  rw [hchars, List.mem_flatMap]
  rintro ⟨c, -, hm⟩
  split at hm
  · exact h.placeholder hm
  · rename_i hc
    exact hc (List.mem_singleton.mp hm).symm

theorem Format.Protects.read (h : format.Protects) {text : String} {f : Forest Unit}
    (hread : format.read text = .ok f) : f.Protected := by
  simp only [Format.read, bind_eq_ok] at hread
  obtain ⟨grammar, -, hparse⟩ := hread
  exact Markup.protected_of_parse (h.protect text) hparse

theorem Document.protected_of_load (h : format.Protects) {text : String} {document : Document}
    (hload : Document.load format text = .ok document) :
    document.format = format ∧ document.content.Protected := by
  simp only [Document.load, Document.read, Document.noteSpelling, Document.empty, bind_eq_ok,
    pure_eq_ok] at hload
  obtain ⟨f, hread, rfl⟩ := hload
  exact ⟨rfl, (h.read hread).leading.number 0⟩

-- ---------------------------------------------------------------------------
-- Runs

/-- A draft in this format without ampersands. -/
structure Draft.Protected (format : Format) (d : Draft) : Prop where
  format : d.document.format = format
  content : d.document.content.Protected

section
variable {u : Unfolder} {d e : Draft} {p : Pending}

theorem Draft.Protected.step (h : format.Protects) (hd : d.Protected format)
    (selected : u.pending? d = some p) (expanded : u.expand d p = .ok e) :
    e.Protected format := by
  obtain ⟨-, -, -, t, children, -, -, hnode, -, -, -⟩ := Unfolder.between_of_pending? selected
  have hplace := (Unfolder.place_of_pending? selected).1
  have hchildren : children.Protected :=
    ⟨Forest.leaves_of_placeAfter? hd.content.leaves hplace hnode,
      (Forest.Tags.of_placeAfter? hd.content.tags hplace hnode).2⟩
  simp only [Unfolder.expand, bind_eq_ok] at expanded
  obtain ⟨expansion, hx, hput⟩ := expanded
  cases expansion with
  | inPlace content =>
    obtain rfl := content_of_ofPlace hnode hx
    cases hput
    exact ⟨hd.format, hd.content.adapt (Expansion.protected_center u.rules hchildren) _⟩
  | markup text =>
    simp only [Unfolder.put, Document.replace, hd.format, bind_eq_ok, pure_eq_ok,
      Prod.exists] at hput
    obtain ⟨document, topMarks, ⟨new, hread, hdocument⟩, rfl⟩ := hput
    cases hdocument
    exact ⟨rfl, hd.content.replace ((h.read hread).number _) _⟩

theorem Draft.Protected.steps (h : format.Protects) (hd : d.Protected format) {n : Nat}
    (hs : u.Steps n d e) : e.Protected format :=
  hs.keeps (Draft.Protected.step h) hd

end

/-- Unless an engine decodes references, and if its placeholder has no ampersand, none is in any
text that is given to the reader, in any fragment that is read, in a document as it is loaded, as
any number of expansions leave it, or as a run leaves it, to whatever end that comes. -/
theorem Engine.sees_no_reference (engine : Engine) (undecoded : engine.format.decodes = false)
    (placeholder : '&' ∉ engine.settings.entityPlaceholder.toList) :
    (∀ text, '&' ∉ (engine.format.protect text).toList) ∧
    (∀ text f, engine.format.read text = .ok f → f.Protected) ∧
    ∀ text document, Document.load engine.format text = .ok document →
      document.content.Protected ∧
      (∀ n d, engine.unfolder.Steps n ⟨document, []⟩ d → d.document.content.Protected) ∧
      ∀ limit, (engine.unfolder.run limit ⟨document, []⟩).draft.document.content.Protected := by
  have hprotects : engine.format.Protects := ⟨undecoded, placeholder⟩
  refine ⟨hprotects.protect, fun _ _ => hprotects.read, fun text document hload => ?_⟩
  obtain ⟨hformat, hcontent⟩ := Document.protected_of_load hprotects hload
  have hstart : Draft.Protected engine.format ⟨document, []⟩ := ⟨hformat, hcontent⟩
  have hsteps {n : Nat} {d : Draft} (hs : engine.unfolder.Steps n ⟨document, []⟩ d) :
      d.document.content.Protected := (hstart.steps hprotects hs).content
  refine ⟨hcontent, fun _ _ => hsteps, fun limit => ?_⟩
  exact hsteps (Unfolder.steps_of_run engine.unfolder limit ⟨document, []⟩).1

/-- A row with one reference in its text and one in a value that it passes on. -/
def rowWithReferences : Forest Unit :=
  .element () ⟨"row", [("title", .text "a&quot;b")], false⟩
    (.leaf () (.text .plain) "x&nbsp;y" .nil) .nil

theorem veiled_rowWithReferences : rowWithReferences.veiled =
    .element () ⟨"row", [("title", .text "a\ue000quot;b")], false⟩
      (.leaf () (.text .plain) "x\ue000nbsp;y" .nil) .nil := by
  have hvalue : Format.standard.protect "a&quot;b" = "a\ue000quot;b" :=
    String.toList_inj.mp (Format.toList_protect _)
  have htext : Format.standard.protect "x&nbsp;y" = "x\ue000nbsp;y" :=
    String.toList_inj.mp (Format.toList_protect _)
  simp only [rowWithReferences, Forest.veiled, Tag.veiled, List.map_cons, List.map_nil,
    AttributeValue.veiled, hvalue, htext]

theorem load_rowWithReferences : ∃ document,
    Document.load Format.standard "<row title=\"a&quot;b\">x&nbsp;y</row>" = .ok document ∧
      Draft.Regular ⟨document, []⟩ ∧ Expansion.expansions (fun _ => false) document.content = 1 := by
  have hordinary : rowWithReferences.Headed := by decide
  have hwritten : "<row title=\"a&quot;b\">x&nbsp;y</row>".toList =
      bareStyle.write none rowWithReferences := by decide
  have hload := Document.load_tidy hordinary.tidy hwritten
  rw [veiled_rowWithReferences] at hload
  refine ⟨_, hload, ⟨Document.marked_of_load hload, rfl, by decide, by decide, nofun⟩, ?_⟩
  decide

theorem Engine.sees_no_reference_row : ∃ engine document,
    Engine.build { Settings.standard with columnCount := 12 } .null = .ok (engine, []) ∧
      Document.load engine.format "<row title=\"a&quot;b\">x&nbsp;y</row>" = .ok document ∧
      (engine.unfolder.run 3 ⟨document, []⟩).count = 1 ∧
      (engine.unfolder.run 3 ⟨document, []⟩).draft.document.content.Protected := by
  obtain ⟨engine, hbuild, hunfolder, hformat⟩ := Unfolder.build_standard 12
  obtain ⟨document, hload, hregular, hone⟩ := load_rowWithReferences
  have hordered : (Unfolder.standard 12).Ordered ⟨document, []⟩ :=
    Unfolder.ordered_of_unsettled hregular.marked rfl
  obtain ⟨-, hcount, -⟩ := runFrom_of_regular 3 0 hregular hordered
    (hone.le.trans (by decide : 1 ≤ 3))
  have hplaceholder : engine.settings.entityPlaceholder = Settings.standard.entityPlaceholder :=
    congrArg Format.placeholder hformat
  rw [← hformat] at hload
  have hrun := (sees_no_reference engine (hformat ▸ rfl) (hplaceholder ▸ by decide)).2.2 _ _ hload
  refine ⟨engine, document, hbuild, hload, ?_, hrun.2.2 3⟩
  rw [hunfolder]
  exact hcount.trans (congrArg (0 + ·) hone)

end Mailgrid
