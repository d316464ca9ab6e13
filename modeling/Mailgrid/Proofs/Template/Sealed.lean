import Mailgrid.Proofs.Markup.Names
import Mailgrid.Proofs.Template

/-!
# Sealed templates

No value of a sealed template has the quote that stands around it, so each of
them is read as the value of its attribute, whatever else it holds. The names of
the attributes may be all that a reader takes for one.
-/

namespace Mailgrid

open Markup (Forest Growth PlainText Tag bareStyle)

-- ---------------------------------------------------------------------------
-- Signs for ampersands

namespace Format

/-- Characters with this sign for each ampersand. -/
def signed (sign : Char) (s : List Char) : List Char :=
  s.map fun c => if c = '&' then sign else c

theorem protectedChars_eq_signed (s : List Char) : protectedChars s = signed '\ue000' s :=
  protectedChars_eq_map s

variable {sign : Char} {s t : List Char}

theorem signed_append : signed sign (s ++ t) = signed sign s ++ signed sign t :=
  List.map_append

theorem signed_of_imp (h : '&' ∈ s → sign = '&') : signed sign s = s := by
  refine (List.map_congr_left fun c hc => ?_).trans (List.map_id s)
  split
  · rename_i hc'
    subst hc'
    exact h hc
  · rfl

theorem not_mem_signed {c : Char} (hsign : c ≠ sign) (h : c ∉ s) : c ∉ signed sign s := by
  intro hm
  obtain ⟨d, hd, hc⟩ := List.mem_map.mp hm
  split at hc
  · exact hsign hc.symm
  · exact h (hc ▸ hd)

end Format

-- ---------------------------------------------------------------------------
-- Readings of a forest

namespace Markup

namespace Growth

/-- From this state a text is read as a forest, whatever follows. -/
def ReadsAs (s : List Char) (g : Growth) (f : Forest Unit) : Prop :=
  ∃ g' more, Reads s g g' ∧ g'.Ready ∧ g'.opened = g.opened ∧ g'.rested = g.rested.put more ∧
    more.bare = f

variable {s rest : List Char} {g : Growth} {f inner : Forest Unit}

theorem ReadsAs.nil (hg : g.Ready) : g.ReadsAs [] .nil :=
  ⟨g, .nil, .nil g, hg, rfl, by simp [rested, put], rfl⟩

theorem rested_of_pending (h : g.pending = none) : g.rested = g.put .nil := by
  simp [rested, put, h, Forest.textNode]

/-- A text is a node of its own if there is none before it and what follows does not go on with
it. -/
theorem ReadsAs.text {content : String} (hc : PlainText content) (hg : g.Ready)
    (hp : g.pending = none) (hrest : ∀ g : Growth, g.Ready → g.ReadsAs rest f) :
    g.ReadsAs (content.toList ++ rest) (.leaf () (.text .plain) content f) := by
  have hadd : g.addText content = { g with pending := some content } := by
    simp [addText, hp]
  have hready : (g.addText content).Ready := by
    rw [hadd]
    exact ⟨hg.passed, fun he => hc.1 (Option.some.inj he)⟩
  obtain ⟨g', more, hr, hg', hopened, hrested, rfl⟩ := hrest _ hready
  refine ⟨g', Forest.textNode g.names content more, (reads_text hc.2.1 hc.1 g).trans hr, hg', ?_,
    ?_, ?_⟩
  · rw [hopened, hadd]
  · rw [hrested, hadd, rested_of_pending hp]
    simp [rested, put, names, Forest.append_assoc, Forest.textNode_append]
  · rw [Forest.bare_textNode (.inr hc), Forest.lead, if_neg hc.1]

theorem ReadsAs.element {t : Tag} (ht : t.isVerbatim = true) (hv : t.reread.void = false)
    (hg : g.Ready) (hinner : (g.rested.open_ t.reread).ReadsAs s inner)
    (hrest : ∀ g : Growth, g.Ready → g.pending = none → g.ReadsAs rest f) :
    g.ReadsAs (bareStyle.startTag t ['>'] ++ (s ++ (Markup.Style.endTag t ++ rest)))
      (.element () t.reread inner f) := by
  obtain ⟨g₂, content, hr₂, hg₂, hopened₂, hrested₂, rfl⟩ := hinner
  have hclose := reads_close ht hg₂ hopened₂
  have hclosed : ({ g₂.rested with
      content := g.rested.content ++ .element () t.reread g₂.rested.content .nil,
      opened := g.rested.opened } : Growth) = g.rested.put (.element () t.reread content .nil) := by
    rw [hrested₂]
    simp [rested, put, open_, Forest.textNode]
  rw [hclosed] at hclose
  have hready : (g.rested.put (.element () t.reread content .nil)).Ready := hg.put _ |>.put _
  obtain ⟨g', more, hr, hg', hopened, hrested, rfl⟩ := hrest _ hready rfl
  refine ⟨g', .element () t.reread content more,
    (reads_open ht hv hg).trans (hr₂.trans (hclose.trans hr)), hg', hopened, ?_, rfl⟩
  rw [hrested, rested_of_pending rfl]
  simp [put, Forest.append_assoc]

end Growth

/-- What is written of a forest is read as this one wherever it is put. -/
def Forest.ReadsAs (f : Forest α) (inner : Forest Unit) : Prop :=
  ∀ g : Growth, g.Ready → g.pending = none →
    g.ReadsAs (Format.protectedChars (bareStyle.write none f)) inner

theorem Forest.write_parent (parent other : Option String) (f : Forest α) :
    bareStyle.write parent f = bareStyle.write other f :=
  (f.write_bare none parent).symm.trans (f.write_bare none other)

theorem Forest.Plain.readsAs {f : Forest α} (h : f.Plain) : f.ReadsAs f.bare := by
  intro g hg hp
  have hverbatim := Forest.isVerbatim_of_isLegible h.isLegible
  obtain ⟨g', hr, ha⟩ := Growth.exists_reads_written hverbatim none hg
  rw [Format.protectedChars_of_not_mem (h.not_mem_write none)]
  refine ⟨g', f.reread g.names "", hr, ha.ready, ha.opened, ?_, ?_⟩
  · rw [ha.rested, hp, Growth.rested_of_pending hp]
    simp [Growth.put]
  · exact h.bare_reread_behind g.names (.inl rfl)

end Markup

-- ---------------------------------------------------------------------------
-- Templates with attributes of a kind

namespace Template

/-- Elements and pieces as in a plain template, with attributes that all have a property. -/
def Framed (P : String × String → Prop) : Template → Prop
  | nil => True
  | piece markup next =>
    (if markup = "" then next = nil
      else PlainText (String.ofList (Format.protectedChars markup.toList)) ∧
        next.startsWithPiece = false ∧ next.hasPlace = false) ∧ next.Framed P
  | element name attributes content next =>
    isElementName name = true ∧ (∀ a ∈ attributes, P a) ∧ next.hasPlace = false ∧
      content.Framed P ∧ next.Framed P

theorem plain_iff {t : Template} : t.Plain ↔ t.Framed fun a =>
    Markup.isPlainName a.1 = true ∧ Markup.isLegibleValue (.text a.2) = true := by
  induction t with
  | nil => exact Iff.rfl
  | piece markup next ih => rw [Plain, Framed, ih]
  | element name attributes content next ihc ih =>
    rw [Plain, Framed, ihc, ih]
    exact Iff.rfl

/-- A name as the reader gives it, with a value that does not close itself. -/
def IsSealed (a : String × String) : Prop :=
  Markup.IsReadName a.1 ∧ '"' ∉ a.2.toList

/-- The template with all values of attributes changed. -/
def mapValues (change : String → String) : Template → Template
  | nil => nil
  | piece markup next => piece markup (next.mapValues change)
  | element name attributes content next =>
    element name (attributes.map fun (key, value) => (key, change value))
      (content.mapValues change) (next.mapValues change)

-- ---------------------------------------------------------------------------
-- Start tags

section
variable {name : String} {attributes : List (String × String)}

/-- Attributes with the placeholder for each ampersand. -/
def protectedValues (attributes : List (String × String)) : List (String × String) :=
  attributes.map fun (key, value) => (key, Format.standard.protect value)

theorem forall_mem_protectedValues {P : String × String → Prop} :
    (∀ a ∈ protectedValues attributes, P a) ↔
      ∀ a ∈ attributes, P (a.1, Format.standard.protect a.2) :=
  List.forall_mem_map

theorem not_mem_of_isElementName (h : isElementName name = true) : '&' ∉ name.toList := by
  simp only [isElementName, Bool.and_eq_true] at h
  exact Markup.not_mem_of_isLegible (Markup.of_isPlainName h.1.1.1).1 Markup.isNameLetter_ampersand

theorem isReadable_writtenTag (hn : isElementName name = true) (ha : ∀ a ∈ attributes, IsSealed a) :
    (writtenTag name (protectedValues attributes)).isReadable = true := by
  simp only [isElementName, Bool.and_eq_true, Bool.not_eq_true'] at hn
  obtain ⟨⟨⟨hplain, hreserved⟩, -⟩, -⟩ := hn
  obtain ⟨hlegible, hlower⟩ := Markup.of_isPlainName hplain
  simp only [Tag.isReadable, writtenTag, hlegible, hlower, hreserved, Bool.true_and, Bool.not_false,
    List.all_map, List.all_eq_true, Function.comp_apply, Bool.and_eq_true]
  rw [forall_mem_protectedValues]
  intro a hm
  obtain ⟨hname, hquote⟩ := ha a hm
  have hq := Format.not_mem_protect (by decide) hquote
  have hamp : '&' ∉ (Format.standard.protect a.2).toList := fun h => (Format.of_mem_protect h).1 rfl
  simp [hname.isName, Markup.isLegibleValue, hq, hamp]

/-- Attributes with this sign for each ampersand in their values. -/
def signedValues (sign : Char) (attributes : List (String × String)) : List (String × String) :=
  attributes.map fun (key, value) => (key, String.ofList (Format.signed sign value.toList))

theorem protectedValues_eq_signed (attributes : List (String × String)) :
    protectedValues attributes = signedValues '\ue000' attributes := by
  refine List.map_congr_left fun a _ => ?_
  simp only [← Format.protectedChars_eq_signed, ← Format.toList_protect, String.ofList_toList]

variable {sign : Char}

theorem signed_writeAttributes (ha : ∀ a ∈ attributes, '&' ∈ a.1.toList → sign = '&') :
    Format.signed sign (writeAttributes attributes).toList =
      (writeAttributes (signedValues sign attributes)).toList := by
  induction attributes with
  | nil => rfl
  | cons a more ih =>
    obtain ⟨hname, hmore⟩ := List.forall_mem_cons.mp ha
    have hwrite (a : String × String) (more : List (String × String)) :
        (writeAttributes (a :: more)).toList =
          (writeAttribute a).toList ++ (writeAttributes more).toList := by
      simp [writeAttributes, String.toList_join]
    have hfirst : Format.signed sign (writeAttribute a).toList =
        (writeAttribute (a.1, String.ofList (Format.signed sign a.2.toList))).toList := by
      simp only [writeAttribute, String.toList_append, Format.signed_append,
        Format.signed_of_imp hname, String.toList_ofList]
      rfl
    rw [hwrite, Format.signed_append, hfirst, ih hmore]
    exact (hwrite _ _).symm

theorem signed_startTag (hsign : '"' ≠ sign) (hn : isElementName name = true)
    (ha : ∀ a ∈ attributes, ('&' ∈ a.1.toList → sign = '&') ∧ '"' ∉ a.2.toList) :
    Format.signed sign ("<" ++ name ++ writeAttributes attributes ++ ">").toList =
      bareStyle.startTag (writtenTag name (signedValues sign attributes)) ['>'] := by
  have hquote : ∀ a ∈ signedValues sign attributes, '"' ∉ a.2.toList := by
    refine List.forall_mem_map.mpr fun a hm => ?_
    rw [String.toList_ofList]
    exact Format.not_mem_signed hsign (ha a hm).2
  have hname : Format.signed sign name.toList = name.toList :=
    Format.signed_of_imp fun hm => absurd hm (not_mem_of_isElementName hn)
  simp only [String.toList_append, Format.signed_append, hname,
    signed_writeAttributes fun a hm => (ha a hm).1, toList_writeAttributes hquote]
  simp [Markup.Style.startTag, writtenTag, Format.signed]

theorem protectedChars_startTag (hn : isElementName name = true)
    (ha : ∀ a ∈ attributes, IsSealed a) :
    Format.protectedChars ("<" ++ name ++ writeAttributes attributes ++ ">").toList =
      bareStyle.startTag (writtenTag name (protectedValues attributes)) ['>'] := by
  rw [Format.protectedChars_eq_signed, protectedValues_eq_signed]
  exact signed_startTag (by decide) hn fun a hm =>
    ⟨fun hampersand => absurd hampersand (ha a hm).1.ampersand, (ha a hm).2⟩

end

-- ---------------------------------------------------------------------------
-- Reading

/-- What is written of a filled template is read as the forest that it stands for. -/
theorem Framed.readsAs {t : Template} (h : t.Framed IsSealed) {s : String} {inner : Forest Unit}
    (hinner : ∀ g : Growth, g.Ready → g.pending = none →
      g.ReadsAs (Format.protectedChars s.toList) inner) {g : Growth} (hg : g.Ready)
    (hp : t.startsWithPiece = true → g.pending = none) :
    g.ReadsAs (Format.protectedChars (t.fill s).write.toList)
      ((t.mapValues Format.standard.protect).forest inner) := by
  induction t generalizing g with
  | nil => exact Growth.ReadsAs.nil hg
  | piece markup next ih =>
    obtain ⟨hpiece, hnext⟩ := h
    rw [fill, write, String.toList_append, Format.protectedChars_append, mapValues, forest]
    by_cases hm : markup = ""
    · rw [if_pos hm] at hpiece
      subst hpiece
      rw [if_pos hm, pieceForest, if_pos hm]
      simp only [fill, write, mapValues, forest, Forest.append_nil]
      simpa [Format.protectedChars] using hinner g hg (hp rfl)
    · rw [if_neg hm] at hpiece
      obtain ⟨htext, hapart, -⟩ := hpiece
      rw [if_neg hm, pieceForest, if_neg hm]
      have hread := Growth.ReadsAs.text htext hg (hp rfl) fun g' hg' => ih hnext hg' fun hstarts =>
        absurd (hapart.symm.trans hstarts) Bool.false_ne_true
      rw [String.toList_ofList] at hread
      exact hread
  | element name attributes content next ihc ih =>
    obtain ⟨hn, ha, -, hcontent, hnext⟩ := h
    have hverbatim := Markup.Tag.isVerbatim_of_isReadable (isReadable_writtenTag hn ha)
    have hlower : ∀ a ∈ protectedValues attributes, Text.lowerString a.1 = a.1 :=
      forall_mem_protectedValues.mpr fun a hm => (ha a hm).1.lower
    have hreread := reread_writtenTag hn hlower
    have hvoid : (writtenTag name (protectedValues attributes)).reread.void = false := by
      rw [hreread]
      rfl
    have hopened : (g.rested.open_ (writtenTag name (protectedValues attributes)).reread).Ready :=
      ⟨hg.passed, (Option.some_ne_none "").symm⟩
    have hread := Growth.ReadsAs.element hverbatim hvoid hg (ihc hcontent hopened fun _ => rfl)
      fun g' hg' hp' => ih hnext hg' fun _ => hp'
    have hend : Format.protectedChars ("</" ++ name ++ ">").toList =
        Markup.Style.endTag (writtenTag name (protectedValues attributes)) := by
      simp only [String.toList_append, Format.protectedChars_append,
        Format.protectedChars_of_not_mem (not_mem_of_isElementName hn)]
      simp [Markup.Style.endTag, writtenTag, Format.protectedChars]
    have hwrite : ((element name attributes content next).fill s).write =
        ("<" ++ name ++ writeAttributes attributes ++ ">") ++ ((content.fill s).write ++
          (("</" ++ name ++ ">") ++ (next.fill s).write)) := by
      simp only [fill, write, String.append_assoc]
    have hstart := protectedChars_startTag hn ha
    rw [hwrite, mapValues, forest]
    generalize "<" ++ name ++ writeAttributes attributes ++ ">" = start at hstart
    generalize "</" ++ name ++ ">" = ending at hend
    simp only [String.toList_append, Format.protectedChars_append, hstart, hend]
    rw [hreread] at hread
    exact hread

theorem Framed.read {t : Template} (h : t.Framed IsSealed) {f : Forest α} {inner : Forest Unit}
    (hf : f.ReadsAs inner) (parent : Option String) : ∃ new,
      Format.standard.read (t.fill (String.ofList (bareStyle.write parent f))).write = .ok new ∧
        new.bare = (t.mapValues Format.standard.protect).forest inner := by
  have hempty : Growth.empty.Ready := ⟨rfl, nofun⟩
  have hinner : ∀ g : Growth, g.Ready → g.pending = none → g.ReadsAs (Format.protectedChars
      (String.ofList (bareStyle.write parent f)).toList) inner := by
    rw [String.toList_ofList, Forest.write_parent parent none]
    exact hf
  obtain ⟨g, more, hreads, hready, hopened, hrested, hbare⟩ := h.readsAs hinner hempty fun _ => rfl
  refine ⟨more, ?_, hbare⟩
  rw [Format.read_standard, Markup.parse_of_reads hreads hready hopened, hrested]
  rfl

end Template

end Mailgrid
