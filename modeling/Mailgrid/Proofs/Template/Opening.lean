import Mailgrid.Proofs.Markup.Grown
import Mailgrid.Proofs.Markup.Reference
import Mailgrid.Proofs.Template.Sealed

/-!
# How templates begin

A template starts with start tags, each inside the one before, as far as no piece
of markup stands between them. Whatever the pieces hold and wherever the reading
of them leads, the elements of those tags are there in the end:
`grows_opening`. That is so with a placeholder for each ampersand, and also
without, where the references in values are resolved.
-/

namespace Mailgrid

open Markup (Element Forest Grammar Growth Tag bareStyle)

-- ---------------------------------------------------------------------------
-- Readings that may fail

namespace Markup

/-- A tag as it is read, with the references in its values resolved. -/
def Tag.resolved (t : Tag) : Tag :=
  ⟨Text.lowerString t.name,
    Table.ofList ((resolvedPairs t.attributes).map fun pair => (pair.1, .text pair.2)),
    Grammar.standard.void.contains (Text.lowerString t.name)⟩

namespace Growth

/-- Reading a text leads from one state to another, whatever follows, if all can be read. -/
def Leads (s : List Char) (g g' : Growth) : Prop :=
  ∀ closing rest last,
    (Token.scan closing none (s ++ rest)).foldlM (token Grammar.standard) g = .ok last →
      (Token.scan closing none rest).foldlM (token Grammar.standard) g' = .ok last

variable {s t : List Char} {g g' g₁ g₂ g₃ : Growth}

theorem Reads.leads (h : Reads s g g') : Leads s g g' := by
  intro closing rest last hlast
  rw [← h closing rest]
  exact hlast

theorem Leads.nil (g : Growth) : Leads [] g g :=
  fun _ _ _ => id

theorem Leads.trans (h : Leads s g₁ g₂) (h' : Leads t g₂ g₃) : Leads (s ++ t) g₁ g₃ := by
  intro closing rest last hlast
  rw [List.append_assoc] at hlast
  exact h' closing rest last (h closing (t ++ rest) last hlast)

theorem leads_open {t : Tag} (h : t.isQuoted = true) (hv : t.resolved.void = false)
    (hg : g.Ready) : Leads (bareStyle.startTag t ['>']) g (g.rested.open_ t.resolved) := by
  intro closing rest last hlast
  have hmeta : Text.lowerString t.name ≠ "meta" := by
    simp only [Tag.isQuoted, Bool.and_eq_true, Bool.not_eq_true'] at h
    intro hm
    rw [hm] at h
    exact absurd h.1.2 (by decide)
  have hopened := startTag_pairs hmeta hg (resolvedPairs t.attributes) false
    (rfl : t.resolved = _)
  rw [if_neg Bool.false_ne_true, hv, if_neg Bool.false_ne_true] at hopened
  rw [Token.scan_quoted h .open_] at hlast
  split at hlast
  · cases hlast
  · rw [List.foldlM_cons, bind_eq_ok] at hlast
    obtain ⟨next, hnext, hlast⟩ := hlast
    cases hopened.symm.trans hnext
    exact hlast

theorem grows_of_leads {rest : List Char} {f : Forest Unit} (h : Leads s .empty g)
    (hf : Forest.parse Grammar.standard (s ++ rest) = .ok f) : g.enclosed.GrowsTo f := by
  simp only [Forest.parse, Forest.ofTokens, bind_eq_ok] at hf
  obtain ⟨last, hlast, hfinish⟩ := hf
  exact (grows_tokens (h false rest last hlast)).trans (grows_finish hfinish)

/-- A text is read as this forest, if it can be read. -/
def Adds (s : List Char) (g : Growth) (f : Forest Unit) : Prop :=
  ∃ g', Leads s g g' ∧ g'.Ready ∧ g'.opened = g.opened ∧ g'.rested = g.rested.put f

theorem Adds.append {P : Forest Unit → Prop} {f : Forest Unit} (h : g.Adds s f)
    (h' : ∀ g : Growth, g.Ready → ∃ more, P more ∧ g.Adds t more) :
    ∃ more, P more ∧ g.Adds (s ++ t) (f ++ more) := by
  obtain ⟨g₁, hfirst, hready₁, hopened₁, hrested₁⟩ := h
  obtain ⟨more, hmore, g₂, hsecond, hready₂, hopened₂, hrested₂⟩ := h' g₁ hready₁
  refine ⟨more, hmore, g₂, hfirst.trans hsecond, hready₂, hopened₂.trans hopened₁, ?_⟩
  rw [hrested₂, hrested₁]
  simp [put, Forest.append_assoc]

theorem Adds.element {t : Tag} {content : Forest Unit} (h : t.isQuoted = true)
    (hv : t.resolved.void = false) (hg : g.Ready)
    (hcontent : (g.rested.open_ t.resolved).Adds s content) :
    g.Adds (bareStyle.startTag t ['>'] ++ (s ++ Style.endTag t))
      (.element () t.resolved content .nil) := by
  have hlegible : Markup.isLegible t.name = true := by
    simp only [Tag.isQuoted, Bool.and_eq_true] at h
    exact h.1.1
  obtain ⟨g', hinner, hready, hopened, hrested⟩ := hcontent
  have hclose := reads_endTag hlegible (rfl : t.resolved.name = _) hready hopened
  rw [hrested] at hclose
  refine ⟨_, (leads_open h hv hg).trans (hinner.trans hclose.leads),
    ⟨hg.passed, (Option.some_ne_none "").symm⟩, rfl, ?_⟩
  simp [rested, put, open_, Forest.textNode]

theorem parse_of_adds {f f' : Forest Unit} (h : empty.Adds s f)
    (hf : Forest.parse Grammar.standard s = .ok f') : f' = f := by
  obtain ⟨g, hleads, hready, hopened, hrested⟩ := h
  simp only [Forest.parse, Forest.ofTokens, bind_eq_ok] at hf
  obtain ⟨last, hlast, hfinish⟩ := hf
  have hall := hleads false [] last (by rwa [List.append_nil])
  rw [Token.scan_nil] at hall
  cases hall
  have hclosed : g.rested.opened = [] := hopened
  rw [finish, flush_standard hready, ok_bind, hclosed, hrested] at hfinish
  cases hfinish
  rfl

end Growth

/-- Elements inside one another. -/
def Forest.chain : List Tag → Forest Unit
  | [] => .nil
  | tag :: inner => .element () tag (chain inner) .nil

namespace Forest

variable {tags : List Tag} {f : Forest Unit}

theorem head?_elements_of_grows {tag : Tag} (h : (chain (tag :: tags)).GrowsTo f) :
    ∃ e, f.elements.head? = some e ∧ e.tag = tag := by
  cases h with
  | element => exact ⟨_, rfl, rfl⟩

theorem find?_descendants_of_grows {around inner : List Tag} {tag : Tag} {p : Tag → Bool}
    (haround : ∀ t ∈ around, p t = false) (htag : p tag = true)
    (h : (chain (around ++ tag :: inner)).GrowsTo f) :
    ∃ e, f.descendants.find? (fun e => p e.tag) = some e ∧ e.tag = tag := by
  induction around generalizing f with
  | nil =>
    cases h with
    | @element _ _ _ children _ next =>
      exact ⟨⟨(), tag, children⟩, by simp [descendants, htag], rfl⟩
  | cons outer around ih =>
    obtain ⟨houter, haround⟩ := List.forall_mem_cons.mp haround
    cases h with
    | element _ _ hchildren =>
      obtain ⟨e, he, hetag⟩ := ih haround hchildren
      exact ⟨e, by simp [descendants, houter, he], hetag⟩

end Forest

end Markup

-- ---------------------------------------------------------------------------
-- Start tags of templates

namespace Format

/-- A value as it is read with this sign for each ampersand. -/
def valueRead (sign : Char) (value : String) : String :=
  String.ofList (Markup.Reference.resolve (signed sign value.toList))

end Format

namespace Template

/-- The start tags that a template begins with. -/
def opening : Template → List (String × List (String × String))
  | element name attributes content _ => (name, attributes) :: content.opening
  | _ => []

/-- The tag that is read where a template opens an element. -/
def tagRead (sign : Char) (start : String × List (String × String)) : Tag :=
  tag start.1 (start.2.map fun (key, value) => (key, Format.valueRead sign value))

/-- An attribute under a name that is read as it is, with a value that does not close itself. -/
structure IsShut (sign : Char) (a : String × String) : Prop where
  isName : Markup.isAttributeName a.1 = true
  lower : Text.lowerString a.1 = a.1
  ampersand : '&' ∈ a.1.toList → sign = '&'
  quote : '"' ∉ a.2.toList

/-- A sign that is no markup itself, though it may be the ampersand. -/
structure IsSign (sign : Char) : Prop where
  quote : '"' ≠ sign
  opening : '<' ≠ sign

/-- An element that a template may open. -/
def IsOpener (sign : Char) (start : String × List (String × String)) : Prop :=
  isElementName start.1 = true ∧ ∀ a ∈ start.2, IsShut sign a

theorem opening_fill (s : String) (t : Template) : (t.fill s).opening = t.opening := by
  induction t with
  | nil => rfl
  | piece => rfl
  | element name attributes content next ihc =>
    simp only [fill, opening, ihc]

theorem isOpener_of_framed {sign : Char} {t : Template} (h : t.Framed (IsShut sign)) :
    ∀ start ∈ t.opening, IsOpener sign start := by
  induction t with
  | nil => exact nofun
  | piece => exact nofun
  | element name attributes content next ihc =>
    obtain ⟨hn, ha, -, hcontent, -⟩ := h
    exact List.forall_mem_cons.mpr ⟨⟨hn, ha⟩, ihc hcontent⟩

section
variable {sign : Char} {start : String × List (String × String)}

theorem isQuoted_writtenTag (hs : IsSign sign) (h : IsOpener sign start) :
    (writtenTag start.1 (signedValues sign start.2)).isQuoted = true := by
  obtain ⟨hn, ha⟩ := h
  simp only [isElementName, Bool.and_eq_true, Bool.not_eq_true'] at hn
  obtain ⟨⟨⟨hplain, hreserved⟩, -⟩, -⟩ := hn
  obtain ⟨hlegible, hlower⟩ := Markup.of_isPlainName hplain
  simp only [Tag.isQuoted, writtenTag, signedValues, hlegible, hlower, hreserved, Bool.true_and,
    Bool.not_false, List.all_map, List.all_eq_true, Function.comp_apply, Bool.and_eq_true]
  intro a hm
  have hquote := Format.not_mem_signed hs.quote (ha a hm).quote
  simp [(ha a hm).isName, Markup.isQuotedValue, hquote]

theorem resolved_writtenTag (h : IsOpener sign start) :
    (writtenTag start.1 (signedValues sign start.2)).resolved = tagRead sign start := by
  obtain ⟨hn, ha⟩ := h
  simp only [isElementName, Bool.and_eq_true, Bool.not_eq_true'] at hn
  have hname : Text.lowerString start.1 = start.1 := (Markup.of_isPlainName hn.1.1.1).2
  have hattributes : (Markup.resolvedPairs (writtenTag start.1
      (signedValues sign start.2)).attributes).map (fun pair => (pair.1,
        Markup.AttributeValue.text pair.2)) =
      (start.2.map fun (key, value) => (key, Format.valueRead sign value)).map
        fun (key, value) => (key, Markup.AttributeValue.text value) := by
    simp only [Markup.resolvedPairs, writtenTag, signedValues, List.map_map]
    refine List.map_congr_left fun a hm => ?_
    simp [(ha a hm).lower, Format.valueRead, Markup.AttributeValue.shown]
  rw [Tag.resolved, hattributes]
  simp only [writtenTag, hname, hn.1.2]
  rfl

theorem leads_start (hs : IsSign sign) (h : IsOpener sign start) {g : Growth} (hg : g.Ready) :
    Growth.Leads (Format.signed sign ("<" ++ start.1 ++ writeAttributes start.2 ++ ">").toList) g
      (g.rested.open_ (tagRead sign start)) := by
  rw [signed_startTag hs.quote h.1 fun a hm => ⟨(h.2 a hm).ampersand, (h.2 a hm).quote⟩,
    ← resolved_writtenTag h]
  refine Growth.leads_open (isQuoted_writtenTag hs h) ?_ hg
  rw [resolved_writtenTag h]
  rfl

theorem exists_leads_opening (hs : IsSign sign) {t : Template}
    (h : ∀ start ∈ t.opening, IsOpener sign start) {g : Growth} (hg : g.Ready)
    (hp : g.pending = none) : ∃ written rest g', t.write.toList = written ++ rest ∧
      Growth.Leads (Format.signed sign written) g g' ∧
      g'.enclosed = (g.add (Forest.chain (t.opening.map (tagRead sign)))).enclosed := by
  induction t generalizing g with
  | nil => exact ⟨[], [], g, rfl, .nil g, by simp [opening, Forest.chain, Growth.add]⟩
  | piece markup next =>
    exact ⟨[], _, g, rfl, .nil g, by simp [opening, Forest.chain, Growth.add]⟩
  | element name attributes content next ihc =>
    obtain ⟨hstart, hcontent⟩ := List.forall_mem_cons.mp h
    have hopened : (g.rested.open_ (tagRead sign (name, attributes))).Ready :=
      ⟨hg.passed, (Option.some_ne_none "").symm⟩
    obtain ⟨written, rest, g', hwrite, hleads, henclosed⟩ := ihc hcontent hopened rfl
    refine ⟨("<" ++ name ++ writeAttributes attributes ++ ">").toList ++ written,
      rest ++ ("</" ++ name ++ ">" ++ next.write).toList, g', ?_, ?_, ?_⟩
    · simp [write, hwrite]
    · rw [Format.signed_append]
      exact (leads_start hs hstart hg).trans hleads
    · rw [henclosed, Growth.rested_of_pending hp]
      simp [Growth.open_, Growth.put, Growth.add, Growth.enclosed, Growth.enclose, opening,
        Forest.chain]

/-- The elements that a template opens at its beginning are there in what it reads as. -/
theorem grows_opening (hs : IsSign sign) {t : Template}
    (h : ∀ start ∈ t.opening, IsOpener sign start) {f : Forest Unit}
    (hf : Forest.parse Grammar.standard (Format.signed sign t.write.toList) = .ok f) :
    (Forest.chain (t.opening.map (tagRead sign))).GrowsTo f := by
  have hempty : Growth.empty.Ready := ⟨rfl, nofun⟩
  obtain ⟨written, rest, g, hwrite, hleads, henclosed⟩ := exists_leads_opening hs h hempty rfl
  rw [hwrite, Format.signed_append] at hf
  have hgrows := Growth.grows_of_leads hleads hf
  rw [henclosed] at hgrows
  exact hgrows

-- ---------------------------------------------------------------------------
-- Elements that are closed again

theorem exists_adds_node (hs : IsSign sign) (h : IsOpener sign start) {content : Template}
    (hcontent : ∀ g : Growth, g.Ready → g.pending = none →
      ∃ inner, g.Adds (Format.signed sign content.write.toList) inner) {g : Growth} (hg : g.Ready) :
    ∃ inner, g.Adds (Format.signed sign (node start.1 start.2 content).write.toList)
      (.element () (tagRead sign start) inner .nil) := by
  obtain ⟨inner, hcontent⟩ := hcontent (g.rested.open_ (tagRead sign start)) ⟨hg.passed, nofun⟩ rfl
  have hopened := signed_startTag hs.quote h.1 fun a hm => ⟨(h.2 a hm).ampersand, (h.2 a hm).quote⟩
  have hend : Format.signed sign ("</" ++ start.1 ++ ">").toList =
      Markup.Style.endTag (writtenTag start.1 (signedValues sign start.2)) := by
    have hname : Format.signed sign start.1.toList = start.1.toList :=
      Format.signed_of_imp fun hm => absurd hm (not_mem_of_isElementName h.1)
    simp only [String.toList_append, Format.signed_append, hname]
    simp [Markup.Style.endTag, writtenTag, Format.signed]
  have hwrite : (node start.1 start.2 content).write = ("<" ++ start.1 ++
      writeAttributes start.2 ++ ">") ++ (content.write ++ ("</" ++ start.1 ++ ">")) := by
    simp only [write_node, String.append_assoc]
  have hvoid : (tagRead sign start).void = false := rfl
  rw [← resolved_writtenTag h] at hcontent hvoid ⊢
  rw [hwrite]
  generalize "<" ++ start.1 ++ writeAttributes start.2 ++ ">" = opened at hopened
  generalize "</" ++ start.1 ++ ">" = ending at hend
  simp only [String.toList_append, Format.signed_append, hopened, hend]
  exact ⟨inner, .element (isQuoted_writtenTag hs h) hvoid hg hcontent⟩

/-- A space that does not break, or the name of one behind a placeholder, is a text. -/
theorem exists_adds_nbsp (hs : IsSign sign) (g : Growth) (hg : g.Ready) (hp : g.pending = none) :
    ∃ f, g.Adds (Format.signed sign (raw "&nbsp;").write.toList) f := by
  have hadds {content : String} (hne : content ≠ "")
      (hreads : Growth.Reads (Format.signed sign "&nbsp;".toList) g (g.addText content)) :
      g.Adds (Format.signed sign "&nbsp;".toList)
        (Forest.textNode g.names content .nil) := by
    have hadd : g.addText content = { g with pending := some content } := by
      simp [Growth.addText, hp]
    refine ⟨_, hreads.leads, ?_, ?_, ?_⟩
    · rw [hadd]
      exact ⟨hg.passed, fun he => hne (Option.some.inj he)⟩
    · rw [hadd]
    · rw [hadd, Growth.rested_of_pending hp]
      simp [Growth.rested, Growth.put, Growth.names]
  rw [write_raw]
  by_cases hsign : sign = '&'
  · -- the reference ends where its semicolon does, whatever follows
    subst hsign
    refine ⟨_, @hadds (String.ofList (Markup.Token.referredBy ['n', 'b', 's', 'p'])) ?_ ?_⟩
    · have hne : Markup.Token.referredBy ['n', 'b', 's', 'p'] ≠ [] := by
        unfold Markup.Token.referredBy
        cases htext : Markup.Reference.textOf? ['n', 'b', 's', 'p'] with
        | none => exact List.cons_ne_nil _ _
        | some text => exact Markup.Reference.ne_nil_of_textOf? htext
      simpa using hne
    · refine Growth.reads_of_token (t := Markup.Token.textOf
        (Markup.Token.referredBy ['n', 'b', 's', 'p'])) ?_ rfl
      exact @Markup.Token.scan_reference ['n', 'b', 's', 'p'] (by decide) (by decide)
  · have hplain : Markup.Token.isPlain sign = true := by
      simp [Markup.Token.isPlain, hsign, Ne.symm hs.opening]
    have htext : Format.signed sign "&nbsp;".toList =
        (String.ofList (sign :: "nbsp;".toList)).toList := by
      simp [Format.signed]
    refine ⟨_, @hadds (String.ofList (sign :: "nbsp;".toList)) ?_ ?_⟩
    · simp
    · rw [htext]
      refine Growth.reads_text ?_ (by simp) g
      rw [String.toList_ofList, List.all_cons, hplain]
      rfl

end

end Template

end Mailgrid
