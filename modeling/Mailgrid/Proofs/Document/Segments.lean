import Mailgrid.Proofs.Document.Tidy
import Mathlib.Data.List.Chain

/-!
# Documents without elements

A text of comments, document types, marked sections and instructions, with plain
texts between them, is read as one node for each. The bodies of these nodes are
written as they are, but not what stands around them: a document type gets the
keyword of the writer, as does a literal section, and a conditional section is
written as a declaration.
-/

namespace Mailgrid

namespace Markup

open Format (protectedChars protectedChars_append protectedChars_eq_map protectedChars_of_not_mem
  toList_protect)
open Mailgrid.Text (cutAt)

/-- A part of a text that is no element. -/
inductive Segment where
  | text (content : String)
  | comment (body : String)
  /-- The body is all that follows the keyword. -/
  | docType (keyword body : String)
  | cdata (keyword body : String)
  | instruction (body : String)
  /-- The body begins with the keyword. -/
  | conditional (body : String)
  deriving DecidableEq

/-- Is this blank, it is a single space or line break. -/
def Settles (content : String) : Prop :=
  content.toList.all Growth.isSpace = true → content = " " ∨ content = "\n"

instance (content : String) : Decidable (Settles content) :=
  inferInstanceAs (Decidable (_ → _ ∨ _))

namespace Segment

def source : Segment → String
  | text content => content
  | comment body => "<!--" ++ body ++ "-->"
  | docType keyword body => "<!" ++ keyword ++ body ++ ">"
  | cdata keyword body => "<![" ++ keyword ++ "[" ++ body ++ "]]>"
  | instruction body => "<?" ++ body ++ ">"
  | conditional body => "<![" ++ body ++ "]>"

def isText : Segment → Bool
  | text _ => true
  | _ => false

/-- What is kept of a segment. The character behind the keyword of a document type is not. -/
def content : Segment → String
  | text content => content
  | comment body | cdata _ body | instruction body | conditional body => body
  | docType _ body => String.ofList (body.toList.drop 1)

def kind : Segment → LeafKind
  | text _ => .text .plain
  | comment _ => .comment
  | docType _ _ => .leadingDocType
  | cdata _ _ => .cdata
  | instruction _ => .instruction
  | conditional _ => .declaration

/-- What a segment that was read is written as. -/
def written (s : Segment) : String :=
  let kept := Growth.settled false s.content
  match s with
  | text _ => kept
  | comment _ => "<!--" ++ kept ++ "-->"
  | docType _ _ => "<!DOCTYPE " ++ kept ++ ">"
  | cdata _ _ => "<![CDATA[" ++ kept ++ "]]>"
  | instruction _ => "<?" ++ kept ++ ">"
  | conditional _ => "<?" ++ kept ++ "?>"

/-- The keyword that a marked section begins with. -/
def sectionName (body : String) : String :=
  String.ofList ((body.toList.takeWhile Token.isSectionNameChar).map Char.toLower)

/-- A segment that does not end before its end. -/
def WellFormed : Segment → Prop
  | text content => content ≠ "" ∧ '<' ∉ content.toList
  | comment body => cutAt Token.commentEnd? body.toList = none
  | docType keyword body =>
    keyword.toList.map Char.toLower = "doctype".toList ∧ '>' ∉ body.toList
  | cdata keyword body =>
    keyword.toList.map Char.toLower = "cdata".toList ∧ cutAt Token.keywordEnd? body.toList = none
  | instruction body => '>' ∉ body.toList
  | conditional body =>
    sectionName body ∈ ["if", "else", "endif"] ∧ cutAt Token.conditionalEnd? body.toList = none

instance : (s : Segment) → Decidable s.WellFormed
  | text _ => inferInstanceAs (Decidable (_ ≠ _ ∧ _ ∉ _))
  | comment _ => inferInstanceAs (Decidable (_ = _))
  | docType _ _ => inferInstanceAs (Decidable (_ = _ ∧ _ ∉ _))
  | cdata _ _ => inferInstanceAs (Decidable (_ = _ ∧ _ = _))
  | instruction _ => inferInstanceAs (Decidable (_ ∉ _))
  | conditional _ => inferInstanceAs (Decidable (_ ∈ _ ∧ _ = _))

/-- Does a segment have around its content what the writer puts there? -/
def Canonical : Segment → Prop
  | docType keyword body => keyword = "DOCTYPE" ∧ body.toList.head? = some ' '
  | cdata keyword _ => keyword = "CDATA"
  | conditional _ => False
  | _ => True

instance : (s : Segment) → Decidable s.Canonical
  | docType _ _ => inferInstanceAs (Decidable (_ = _ ∧ _ = _))
  | cdata _ _ => inferInstanceAs (Decidable (_ = _))
  | conditional _ => .isFalse id
  | text _ | comment _ | instruction _ => .isTrue trivial

/-- Of two segments in a row one is no text. -/
def Apart (segments : List Segment) : Prop :=
  segments.IsChain fun s t => (s.isText && t.isText) = false

instance (segments : List Segment) : Decidable (Apart segments) :=
  inferInstanceAs (Decidable (segments.IsChain _))

/-- The texts of segments in a row. -/
def joined (shown : Segment → String) : List Segment → String
  | [] => ""
  | s :: more => shown s ++ joined shown more

/-- The node that a segment is read as. -/
def node (s : Segment) (next : Forest Unit) : Forest Unit :=
  .leaf () s.kind (Growth.settled false (Format.standard.protect s.content)) next

/-- The leaves of segments in a row, blanks as they are. -/
def forest : List Segment → Forest Unit
  | [] => .nil
  | s :: more => .leaf () s.kind (Format.standard.protect s.content) (forest more)

-- ---------------------------------------------------------------------------
-- Placeholders

theorem protect_drop (s : String) (n : Nat) :
    Format.standard.protect (String.ofList (s.toList.drop n)) =
      String.ofList ((protectedChars s.toList).drop n) := by
  rw [← String.toList_inj, toList_protect, String.toList_ofList, String.toList_ofList,
    protectedChars_eq_map, protectedChars_eq_map, List.map_drop]

theorem protect_settled (content : String) :
    Format.standard.protect (Growth.settled false content) =
      Growth.settled false (Format.standard.protect content) := by
  have hline : (Format.standard.protect content).toList.contains '\n' =
      content.toList.contains '\n' := by
    rw [toList_protect, protectedChars_eq_map, Bool.eq_iff_iff, List.contains_iff_mem,
      List.contains_iff_mem, List.mem_map]
    constructor
    · rintro ⟨c, hc, he⟩
      split at he
      · cases he
      · exact he ▸ hc
    · exact fun hm => ⟨'\n', hm, rfl⟩
  rw [Growth.settled, Growth.settled, Format.all_isSpace_protect, hline]
  split
  · split
    · exact Format.protect_of_not_mem (by decide)
    · exact Format.protect_of_not_mem (by decide)
  · rfl

theorem cutAt_protected {look : List Char → Option (List Char)} {body : List Char}
    (same : ∀ {change : Char → Char}, (∀ c, Text.isBlank (change c) = Text.isBlank c) →
      (∀ c, change c ∈ ['-', ']', '>'] → change c = c) →
      ∀ {s}, look s = none → look (s.map change) = none)
    (h : cutAt look body = none) : cutAt look (protectedChars body) = none := by
  rw [protectedChars_eq_map]
  refine Text.cutAt_map (fun s hs => same (fun c => ?_) (fun c hc => ?_) hs) h
  · split
    · rename_i hc
      subst hc
      rfl
    · rfl
  · split at hc
    · exact absurd hc (by decide)
    · rename_i hne
      rw [if_neg hne]

theorem protectedChars_between {before after : String} (hb : '&' ∉ before.toList)
    (ha : '&' ∉ after.toList) (body : String) :
    protectedChars (before ++ body ++ after).toList =
      before.toList ++ protectedChars body.toList ++ after.toList := by
  rw [String.toList_append, String.toList_append, protectedChars_append, protectedChars_append,
    protectedChars_of_not_mem hb, protectedChars_of_not_mem ha]

theorem takeWhile_protectedChars {p : Char → Bool} (hampersand : p '&' = false)
    (hplaceholder : p '\ue000' = false) (s : List Char) :
    (protectedChars s).takeWhile p = s.takeWhile p := by
  rw [protectedChars_eq_map]
  induction s with
  | nil => rfl
  | cons c s ih =>
    rw [List.map_cons, List.takeWhile_cons, List.takeWhile_cons, ih]
    by_cases hc : c = '&'
    · subst hc
      rw [if_pos rfl, hampersand, hplaceholder]
      rfl
    · rw [if_neg hc]

theorem not_mem_keyword {keyword word : List Char} (h : keyword.map Char.toLower = word)
    (hw : '&' ∉ word) : '&' ∉ keyword :=
  fun hm => hw (h ▸ List.mem_map_of_mem (f := Char.toLower) hm)

-- ---------------------------------------------------------------------------
-- Reading

variable {s : Segment} {segments : List Segment} {g : Growth}

theorem isAlpha_of_toLower {c : Char} (h : c.toLower.isAlpha = true) : c.isAlpha = true := by
  delta Char.toLower at h
  split at h
  · rename_i hupper
    have hc : c.isUpper = true := decide_eq_true hupper
    exact (Bool.or_eq_true _ _).mpr (.inl hc)
  · exact h

theorem exists_of_section {body word : List Char} {c : Char}
    (h : (body.takeWhile Token.isSectionNameChar).map Char.toLower = c :: word) :
    ∃ d rest, body = d :: rest ∧ d.toLower = c := by
  cases body with
  | nil => cases h
  | cons d rest =>
    rw [List.takeWhile_cons] at h
    split at h
    · exact ⟨d, rest, rfl, (List.cons.inj h).1⟩
    · cases h

theorem isAlpha_of_cdata {keyword : List Char} (h : keyword.map Char.toLower = "cdata".toList) :
    ∀ c ∈ keyword, c.isAlpha = true := by
  intro c hc
  have hlower : c.toLower ∈ "cdata".toList := h ▸ List.mem_map_of_mem hc
  have hall : ∀ d ∈ "cdata".toList, d.isAlpha = true := by decide
  exact isAlpha_of_toLower (hall _ hlower)

theorem section_cdata {keyword : List Char} (h : keyword.map Char.toLower = "cdata".toList)
    (body : List Char) :
    ((keyword ++ '[' :: body).takeWhile Token.isSectionNameChar).map Char.toLower =
      "cdata".toList := by
  have hletters : ∀ c ∈ keyword, Token.isSectionNameChar c = true := by
    intro c hc
    rw [Token.isSectionNameChar, Char.isAlphanum, isAlpha_of_cdata h c hc]
    rfl
  have hstop : Token.isSectionNameChar '[' = false := by decide
  rw [Text.takeWhile_append_cons hstop, List.takeWhile_eq_self_iff.mpr hletters, h]

theorem reads_instruction {body : List Char} (h : '>' ∉ body) (hg : g.Ready) :
    Growth.Reads ("<?".toList ++ body ++ ['>']) g
      (g.put (Forest.textNode g.names (g.pending.getD "") (.leaf () .instruction
        (Growth.settled (g.names.any Grammar.standard.keepsBlanks.contains) (String.ofList body))
        .nil))) :=
  Growth.reads_leaf (Token.scan_instruction h) rfl hg

theorem reads_cdata {keyword body : List Char} (hk : keyword.map Char.toLower = "cdata".toList)
    (h : cutAt Token.keywordEnd? body = none) (hg : g.Ready) :
    Growth.Reads ("<![".toList ++ (keyword ++ '[' :: body) ++ "]]>".toList) g
      (g.put (Forest.textNode g.names (g.pending.getD "") (.leaf () .cdata
        (Growth.settled (g.names.any Grammar.standard.keepsBlanks.contains) (String.ofList body))
        .nil))) := by
  have hname := section_cdata hk body
  obtain ⟨d, rest, hbody, hd⟩ := exists_of_section hname
  have hletter : Token.startsWithLetter (keyword ++ '[' :: body) = true := by
    rw [hbody]
    exact isAlpha_of_toLower (hd ▸ by decide)
  have hcut : cutAt Token.keywordEnd? (keyword ++ '[' :: body) = none := by
    rw [List.append_cons]
    refine Text.cutAt_append_of_none (fun c hc s => Token.keywordEnd?_of_ne ?_ s) h
    rintro rfl
    rcases List.mem_append.mp hc with hc | hc
    · exact absurd (isAlpha_of_cdata hk _ hc) (by decide)
    · exact absurd hc (by decide)
  refine Growth.reads_leaf (t := .marked (String.ofList (keyword ++ '[' :: body)))
    (fun closing rest => ?_) ?_ hg
  · exact Token.scan_marked (keyword ++ '[' :: body) "]>".toList rest hletter (by rw [hname]; rfl)
      (fun c s hs => Token.keywordEnd?_append hs _) hcut rfl closing
  · have hlength : (keyword ++ ['[']).length = 6 := by
      simpa using congrArg List.length hk
    rw [Growth.token, Growth.marked, String.toList_ofList, List.append_cons,
      List.take_left' hlength, List.drop_left' hlength, List.map_append, hk]
    rfl

theorem reads_conditional {body : List Char}
    (hname : String.ofList ((body.takeWhile Token.isSectionNameChar).map Char.toLower) ∈
      ["if", "else", "endif"])
    (h : cutAt Token.conditionalEnd? body = none) (hg : g.Ready) :
    Growth.Reads ("<![".toList ++ body ++ "]>".toList) g
      (g.put (Forest.textNode g.names (g.pending.getD "") (.leaf () .declaration
        (Growth.settled (g.names.any Grammar.standard.keepsBlanks.contains) (String.ofList body))
        .nil))) := by
  have hletters : ∃ d rest, body = d :: rest ∧ d.isAlpha = true ∧ d.toLower ≠ 'c' := by
    simp only [List.mem_cons, List.not_mem_nil, or_false] at hname
    rcases hname with hname | hname | hname
    all_goals
      have hchars := congrArg String.toList hname
      rw [String.toList_ofList] at hchars
      obtain ⟨d, rest, hbody, hd⟩ := exists_of_section hchars
      exact ⟨d, rest, hbody, isAlpha_of_toLower (hd ▸ by decide), hd ▸ by decide⟩
  have hend : Token.sectionEnd? (String.ofList ((body.takeWhile Token.isSectionNameChar).map
      Char.toLower)) = some Token.conditionalEnd? := by
    generalize String.ofList _ = name at hname
    simp only [List.mem_cons, List.not_mem_nil, or_false] at hname
    rcases hname with rfl | rfl | rfl <;> rfl
  obtain ⟨d, rest, rfl, halpha, hd⟩ := hletters
  refine Growth.reads_leaf (t := .marked (String.ofList (d :: rest))) (fun closing more => ?_) ?_ hg
  · exact Token.scan_marked (d :: rest) ['>'] more halpha hend
      (fun c s hs => Token.conditionalEnd?_append hs _) h rfl closing
  · have hother : ((d :: rest).take 6).map Char.toLower ≠ "cdata[".toList := by
      intro he
      exact hd (List.cons.inj he).1
    rw [Growth.token, Growth.marked, String.toList_ofList, if_neg (by simpa using hother)]

/-- A segment that is no text is one node, whatever its body holds but its end. -/
theorem WellFormed.reads (h : s.WellFormed) (ht : s.isText = false) (hg : g.Ready) :
    Growth.Reads (protectedChars s.source.toList) g
      (g.put (Forest.textNode g.names (g.pending.getD "") (.leaf ()
        (if s.kind = .leadingDocType then .docType else s.kind)
        (Growth.settled (g.names.any Grammar.standard.keepsBlanks.contains)
          (Format.standard.protect s.content)) .nil))) := by
  have hofList (body : String) : String.ofList (protectedChars body.toList) =
      Format.standard.protect body := by
    rw [← toList_protect, String.ofList_toList]
  have hclose {body : String} (hb : '>' ∉ body.toList) : '>' ∉ protectedChars body.toList := by
    rw [← toList_protect]
    exact Format.not_mem_protect (by decide) hb
  cases s with
  | text => cases ht
  | comment body =>
    have hread := Growth.reads_comment (cutAt_protected Token.commentEnd?_map h) hg
    rw [hofList] at hread
    rw [source, protectedChars_between (by decide) (by decide)]
    exact hread
  | docType keyword body =>
    have hbefore : '&' ∉ ("<!" ++ keyword).toList := by
      simpa using not_mem_keyword h.1 (by decide)
    have hread := Growth.reads_docType h.1 (hclose h.2) hg
    rw [← protect_drop] at hread
    rw [source, protectedChars_between hbefore (by decide), String.toList_append]
    exact hread
  | cdata keyword body =>
    have hbefore : '&' ∉ ("<![" ++ keyword ++ "[").toList := by
      simpa using not_mem_keyword h.1 (by decide)
    have hread := reads_cdata h.1 (cutAt_protected Token.keywordEnd?_map h.2) hg
    rw [hofList] at hread
    have hsplit (b : List Char) : ("<![" ++ keyword ++ "[").toList ++ b ++ "]]>".toList =
        "<![".toList ++ (keyword.toList ++ '[' :: b) ++ "]]>".toList := by
      simp
    rw [source, protectedChars_between hbefore (by decide), hsplit]
    exact hread
  | instruction body =>
    have hread := reads_instruction (hclose h) hg
    rw [hofList] at hread
    rw [source, protectedChars_between (by decide) (by decide)]
    exact hread
  | conditional body =>
    have hname := h.1
    rw [sectionName, ← takeWhile_protectedChars (by decide) (by decide)] at hname
    have hread := reads_conditional hname (cutAt_protected Token.conditionalEnd?_map h.2) hg
    rw [hofList] at hread
    rw [source, protectedChars_between (by decide) (by decide)]
    exact hread

theorem exists_reads (h : ∀ s ∈ segments, s.WellFormed) (hg : g.Ready) :
    ∃ g', Growth.Reads (protectedChars (joined source segments).toList) g g' ∧
      Growth.After (forest segments) g g' := by
  induction segments generalizing g with
  | nil => exact ⟨g, .nil g, hg, rfl, rfl⟩
  | cons s segments ih =>
    obtain ⟨hs, hmore⟩ := List.forall_mem_cons.mp h
    have hwritten : protectedChars (joined source (s :: segments)).toList =
        protectedChars s.source.toList ++ protectedChars (joined source segments).toList := by
      rw [joined, String.toList_append, protectedChars_append]
    rw [hwritten]
    cases ht : s.isText with
    | true =>
      cases s with
      | text content =>
        obtain ⟨hne, hopen⟩ := hs
        have hne' := Format.protect_ne_empty hne
        have hplain := isPlain_protect hopen
        have hready : (g.addText (Format.standard.protect content)).Ready := by
          refine ⟨hg.passed, fun he => hne' ?_⟩
          have := Option.some.inj he
          simp at this
          exact this.2
        obtain ⟨g', hr, ha⟩ := ih hmore hready
        refine ⟨g', ?_, ha.ready, ha.opened, ha.rested⟩
        have hread := Growth.reads_text hplain hne' g
        rw [toList_protect] at hread
        exact hread.trans hr
      | _ => cases ht
    | false =>
      obtain ⟨g', hr, ha⟩ := ih hmore (hg.put _)
      refine ⟨g', (hs.reads ht hg).trans hr, ha.behind ?_ rfl⟩
      rw [Forest.textNode_append]
      cases s with
      | text => cases ht
      | _ => rfl

theorem leading_textNode (before : String) (next : Forest Unit) :
    (Forest.textNode [] before next).leading = Forest.textNode [] before next.leading := by
  unfold Forest.textNode
  split <;> rfl

theorem leading_reread (h : ∀ s ∈ segments, s.WellFormed) (apart : Apart segments)
    {before : String} (hbefore : before = "" ∨ ∀ s ∈ segments.head?, s.isText = false) :
    ((forest segments).reread [] before).leading =
      Forest.textNode [] before (segments.foldr node .nil) := by
  induction segments generalizing before with
  | nil => exact leading_textNode before .nil
  | cons s segments ih =>
    obtain ⟨hs, hmore⟩ := List.forall_mem_cons.mp h
    rw [Apart, List.isChain_cons] at apart
    obtain ⟨hnext, hchain⟩ := apart
    cases ht : s.isText with
    | true =>
      obtain rfl : before = "" :=
        hbefore.resolve_right fun hhead => Bool.false_ne_true ((hhead s rfl).symm.trans ht)
      have hhead : ∀ t ∈ segments.head?, t.isText = false := fun t hm => by
        simpa [ht] using hnext t hm
      cases s with
      | text content =>
        have hread := @ih hmore hchain (Format.standard.protect content) (.inr hhead)
        rw [Forest.textNode, if_neg (Format.protect_ne_empty hs.1)] at hread
        rw [forest, kind, Forest.reread, String.empty_append]
        exact hread
      | _ => cases ht
    | false =>
      have hread := @ih hmore hchain "" (.inl rfl)
      cases s with
      | text => cases ht
      | _ =>
        rw [forest, kind, Forest.reread, leading_textNode, Forest.leading, hread]
        · rfl
        all_goals
          intro _ h
          cases h

theorem leaf_node (s : Segment) :
    bareStyle.leaf none s.kind (Growth.settled false (Format.standard.protect s.content)) =
      protectedChars s.written.toList := by
  rw [← protect_settled]
  cases s with
  | text content =>
    rw [kind, Style.leaf_text, toList_protect]
    rfl
  | _ =>
    rw [written, protectedChars_between (by decide) (by decide), ← toList_protect]
    rfl

theorem write_nodes (segments : List Segment) :
    bareStyle.write none (segments.foldr node .nil) =
      protectedChars (joined written segments).toList := by
  induction segments with
  | nil => rfl
  | cons s segments ih =>
    rw [List.foldr_cons, node, Style.write, leaf_node, ih, joined, String.toList_append,
      protectedChars_append]

theorem descendants_nodes (segments : List Segment) :
    (segments.foldr node .nil).descendants = [] := by
  induction segments with
  | nil => rfl
  | cons s segments ih => exact ih

/-- A text of segments is read as their leaves. -/
theorem parse_joined (h : ∀ s ∈ segments, s.WellFormed) :
    Format.standard.read (joined source segments) = .ok ((forest segments).reread [] "") := by
  have hempty : Growth.empty.Ready := ⟨rfl, nofun⟩
  obtain ⟨g, hr, ha⟩ := exists_reads h hempty
  rw [Format.read_standard, parse_of_reads hr ha.ready ha.opened, ha.rested]
  simp [Growth.put, Growth.empty, Growth.names]

-- ---------------------------------------------------------------------------
-- Segments that are written as they were read

theorem written_eq_source (h : s.Canonical) (hc : Settles s.content) : s.written = s.source := by
  have hkept : Growth.settled false s.content = s.content := settled_eq_self hc false
  cases s with
  | docType keyword body =>
    obtain ⟨rfl, hblank⟩ := h
    obtain ⟨rest, hbody⟩ := List.head?_eq_some_iff.mp hblank
    rw [written, hkept, ← String.toList_inj]
    simp [source, content, hbody]
  | cdata keyword body =>
    obtain rfl := h
    rw [written, hkept]
    rfl
  | conditional => exact absurd h id
  | _ =>
    rw [written, hkept]
    rfl

theorem joined_congr {shown other : Segment → String} (h : ∀ s ∈ segments, shown s = other s) :
    joined shown segments = joined other segments := by
  induction segments with
  | nil => rfl
  | cons s segments ih =>
    rw [joined, joined, h s List.mem_cons_self, ih fun t ht => h t (List.mem_cons_of_mem s ht)]

theorem not_mem_joined {shown : Segment → String} {c : Char}
    (h : ∀ s ∈ segments, c ∉ (shown s).toList) : c ∉ (joined shown segments).toList := by
  induction segments with
  | nil => exact nofun
  | cons s segments ih =>
    obtain ⟨hs, hmore⟩ := List.forall_mem_cons.mp h
    rw [joined, String.toList_append, List.mem_append, not_or]
    exact ⟨hs, ih hmore⟩

end Segment

end Markup

namespace Document

open Markup Markup.Segment

variable {segments : List Segment}

theorem text_written (h : ∀ s ∈ segments, s.WellFormed) (apart : Apart segments) :
    ∃ d, load Format.standard (joined source segments) = .ok d ∧
      d.respell.text = .ok (Format.standard.restore (joined written segments)) := by
  refine ⟨_, load_of_read (parse_joined h), ?_⟩
  rw [leading_reread h apart (.inl rfl), Forest.textNode, if_pos rfl]
  generalize hd : (⟨Format.standard, _, _, _⟩ : Document) = d
  have hbare : d.respell.content.bare = (segments.foldr node .nil).bare := by
    subst hd
    rw [respell, Forest.bare_mapTags, Forest.bare_number, Forest.mapTags_eq_self]
    rw [Forest.tags_bare, descendants_nodes]
    exact List.forall_mem_nil _
  have hformat : d.respell.format = Format.standard := by
    subst hd
    rfl
  rw [Document.text, hformat, Format.write_standard, ok_bind,
    ← Forest.write_bare d.respell.content none none, hbare, Forest.write_bare _ none none,
    write_nodes]
  refine congrArg Except.ok ?_
  rw [← String.toList_inj, Format.toList_restore, Format.toList_restore, String.toList_ofList,
    Format.restoredChars_protectedChars]

/-- What stands around the bodies is written as the writer does it, and a placeholder comes back as an
ampersand. So a text without conditional sections, with its keywords as the writer has them, comes
back unchanged. -/
theorem text_of_segments (h : ∀ s ∈ segments, s.WellFormed) (apart : Apart segments) :
    ∃ d, load Format.standard (joined source segments) = .ok d ∧
      d.respell.text = .ok (Format.standard.restore (joined written segments)) ∧
      ((∀ s ∈ segments, s.Canonical ∧ Settles s.content ∧ '\ue000' ∉ s.source.toList) →
        d.respell.text = .ok (joined source segments)) := by
  obtain ⟨d, hd, htext⟩ := text_written h apart
  refine ⟨d, hd, htext, fun hsame => ?_⟩
  have hwritten : joined written segments = joined source segments :=
    joined_congr fun s hs => written_eq_source (hsame s hs).1 (hsame s hs).2.1
  have hclear := not_mem_joined fun s hs => (hsame s hs).2.2
  rw [htext, hwritten, Format.restore_of_not_mem hclear]

theorem text_of_segments_mail :
    let text := "<!DOCTYPE html>\n<!--[if mso]>--<![endif]-->a &amp; b" ++
      "<![CDATA[> ]]]]><?xml version=\"1.0\"?>"
    ∃ d, load Format.standard text = .ok d ∧ d.respell.text = .ok text := by
  intro text
  obtain ⟨segments, hsource, hwell, hsame, apart⟩ : ∃ segments, joined source segments = text ∧
      (∀ s ∈ segments, s.WellFormed) ∧
      (∀ s ∈ segments, s.Canonical ∧ Settles s.content ∧ '\ue000' ∉ s.source.toList) ∧
      Apart segments :=
    ⟨[docType "DOCTYPE" " html", .text "\n", comment "[if mso]>--<![endif]",
      .text "a &amp; b", cdata "CDATA" "> ]]", instruction "xml version=\"1.0\"?"],
      by decide +kernel, by decide +kernel, by decide +kernel, by decide +kernel⟩
  obtain ⟨d, hd, -, hback⟩ := text_of_segments hwell apart
  rw [hsource] at hd hback
  exact ⟨d, hd, hback hsame⟩

/-- A section for all readers but one becomes a declaration, which no reader takes for it. -/
theorem not_text_of_segments :
    ¬ ∀ segments : List Segment,
      (∀ s ∈ segments, s.WellFormed ∧ Settles s.content ∧ '\ue000' ∉ s.source.toList) →
      Apart segments → ∃ d, load Format.standard (joined source segments) = .ok d ∧
        d.respell.text = .ok (joined source segments) := by
  intro h
  have hwell : ∀ s ∈ [conditional "if !mso"], s.WellFormed ∧ Settles s.content ∧
      '\ue000' ∉ s.source.toList := by decide +kernel
  obtain ⟨d, hd, htext⟩ := h [conditional "if !mso"] hwell (by decide)
  obtain ⟨d', hd', htext'⟩ := text_written (fun s hs => (hwell s hs).1) (by decide)
  obtain rfl := Except.ok.inj (hd.symm.trans hd')
  have hsame := Except.ok.inj (htext.symm.trans htext')
  rw [Format.restore_of_not_mem (by decide +kernel)] at hsame
  exact absurd hsame (by decide +kernel)

end Document

end Mailgrid
