import Mailgrid.Markup.Forest.OfTokens
import Mailgrid.Proofs.Markup.Constructs

/-!
# Reading what was written

`parse_verbatim`: a forest of legible nodes, written and read again, is the
forest that `reread` makes of it: names in lower case, attributes of one name
merged, texts in a row joined, and blanks in the form a reader gives them.

Reading is a fold over tokens. Its invariant is on the state of the fold: what
a forest adds to it does not depend on what follows, though the last text of
the forest may go on there.
-/

namespace Mailgrid.Markup

-- ---------------------------------------------------------------------------
-- What a forest reads as

/-- A tag as it is read. -/
def Tag.reread (t : Tag) : Tag :=
  ⟨Text.lowerString t.name,
    Table.ofList (t.attributes.map fun a => (Text.lowerString a.1, .text a.2.shown)),
    Grammar.standard.void.contains (Text.lowerString t.name)⟩

namespace Forest

/-- A text inside these open elements, if there is any. -/
def textNode (opened : List String) (content : String) (next : Forest Unit) : Forest Unit :=
  if content = "" then next
  else .leaf () (.text ((opened.findSome? fun name => Grammar.textHolders.lookup name).getD .plain))
    (Growth.settled (opened.any Grammar.standard.keepsBlanks.contains) content) next

theorem textNode_append (opened : List String) (content : String) (next more : Forest Unit) :
    textNode opened content next ++ more = textNode opened content (next ++ more) := by
  unfold textNode
  split <;> rfl

/-- What a forest inside these open elements reads as when this text stands before it. -/
def reread (opened : List String) (before : String) : Forest α → Forest Unit
  | nil => textNode opened before nil
  | leaf _ (.text _) content next => next.reread opened (before ++ content)
  | leaf _ kind content next =>
    textNode opened before (.leaf () (if kind = .leadingDocType then .docType else kind)
      (Growth.settled (opened.any Grammar.standard.keepsBlanks.contains) content)
      (next.reread opened ""))
  | element _ tag children next =>
    textNode opened before (.element () tag.reread
      (children.reread (tag.reread.name :: opened) "") (next.reread opened ""))

def isNil : Forest α → Bool
  | nil => true
  | _ => false

/-- Can a leaf be written so that it is read again? -/
def isLegibleLeaf : LeafKind → String → Bool
  | .text _, content => content.toList.all Token.isPlain
  | .comment, content => !content.toList.contains '-'
  | .leadingDocType, content => !content.toList.contains '>'
  | _, _ => false

/-- Can a forest be written so that it is read again? What is void for the writer or the reader must
hold nothing. -/
def isLegible : Forest α → Bool
  | nil => true
  | leaf _ kind content next => isLegibleLeaf kind content && next.isLegible
  | element _ tag children next =>
    tag.isLegible && (!(tag.void || tag.reread.void) || children.isNil) && children.isLegible &&
      next.isLegible

/-- Is a forest legible, with whichever quotes its values stand in? -/
def isVerbatim : Forest α → Bool
  | nil => true
  | leaf _ kind content next => isLegibleLeaf kind content && next.isVerbatim
  | element _ tag children next =>
    tag.isVerbatim && (!(tag.void || tag.reread.void) || children.isNil) && children.isVerbatim &&
      next.isVerbatim

theorem isVerbatim_of_isLegible {f : Forest α} (h : f.isLegible = true) : f.isVerbatim = true := by
  induction f with
  | nil => rfl
  | leaf m kind content next ih =>
    simp only [isLegible, isVerbatim, Bool.and_eq_true] at h ⊢
    exact ⟨h.1, ih h.2⟩
  | element m tag children next ihc ih =>
    simp only [isLegible, isVerbatim, Bool.and_eq_true] at h ⊢
    obtain ⟨⟨⟨htag, hhollow⟩, hchildren⟩, hnext⟩ := h
    exact ⟨⟨⟨Tag.isVerbatim_of_isReadable (Tag.isReadable_of_isLegible htag), hhollow⟩,
      ihc hchildren⟩, ih hnext⟩

end Forest

-- ---------------------------------------------------------------------------
-- Tags

theorem collect_standard (pairs : List (String × String)) :
    collect .lastCounts pairs =
      .ok (Table.ofList (pairs.map fun pair => (pair.1, AttributeValue.text pair.2))) := by
  rw [Table.ofList, List.foldl_map]
  refine foldlM_eq_ok (fun known pair => ?_) pairs []
  obtain ⟨name, value⟩ := pair
  simp only
  split
  · rename_i hn
    rw [Table.assign_of_lookup (Option.isNone_iff_eq_none.mp hn)]
    rfl
  · rfl

theorem read_standard {name : String} (h : name ≠ "meta")
    (attributes : List (String × AttributeValue)) :
    Tag.read Grammar.standard name attributes =
      .ok ⟨name, attributes, Grammar.standard.void.contains name⟩ := by
  simp [Tag.read, Grammar.standard, splitLists, markCharset, Grammar.checkElement, h]
  rfl

-- ---------------------------------------------------------------------------
-- What is written

namespace Style

theorem leaf_text (parent : Option String) (kind : TextKind) (content : String) :
    bareStyle.leaf parent (.text kind) content = content.toList := by
  change bareStyle.text parent content.toList = _
  unfold Style.text
  split <;> rfl

theorem write_open (parent : Option String) (m : α) {t : Tag} (h : t.void = false)
    (children next : Forest α) : bareStyle.write parent (.element m t children next) =
      bareStyle.startTag t ['>'] ++ (bareStyle.write (some t.name) children ++
        (Style.endTag t ++ bareStyle.write parent next)) := by
  cases children <;> simp [Style.write, h]

theorem write_full (parent : Option String) (m : α) (t : Tag) {children : Forest α}
    (h : children.isNil = false) (next : Forest α) :
    bareStyle.write parent (.element m t children next) =
      bareStyle.startTag t ['>'] ++ (bareStyle.write (some t.name) children ++
        (Style.endTag t ++ bareStyle.write parent next)) := by
  cases children with
  | nil => cases h
  | leaf => simp [Style.write]
  | element => simp [Style.write]

theorem write_void (parent : Option String) (m : α) {t : Tag} (h : t.void = true)
    (next : Forest α) : bareStyle.write parent (.element m t .nil next) =
      bareStyle.startTag t ['/', '>'] ++ bareStyle.write parent next := by
  simp [Style.write, h, bareStyle]

end Style

-- ---------------------------------------------------------------------------
-- States of the fold

namespace Growth

/-- No end tag is to be passed over, and a text that is pending is not empty. -/
structure Ready (g : Growth) : Prop where
  passed : g.passed = []
  pending : g.pending ≠ some ""

def names (g : Growth) : List String :=
  g.opened.map (·.1.name)

/-- A state with this forest in the place of its pending text. -/
def put (g : Growth) (f : Forest Unit) : Growth :=
  { g with content := g.content ++ f, pending := none }

/-- The state after the pending text has become a node. -/
def rested (g : Growth) : Growth :=
  g.put (Forest.textNode g.names (g.pending.getD "") .nil)

variable {g : Growth}

theorem keepsBlanks_standard (g : Growth) :
    g.keepsBlanks Grammar.standard = g.names.any Grammar.standard.keepsBlanks.contains := by
  have hd : Grammar.standard.keepsBlanks.contains documentName = false := rfl
  simp [keepsBlanks, hd, names, List.any_map, Function.comp_def]

theorem textKind_standard (opened : List String) :
    Grammar.standard.textKind opened =
      .ok ((opened.findSome? fun name => Grammar.textHolders.lookup name).getD .plain) := rfl

theorem addLeaf_standard (g : Growth) (kind : LeafKind) (content : String) :
    g.addLeaf Grammar.standard kind content = .ok (g.add (.leaf () kind
      (settled (g.names.any Grammar.standard.keepsBlanks.contains) content) .nil)) := by
  rw [← keepsBlanks_standard]
  rfl

theorem flush_standard (h : g.Ready) : g.flush Grammar.standard = .ok g.rested := by
  obtain ⟨content, opened, pending, passed⟩ := g
  cases pending with
  | none => simp [flush, rested, put, Forest.textNode]; rfl
  | some text =>
    have hne : text ≠ "" := fun he => h.pending (by rw [he])
    simp only [flush, textKind_standard, addLeaf_standard, rested, put, Forest.textNode, add,
      Option.getD_some, hne, if_false, bind, Except.bind]
    rfl

theorem addBehind_standard (h : g.Ready) (kind : LeafKind) (content : String) :
    g.addBehind Grammar.standard kind content =
      .ok (g.put (Forest.textNode g.names (g.pending.getD "") (.leaf () kind
        (settled (g.names.any Grammar.standard.keepsBlanks.contains) content) .nil))) := by
  rw [addBehind, flush_standard h, ok_bind, addLeaf_standard]
  simp [rested, put, add, names, Forest.append_assoc, Forest.textNode_append]

-- ---------------------------------------------------------------------------
-- Readings

/-- Reading a text leads from one state to another, whatever follows. -/
def Reads (s : List Char) (g g' : Growth) : Prop :=
  ∀ closing rest, (Token.scan closing none (s ++ rest)).foldlM (token Grammar.standard) g =
    (Token.scan closing none rest).foldlM (token Grammar.standard) g'

theorem Reads.trans {s t : List Char} {g₁ g₂ g₃ : Growth} (h : Reads s g₁ g₂)
    (h' : Reads t g₂ g₃) : Reads (s ++ t) g₁ g₃ := by
  intro closing rest
  rw [List.append_assoc, h, h']

theorem Reads.nil (g : Growth) : Reads [] g g := fun _ _ => rfl

theorem reads_of_token {s : List Char} {t : Token} {g g' : Growth}
    (hs : ∀ closing rest, Token.scan closing none (s ++ rest) = t :: Token.scan closing none rest)
    (ht : g.token Grammar.standard t = .ok g') : Reads s g g' := by
  intro closing rest
  rw [hs, List.foldlM_cons, ht, ok_bind]

theorem addText_addText (g : Growth) (a b : String) :
    (g.addText a).addText b = g.addText (a ++ b) := by
  simp [addText, String.append_assoc]

theorem reads_text {content : String} (h : content.toList.all Token.isPlain = true)
    (hne : content ≠ "") (g : Growth) : Reads content.toList g (g.addText content) := by
  have hall : ∀ d ∈ content.toList, Token.isPlain d = true := List.all_eq_true.mp h
  cases hc : content.toList with
  | nil => exact absurd (String.toList_eq_nil_iff.mp hc) hne
  | cons c cs =>
    rw [hc] at hall
    have htext : content = String.ofList (c :: cs) := by rw [← hc, String.ofList_toList]
    have hhead (s : List Char) : g.token Grammar.standard (Token.textOf (c :: cs ++ s)) =
        .ok ((g.addText content).addText (String.ofList s)) := by
      rw [addText_addText, htext, ← String.ofList_append]
      rfl
    have hend : (g.addText content).addText (String.ofList []) = g.addText content := by
      simp [addText_addText]
    intro closing rest
    rw [Token.scan_text hall, List.foldlM_cons, hhead, ok_bind]
    cases rest with
    | nil => rw [List.takeWhile_nil, List.dropWhile_nil, hend]
    | cons d rest =>
      cases hd : Token.isPlain d with
      | false =>
        rw [List.takeWhile_cons, List.dropWhile_cons]
        simp only [hd, Bool.false_eq_true, if_false, hend]
      | true =>
        have hscan := @Token.scan_text d [] rest (by simpa using hd) closing
        simp only [List.cons_append, List.nil_append] at hscan
        simp only [List.takeWhile_cons, List.dropWhile_cons, hd, if_true]
        rw [hscan, List.foldlM_cons]
        rfl

theorem startTag_pairs {name : String} (h : name ≠ "meta") (hg : g.Ready)
    (pairs : List (String × String)) (closed : Bool) {tag : Tag}
    (htag : tag = ⟨name, Table.ofList (pairs.map fun pair => (pair.1, .text pair.2)),
      Grammar.standard.void.contains name⟩) :
    g.startTag Grammar.standard ⟨name, pairs, closed⟩ =
      .ok (if closed then (g.rested.open_ tag).close name
        else if tag.void then
          { (g.rested.open_ tag).close name with
            passed := ((g.rested.open_ tag).close name).passed ++ [name] }
        else g.rested.open_ tag) := by
  have hrepeated : Grammar.standard.repeated = .lastCounts := rfl
  subst htag
  simp only [startTag, hrepeated, collect_standard, flush_standard hg, ok_bind, read_standard h]
  cases closed with
  | true => rfl
  | false =>
    simp only [Bool.false_eq_true, if_false]
    split <;> rfl

theorem startTag_standard {t : Tag} (h : t.isVerbatim = true) (hg : g.Ready) (closed : Bool) :
    g.startTag Grammar.standard ⟨Text.lowerString t.name, readPairs t.attributes, closed⟩ =
      .ok (if closed then (g.rested.open_ t.reread).close t.reread.name
        else if t.reread.void then
          { (g.rested.open_ t.reread).close t.reread.name with
            passed := ((g.rested.open_ t.reread).close t.reread.name).passed ++ [t.reread.name] }
        else g.rested.open_ t.reread) := by
  simp only [Tag.isVerbatim, Tag.isWritten, Bool.and_eq_true, Bool.not_eq_true'] at h
  have hmeta : Text.lowerString t.name ≠ "meta" := by
    intro hm
    rw [hm] at h
    exact absurd h.1.2 (by decide)
  refine startTag_pairs hmeta hg _ closed ?_
  rw [readPairs, List.map_map]
  rfl

theorem close_innermost {tag : Tag} {before : Forest Unit} {outer : List (Tag × Forest Unit)}
    (h : g.opened = (tag, before) :: outer) : g.close tag.name =
      { g with content := before ++ .element () tag g.content .nil, opened := outer } := by
  simp [close, h, List.findIdx?_cons, closeMany, closeInnermost]

theorem reads_open {t : Tag} (h : t.isVerbatim = true) (hv : t.reread.void = false)
    (hg : g.Ready) : Reads (bareStyle.startTag t ['>']) g (g.rested.open_ t.reread) := by
  refine reads_of_token (Token.scan_verbatim h .open_) ?_
  rw [token, startTag_standard h hg, if_neg Bool.false_ne_true, hv, if_neg Bool.false_ne_true]

theorem close_opened (g : Growth) (t : Tag) : (g.rested.open_ t).close t.name =
    g.put (Forest.textNode g.names (g.pending.getD "") (.element () t .nil .nil)) := by
  rw [close_innermost rfl]
  simp [open_, rested, put, Forest.append_assoc, Forest.textNode_append]

theorem reads_closed {t : Tag} (h : t.isVerbatim = true) (hg : g.Ready) :
    Reads (bareStyle.startTag t ['/', '>']) g (g.put (Forest.textNode g.names (g.pending.getD "")
      (.element () t.reread .nil .nil))) := by
  refine reads_of_token (Token.scan_verbatim h .closed) ?_
  rw [token, startTag_standard h hg, if_pos rfl, close_opened]

/-- An element that is void for the reader is closed at once, and its end tag is passed over. -/
theorem reads_passed {t : Tag} (h : t.isVerbatim = true) (hv : t.reread.void = true)
    (hg : g.Ready) : Reads (bareStyle.startTag t ['>'] ++ Style.endTag t) g
      (g.put (Forest.textNode g.names (g.pending.getD "") (.element () t.reread .nil .nil))) := by
  generalize hclosed : g.put (Forest.textNode g.names (g.pending.getD "")
    (.element () t.reread .nil .nil)) = g'
  have hpassed : g'.passed = [] := by rw [← hclosed]; exact hg.passed
  have hopened : Reads (bareStyle.startTag t ['>']) g { g' with passed := [t.reread.name] } := by
    refine reads_of_token (Token.scan_verbatim h .open_) ?_
    rw [token, startTag_standard h hg, if_neg Bool.false_ne_true, hv, if_pos rfl, close_opened,
      hclosed, hpassed]
    rfl
  refine hopened.trans ?_
  · refine reads_of_token (Token.scan_legibleEnd (Tag.isLegible_name h)) ?_
    have hname : Text.lowerString t.name = t.reread.name := rfl
    have herased : [t.reread.name].erase t.reread.name = g'.passed := by
      rw [List.erase_cons_head, hpassed]
    rw [token, endTag, hname, if_pos (by simp), herased]
    rfl

theorem reads_endTag {t tag : Tag} (h : Markup.isLegible t.name = true)
    (hname : tag.name = Text.lowerString t.name) (hg : g.Ready) {before : Forest Unit}
    {outer : List (Tag × Forest Unit)} (ho : g.opened = (tag, before) :: outer) :
    Reads (Style.endTag t) g { g.rested with
      content := before ++ .element () tag g.rested.content .nil, opened := outer } := by
  refine reads_of_token (Token.scan_legibleEnd h) ?_
  have hnot : g.passed.contains (Text.lowerString t.name) = false := by rw [hg.passed]; rfl
  have hclose := close_innermost (g := g.rested) ho
  simp only [token, endTag, hnot, flush_standard hg, ok_bind]
  rw [← hname, hclose]
  rfl

theorem reads_close {t : Tag} (h : t.isVerbatim = true) (hg : g.Ready) {before : Forest Unit}
    {outer : List (Tag × Forest Unit)} (ho : g.opened = (t.reread, before) :: outer) :
    Reads (Style.endTag t) g { g.rested with
      content := before ++ .element () t.reread g.rested.content .nil, opened := outer } := by
  exact reads_endTag (Tag.isLegible_name h) rfl hg ho

theorem reads_leaf {s : List Char} {t : Token} {kind : LeafKind} {content : String}
    (hs : ∀ closing rest, Token.scan closing none (s ++ rest) = t :: Token.scan closing none rest)
    (ht : g.token Grammar.standard t = g.addBehind Grammar.standard kind content) (hg : g.Ready) :
    Reads s g (g.put (Forest.textNode g.names (g.pending.getD "") (.leaf () kind
      (settled (g.names.any Grammar.standard.keepsBlanks.contains) content) .nil))) :=
  reads_of_token hs (ht.trans (addBehind_standard hg kind content))

theorem Ready.put (hg : g.Ready) (f : Forest Unit) : (g.put f).Ready :=
  ⟨hg.passed, nofun⟩

/-- A state as it is after a forest has been read from another one. -/
structure After (f : Forest α) (g g' : Growth) : Prop where
  ready : g'.Ready
  opened : g'.opened = g.opened
  rested : g'.rested = g.put (f.reread g.names (g.pending.getD ""))

theorem After.behind {f next : Forest α} {first : Forest Unit} {g₁ g₂ : Growth}
    (hf : f.reread g.names (g.pending.getD "") = first ++ next.reread g.names "")
    (h₁ : g₁ = g.put first) (h : After next g₁ g₂) : After f g g₂ := by
  subst h₁
  refine ⟨h.ready, h.opened, ?_⟩
  rw [h.rested, hf]
  simp [Growth.put, names, Forest.append_assoc]

theorem reads_comment {body : List Char} (h : Text.cutAt Token.commentEnd? body = none)
    (hg : g.Ready) : Reads ("<!--".toList ++ body ++ "-->".toList) g
      (g.put (Forest.textNode g.names (g.pending.getD "") (.leaf () .comment
        (settled (g.names.any Grammar.standard.keepsBlanks.contains) (String.ofList body)) .nil))) :=
  reads_leaf (Token.scan_comment h) rfl hg

theorem reads_docType {keyword body : List Char}
    (hk : keyword.map Char.toLower = "doctype".toList) (h : '>' ∉ body) (hg : g.Ready) :
    Reads ("<!".toList ++ keyword ++ body ++ ['>']) g
      (g.put (Forest.textNode g.names (g.pending.getD "") (.leaf () .docType
        (settled (g.names.any Grammar.standard.keepsBlanks.contains) (String.ofList (body.drop 1)))
        .nil))) := by
  refine reads_leaf (Token.scan_docType hk h) ?_ hg
  have hlength : keyword.length = 7 := by simpa using congrArg List.length hk
  have hdrop : (keyword ++ body).drop 8 = body.drop 1 := by
    rw [List.drop_append, List.drop_eq_nil_of_le (by omega), hlength]
    rfl
  rw [token, String.toList_ofList, hdrop]

theorem After.reads_close {t : Tag} {children : Forest α} {g₂ : Growth}
    (h : After children (g.rested.open_ t.reread) g₂) (ht : t.isVerbatim = true) :
    Reads (Style.endTag t) g₂ (g.put (Forest.textNode g.names (g.pending.getD "")
      (.element () t.reread (children.reread (t.reread.name :: g.names) "") .nil))) := by
  have hr := Growth.reads_close ht h.ready h.opened
  rw [h.rested] at hr
  refine cast (congrArg (Reads _ g₂) ?_) hr
  simp [open_, Growth.rested, put, names, Forest.append_assoc, Forest.textNode_append]

theorem exists_reads_written {f : Forest α} (h : f.isVerbatim = true) (parent : Option String)
    (hg : g.Ready) : ∃ g', Reads (bareStyle.write parent f) g g' ∧ After f g g' := by
  induction f generalizing parent g with
  | nil => exact ⟨g, .nil g, hg, rfl, rfl⟩
  | leaf m kind content next ih =>
    simp only [Forest.isVerbatim, Bool.and_eq_true] at h
    obtain ⟨hleaf, hnext⟩ := h
    rw [Style.write]
    cases kind with
    | text kind =>
      rw [Style.leaf_text]
      by_cases hne : content = ""
      · obtain ⟨g', hr, ha⟩ := ih hnext parent hg
        subst hne
        refine ⟨g', by simpa using hr, ha.ready, ha.opened, ?_⟩
        rw [ha.rested]
        simp [Forest.reread]
      · have hready : (g.addText content).Ready := by
          refine ⟨hg.passed, fun he => hne ?_⟩
          have := Option.some.inj he
          simp at this
          exact this.2
        obtain ⟨g', hr, ha⟩ := ih hnext parent hready
        exact ⟨g', (reads_text hleaf hne g).trans hr, ha.ready, ha.opened, ha.rested⟩
    | comment =>
      have hdash : '-' ∉ content.toList := by simpa [Forest.isLegibleLeaf] using hleaf
      obtain ⟨g', hr, ha⟩ := ih hnext parent (hg.put _)
      have hread := reads_comment (Token.cutAt_commentEnd?_of_not_mem hdash) hg
      rw [String.ofList_toList] at hread
      refine ⟨g', hread.trans hr, ha.behind ?_ rfl⟩
      rw [Forest.textNode_append]
      rfl
    | leadingDocType =>
      have hclose : '>' ∉ content.toList := by simpa [Forest.isLegibleLeaf] using hleaf
      obtain ⟨g', hr, ha⟩ := ih hnext parent (hg.put _)
      have hbody : '>' ∉ ' ' :: content.toList := by simpa using hclose
      have hread := reads_docType (show "DOCTYPE".toList.map Char.toLower = _ from rfl) hbody hg
      rw [List.drop_one, List.tail_cons, String.ofList_toList] at hread
      refine ⟨g', hread.trans hr, ha.behind ?_ rfl⟩
      rw [Forest.textNode_append]
      rfl
    | _ => cases hleaf
  | element m t children next ihc ih =>
    simp only [Forest.isVerbatim, Bool.and_eq_true] at h
    obtain ⟨⟨⟨ht, hhollow⟩, hchildren⟩, hnext⟩ := h
    -- an element without content is read alike, however it is written
    have hempty {s : List Char} (hnil : children = .nil) (hs : Reads s g (g.put
        (Forest.textNode g.names (g.pending.getD "") (.element () t.reread .nil .nil)))) :
        ∃ g', Reads (s ++ bareStyle.write parent next) g g' ∧
          After (.element m t children next) g g' := by
      subst hnil
      obtain ⟨g', hr, ha⟩ := ih hnext parent (hg.put _)
      refine ⟨g', hs.trans hr, ha.behind ?_ rfl⟩
      rw [Forest.textNode_append]
      rfl
    have hnil (hv : (t.void || t.reread.void) = true) : children = .nil := by
      rw [hv] at hhollow
      cases children <;> first | rfl | cases hhollow
    cases hv : t.void with
    | true =>
      obtain rfl := hnil (by rw [hv, Bool.true_or])
      rw [Style.write_void parent m hv]
      exact hempty rfl (reads_closed ht hg)
    | false =>
      rw [Style.write_open parent m hv]
      cases hread : t.reread.void with
      | true =>
        obtain rfl := hnil (by rw [hread, Bool.or_true])
        rw [Style.write, List.nil_append, ← List.append_assoc]
        exact hempty rfl (reads_passed ht hread hg)
      | false =>
        have hready : (g.rested.open_ t.reread).Ready :=
          ⟨hg.passed, fun h => by cases h⟩
        obtain ⟨g₂, hr₂, ha₂⟩ := ihc hchildren (some t.name) hready
        obtain ⟨g', hr, ha⟩ := ih hnext parent (hg.put _)
        refine ⟨g', (reads_open ht hread hg).trans (hr₂.trans ((ha₂.reads_close ht).trans hr)),
          ha.behind ?_ rfl⟩
        rw [Forest.textNode_append]
        rfl

end Growth

-- ---------------------------------------------------------------------------
-- Reading a whole text

theorem parse_of_reads {s : List Char} {g : Growth} (h : Growth.Reads s .empty g) (hg : g.Ready)
    (ho : g.opened = []) : Forest.parse Grammar.standard s = .ok g.rested.content := by
  have htokens := h false []
  rw [List.append_nil, Token.scan_nil] at htokens
  have hfold : (Token.ofText s).foldlM (Growth.token Grammar.standard) Growth.empty = .ok g :=
    htokens
  have hclosed : g.rested.opened = [] := ho
  rw [Forest.parse, Forest.ofTokens, hfold, ok_bind, Growth.finish, Growth.flush_standard hg,
    ok_bind, hclosed]
  rfl

/-- A forest that is written and read again. -/
theorem parse_verbatim {f : Forest α} (h : f.isVerbatim = true) (parent : Option String) :
    Forest.parse Grammar.standard (bareStyle.write parent f) = .ok (f.reread [] "") := by
  have hempty : Growth.empty.Ready := ⟨rfl, nofun⟩
  obtain ⟨g, hr, ha⟩ := Growth.exists_reads_written h parent hempty
  rw [parse_of_reads hr ha.ready ha.opened, ha.rested]
  simp [Growth.put, Growth.empty, Growth.names]

theorem parse_written {f : Forest α} (h : f.isLegible = true) (parent : Option String) :
    Forest.parse Grammar.standard (bareStyle.write parent f) = .ok (f.reread [] "") :=
  parse_verbatim (Forest.isVerbatim_of_isLegible h) parent

end Mailgrid.Markup
