import Mailgrid.Markup.ClassList
import Mailgrid.Proofs.Failure
import Mailgrid.Proofs.Markup.Classes
import Mailgrid.Proofs.Markup.Names

/-!
# Markup without ampersands

A reference is known by its ampersand. A text that has none is read, by whatever
grammar, as a forest that has none: what the reader cuts out of the text is part
of it, lower case brings no sign in, and a value without an ampersand has nothing
to resolve.
-/

namespace Mailgrid.Text

variable {c : Char}

theorem of_mem_intercalate {separator : String} {l : List String}
    (h : c ∈ (separator.intercalate l).toList) : c ∈ separator.toList ∨ ∃ a ∈ l, c ∈ a.toList := by
  induction l with
  | nil => simp at h
  | cons a rest ih =>
    cases rest with
    | nil => exact .inr ⟨a, List.mem_cons_self, by simpa using h⟩
    | cons b rest =>
      rw [String.intercalate_cons_cons, String.toList_append, String.toList_append,
        List.mem_append, List.mem_append] at h
      rcases h with (h | h) | h
      · exact .inr ⟨a, List.mem_cons_self, h⟩
      · exact .inl h
      · exact (ih h).imp_right fun ⟨d, hd, hc⟩ => ⟨d, List.mem_cons_of_mem a hd, hc⟩

theorem ampersand_not_mem_hexPlaces (n places : Nat) : '&' ∉ hexPlaces n places := by
  induction places generalizing n with
  | zero => exact List.not_mem_nil
  | succ places ih =>
    have hdigits : ∀ d < 16, smallHexDigit d ≠ '&' := by decide
    have hdigit := hdigits (n % 16) (Nat.mod_lt n (by decide))
    simp only [hexPlaces, List.mem_append, List.mem_singleton, not_or]
    exact ⟨ih (n / 16), hdigit.symm⟩

theorem ampersand_not_mem_escapeBy {quote : Char} (hc : c ≠ '&') : '&' ∉ escapeBy quote c := by
  have hnumber : '&' ∉ byNumber c := by
    simp only [byNumber]
    split
    · simp [ampersand_not_mem_hexPlaces]
    · split <;> simp [ampersand_not_mem_hexPlaces]
  unfold escapeBy
  repeat' split
  all_goals first | exact hnumber | simp [hc.symm]

theorem ampersand_not_mem_quotedString {s : String} (h : '&' ∉ s.toList) :
    '&' ∉ (quotedString s).toList := by
  have hchars : '&' ∉ s.toList.flatMap (escapeBy
      (if s.toList.contains '\'' && !s.toList.contains '"' then '"' else '\'')) := by
    rw [List.mem_flatMap]
    rintro ⟨c, hc, hm⟩
    exact ampersand_not_mem_escapeBy (fun he => h (he ▸ hc)) hm
  rw [quotedString, String.toList_ofList, quoted]
  simp only [List.cons_append, List.mem_cons, List.mem_append, List.not_mem_nil, or_false, not_or]
  refine ⟨?_, hchars, ?_⟩
  · split <;> decide
  · split <;> decide

theorem ampersand_not_mem_lower {s : List Char} (h : '&' ∉ s) : '&' ∉ lower s := by
  intro hm
  rcases (of_mem_lower hm).2 with hs | hletter
  · exact h hs
  · exact Markup.ne_of_isLetterly hletter (by decide) rfl rfl

end Mailgrid.Text

namespace Mailgrid.Markup

-- ---------------------------------------------------------------------------
-- Values and tags

/-- The value has no ampersand. -/
def AttributeValue.IsProtected : AttributeValue → Prop
  | .text value => '&' ∉ value.toList
  | .words values => ∀ word ∈ values, '&' ∉ word.toList
  | .charset value => '&' ∉ value.toList
  | .contentType value => '&' ∉ value.toList

/-- No name and no value of the tag has an ampersand. -/
structure Tag.IsProtected (t : Tag) : Prop where
  name : '&' ∉ t.name.toList
  attributes : ∀ a ∈ t.attributes, '&' ∉ a.1.toList ∧ a.2.IsProtected

theorem AttributeValue.IsProtected.shown {value : AttributeValue} (h : value.IsProtected) :
    '&' ∉ value.shown.toList := by
  cases value with
  | words values =>
    have hitems : '&' ∉ (", ".intercalate (values.map Text.quotedString)).toList := by
      intro hm
      rcases Text.of_mem_intercalate hm with hm | ⟨item, hitem, hm⟩
      · exact absurd hm (by decide)
      · obtain ⟨word, hword, rfl⟩ := List.mem_map.mp hitem
        exact Text.ampersand_not_mem_quotedString (h word hword) hm
    rw [AttributeValue.shown, Text.bracketed, String.toList_append, String.toList_append]
    simp only [List.mem_append, not_or]
    exact ⟨⟨by decide, hitems⟩, by decide⟩
  | _ => exact h

theorem ampersand_not_mem_wordsOf {s : String} (h : '&' ∉ s.toList) :
    ∀ word ∈ wordsOf s, '&' ∉ word.toList := by
  intro word hword
  obtain ⟨chars, hchars, rfl⟩ := List.mem_map.mp hword
  rw [String.toList_ofList]
  exact fun hm => h ((Text.of_mem_words hchars).2 _ hm).2

namespace Tag

variable {t tag : Tag} {name : String} {value : AttributeValue}

theorem IsProtected.get? (h : t.IsProtected) (hv : t.get? name = some value) :
    value.IsProtected := by
  obtain ⟨_, _, hsplit, -⟩ := List.lookup_eq_some_iff.mp hv
  exact (h.attributes (name, value) (by simp [hsplit])).2

theorem IsProtected.set (h : t.IsProtected) (hname : '&' ∉ name.toList) (hv : value.IsProtected) :
    (t.set name value).IsProtected := by
  refine ⟨h.name, fun a ha => ?_⟩
  rcases Table.mem_of_mem_assign ha with rfl | ha
  · exact ⟨hname, hv⟩
  · exact h.attributes a ha

theorem IsProtected.classes (h : t.IsProtected) : ∀ word ∈ t.classes, '&' ∉ word.toList := by
  unfold Tag.classes
  split
  · rename_i value hv
    have hvalue := h.get? hv
    unfold classesOf
    split
    · exact hvalue
    · exact ampersand_not_mem_wordsOf hvalue.shown
  · exact nofun

theorem IsProtected.addClass (h : t.IsProtected) (hn : '&' ∉ name.toList) :
    (t.addClass name).IsProtected := by
  unfold Tag.addClass
  split
  · exact h
  · refine h.set (by decide) ?_
    intro hm
    rcases Text.of_mem_intercalate hm with hm | ⟨word, hword, hm⟩
    · exact absurd hm (by decide)
    · rcases List.mem_append.mp hword with hword | hword
      · exact h.classes word hword hm
      · rw [List.mem_singleton.mp hword] at hm
        exact hn hm

theorem isProtected_markCharset (h : t.IsProtected) (ht : markCharset t = .ok tag) :
    tag.IsProtected := by
  unfold markCharset at ht
  split at ht
  · cases ht
    exact h
  · split at ht
    · rename_i label _ _ hlabel
      cases ht
      exact h.set (by decide) (h.get? hlabel).shown
    · rename_i content kind _ hcontent _
      split at ht
      · cases ht
      · split at ht
        · cases ht
        · cases ht
          exact h
      · split at ht
        · cases ht
          exact h.set (by decide) (h.get? hcontent).shown
        · cases ht
          exact h
    · cases ht
      exact h

end Tag

/-- No name and no value among these attributes has an ampersand. -/
def ProtectedAttributes (attributes : List (String × AttributeValue)) : Prop :=
  ∀ a ∈ attributes, '&' ∉ a.1.toList ∧ a.2.IsProtected

variable {attributes out : List (String × AttributeValue)}

theorem protected_collect {repeated : Repeated} {pairs : List (String × String)}
    (hp : ∀ a ∈ pairs, '&' ∉ a.1.toList ∧ '&' ∉ a.2.toList)
    (h : collect repeated pairs = .ok out) : ProtectedAttributes out := by
  refine keeps_foldlM (P := ProtectedAttributes) (fun {known pair known'} hknown hpair hstep => ?_)
    hp (a := []) nofun h
  have hvalue : (AttributeValue.text pair.2).IsProtected := hpair.2
  dsimp only at hstep
  split at hstep
  · cases hstep
    exact List.forall_mem_append.mpr ⟨hknown, List.forall_mem_singleton.mpr ⟨hpair.1, hvalue⟩⟩
  · split at hstep
    · cases hstep
      intro a ha
      rcases Table.mem_of_mem_assign ha with rfl | ha
      · exact ⟨hpair.1, hvalue⟩
      · exact hknown a ha
    · cases hstep
      exact hknown
    · cases hstep

theorem protected_splitLists {grammar : Grammar} {element : String}
    (ha : ProtectedAttributes attributes) (h : splitLists grammar element attributes = .ok out) :
    ProtectedAttributes out := by
  unfold splitLists at h
  split at h
  · cases h
    exact ha
  · split at h
    · cases h
      exact nofun
    · cases h
  · intro b hb
    obtain ⟨⟨name, value⟩, hm, hb⟩ := of_mem_mapM h b hb
    obtain ⟨hname, hvalue⟩ := ha _ hm
    simp only [bind_eq_ok] at hb
    obtain ⟨listed, -, hb⟩ := hb
    split at hb
    · split at hb
      · cases hb
        exact ⟨hname, ampersand_not_mem_wordsOf hvalue.shown⟩
      · cases hb
    · cases hb
      exact ⟨hname, hvalue⟩

theorem Tag.isProtected_read {grammar : Grammar} {name : String} {tag : Tag}
    (hname : '&' ∉ name.toList) (ha : ProtectedAttributes attributes)
    (h : Tag.read grammar name attributes = .ok tag) : tag.IsProtected := by
  simp only [Tag.read] at h
  split at h
  · cases h
  · simp only [bind_eq_ok, pure_eq_ok] at h
    obtain ⟨split, hsplit, marked, hmarked, _, -, rfl⟩ := h
    have htag : Tag.IsProtected ⟨name, split, grammar.void.contains name⟩ :=
      ⟨hname, protected_splitLists ha hsplit⟩
    exact isProtected_markCharset htag hmarked

-- ---------------------------------------------------------------------------
-- Tokens

namespace Token

/-- The token has no ampersand; what an end tag closes and why a reading ends is no part of a
forest. -/
def IsProtected : Token → Prop
  | .text content => '&' ∉ content.toList
  | .startTag tag => '&' ∉ tag.name.toList ∧
      ∀ a ∈ tag.attributes, '&' ∉ a.1.toList ∧ '&' ∉ a.2.toList
  | .endTag _ => True
  | .comment content => '&' ∉ content.toList
  | .docType content => '&' ∉ content.toList
  | .marked content => '&' ∉ content.toList
  | .instruction content => '&' ∉ content.toList
  | .refused _ => True

variable {s rest : List Char} {tokens : List Token} {literal : Option (List Char)}

theorem isProtected_textOf (h : '&' ∉ s) : (textOf s).IsProtected := by
  simpa [textOf, IsProtected] using h

theorem isProtected_closedBy (h : '&' ∉ s) : ∀ t ∈ closedBy s, t.IsProtected := by
  unfold closedBy
  extract_lets start
  split
  · exact List.forall_mem_singleton.mpr trivial
  · split
    · exact List.forall_mem_singleton.mpr trivial
    · split
      · exact nofun
      · exact List.forall_mem_singleton.mpr (by simpa [IsProtected] using h)

theorem isProtected_upToClose {token : List Char → List Token} (hs : '&' ∉ s)
    (ht : ∀ {inner}, '&' ∉ inner → ∀ t ∈ token inner, t.IsProtected)
    (h : upToClose token s = .read tokens literal rest) : ∀ t ∈ tokens, t.IsProtected := by
  unfold upToClose at h
  split at h
  · rename_i inner after hcut
    cases h
    exact ht fun hm => hs ((Text.subset_of_cutAtChar hcut).1 hm)
  · cases h

theorem isProtected_startTagAt (hs : '&' ∉ s) (h : startTagAt s = .read tokens literal rest) :
    ∀ t ∈ tokens, t.IsProtected := by
  have hread := OpenTag.of_read s
  unfold startTagAt at h
  split at h
  · rename_i tag after he
    cases h
    rw [he] at hread
    obtain ⟨-, name, found, hname, hfound, htag, hattributes⟩ := hread
    refine List.forall_mem_singleton.mpr ⟨?_, ?_⟩
    · rw [htag, String.toList_ofList]
      exact Text.ampersand_not_mem_lower fun hm => hs (hname hm)
    · rw [hattributes, List.forall_mem_map]
      intro a ha
      obtain ⟨-, haname, havalue, -⟩ := hfound a ha
      have hvalue : '&' ∉ a.value.text := fun hm => (havalue _ hm).elim hs (by decide)
      rw [OpenTag.Attribute.pair, String.toList_ofList, String.toList_ofList,
        Reference.resolve_of_not_mem hvalue]
      exact ⟨Text.ampersand_not_mem_lower fun hm => hs (haname hm), hvalue⟩
  · cases h
  · cases h
  · cases h
    have htaken {n : Nat} : '&' ∉ s.take n := fun hm => hs ((List.take_sublist _ _).subset hm)
    exact List.forall_mem_singleton.mpr (isProtected_textOf (by simp [htaken]))

theorem isProtected_declarationAt (hs : '&' ∉ s)
    (h : declarationAt s = .read tokens literal rest) : ∀ t ∈ tokens, t.IsProtected := by
  have hinner {look : List Char → Option (List Char)} {t inner after : List Char} (ht : t ⊆ s)
      (hcut : Text.cutAt look t = some (inner, after)) : '&' ∉ (String.ofList inner).toList := by
    rw [String.toList_ofList]
    exact fun hm => hs (ht ((Text.subset_of_cutAt hcut).1 hm))
  unfold declarationAt at h
  split at h
  · unfold commentAt at h
    split at h
    · rename_i hcut
      cases h
      exact List.forall_mem_singleton.mpr (hinner (by simp) hcut)
    · cases h
  · unfold sectionAt at h
    repeat' split at h
    all_goals cases h
    rename_i hcut
    exact List.forall_mem_singleton.mpr (hinner (by simp) hcut)
  · refine isProtected_upToClose hs (fun {inner} hi => List.forall_mem_singleton.mpr ?_) h
    split <;> simpa [IsProtected] using hi

theorem isProtected_constructAt (hs : '&' ∉ s)
    (h : constructAt s = .read tokens literal rest) : ∀ t ∈ tokens, t.IsProtected := by
  unfold constructAt at h
  split at h
  · exact isProtected_upToClose (fun hm => hs (List.mem_cons_of_mem _ hm)) isProtected_closedBy h
  · exact isProtected_declarationAt (fun hm => hs (List.mem_cons_of_mem _ hm)) h
  · refine isProtected_upToClose (fun hm => hs (List.mem_cons_of_mem _ hm)) (fun {inner} hi => ?_) h
    exact List.forall_mem_singleton.mpr (by simpa [IsProtected] using hi)
  · cases h
  · split at h
    · exact isProtected_startTagAt hs h
    · cases h
      exact List.forall_mem_singleton.mpr (isProtected_textOf (by decide))

theorem isProtected_ofText (hs : '&' ∉ s) : ∀ t ∈ ofText s, t.IsProtected :=
  forall_scan hs (fun _ ht => isProtected_textOf fun hm => hs (ht hm)) (fun _ => trivial)
    (fun _ ht _ _ _ hread => isProtected_constructAt (fun hm => hs (ht hm)) hread)
    (fun _ _ _ _ => trivial) false none (List.Subset.refl s)

end Token

-- ---------------------------------------------------------------------------
-- Forests

namespace Forest

/-- The contents of all leaves, in document order. -/
def leaves : Forest α → List String
  | nil => []
  | leaf _ _ content next => content :: next.leaves
  | element _ _ children next => children.leaves ++ next.leaves

@[simp] theorem leaves_append (f g : Forest α) : (f ++ g).leaves = f.leaves ++ g.leaves := by
  induction f with
  | nil => rfl
  | leaf _ _ _ _ ih => simp [leaves, ih]
  | element _ _ _ _ _ ih => simp [leaves, ih]

/-- Nothing in the forest has an ampersand: no text, no comment and no declaration, no name and no
value of an attribute. -/
structure Protected (f : Forest α) : Prop where
  leaves : ∀ content ∈ f.leaves, '&' ∉ content.toList
  tags : ∀ e ∈ f.descendants, e.tag.IsProtected

end Forest

-- ---------------------------------------------------------------------------
-- What grows

namespace Growth

/-- No leaf so far has an ampersand, nor has the text that is to be one. -/
structure Protected (g : Growth) : Prop where
  content : ∀ content ∈ g.content.leaves, '&' ∉ content.toList
  opened : ∀ o ∈ g.opened, ∀ content ∈ o.2.leaves, '&' ∉ content.toList
  pending : ∀ text ∈ g.pending, '&' ∉ text.toList

variable {grammar : Grammar} {g g' : Growth}

theorem ampersand_not_mem_settled {content : String} (h : '&' ∉ content.toList)
    (keepsBlanks : Bool) : '&' ∉ (settled keepsBlanks content).toList := by
  unfold settled
  split
  · split <;> decide
  · exact h

theorem Protected.addLeaf (h : g.Protected) {kind : LeafKind} {content : String}
    (hc : '&' ∉ content.toList) (hg : g.addLeaf grammar kind content = .ok g') :
    g'.Protected := by
  unfold Growth.addLeaf at hg
  split at hg
  · cases hg
    refine ⟨?_, h.opened, h.pending⟩
    change ∀ c ∈ (g.content ++ _).leaves, _
    rw [Forest.leaves_append]
    exact List.forall_mem_append.mpr ⟨h.content,
      List.forall_mem_singleton.mpr (ampersand_not_mem_settled hc _)⟩
  · cases hg

theorem Protected.flush (h : g.Protected) (hg : g.flush grammar = .ok g') : g'.Protected := by
  unfold Growth.flush at hg
  split at hg
  · cases hg
    exact h
  · rename_i content hp
    simp only [bind_eq_ok] at hg
    obtain ⟨kind, -, hg⟩ := hg
    have hnone : ({ g with pending := none } : Growth).Protected := ⟨h.content, h.opened, nofun⟩
    exact hnone.addLeaf (h.pending content hp) hg

theorem Protected.addBehind (h : g.Protected) {kind : LeafKind} {content : String}
    (hc : '&' ∉ content.toList) (hg : g.addBehind grammar kind content = .ok g') :
    g'.Protected := by
  simp only [Growth.addBehind, bind_eq_ok] at hg
  obtain ⟨flushed, hflushed, hg⟩ := hg
  exact (h.flush hflushed).addLeaf hc hg

theorem Protected.addText (h : g.Protected) {content : String} (hc : '&' ∉ content.toList) :
    (g.addText content).Protected := by
  refine ⟨h.content, h.opened, ?_⟩
  intro text htext
  obtain rfl := Option.mem_some.mp htext
  rw [String.toList_append, List.mem_append, not_or]
  refine ⟨?_, hc⟩
  cases hp : g.pending with
  | none => exact List.not_mem_nil
  | some before => exact h.pending before hp

theorem Protected.open_ (h : g.Protected) (tag : Tag) : (g.open_ tag).Protected :=
  ⟨nofun, List.forall_mem_cons.mpr ⟨h.content, h.opened⟩, h.pending⟩

theorem Protected.closeInnermost (h : g.Protected) : g.closeInnermost.Protected := by
  unfold Growth.closeInnermost
  split
  · exact h
  · rename_i tag before outer ho
    have hopened := h.opened
    rw [ho] at hopened
    obtain ⟨hbefore, houter⟩ := List.forall_mem_cons.mp hopened
    refine ⟨?_, houter, h.pending⟩
    change ∀ c ∈ (before ++ _).leaves, _
    rw [Forest.leaves_append]
    refine List.forall_mem_append.mpr ⟨hbefore, ?_⟩
    simpa [Forest.leaves] using h.content

theorem Protected.closeMany (h : g.Protected) (n : Nat) : (closeMany n g).Protected := by
  induction n generalizing g with
  | zero => exact h
  | succ n ih => exact ih h.closeInnermost

theorem Protected.close (h : g.Protected) (name : String) : (g.close name).Protected := by
  unfold Growth.close
  split
  · exact h
  · exact h.closeMany _

theorem Protected.startTag (h : g.Protected) {written : OpenTag}
    (hg : g.startTag grammar written = .ok g') : g'.Protected := by
  simp only [Growth.startTag, bind_eq_ok] at hg
  obtain ⟨attributes, -, flushed, hflushed, tag, -, hg⟩ := hg
  have hopen := (h.flush hflushed).open_ tag
  split at hg
  · cases hg
    exact hopen.close _
  · split at hg
    · cases hg
      obtain ⟨hcontent, hopened, hpending⟩ := hopen.close written.name
      exact ⟨hcontent, hopened, hpending⟩
    · cases hg
      exact hopen

theorem Protected.endTag (h : g.Protected) {name : String} (hg : g.endTag grammar name = .ok g') :
    g'.Protected := by
  unfold Growth.endTag at hg
  split at hg
  · cases hg
    exact ⟨h.content, h.opened, h.pending⟩
  · simp only [bind_eq_ok, pure_eq_ok] at hg
    obtain ⟨flushed, hflushed, rfl⟩ := hg
    exact (h.flush hflushed).close name

theorem Protected.token (h : g.Protected) {t : Token} (ht : t.IsProtected)
    (hg : g.token grammar t = .ok g') : g'.Protected := by
  have hdropped {content : String} (hc : '&' ∉ content.toList) (n : Nat) :
      '&' ∉ (String.ofList (content.toList.drop n)).toList := by
    rw [String.toList_ofList]
    exact fun hm => hc ((List.drop_sublist n _).subset hm)
  cases t with
  | text content =>
    cases hg
    exact h.addText ht
  | startTag written => exact h.startTag hg
  | endTag name => exact h.endTag hg
  | comment content => exact h.addBehind ht hg
  | docType content => exact h.addBehind (hdropped ht 8) hg
  | marked content =>
    simp only [Growth.token, Growth.marked] at hg
    split at hg
    · exact h.addBehind (hdropped ht 6) hg
    · exact h.addBehind ht hg
  | instruction content => exact h.addBehind ht hg
  | refused f => cases hg

end Growth

/-- A text without ampersands is read as a forest without ampersands, by whatever grammar. -/
theorem protected_of_parse {grammar : Grammar} {s : List Char} {f : Forest Unit} (hs : '&' ∉ s)
    (h : Forest.parse grammar s = .ok f) : f.Protected := by
  have htokens := Token.isProtected_ofText hs
  refine ⟨?_, fun e he => ?_⟩
  · simp only [Forest.parse, Forest.ofTokens, Growth.finish, bind_eq_ok, pure_eq_ok] at h
    obtain ⟨g, hg, flushed, hflushed, rfl⟩ := h
    have hempty : Growth.empty.Protected :=
      ⟨List.forall_mem_nil _, List.forall_mem_nil _, fun text hm => absurd hm (Option.not_mem_none text)⟩
    have hgrown := keeps_foldlM (fun hg ht hstep => hg.token ht hstep) htokens hempty hg
    exact ((hgrown.flush hflushed).closeMany _).content
  · obtain ⟨written, hw, attributes, hcollect, hread⟩ := exists_startTag_of_parse h e he
    obtain ⟨hname, hattributes⟩ := htokens _ hw
    exact Tag.isProtected_read hname (protected_collect hattributes hcollect) hread

end Mailgrid.Markup
