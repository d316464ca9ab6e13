import Mailgrid.Proofs.Failure
import Mailgrid.Proofs.Markup.Brackets
import Mailgrid.Proofs.Markup.Reading

/-!
# Reading refuses nothing but marked sections

A forest that is read has no lists of words, and brackets and literal sections
only if its text has a bracket; and nothing else can stop the reading than markup
that is refused, for which there has to be a bracket too. `within_parse` is the
fold over all tokens, of which each keeps this of the state that is reached.
-/

namespace Mailgrid.Markup

open Mailgrid.Text (BracketsIf)

variable {b : Prop}

-- ---------------------------------------------------------------------------
-- Tags

/-- No list of words, and only if `b` a bracket. -/
def AttributeValue.Within (b : Prop) : AttributeValue → Prop
  | .text value => BracketsIf b value.toList
  | .words _ => False
  | .charset value => BracketsIf b value.toList
  | .contentType value => BracketsIf b value.toList

theorem AttributeValue.Within.shown {value : AttributeValue} (h : value.Within b) :
    BracketsIf b value.shown.toList := by
  cases value with
  | words => exact h.elim
  | _ => exact h

namespace Tag

def Within (b : Prop) (t : Tag) : Prop :=
  BracketsIf b t.name.toList ∧ ∀ a ∈ t.attributes, BracketsIf b a.1.toList ∧ a.2.Within b

variable {t : Tag} {name : String} {value : AttributeValue}

theorem Within.get? (h : t.Within b) (hv : t.get? name = some value) : value.Within b := by
  obtain ⟨_, _, hsplit, -⟩ := List.lookup_eq_some_iff.mp hv
  exact (h.2 (name, value) (by simp [hsplit])).2

theorem Within.set (h : t.Within b) (hname : BracketsIf b name.toList) (hv : value.Within b) :
    (t.set name value).Within b := by
  refine ⟨h.1, fun a ha => ?_⟩
  rcases Table.mem_of_mem_assign ha with rfl | ha
  · exact ⟨hname, hv⟩
  · exact h.2 a ha

theorem within_markCharset (h : t.Within b) : Yields b (Within b) (markCharset t) := by
  unfold markCharset
  split
  · exact .ok h
  · split
    · rename_i label _ _ hlabel
      exact .ok (h.set (.of_not_mem (by decide)) (h.get? hlabel).shown)
    · rename_i content kind hlabel hcontent hkind
      have hc := h.get? hcontent
      have hk := h.get? hkind
      split
      · exact hk.elim
      · exact hc.elim
      · split
        · exact .ok (h.set (.of_not_mem (by decide)) hc.shown)
        · exact .ok h
    · exact .ok h

theorem read_eq_markCharset (name : String) (attributes : List (String × AttributeValue)) :
    Tag.read Grammar.standard name attributes =
      markCharset ⟨name, attributes, Grammar.standard.void.contains name⟩ := by
  have hread : Tag.read Grammar.standard name attributes =
      (markCharset ⟨name, attributes, Grammar.standard.void.contains name⟩ >>= pure) := rfl
  rw [hread, bind_pure]

end Tag

-- ---------------------------------------------------------------------------
-- Forests

namespace Forest

/-- Tags and texts without lists of words, and only if `b` with brackets or literal sections. -/
def Within (b : Prop) : Forest α → Prop
  | nil => True
  | leaf _ kind content next => (kind = .cdata → b) ∧ BracketsIf b content.toList ∧ next.Within b
  | element _ tag children next => tag.Within b ∧ children.Within b ∧ next.Within b

theorem within_append {f g : Forest α} : (f ++ g).Within b ↔ f.Within b ∧ g.Within b := by
  induction f with
  | nil => simp [Within]
  | leaf m kind content next ih => simp only [leaf_append, Within, ih, and_assoc]
  | element m tag children next _ ih => simp only [element_append, Within, ih, and_assoc]

end Forest

-- ---------------------------------------------------------------------------
-- States of the fold

namespace Growth

structure Within (b : Prop) (g : Growth) : Prop where
  content : g.content.Within b
  opened : ∀ o ∈ g.opened, o.1.Within b ∧ o.2.Within b
  pending : ∀ text ∈ g.pending, BracketsIf b text.toList

variable {g : Growth}

theorem bracketsIf_settled {content : String} (h : BracketsIf b content.toList)
    (keepsBlanks : Bool) : BracketsIf b (settled keepsBlanks content).toList := by
  unfold settled
  split
  · split
    · exact .of_not_mem (by decide)
    · exact .of_not_mem (by decide)
  · exact h

theorem Within.addLeaf (h : g.Within b) {kind : LeafKind} {content : String}
    (hkind : kind = .cdata → b) (hcontent : BracketsIf b content.toList) :
    Yields b (Within b) (g.addLeaf Grammar.standard kind content) := by
  rw [addLeaf_standard]
  refine .ok ⟨?_, h.opened, h.pending⟩
  exact Forest.within_append.mpr ⟨h.content, hkind, bracketsIf_settled hcontent _, trivial⟩

theorem Within.flush (h : g.Within b) : Yields b (Within b) (g.flush Grammar.standard) := by
  unfold Growth.flush
  split
  · exact .ok h
  · rename_i content hp
    rw [textKind_standard, ok_bind]
    have hnone : ({ g with pending := none } : Growth).Within b := ⟨h.content, h.opened, nofun⟩
    exact hnone.addLeaf nofun (h.pending content hp)

theorem Within.addBehind (h : g.Within b) {kind : LeafKind} {content : String}
    (hkind : kind = .cdata → b) (hcontent : BracketsIf b content.toList) :
    Yields b (Within b) (g.addBehind Grammar.standard kind content) :=
  h.flush.bind fun hflushed => hflushed.addLeaf hkind hcontent

theorem Within.addText (h : g.Within b) {content : String} (hc : BracketsIf b content.toList) :
    (g.addText content).Within b := by
  refine ⟨h.content, h.opened, ?_⟩
  intro text htext
  obtain rfl := Option.mem_some.mp htext
  rw [String.toList_append, Text.bracketsIf_append]
  refine ⟨?_, hc⟩
  cases hp : g.pending with
  | none => exact Text.bracketsIf_nil
  | some before => exact h.pending before hp

theorem Within.open_ (h : g.Within b) {tag : Tag} (ht : tag.Within b) : (g.open_ tag).Within b :=
  ⟨trivial, List.forall_mem_cons.mpr ⟨⟨ht, h.content⟩, h.opened⟩, h.pending⟩

theorem Within.closeInnermost (h : g.Within b) : g.closeInnermost.Within b := by
  unfold Growth.closeInnermost
  split
  · exact h
  · rename_i tag before outer ho
    have hopened := h.opened
    rw [ho] at hopened
    obtain ⟨⟨htag, hbefore⟩, houter⟩ := List.forall_mem_cons.mp hopened
    exact ⟨Forest.within_append.mpr ⟨hbefore, htag, h.content, trivial⟩, houter, h.pending⟩

theorem Within.closeMany (h : g.Within b) (n : Nat) : (closeMany n g).Within b := by
  induction n generalizing g with
  | zero => exact h
  | succ n ih => exact ih h.closeInnermost

theorem Within.close (h : g.Within b) (name : String) : (g.close name).Within b := by
  unfold Growth.close
  split
  · exact h
  · exact h.closeMany _

theorem Within.endTag (h : g.Within b) (name : String) :
    Yields b (Within b) (g.endTag Grammar.standard name) := by
  unfold Growth.endTag
  split
  · exact .ok ⟨h.content, h.opened, h.pending⟩
  · exact h.flush.bind fun hflushed => .ok (hflushed.close name)

theorem Within.startTag (h : g.Within b) {written : OpenTag}
    (hw : Token.Within b (.startTag written)) :
    Yields b (Within b) (g.startTag Grammar.standard written) := by
  obtain ⟨hname, hattributes⟩ := hw
  have hcollected : ∀ a ∈ Table.ofList (written.attributes.map fun pair =>
      (pair.1, AttributeValue.text pair.2)), BracketsIf b a.1.toList ∧ a.2.Within b := by
    intro a ha
    obtain ⟨pair, hp, rfl⟩ := List.mem_map.mp ((Table.ofList_spec _).2 a ha)
    exact hattributes pair hp
  have hcollect := collect_standard written.attributes
  unfold Growth.startTag
  rw [show Grammar.standard.repeated = .lastCounts from rfl, hcollect, ok_bind]
  refine h.flush.bind fun {flushed} hflushed => ?_
  rw [Tag.read_eq_markCharset]
  refine (Tag.within_markCharset ⟨hname, hcollected⟩).bind fun {tag} htag => ?_
  have hopen := hflushed.open_ htag
  split
  · exact .ok (hopen.close _)
  · split
    · obtain ⟨hcontent, hopened, hpending⟩ := hopen.close written.name
      exact .ok ⟨hcontent, hopened, hpending⟩
    · exact .ok hopen

theorem Within.marked (h : g.Within b) (hb : b) (content : String) :
    Yields b (Within b) (g.marked Grammar.standard content) := by
  unfold Growth.marked
  split
  · exact h.addBehind (fun _ => hb) fun _ => hb
  · exact h.addBehind (fun _ => hb) fun _ => hb

theorem Within.token (h : g.Within b) {t : Token} (ht : t.Within b) :
    Yields b (Within b) (g.token Grammar.standard t) := by
  cases t with
  | text content => exact .ok (h.addText ht)
  | startTag tag => exact h.startTag ht
  | endTag name => exact h.endTag name
  | comment content => exact h.addBehind nofun ht
  | docType content =>
    refine h.addBehind nofun ?_
    rw [String.toList_ofList]
    exact ht.of_subset (List.drop_sublist 8 _).subset
  | marked content => exact h.marked ht content
  | instruction content => exact h.addBehind nofun ht
  | refused f =>
    obtain ⟨rfl, hb⟩ := ht
    exact .inr ⟨rfl, hb⟩

end Growth

/-- A text without references reads as a forest, unless it has a bracket. -/
theorem within_parse {s : List Char} (hamp : '&' ∉ s) (h : BracketsIf b s) :
    Yields b (Forest.Within b) (Forest.parse Grammar.standard s) := by
  have hempty : Growth.empty.Within b := ⟨trivial, nofun, nofun⟩
  refine (Yields.foldlM (Token.within_ofText hamp h) (fun hg ht => hg.token ht) hempty).bind
    fun {g} hg => ?_
  exact hg.flush.bind fun hflushed => .ok (hflushed.closeMany _).content

-- ---------------------------------------------------------------------------
-- What is written

theorem of_labelAt? {lineStart : Bool} {s head rest : List Char}
    (h : labelAt? lineStart s = some (head, rest)) : head ⊆ s ∧ rest ⊆ s := by
  have hafter {s rest : List Char}
      (h : Text.after? "charset=".toList (Text.skipBlanks s) = some rest) : rest ⊆ s := by
    have hrest : rest ⊆ Text.skipBlanks s := by
      rw [Text.append_of_after? h]
      exact List.subset_append_right _ _
    exact List.Subset.trans hrest (Text.skipBlanks_subset s)
  simp only [labelAt?] at h
  split at h
  · rename_i hs
    cases h
    split at hs
    · exact ⟨(List.take_sublist _ _).subset, hafter hs⟩
    · cases hs
  · split at h
    · obtain ⟨r, hr, he⟩ := Option.map_eq_some_iff.mp h
      cases he
      exact ⟨List.cons_subset_cons _ (List.take_sublist _ _).subset,
        List.subset_cons_of_subset _ (hafter hr)⟩
    · cases h

theorem bracketsIf_relabel (lineStart : Bool) {s : List Char} (h : BracketsIf b s) :
    BracketsIf b (relabel lineStart s) := by
  fun_induction relabel lineStart s with
  | case1 => exact h
  | case2 lineStart c tail head rest hl ih =>
    obtain ⟨hhead, hrest⟩ := of_labelAt? hl
    have hbehind : rest.dropWhile (· != ';') ⊆ c :: tail :=
      List.Subset.trans (List.dropWhile_sublist _).subset hrest
    rw [Text.bracketsIf_append, Text.bracketsIf_append]
    exact ⟨⟨h.of_subset hhead, .of_not_mem (by decide)⟩, ih (h.of_subset hbehind)⟩
  | case3 lineStart c tail _ ih =>
    rw [Text.bracketsIf_cons] at h ⊢
    exact ⟨h.1, ih h.2⟩

theorem AttributeValue.Within.printed {value : AttributeValue} (h : value.Within b) :
    BracketsIf b value.printed := by
  cases value with
  | text => exact h
  | words => exact h.elim
  | charset =>
    have hlabel : '[' ∉ writtenCharset.toList := by decide
    exact .of_not_mem hlabel
  | contentType => exact bracketsIf_relabel true h

theorem bracketsIf_inQuotes {value : List Char} (h : BracketsIf b value) :
    BracketsIf b (inQuotes value) := by
  have hescaped : BracketsIf b
      (value.flatMap fun c => if c = '"' then "&quot;".toList else [c]) := by
    refine .flatMap fun c hc => ?_
    split
    · exact .of_not_mem (by decide)
    · exact h.of_subset (by simpa using hc)
  unfold inQuotes
  split
  · split
    · exact hescaped.between (by decide)
    · exact h.between (by decide)
  · exact h.between (by decide)

theorem Tag.Within.startTag {t : Tag} (h : t.Within b) {ending : List Char}
    (he : BracketsIf b ending) : BracketsIf b (bareStyle.startTag t ending) := by
  have hattributes : BracketsIf b (bareStyle.attributes t.attributes) := by
    refine .flatMap fun a ha => ?_
    obtain ⟨name, value⟩ := a
    obtain ⟨hname, hvalue⟩ := h.2 _ ha
    have hprinted := bracketsIf_inQuotes hvalue.printed
    change BracketsIf b (' ' :: name.toList ++ '=' :: inQuotes value.printed)
    simp [hname, hprinted]
  simp [Style.startTag, h.1, hattributes, he]

theorem bracketsIf_leaf (parent : Option String) {kind : LeafKind} {content : String}
    (hkind : kind = .cdata → b) (h : BracketsIf b content.toList) :
    BracketsIf b (bareStyle.leaf parent kind content) := by
  have hbetween (before after : List Char) (hbefore : '[' ∉ before) (hafter : '[' ∉ after) :
      BracketsIf b (before ++ content.toList ++ after) := by
    rw [Text.bracketsIf_append, Text.bracketsIf_append]
    exact ⟨⟨.of_not_mem hbefore, h⟩, .of_not_mem hafter⟩
  cases kind with
  | text kind => rwa [Style.leaf_text]
  | comment => exact hbetween "<!--".toList "-->".toList (by decide) (by decide)
  | cdata => exact .of (hkind rfl)
  | instruction => exact hbetween "<?".toList ['>'] (by decide) (by decide)
  | declaration => exact hbetween "<?".toList "?>".toList (by decide) (by decide)
  | docType => exact hbetween "<!DOCTYPE ".toList ['>', '\n'] (by decide) (by decide)
  | leadingDocType => exact hbetween "<!DOCTYPE ".toList ['>'] (by decide) (by decide)

theorem Forest.Within.write {f : Forest α} (h : f.Within b) (parent : Option String) :
    BracketsIf b (bareStyle.write parent f) := by
  induction f generalizing parent with
  | nil => exact Text.bracketsIf_nil
  | leaf m kind content next ih =>
    obtain ⟨hkind, hcontent, hnext⟩ := h
    rw [Style.write, Text.bracketsIf_append]
    exact ⟨bracketsIf_leaf parent hkind hcontent, ih hnext parent⟩
  | element m tag children next ihc ih =>
    obtain ⟨htag, hchildren, hnext⟩ := h
    have hopen : BracketsIf b (bareStyle.startTag tag ['>']) :=
      htag.startTag (.of_not_mem (by decide))
    have hclosed : BracketsIf b (bareStyle.startTag tag ['/', '>']) :=
      htag.startTag (.of_not_mem (by decide))
    have hend : BracketsIf b (Style.endTag tag) := by simp [Style.endTag, htag.1]
    have hfull : BracketsIf b (bareStyle.startTag tag ['>'] ++
        (bareStyle.write (some tag.name) children ++
          (Style.endTag tag ++ bareStyle.write parent next))) := by
      simp only [Text.bracketsIf_append]
      exact ⟨hopen, ihc hchildren _, hend, ih hnext parent⟩
    cases children with
    | leaf => rwa [Style.write_full parent m tag rfl]
    | element => rwa [Style.write_full parent m tag rfl]
    | nil =>
      cases hv : tag.void with
      | false => rwa [Style.write_open parent m hv]
      | true =>
        rw [Style.write_void parent m hv, Text.bracketsIf_append]
        exact ⟨hclosed, ih hnext parent⟩

end Mailgrid.Markup
