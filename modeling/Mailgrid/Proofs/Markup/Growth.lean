import Mailgrid.Markup.Forest.OfTokens

/-!
# What holds of all elements that are read

While a forest grows, elements are opened with the tags of start tags and closed
around what has grown in them. So what holds of an element when it is closed, and
of one that never was open, holds of all elements in the end.
-/

namespace Mailgrid.Markup

/-- The grammar reads this tag in a start tag. -/
def Grammar.Reads (grammar : Grammar) (written : OpenTag) (tag : Tag) : Prop :=
  ∃ attributes, collect grammar.repeated written.attributes = .ok attributes ∧
    Tag.read grammar written.name attributes = .ok tag

theorem of_markCharset {t tag : Tag} (h : markCharset t = .ok tag) :
    tag.name = t.name ∧ tag.void = t.void := by
  unfold markCharset at h
  repeat' split at h
  all_goals cases h
  all_goals exact ⟨rfl, rfl⟩

theorem of_tag_read {grammar : Grammar} {name : String}
    {attributes : List (String × AttributeValue)} {tag : Tag}
    (h : Tag.read grammar name attributes = .ok tag) :
    tag.name = name ∧ tag.void = grammar.void.contains name := by
  simp only [Tag.read] at h
  split at h
  · cases h
  · simp only [bind_eq_ok, pure_eq_ok] at h
    obtain ⟨_, -, read, hread, _, -, rfl⟩ := h
    exact of_markCharset hread

/-- Every element has this property, of its tag and its content. -/
def Forest.Holds (E : Tag → Forest α → Prop) (f : Forest α) : Prop :=
  ∀ e ∈ f.descendants, E e.tag e.children

namespace Forest

variable {E : Tag → Forest α → Prop} {f g : Forest α}

theorem holds_nil : (nil : Forest α).Holds E := by
  simp [Holds, descendants]

theorem holds_append : (f ++ g).Holds E ↔ f.Holds E ∧ g.Holds E := by
  simp [Holds, or_imp, forall_and]

theorem holds_element {m : α} {tag : Tag} {children next : Forest α} :
    (element m tag children next).Holds E ↔
      E tag children ∧ children.Holds E ∧ next.Holds E := by
  simp [Holds, descendants, or_imp, forall_and]

theorem Holds.leading (h : f.Holds E) : f.leading.Holds E := by
  induction f with
  | nil => exact h
  | leaf m kind content next ih => exact ih h
  | element m tag children next _ ih =>
    obtain ⟨htag, hchildren, hnext⟩ := holds_element.mp h
    exact holds_element.mpr ⟨htag, hchildren, ih hnext⟩

end Forest

namespace Growth

/-- This holds of the elements that are closed, and that of the tags of the open ones. -/
structure Holds (E : Tag → Forest Unit → Prop) (O : Tag → Prop) (g : Growth) : Prop where
  content : g.content.Holds E
  opened : ∀ o ∈ g.opened, O o.1 ∧ o.2.Holds E

/-- What is open may be closed around anything. -/
def Closes (E : Tag → Forest Unit → Prop) (O : Tag → Prop) : Prop :=
  ∀ tag content, O tag → E tag content

/-- An element with a tag that is read may be closed at once, and unless it is void stay open. -/
def Opens (grammar : Grammar) (E : Tag → Forest Unit → Prop) (O : Tag → Prop) (written : OpenTag) :
    Prop :=
  ∀ tag, grammar.Reads written tag → E tag .nil ∧ (tag.void = false → O tag)

variable {grammar : Grammar} {E : Tag → Forest Unit → Prop} {O : Tag → Prop} {g g' : Growth}

theorem Holds.addLeaf (h : g.Holds E O) {kind : LeafKind} {content : String}
    (hg : g.addLeaf grammar kind content = .ok g') : g'.Holds E O := by
  unfold Growth.addLeaf at hg
  split at hg
  · cases hg
    exact ⟨Forest.holds_append.mpr ⟨h.content, Forest.holds_nil⟩, h.opened⟩
  · cases hg

theorem Holds.flush (h : g.Holds E O) (hg : g.flush grammar = .ok g') : g'.Holds E O := by
  unfold Growth.flush at hg
  split at hg
  · cases hg
    exact h
  · simp only [bind_eq_ok] at hg
    obtain ⟨kind, -, hg⟩ := hg
    have hnone : ({ g with pending := none } : Growth).Holds E O := ⟨h.content, h.opened⟩
    exact hnone.addLeaf hg

theorem Holds.addBehind (h : g.Holds E O) {kind : LeafKind} {content : String}
    (hg : g.addBehind grammar kind content = .ok g') : g'.Holds E O := by
  simp only [Growth.addBehind, bind_eq_ok] at hg
  obtain ⟨flushed, hflushed, hg⟩ := hg
  exact (h.flush hflushed).addLeaf hg

/-- An element that is closed as soon as it is open was never among the open ones. -/
theorem Holds.open_close (h : g.Holds E O) {tag : Tag} (ht : E tag .nil) :
    ((g.open_ tag).close tag.name).Holds E O := by
  have hclosed : (g.open_ tag).close tag.name =
      { g with content := g.content ++ .element () tag .nil .nil } := by
    simp [Growth.open_, Growth.close, List.findIdx?_cons, Growth.closeMany, Growth.closeInnermost]
  have helement : (Forest.element () tag .nil .nil).Holds E :=
    Forest.holds_element.mpr ⟨ht, Forest.holds_nil, Forest.holds_nil⟩
  rw [hclosed]
  exact ⟨Forest.holds_append.mpr ⟨h.content, helement⟩, h.opened⟩

theorem Holds.startTag (h : g.Holds E O) {written : OpenTag} (ht : Opens grammar E O written)
    (hg : g.startTag grammar written = .ok g') : g'.Holds E O := by
  simp only [Growth.startTag, bind_eq_ok] at hg
  obtain ⟨attributes, hcollect, flushed, hflushed, tag, hread, hg⟩ := hg
  obtain ⟨hempty, hopen⟩ := ht tag ⟨attributes, hcollect, hread⟩
  obtain ⟨hname, -⟩ := of_tag_read hread
  have hf := h.flush hflushed
  have hclosed := hf.open_close hempty
  rw [hname] at hclosed
  split at hg
  · cases hg
    exact hclosed
  · split at hg
    · cases hg
      exact ⟨hclosed.content, hclosed.opened⟩
    · rename_i hvoid
      cases hg
      have htag : O tag := hopen (by simpa using hvoid)
      exact ⟨Forest.holds_nil, List.forall_mem_cons.mpr ⟨⟨htag, hf.content⟩, hf.opened⟩⟩

section
variable (hclose : Closes E O)
include hclose

theorem Holds.closeInnermost (h : g.Holds E O) : g.closeInnermost.Holds E O := by
  unfold Growth.closeInnermost
  split
  · exact h
  · rename_i tag before outer ho
    have hopened := h.opened
    rw [ho] at hopened
    obtain ⟨⟨htag, hbefore⟩, houter⟩ := List.forall_mem_cons.mp hopened
    have helement : (Forest.element () tag g.content .nil).Holds E :=
      Forest.holds_element.mpr ⟨hclose tag g.content htag, h.content, Forest.holds_nil⟩
    exact ⟨Forest.holds_append.mpr ⟨hbefore, helement⟩, houter⟩

theorem Holds.closeMany (h : g.Holds E O) (n : Nat) : (closeMany n g).Holds E O := by
  induction n generalizing g with
  | zero => exact h
  | succ n ih => exact ih (h.closeInnermost hclose)

theorem Holds.close (h : g.Holds E O) (name : String) : (g.close name).Holds E O := by
  unfold Growth.close
  split
  · exact h
  · exact h.closeMany hclose _

theorem Holds.endTag (h : g.Holds E O) {name : String} (hg : g.endTag grammar name = .ok g') :
    g'.Holds E O := by
  unfold Growth.endTag at hg
  split at hg
  · cases hg
    exact ⟨h.content, h.opened⟩
  · simp only [bind_eq_ok, pure_eq_ok] at hg
    obtain ⟨flushed, hflushed, rfl⟩ := hg
    exact (h.flush hflushed).close hclose name

theorem Holds.token (h : g.Holds E O) {t : Token}
    (ht : ∀ written, t = .startTag written → Opens grammar E O written)
    (hg : g.token grammar t = .ok g') : g'.Holds E O := by
  cases t with
  | text content =>
    cases hg
    exact ⟨h.content, h.opened⟩
  | startTag written => exact h.startTag (ht written rfl) hg
  | endTag name => exact h.endTag hclose hg
  | comment content => exact h.addBehind hg
  | docType content => exact h.addBehind hg
  | marked content =>
    simp only [Growth.token, Growth.marked] at hg
    split at hg
    · exact h.addBehind hg
    · exact h.addBehind hg
  | instruction content => exact h.addBehind hg
  | refused f => cases hg

theorem Holds.tokens (h : g.Holds E O) {tokens : List Token}
    (ht : ∀ written, .startTag written ∈ tokens → Opens grammar E O written)
    (hg : tokens.foldlM (Growth.token grammar) g = .ok g') : g'.Holds E O := by
  induction tokens generalizing g with
  | nil =>
    cases hg
    exact h
  | cons t rest ih =>
    rw [List.foldlM_cons, bind_eq_ok] at hg
    obtain ⟨next, hnext, hg⟩ := hg
    refine ih (h.token hclose ?_ hnext) (fun w hw => ht w (List.mem_cons_of_mem t hw)) hg
    rintro written rfl
    exact ht written List.mem_cons_self

theorem Holds.finish (h : g.Holds E O) {f : Forest Unit} (hf : g.finish grammar = .ok f) :
    f.Holds E := by
  simp only [Growth.finish, bind_eq_ok, pure_eq_ok] at hf
  obtain ⟨flushed, hflushed, rfl⟩ := hf
  exact ((h.flush hflushed).closeMany hclose _).content

end

end Growth

/-- Whatever a text holds and however a grammar is made: what its start tags open and what may be
closed has the property. -/
theorem holds_of_parse {grammar : Grammar} {E : Tag → Forest Unit → Prop} {O : Tag → Prop}
    {s : List Char} {f : Forest Unit} (hclose : Growth.Closes E O)
    (hopen : ∀ written, .startTag written ∈ Token.ofText s → Growth.Opens grammar E O written)
    (h : Forest.parse grammar s = .ok f) : f.Holds E := by
  simp only [Forest.parse, Forest.ofTokens, bind_eq_ok] at h
  obtain ⟨g, hg, hf⟩ := h
  have hempty : Growth.empty.Holds E O := ⟨Forest.holds_nil, by simp [Growth.empty]⟩
  exact (hempty.tokens hclose hopen hg).finish hclose hf

/-- Every element that is read has the tag that the grammar reads in a start tag of the text. -/
theorem exists_startTag_of_parse {grammar : Grammar} {s : List Char} {f : Forest Unit}
    (h : Forest.parse grammar s = .ok f) : ∀ e ∈ f.descendants,
      ∃ written, .startTag written ∈ Token.ofText s ∧ grammar.Reads written e.tag := by
  have hholds : f.Holds fun tag _ =>
      ∃ written, .startTag written ∈ Token.ofText s ∧ grammar.Reads written tag :=
    holds_of_parse (fun _ _ => id)
      (fun written hw tag hread => ⟨⟨written, hw, hread⟩, fun _ => ⟨written, hw, hread⟩⟩) h
  exact hholds

end Mailgrid.Markup
