import Mailgrid.Markup.Forest.OfTokens
import Mailgrid.Proofs.Failure

/-!
# What has been read stays

No token takes back what earlier ones have made: nodes only come in behind those
that are there, at the end of the document or of an element that is still open.
`grows_tokens` and `grows_finish`: what is there after some tokens, with all that
is open closed around it, is the beginning of what is there in the end.
-/

namespace Mailgrid.Markup

variable {α : Type}

namespace Forest

/-- The second forest is the first with more nodes behind its own and those of its elements. -/
inductive GrowsTo : Forest α → Forest α → Prop where
  | nil (f : Forest α) : GrowsTo nil f
  | leaf (m : α) (kind : LeafKind) (content : String) {next next' : Forest α} :
      GrowsTo next next' → GrowsTo (leaf m kind content next) (leaf m kind content next')
  | element (m : α) (tag : Tag) {children children' next next' : Forest α} :
      GrowsTo children children' → GrowsTo next next' →
        GrowsTo (element m tag children next) (element m tag children' next')

theorem GrowsTo.refl (f : Forest α) : f.GrowsTo f := by
  induction f with
  | nil => exact .nil _
  | leaf m kind content next ih => exact .leaf m kind content ih
  | element m tag children next ihc ih => exact .element m tag ihc ih

theorem GrowsTo.trans {f g h : Forest α} (hfg : f.GrowsTo g) (hgh : g.GrowsTo h) :
    f.GrowsTo h := by
  induction hfg generalizing h with
  | nil => exact .nil h
  | leaf m kind content _ ih =>
    cases hgh with
    | leaf _ _ _ hnext => exact .leaf m kind content (ih hnext)
  | element m tag _ _ ihc ih =>
    cases hgh with
    | element _ _ hchildren hnext => exact .element m tag (ihc hchildren) (ih hnext)

theorem GrowsTo.append (f more : Forest α) : f.GrowsTo (f ++ more) := by
  induction f with
  | nil => exact .nil more
  | leaf m kind content next ih => exact .leaf m kind content ih
  | element m tag children next _ ih => exact .element m tag (.refl children) ih

theorem GrowsTo.behind (before : Forest α) {f g : Forest α} (h : f.GrowsTo g) :
    (before ++ f).GrowsTo (before ++ g) := by
  induction before with
  | nil => exact h
  | leaf m kind content next ih => exact .leaf m kind content ih
  | element m tag children next _ ih => exact .element m tag (.refl children) ih

end Forest

open Forest (GrowsTo)

namespace Growth

/-- Closes open elements around what the innermost of them holds. -/
def enclose (opened : List (Tag × Forest Unit)) (content : Forest Unit) : Forest Unit :=
  opened.foldl (fun content (tag, before) => before ++ .element () tag content .nil) content

/-- What has become a node, with all that is open closed around it. -/
def enclosed (g : Growth) : Forest Unit :=
  enclose g.opened g.content

theorem grows_enclose (opened : List (Tag × Forest Unit)) {f f' : Forest Unit}
    (h : f.GrowsTo f') : (enclose opened f).GrowsTo (enclose opened f') := by
  induction opened generalizing f f' with
  | nil => exact h
  | cons o outer ih => exact ih (.behind o.2 (.element () o.1 h (.nil .nil)))

variable {grammar : Grammar} {g g' : Growth}

-- ---------------------------------------------------------------------------
-- Closing

@[simp] theorem enclosed_closeInnermost (g : Growth) : g.closeInnermost.enclosed = g.enclosed := by
  unfold closeInnermost
  split
  · rfl
  · rename_i tag before outer ho
    simp [enclosed, enclose, ho]

@[simp] theorem enclosed_closeMany (n : Nat) (g : Growth) :
    (closeMany n g).enclosed = g.enclosed := by
  induction n generalizing g with
  | zero => rfl
  | succ n ih => rw [closeMany, ih, enclosed_closeInnermost]

@[simp] theorem enclosed_close (g : Growth) (name : String) :
    (g.close name).enclosed = g.enclosed := by
  unfold close
  split
  · rfl
  · exact enclosed_closeMany _ g

theorem length_opened_closeMany (n : Nat) (g : Growth) :
    (closeMany n g).opened.length = g.opened.length - n := by
  induction n generalizing g with
  | zero => rfl
  | succ n ih =>
    have hone : g.closeInnermost.opened.length = g.opened.length - 1 := by
      unfold closeInnermost
      split
      · rename_i ho
        simp [ho]
      · rename_i ho
        simp [ho]
    rw [closeMany, ih, hone]
    omega

theorem content_closeMany (g : Growth) :
    (closeMany g.opened.length g).content = g.enclosed := by
  have hopened : (closeMany g.opened.length g).opened = [] := by
    rw [← List.length_eq_zero_iff, length_opened_closeMany, Nat.sub_self]
  rw [← enclosed_closeMany g.opened.length g, enclosed, hopened]
  rfl

-- ---------------------------------------------------------------------------
-- Tokens

theorem grows_add (g : Growth) (f : Forest Unit) : g.enclosed.GrowsTo (g.add f).enclosed :=
  grows_enclose g.opened (.append g.content f)

theorem grows_open (g : Growth) (tag : Tag) : g.enclosed.GrowsTo (g.open_ tag).enclosed :=
  grows_enclose g.opened (.append g.content (.element () tag .nil .nil))

theorem grows_addLeaf {kind : LeafKind} {content : String}
    (h : g.addLeaf grammar kind content = .ok g') : g.enclosed.GrowsTo g'.enclosed := by
  unfold addLeaf at h
  split at h
  · cases h
    exact grows_add g _
  · cases h

theorem grows_flush (h : g.flush grammar = .ok g') : g.enclosed.GrowsTo g'.enclosed := by
  unfold flush at h
  split at h
  · cases h
    exact .refl _
  · simp only [bind_eq_ok] at h
    obtain ⟨kind, -, h⟩ := h
    have hadded := grows_addLeaf h
    exact hadded

theorem grows_addBehind {kind : LeafKind} {content : String}
    (h : g.addBehind grammar kind content = .ok g') : g.enclosed.GrowsTo g'.enclosed := by
  simp only [addBehind, bind_eq_ok] at h
  obtain ⟨flushed, hflushed, h⟩ := h
  exact (grows_flush hflushed).trans (grows_addLeaf h)

theorem grows_startTag {written : OpenTag} (h : g.startTag grammar written = .ok g') :
    g.enclosed.GrowsTo g'.enclosed := by
  simp only [startTag, bind_eq_ok] at h
  obtain ⟨attributes, -, flushed, hflushed, tag, -, h⟩ := h
  have hopened := (grows_flush hflushed).trans (grows_open flushed tag)
  have hclosed : g.enclosed.GrowsTo ((flushed.open_ tag).close written.name).enclosed := by
    rw [enclosed_close]
    exact hopened
  split at h
  · cases h
    exact hclosed
  · split at h
    · cases h
      exact hclosed
    · cases h
      exact hopened

theorem grows_endTag {name : String} (h : g.endTag grammar name = .ok g') :
    g.enclosed.GrowsTo g'.enclosed := by
  unfold endTag at h
  split at h
  · cases h
    exact .refl _
  · simp only [bind_eq_ok, pure_eq_ok] at h
    obtain ⟨flushed, hflushed, rfl⟩ := h
    rw [enclosed_close]
    exact grows_flush hflushed

/-- Whatever a token is, it takes nothing back. -/
theorem grows_token {t : Token} (h : g.token grammar t = .ok g') :
    g.enclosed.GrowsTo g'.enclosed := by
  cases t with
  | text content =>
    cases h
    exact .refl _
  | startTag written => exact grows_startTag h
  | endTag name => exact grows_endTag h
  | comment content => exact grows_addBehind h
  | docType content => exact grows_addBehind h
  | marked content =>
    simp only [token, marked] at h
    split at h
    · exact grows_addBehind h
    · exact grows_addBehind h
  | instruction content => exact grows_addBehind h
  | refused f => cases h

theorem grows_tokens {tokens : List Token} (h : tokens.foldlM (token grammar) g = .ok g') :
    g.enclosed.GrowsTo g'.enclosed := by
  refine keeps_foldlM (P := fun next => g.enclosed.GrowsTo next.enclosed) (Q := fun _ => True) ?_
    (fun _ _ => trivial) (.refl _) h
  intro next t following hnext _ hstep
  exact hnext.trans (grows_token hstep)

theorem grows_finish {f : Forest Unit} (h : g.finish grammar = .ok f) : g.enclosed.GrowsTo f := by
  simp only [finish, bind_eq_ok, pure_eq_ok] at h
  obtain ⟨flushed, hflushed, rfl⟩ := h
  rw [content_closeMany]
  exact grows_flush hflushed

end Growth

end Mailgrid.Markup
