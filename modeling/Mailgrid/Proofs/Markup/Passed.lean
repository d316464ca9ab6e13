import Mailgrid.Proofs.Markup.Growth

/-!
# End tags that are passed over

Which end tags are still to be passed over has no part in what is read, until one
of them comes. So the end tag of a void element may stand anywhere behind its start
tag: wherever it stands, it is passed over, and what is between the two comes
behind the element.
-/

namespace Mailgrid.Markup

/-- What is still to be passed over behind a token. -/
def Token.passedAfter (grammar : Grammar) (passed : List String) : Token → List String
  | .startTag written =>
    if !written.closed && grammar.void.contains written.name then passed ++ [written.name]
    else passed
  | .endTag name => passed.erase name
  | _ => passed

namespace Growth

/-- The state in which these are the end tags to be passed over. -/
def passing (passed : List String) (g : Growth) : Growth :=
  { g with passed }

variable {grammar : Grammar} {g : Growth} {passed : List String}

theorem passing_passed (g : Growth) : g.passing g.passed = g := rfl

-- ---------------------------------------------------------------------------
-- What a token does

theorem addLeaf_passing (kind : LeafKind) (content : String) :
    (g.passing passed).addLeaf grammar kind content =
      (g.addLeaf grammar kind content).map (passing passed) := by
  unfold addLeaf
  split <;> rfl

theorem flush_passing :
    (g.passing passed).flush grammar = (g.flush grammar).map (passing passed) := by
  obtain ⟨content, opened, pending, before⟩ := g
  cases pending with
  | none => rfl
  | some text =>
    simp only [flush, passing]
    cases grammar.textKind (opened.map (·.1.name)) with
    | error f => rfl
    | ok kind =>
      exact @addLeaf_passing grammar ⟨content, opened, none, before⟩ passed (.text kind) text

theorem addBehind_passing (kind : LeafKind) (content : String) :
    (g.passing passed).addBehind grammar kind content =
      (g.addBehind grammar kind content).map (passing passed) := by
  rw [addBehind, addBehind, flush_passing]
  cases g.flush grammar with
  | error f => rfl
  | ok flushed => exact addLeaf_passing kind content

theorem closeMany_passing (n : Nat) (g : Growth) :
    closeMany n (g.passing passed) = (closeMany n g).passing passed := by
  induction n generalizing g with
  | zero => rfl
  | succ n ih =>
    have hone : (g.passing passed).closeInnermost = g.closeInnermost.passing passed := by
      obtain ⟨content, opened, pending, before⟩ := g
      cases opened <;> rfl
    rw [closeMany, hone, ih]
    rfl

theorem close_passing (name : String) (g : Growth) :
    (g.passing passed).close name = (g.close name).passing passed := by
  have hsame : (g.passing passed).opened = g.opened := rfl
  simp only [close, hsame]
  split
  · rfl
  · exact closeMany_passing _ g

theorem startTag_passing (written : OpenTag) :
    (g.passing passed).startTag grammar written =
      (g.startTag grammar written).map
        (passing ((Token.startTag written).passedAfter grammar passed)) := by
  simp only [startTag, flush_passing, Token.passedAfter]
  cases collect grammar.repeated written.attributes with
  | error f => rfl
  | ok attributes =>
    cases g.flush grammar with
    | error f => rfl
    | ok flushed =>
      cases hread : Tag.read grammar written.name attributes with
      | error f =>
        simp only [ok_bind, Except.map, hread]
        rfl
      | ok tag =>
        have hopened : (flushed.passing passed).open_ tag = (flushed.open_ tag).passing passed := rfl
        have hvoid := (of_tag_read hread).2
        simp only [ok_bind, hread, Except.map, hopened, close_passing, ← hvoid]
        cases written.closed with
        | true => rfl
        | false => cases tag.void <;> rfl

theorem endTag_passing {name : String} (h : passed.contains name = g.passed.contains name) :
    (g.passing passed).endTag grammar name =
      (g.endTag grammar name).map (passing (passed.erase name)) := by
  have hsame : (g.passing passed).passed = passed := rfl
  simp only [endTag, hsame, h]
  cases hname : g.passed.contains name with
  | true => rfl
  | false =>
    have hkept : passed.erase name = passed := by
      refine List.erase_of_not_mem fun hm => ?_
      rw [← h, List.contains_eq_mem, decide_eq_false_iff_not] at hname
      exact hname hm
    simp only [flush_passing, hkept]
    cases g.flush grammar with
    | error f => rfl
    | ok flushed =>
      simp only [ok_bind, Except.map, close_passing, Bool.false_eq_true, if_false]
      rfl

theorem token_passing {t : Token}
    (h : ∀ name, t = .endTag name → passed.contains name = g.passed.contains name) :
    (g.passing passed).token grammar t =
      (g.token grammar t).map (passing (t.passedAfter grammar passed)) := by
  cases t with
  | text content => rfl
  | startTag written => exact startTag_passing written
  | endTag name => exact endTag_passing (h name rfl)
  | comment content => exact addBehind_passing _ _
  | docType content => exact addBehind_passing _ _
  | marked content =>
    simp only [token, marked, Token.passedAfter]
    split
    · exact addBehind_passing _ _
    · exact addBehind_passing _ _
  | instruction content => exact addBehind_passing _ _
  | refused f => rfl

theorem passed_of_token {t : Token} {next : Growth} (h : g.token grammar t = .ok next) :
    next.passed = t.passedAfter grammar g.passed := by
  have hself := @token_passing grammar g g.passed t fun _ _ => rfl
  rw [passing_passed, h] at hself
  exact congrArg passed (Except.ok.inj hself)

-- ---------------------------------------------------------------------------
-- What tokens do

theorem passedAfter_perm {t : Token} {names before after : List String}
    (h : after.Perm (names ++ before)) (ht : ∀ name ∈ names, t ≠ .endTag name) :
    (t.passedAfter grammar after).Perm (names ++ t.passedAfter grammar before) := by
  cases t with
  | startTag written =>
    simp only [Token.passedAfter]
    split
    · rw [← List.append_assoc]
      exact h.append_right _
    · exact h
  | endTag name =>
    have hname : name ∉ names := fun hm => ht name hm rfl
    simp only [Token.passedAfter, ← List.erase_append_right before hname]
    exact h.erase name
  | _ => exact h

/-- Tokens do the same, whatever else is to be passed over, if its end tags are not among them. -/
theorem exists_foldlM_passing {tokens : List Token} {names : List String}
    (h : passed.Perm (names ++ g.passed)) (ht : ∀ name ∈ names, .endTag name ∉ tokens) :
    (∃ f, (tokens.foldlM (token grammar) g) = .error f ∧
      (tokens.foldlM (token grammar) (g.passing passed)) = .error f) ∨
    ∃ last after, tokens.foldlM (token grammar) g = .ok last ∧
      after.Perm (names ++ last.passed) ∧
      tokens.foldlM (token grammar) (g.passing passed) = .ok (last.passing after) := by
  induction tokens generalizing g passed with
  | nil => exact .inr ⟨g, passed, rfl, h, rfl⟩
  | cons t tokens ih =>
    have hfirst : ∀ name ∈ names, t ≠ .endTag name := fun name hn he =>
      ht name hn (he ▸ List.mem_cons_self)
    have hstep := @token_passing grammar g passed t fun name he => by
      have hname : name ∉ names := fun hn => hfirst name hn he
      simp [h.mem_iff, hname]
    simp only [List.foldlM_cons, hstep]
    cases hnext : g.token grammar t with
    | error f => exact .inl ⟨f, rfl, rfl⟩
    | ok next =>
      have hperm := @passedAfter_perm grammar t names g.passed passed h hfirst
      rw [← passed_of_token hnext] at hperm
      exact ih hperm fun name hn hm => ht name hn (List.mem_cons_of_mem t hm)

theorem finish_passing : (g.passing passed).finish grammar = g.finish grammar := by
  simp only [finish, flush_passing]
  cases g.flush grammar with
  | error f => rfl
  | ok flushed =>
    have hsame : (flushed.passing passed).opened = flushed.opened := rfl
    simp only [ok_bind, Except.map, hsame, closeMany_passing]
    rfl

end Growth

-- ---------------------------------------------------------------------------
-- Void elements

/-- The end tag of a void element may come at once or at any time later. -/
theorem Forest.ofTokens_void {grammar : Grammar} {written : OpenTag} (hopen : written.closed = false)
    (hvoid : grammar.void.contains written.name = true) {before inner after : List Token}
    (hinner : .endTag written.name ∉ inner) :
    Forest.ofTokens grammar (before ++ .startTag written :: (inner ++ .endTag written.name :: after)) =
      Forest.ofTokens grammar
        (before ++ .startTag written :: .endTag written.name :: (inner ++ after)) := by
  have hend {g : Growth} (hm : written.name ∈ g.passed) :
      g.token grammar (.endTag written.name) = .ok (g.passing (g.passed.erase written.name)) := by
    simp only [Growth.token, Growth.endTag, List.contains_iff_mem.mpr hm, if_true]
    rfl
  simp only [ofTokens, List.foldlM_append, List.foldlM_cons]
  cases before.foldlM (Growth.token grammar) Growth.empty with
  | error f => rfl
  | ok g =>
    cases hopened : g.token grammar (.startTag written) with
    | error f =>
      simp only [ok_bind, hopened]
      rfl
    | ok opened =>
      have hmem : written.name ∈ opened.passed := by
        rw [Growth.passed_of_token hopened, Token.passedAfter, hopen, hvoid]
        simp
      -- until the end tag comes, one more is to be passed over, and that does not count
      generalize hclosed : opened.passing (opened.passed.erase written.name) = closed
      have hopened' : closed.passing opened.passed = opened := by
        rw [← hclosed]
        rfl
      have hperm : opened.passed.Perm ([written.name] ++ closed.passed) := by
        rw [← hclosed]
        exact List.perm_cons_erase hmem
      have hinside := @Growth.exists_foldlM_passing grammar closed _ inner _ hperm (by simpa)
      simp only [ok_bind, hopened, hend hmem, hclosed]
      rw [hopened'] at hinside
      obtain ⟨f, hf, hf'⟩ | ⟨last, passed, hlast, hpassed, hlast'⟩ := hinside
      · rw [hf, hf']
        rfl
      · have hlater : written.name ∈ (last.passing passed).passed :=
          hpassed.mem_iff.mpr List.mem_cons_self
        have hbehind : (passed.erase written.name).Perm ([] ++ last.passed) := by
          simpa using hpassed.erase written.name
        have hrest := @Growth.exists_foldlM_passing grammar last _ after _ hbehind (by simp)
        rw [hlast, hlast', ok_bind, ok_bind, hend hlater, ok_bind]
        obtain ⟨f, hf, hf'⟩ | ⟨final, passed', hfinal, -, hfinal'⟩ := hrest
        · rw [hf]
          exact congrArg (· >>= _) hf'
        · rw [hfinal, ok_bind, ← Growth.finish_passing]
          exact congrArg (· >>= _) hfinal'

end Mailgrid.Markup
