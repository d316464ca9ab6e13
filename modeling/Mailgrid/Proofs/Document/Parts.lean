import Mailgrid.Proofs.Document.Tidy

/-!
# Tidy documents as tokens

Each part of a tidy document is read as one token, with the placeholder for each
ampersand, and a text without characters as none. This needs no balance: the parts may
come in any order, and nothing has to be open where an end tag stands.
-/

namespace Mailgrid.Markup

open Format (protectedChars protectedChars_append protectedChars_of_not_mem toList_protect)
open Mailgrid.Text (lowerString)

-- ---------------------------------------------------------------------------
-- Texts and tokens

namespace Growth

/-- Reading a text does what these tokens do, whatever follows. -/
def Follows (s : List Char) (tokens : List Token) : Prop :=
  ∀ g closing rest, (Token.scan closing none (s ++ rest)).foldlM (token Grammar.standard) g =
    (tokens ++ Token.scan closing none rest).foldlM (token Grammar.standard) g

theorem Follows.append {s t : List Char} {tokens more : List Token} (h : Follows s tokens)
    (h' : Follows t more) : Follows (s ++ t) (tokens ++ more) := by
  intro g closing rest
  rw [List.append_assoc, h, List.append_assoc, List.foldlM_append, List.foldlM_append]
  refine congrArg _ (funext fun next => ?_)
  exact h' next closing rest

theorem Follows.nil : Follows [] [] := fun _ _ _ => rfl

theorem follows_of_scan {s : List Char} {t : Token}
    (h : ∀ closing rest, Token.scan closing none (s ++ rest) =
      t :: Token.scan closing none rest) : Follows s [t] := by
  intro g closing rest
  rw [h]
  rfl

/-- A text may be one token with what follows, but that makes no difference. -/
theorem follows_text {content : String} (h : content.toList.all Token.isPlain = true)
    (hne : content ≠ "") : Follows content.toList [.text content] :=
  fun g closing rest => reads_text h hne g closing rest

theorem parse_of_follows {s : List Char} {tokens : List Token} (h : Follows s tokens) :
    Forest.parse Grammar.standard s = Forest.ofTokens Grammar.standard tokens := by
  have hfold := h empty false []
  rw [List.append_nil, Token.scan_nil, List.append_nil] at hfold
  rw [Forest.parse, Forest.ofTokens, Forest.ofTokens, ← hfold]
  rfl

end Growth

-- ---------------------------------------------------------------------------
-- The tokens of parts

namespace Part

instance : (p : Part) → Decidable p.Tidy
  | leaf .leadingDocType content => inferInstanceAs (Decidable (isLegible content = true))
  | leaf (.text kind) content => inferInstanceAs (Decidable (TidyLeaf (.text kind) content))
  | leaf .comment content => inferInstanceAs (Decidable (TidyLeaf .comment content))
  | leaf .cdata _ | leaf .instruction _ | leaf .declaration _ | leaf .docType _ => .isFalse id
  | startTag t => inferInstanceAs (Decidable t.Tidy)
  | endTag t => inferInstanceAs (Decidable (t.Tidy ∧ t.void = false))

def tokens : Part → List Token
  | leaf .comment content => [.comment (Format.standard.protect content)]
  | leaf .leadingDocType content => [.docType ("DOCTYPE " ++ content)]
  | leaf (.text _) content =>
    if content = "" then [] else [.text (Format.standard.protect content)]
  | leaf _ _ => []
  | startTag t => [.startTag ⟨lowerString t.name, readPairs t.veiled.attributes, t.void⟩]
  | endTag t => [.endTag (lowerString t.name)]

theorem follows_comment {content : String} (h : (leaf .comment content).Tidy) :
    Growth.Follows (protectedChars (leaf .comment content).write)
      (leaf .comment content).tokens := by
  have hdash := Format.not_mem_protect (by decide) (not_mem_of_lacks h (c := '-') (by decide))
  have hscan := Token.scan_comment (Token.cutAt_commentEnd?_of_not_mem hdash)
  have hleaf : (leaf .comment content).write =
      "<!--".toList ++ content.toList ++ "-->".toList := rfl
  have hwritten : protectedChars (leaf .comment content).write =
      "<!--".toList ++ (Format.standard.protect content).toList ++ "-->".toList := by
    rw [hleaf, protectedChars_append, protectedChars_append, toList_protect]
    rfl
  rw [String.ofList_toList] at hscan
  rw [hwritten]
  exact Growth.follows_of_scan hscan

theorem follows_docType {content : String} (h : isLegible content = true) :
    Growth.Follows (protectedChars (leaf .leadingDocType content).write)
      (leaf .leadingDocType content).tokens := by
  have hclose : '>' ∉ ' ' :: content.toList := by
    simpa using not_mem_of_isLegible h (c := '>') rfl
  have hkeyword : "DOCTYPE".toList.map Char.toLower = "doctype".toList := rfl
  have hscan := Token.scan_docType hkeyword hclose
  have hleaf : (leaf .leadingDocType content).write =
      "<!".toList ++ "DOCTYPE".toList ++ (' ' :: content.toList) ++ ['>'] := rfl
  have hampersand : '&' ∉ (leaf .leadingDocType content).write := by
    rw [hleaf]
    simpa using not_mem_of_isLegible h isNameLetter_ampersand
  have hname : String.ofList ("DOCTYPE".toList ++ ' ' :: content.toList) =
      "DOCTYPE " ++ content := by
    rw [← String.toList_inj]
    simp
  rw [hname] at hscan
  rw [protectedChars_of_not_mem hampersand, hleaf]
  exact Growth.follows_of_scan hscan

theorem follows_startTag {t : Tag} (h : t.Tidy) :
    Growth.Follows (protectedChars (startTag t).write) (startTag t).tokens := by
  have hending : OpenTag.Ending (ending t) (ending t) t.void := by
    unfold ending
    cases t.void
    · exact .open_
    · exact .closed
  have hreadable := Tag.isReadable_of_isLegible h.isLegible_veiled
  have hampersand : '&' ∉ ending t := by
    unfold ending
    split <;> decide
  rw [write, ← h.startTag_veiled hampersand]
  exact Growth.follows_of_scan (Token.scan_startTag hreadable hending)

theorem follows_endTag {t : Tag} (h : t.Tidy) :
    Growth.Follows (protectedChars (endTag t).write) (endTag t).tokens := by
  rw [write, ← h.endTag_veiled]
  exact Growth.follows_of_scan
    (Token.scan_endTag (Tag.isReadable_of_isLegible h.isLegible_veiled))

theorem Tidy.follows {p : Part} (h : p.Tidy) :
    Growth.Follows (protectedChars p.write) p.tokens := by
  cases p with
  | leaf kind content =>
    cases kind with
    | text kind =>
      rw [write, Style.leaf_text, tokens, ← toList_protect]
      split
      · rename_i he
        subst he
        rw [Format.protect_of_not_mem (by decide)]
        exact .nil
      · rename_i hne
        exact Growth.follows_text (isPlain_protect (not_mem_of_lacks h (by decide)))
          (Format.protect_ne_empty hne)
    | comment => exact follows_comment h
    | leadingDocType => exact follows_docType h
    | _ => exact absurd h id
  | startTag t => exact follows_startTag h
  | endTag t => exact follows_endTag h.1

theorem of_endTag_mem_tokens {p : Part} {name : String} (h : .endTag name ∈ p.tokens) :
    ∃ t, p = .endTag t ∧ lowerString t.name = name := by
  cases p with
  | leaf kind content =>
    cases kind with
    | text kind =>
      rw [tokens] at h
      split at h
      · cases h
      · cases List.mem_singleton.mp h
    | comment => cases List.mem_singleton.mp h
    | leadingDocType => cases List.mem_singleton.mp h
    | _ => cases h
  | startTag t => cases List.mem_singleton.mp h
  | endTag t =>
    cases List.mem_singleton.mp h
    exact ⟨t, rfl, rfl⟩

theorem follows_parts {parts : List Part} (h : ∀ p ∈ parts, p.Tidy) :
    Growth.Follows (protectedChars (parts.flatMap write)) (parts.flatMap tokens) := by
  induction parts with
  | nil => exact .nil
  | cons p parts ih =>
    obtain ⟨hp, hparts⟩ := List.forall_mem_cons.mp h
    rw [List.flatMap_cons, List.flatMap_cons, protectedChars_append]
    exact hp.follows.append (ih hparts)

end Part

end Mailgrid.Markup
