import Mailgrid.Proofs.Markup.Tokens

/-!
# Tokens of constructs without names

A comment, a document type, an instruction or a marked section is one token,
whatever its body holds but its own end. The end is found where it stands: no end
begins in the body and goes on behind it.
-/

namespace Mailgrid.Text

theorem takeWhile_append_cons {p : Char → Bool} {d : Char} (h : p d = false) (s rest : List Char) :
    (s ++ d :: rest).takeWhile p = s.takeWhile p := by
  induction s with
  | nil => simp [h]
  | cons c s ih =>
    rw [List.cons_append, List.takeWhile_cons, List.takeWhile_cons, ih]

theorem dropWhile_append_cons {p : Char → Bool} {d : Char} (h : p d = false) (s rest : List Char) :
    (s ++ d :: rest).dropWhile p = s.dropWhile p ++ d :: rest := by
  induction s with
  | nil => simp [h]
  | cons c s ih =>
    rw [List.cons_append, List.dropWhile_cons, List.dropWhile_cons, ih]
    split <;> rfl

theorem skipBlanks_append_cons {d : Char} (h : isBlank d = false) (s rest : List Char) :
    skipBlanks (s ++ d :: rest) = skipBlanks s ++ d :: rest :=
  dropWhile_append_cons h s rest

theorem cutAt_append {look : List Char → Option α} {before after : List Char} {a : α}
    (across : ∀ c s, look (c :: s) = none → look (c :: (s ++ after)) = none)
    (h : cutAt look before = none) (ha : look after = some a) :
    cutAt look (before ++ after) = some (before, a) := by
  induction before with
  | nil => cases after <;> simp [cutAt, ha]
  | cons c before ih =>
    rw [cutAt] at h
    split at h
    · cases h
    · rename_i hnone
      rw [Option.map_eq_none_iff] at h
      rw [List.cons_append, cutAt, across c before hnone, ih h]
      rfl

theorem cutAt_append_of_none {look : List Char → Option α} {before after : List Char}
    (h : ∀ c ∈ before, ∀ s, look (c :: s) = none) (ha : cutAt look after = none) :
    cutAt look (before ++ after) = none := by
  induction before with
  | nil => exact ha
  | cons c before ih =>
    have hmore := ih fun d hd => h d (List.mem_cons_of_mem c hd)
    rw [List.cons_append, cutAt, h c List.mem_cons_self, hmore]
    rfl

theorem cutAt_map {look : List Char → Option α} {change : Char → Char}
    (same : ∀ s, look s = none → look (s.map change) = none) {s : List Char}
    (h : cutAt look s = none) : cutAt look (s.map change) = none := by
  induction s with
  | nil =>
    rw [cutAt, Option.map_eq_none_iff] at h
    rw [List.map_nil, cutAt, h]
    rfl
  | cons c s ih =>
    rw [cutAt] at h
    split at h
    · cases h
    · rename_i hnone
      rw [Option.map_eq_none_iff] at h
      have hchanged := same _ hnone
      rw [List.map_cons] at hchanged ⊢
      rw [cutAt, hchanged, ih h]
      rfl

end Mailgrid.Text

namespace Mailgrid.Markup.Token

open Mailgrid.Text (isBlank skipBlanks skipBlanks_append_cons cutAt cutAtChar)

-- ---------------------------------------------------------------------------
-- Ends

/-- What follows blanks and a `>`. -/
def close? (s : List Char) : Option (List Char) :=
  match skipBlanks s with
  | '>' :: after => some after
  | _ => none

theorem close?_append {c : Char} {s : List Char} (h : close? s = none) (hb : isBlank c = false)
    (hc : c ≠ '>') (rest : List Char) : close? (s ++ c :: rest) = none := by
  rw [close?, skipBlanks_append_cons hb]
  rw [close?] at h
  cases hs : skipBlanks s with
  | nil =>
    rw [List.nil_append]
    split
    · rename_i he
      cases he
      exact absurd rfl hc
    · rfl
  | cons d t =>
    rw [hs] at h
    split at h
    · cases h
    · rename_i hd
      rw [List.cons_append]
      split
      · rename_i he
        cases he
        exact absurd rfl (hd _)
      · rfl

theorem commentEnd?_of_ne {c d : Char} (h : ¬(c = '-' ∧ d = '-')) (s : List Char) :
    commentEnd? (c :: d :: s) = none := by
  unfold commentEnd?
  split
  · rename_i he
    cases he
    exact absurd ⟨rfl, rfl⟩ h
  · rfl

theorem conditionalEnd?_of_ne {c : Char} (h : c ≠ ']') (s : List Char) :
    conditionalEnd? (c :: s) = none := by
  unfold conditionalEnd?
  split
  · rename_i he
    cases he
    exact absurd rfl h
  · rfl

theorem keywordEnd?_bracket (s : List Char) :
    keywordEnd? (']' :: s) = conditionalEnd? (skipBlanks s) := rfl

theorem keywordEnd?_of_ne {c : Char} (h : c ≠ ']') (s : List Char) :
    keywordEnd? (c :: s) = none := by
  unfold keywordEnd?
  split
  · rename_i he
    cases he
    exact absurd rfl h
  · rfl

theorem commentEnd?_append {c : Char} {s : List Char} (h : commentEnd? (c :: s) = none)
    (rest : List Char) : commentEnd? (c :: (s ++ '-' :: '-' :: rest)) = none := by
  cases s with
  | nil =>
    by_cases hc : c = '-'
    · subst hc
      exact close?_append (c := '-') (s := []) rfl rfl (by decide) rest
    · exact commentEnd?_of_ne (fun he => hc he.1) _
  | cons d s =>
    by_cases hc : c = '-' ∧ d = '-'
    · obtain ⟨rfl, rfl⟩ := hc
      exact close?_append h rfl (by decide) _
    · exact commentEnd?_of_ne hc _

theorem conditionalEnd?_append {c : Char} {s : List Char} (h : conditionalEnd? (c :: s) = none)
    (rest : List Char) : conditionalEnd? (c :: (s ++ ']' :: rest)) = none := by
  by_cases hc : c = ']'
  · subst hc
    exact close?_append h rfl (by decide) rest
  · exact conditionalEnd?_of_ne hc _

theorem keywordEnd?_append {c : Char} {s : List Char} (h : keywordEnd? (c :: s) = none)
    (rest : List Char) : keywordEnd? (c :: (s ++ ']' :: ']' :: rest)) = none := by
  by_cases hc : c = ']'
  · subst hc
    rw [keywordEnd?_bracket] at h
    rw [keywordEnd?_bracket, skipBlanks_append_cons (by rfl)]
    cases hs : skipBlanks s with
    | nil => exact close?_append (c := ']') (s := []) rfl rfl (by decide) rest
    | cons d t =>
      rw [hs] at h
      exact conditionalEnd?_append h _
  · exact keywordEnd?_of_ne hc _

section
variable {change : Char → Char} (hblank : ∀ c, isBlank (change c) = isBlank c)
  (hmark : ∀ c, change c ∈ ['-', ']', '>'] → change c = c)
include hblank

theorem skipBlanks_map (s : List Char) : skipBlanks (s.map change) = (skipBlanks s).map change := by
  have hsame : isBlank ∘ change = isBlank := funext hblank
  rw [skipBlanks, skipBlanks, List.dropWhile_map, hsame]

include hmark

theorem close?_map {s : List Char} (h : close? s = none) : close? (s.map change) = none := by
  rw [close?, skipBlanks_map hblank]
  rw [close?] at h
  cases hs : skipBlanks s with
  | nil => rfl
  | cons c t =>
    rw [hs] at h
    rw [List.map_cons]
    split
    · rename_i he
      have hc : change c = '>' := (List.cons.inj he).1
      rw [← hmark c (by simp [hc]), hc] at h
      cases h
    · rfl

theorem commentEnd?_map {s : List Char} (h : commentEnd? s = none) :
    commentEnd? (s.map change) = none := by
  match s with
  | [] => rfl
  | [c] => simp [commentEnd?]
  | c :: d :: t =>
    by_cases hcd : change c = '-' ∧ change d = '-'
    · have hc : c = '-' := (hmark c (by simp [hcd.1])).symm.trans hcd.1
      have hd : d = '-' := (hmark d (by simp [hcd.2])).symm.trans hcd.2
      subst hc
      subst hd
      rw [List.map_cons, List.map_cons, hcd.1]
      exact close?_map hblank hmark h
    · exact commentEnd?_of_ne hcd _

theorem conditionalEnd?_map {s : List Char} (h : conditionalEnd? s = none) :
    conditionalEnd? (s.map change) = none := by
  cases s with
  | nil => rfl
  | cons c t =>
    by_cases hc : change c = ']'
    · have hc' : c = ']' := (hmark c (by simp [hc])).symm.trans hc
      subst hc'
      rw [List.map_cons, hc]
      exact close?_map hblank hmark h
    · exact conditionalEnd?_of_ne hc _

theorem keywordEnd?_map {s : List Char} (h : keywordEnd? s = none) :
    keywordEnd? (s.map change) = none := by
  cases s with
  | nil => rfl
  | cons c t =>
    by_cases hc : change c = ']'
    · have hc' : c = ']' := (hmark c (by simp [hc])).symm.trans hc
      subst hc'
      rw [List.map_cons, hc, keywordEnd?_bracket, skipBlanks_map hblank]
      exact conditionalEnd?_map hblank hmark h
    · exact keywordEnd?_of_ne hc _

end

-- ---------------------------------------------------------------------------
-- Constructs

theorem cutAt_commentEnd?_of_not_mem {body : List Char} (h : '-' ∉ body) :
    cutAt commentEnd? body = none := by
  rw [← List.append_nil body]
  refine Text.cutAt_append_of_none (fun c hc s => ?_) rfl
  have hne : c ≠ '-' := fun he => h (he ▸ hc)
  cases s with
  | nil => simp [commentEnd?]
  | cons d s => exact commentEnd?_of_ne (fun he => hne he.1) s

theorem constructAt_comment {body : List Char} (h : cutAt commentEnd? body = none)
    (rest : List Char) : constructAt ("!--".toList ++ body ++ "-->".toList ++ rest) =
      .read [.comment (String.ofList body)] none rest := by
  have hend : commentEnd? ('-' :: '-' :: '>' :: rest) = some rest := rfl
  have hcut := Text.cutAt_append (fun c s hn => commentEnd?_append hn ('>' :: rest)) h hend
  have hwritten : "!--".toList ++ body ++ "-->".toList ++ rest =
      '!' :: '-' :: '-' :: (body ++ '-' :: '-' :: '>' :: rest) := by
    simp
  rw [hwritten]
  simp [constructAt, declarationAt, commentAt, hcut]

/-- A comment is one token, unless its body holds its end. -/
theorem scan_comment {body : List Char} (h : cutAt commentEnd? body = none) (closing : Bool)
    (rest : List Char) : scan closing none ("<!--".toList ++ body ++ "-->".toList ++ rest) =
      .comment (String.ofList body) :: scan closing none rest :=
  scan_of_constructAt (constructAt_comment h rest)

theorem scan_instruction {body : List Char} (h : '>' ∉ body) (closing : Bool) (rest : List Char) :
    scan closing none ("<?".toList ++ body ++ ['>'] ++ rest) =
      .instruction (String.ofList body) :: scan closing none rest := by
  have hconstruct : constructAt ('?' :: (body ++ '>' :: rest)) =
      .read [.instruction (String.ofList body)] none rest := by
    simp [constructAt, upToClose, Text.cutAtChar_append h]
  have hwritten : "<?".toList ++ body ++ ['>'] ++ rest = '<' :: '?' :: (body ++ '>' :: rest) := by
    simp
  rw [hwritten, scan_of_constructAt hconstruct]
  rfl

theorem constructAt_declaration {c : Char} {s inner rest : List Char} (hdash : c ≠ '-')
    (hbracket : c ≠ '[') (h : cutAtChar '>' (c :: s) = some (inner, rest)) :
    constructAt ('!' :: c :: s) =
      .read [if isDocType (c :: s) then .docType (String.ofList inner)
        else .comment (String.ofList inner)] none rest := by
  change declarationAt (c :: s) = _
  unfold declarationAt
  split
  · rename_i hs; cases hs; exact absurd rfl hdash
  · rename_i hs; cases hs; exact absurd rfl hbracket
  · rw [upToClose, h]

theorem constructAt_docType {keyword body : List Char}
    (hk : keyword.map Char.toLower = "doctype".toList) (h : '>' ∉ body) (rest : List Char) :
    constructAt ('!' :: (keyword ++ body ++ ['>'] ++ rest)) =
      .read [.docType (String.ofList (keyword ++ body))] none rest := by
  have hclose : '>' ∉ keyword ++ body := by
    intro hm
    rcases List.mem_append.mp hm with hm | hm
    · have hlower := List.mem_map_of_mem (f := Char.toLower) hm
      rw [hk] at hlower
      exact absurd hlower (by decide)
    · exact h hm
  obtain ⟨c, letters, rfl⟩ : ∃ c letters, keyword = c :: letters :=
    List.exists_cons_of_ne_nil (by rintro rfl; cases hk)
  have hlower : c.toLower = 'd' := (List.cons.inj hk).1
  have hlength : letters.length = 6 := by
    simpa using congrArg List.length hk
  have hdoc : isDocType (c :: (letters ++ body ++ '>' :: rest)) = true := by
    have htake : (c :: (letters ++ body ++ '>' :: rest)).take 7 = c :: letters := by
      rw [List.append_assoc, List.take_succ_cons, List.take_left' hlength]
    rw [isDocType, htake, hk]
    rfl
  have hcut := Text.cutAtChar_append hclose rest
  rw [List.cons_append, List.cons_append] at hcut
  have hconstruct := constructAt_declaration (by rintro rfl; cases hlower)
    (by rintro rfl; cases hlower) hcut
  rw [hdoc, if_pos rfl] at hconstruct
  have hwritten : '!' :: (c :: letters ++ body ++ ['>'] ++ rest) =
      '!' :: c :: (letters ++ body ++ '>' :: rest) := by
    simp
  rw [hwritten]
  exact hconstruct

theorem scan_docType {keyword body : List Char}
    (hk : keyword.map Char.toLower = "doctype".toList) (h : '>' ∉ body) (closing : Bool)
    (rest : List Char) : scan closing none ("<!".toList ++ keyword ++ body ++ ['>'] ++ rest) =
      .docType (String.ofList (keyword ++ body)) :: scan closing none rest :=
  scan_of_constructAt (constructAt_docType hk h rest)

theorem scan_marked {look : List Char → Option (List Char)} (body ending rest : List Char)
    (hletter : startsWithLetter body = true)
    (hname : sectionEnd? (String.ofList ((body.takeWhile isSectionNameChar).map Char.toLower)) =
      some look)
    (across : ∀ c s, look (c :: s) = none → look (c :: (s ++ ']' :: (ending ++ rest))) = none)
    (hbody : cutAt look body = none) (hend : look (']' :: (ending ++ rest)) = some rest)
    (closing : Bool) :
    scan closing none ("<![".toList ++ body ++ ']' :: ending ++ rest) =
      .marked (String.ofList body) :: scan closing none rest := by
  have hstop : isSectionNameChar ']' = false := by decide
  have hblank : isBlank ']' = false := rfl
  have hcut := Text.cutAt_append across hbody hend
  have hstarts : startsWithLetter (body ++ ']' :: (ending ++ rest)) = true := by
    cases body with
    | nil => cases hletter
    | cons => exact hletter
  have hmore : (skipBlanks ((body ++ ']' :: (ending ++ rest)).dropWhile isSectionNameChar)).isEmpty =
      false := by
    rw [Text.dropWhile_append_cons hstop, skipBlanks_append_cons hblank]
    simp
  have hconstruct : constructAt ('!' :: '[' :: (body ++ ']' :: (ending ++ rest))) =
      .read [.marked (String.ofList body)] none rest := by
    change sectionAt (body ++ ']' :: (ending ++ rest)) = _
    rw [sectionAt, hstarts, hmore, Text.takeWhile_append_cons hstop, hname]
    simp [hcut]
  have hwritten : "<![".toList ++ body ++ ']' :: ending ++ rest =
      '<' :: '!' :: '[' :: (body ++ ']' :: (ending ++ rest)) := by
    simp
  rw [hwritten, scan_of_constructAt hconstruct]
  rfl

end Mailgrid.Markup.Token
