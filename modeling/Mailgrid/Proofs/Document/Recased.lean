import Mailgrid.Proofs.Template
import Mailgrid.Proofs.VoidElement.AnyCase

/-!
# Components in another case

Texts that differ in the case of letters in the names of components, in tags that
the reader reads as such, are read as the same document. Void start tags are
closed before, without regard to what is a comment or a body. So no comment and
no body may end in what looks like a void start tag that is not closed: such a
tag would be closed, and the comment or body would not end there any more. Where
it would end instead, what stands behind it is text as it is written.
-/

namespace Mailgrid

open Component (IsSpelled)
open Format (protectedChars protectedChars_append)
open Markup (OpenTag SameQuotes SlashedTo Token)
open Markup.Token (Construct closedBy constructAt isPlain literalEnd? reachesOver scan)
open Text (cutAt)
open VoidElement (IsFirm Slashed closeLone)

variable {kind : Component} {name name' u s t x : List Char} {literal : Option (List Char)}

/-- Is a `<` before this character a text? -/
def Markup.Token.opensNothing (c : Char) : Bool :=
  c.toNat < 0x80 && !c.isAlpha && !(List.contains ['<', '/', '!', '?'] c)

/-- Two texts that differ in the case of letters in names of components other than centers, in start
tags and end tags, if at all. What these are is told from what a text is read as, `literal` in the
element whose body it begins in. Of a comment, a marked section, and a start tag and a body of a
literal element `stands` is asked, with what is before its last `>` and what is behind it. -/
inductive Recased (stands : List Char → List Char → Prop) :
    Option (List Char) → List Char → List Char → Prop where
  | same (literal : Option (List Char)) (s : List Char) : Recased stands literal s s
  | char {c : Char} {s t : List Char} (plain : c ≠ '<') (rest : Recased stands none s t) :
    Recased stands none (c :: s) (c :: t)
  | bare {c : Char} {s t : List Char} (opens : Token.opensNothing c = true)
    (rest : Recased stands none s t) : Recased stands none ('<' :: c :: s) ('<' :: c :: t)
  | startTag {kind : Component} {name name' u s t : List Char} {tag : OpenTag}
    (component : kind ≠ .center) (spelled : kind.IsSpelled name) (respelled : kind.IsSpelled name')
    (apart : u.takeWhile OpenTag.isNameChar = [])
    (reads : OpenTag.read (protectedChars (name ++ (u ++ '>' :: s))) =
      .complete tag (protectedChars s))
    (rest : Recased stands none s t) :
    Recased stands none ('<' :: (name ++ (u ++ '>' :: s))) ('<' :: (name' ++ (u ++ '>' :: t)))
  | endTag {kind : Component} {name name' u s t : List Char}
    (component : kind ≠ .center) (spelled : kind.IsSpelled name) (respelled : kind.IsSpelled name')
    (apart : u.takeWhile OpenTag.isNameChar = []) (inside : '>' ∉ u)
    (rest : Recased stands none s t) :
    Recased stands none ('<' :: '/' :: (name ++ (u ++ '>' :: s)))
      ('<' :: '/' :: (name' ++ (u ++ '>' :: t)))
  | construct {u s t : List Char} {tokens : List Token} {literal : Option (List Char)}
    (reads : constructAt (protectedChars (u ++ '>' :: s)) =
      .read tokens literal (protectedChars s))
    (ends : reachesOver u = true ∨ literal.isSome = true → stands ('<' :: u) s)
    (rest : Recased stands literal s t) :
    Recased stands none ('<' :: (u ++ '>' :: s)) ('<' :: (u ++ '>' :: t))
  | literal {name body spelled u s t : List Char}
    (bodied : Token.isLiteralElement name = true)
    (reads : cutAt (literalEnd? name) (protectedChars (u ++ '>' :: s)) =
      some (body, spelled, protectedChars s))
    (ascii : ∀ c ∈ spelled, c.toNat < 0x80) (ends : stands u s) (rest : Recased stands none s t) :
    Recased stands (some name) (u ++ '>' :: s) (u ++ '>' :: t)

theorem Recased.toLower {stands : List Char → List Char → Prop} (h : Recased stands literal s t) :
    s.map Char.toLower = t.map Char.toLower := by
  induction h with
  | same => rfl
  | char _ _ ih => simp [ih]
  | bare _ _ ih => simp [ih]
  | startTag _ spelled respelled _ _ _ ih =>
    have hname := spelled.trans respelled.symm
    simp [ih, hname]
  | endTag _ spelled respelled _ _ _ ih =>
    have hname := spelled.trans respelled.symm
    simp [ih, hname]
  | construct _ _ _ ih => simp [ih]
  | literal _ _ _ _ _ ih => simp [ih]

-- ---------------------------------------------------------------------------
-- Quotes

theorem mem_map_iff_of_fixed {f : Char → Char} {q : Char} (h : ∀ c, f c = q ↔ c = q) :
    q ∈ s.map f ↔ q ∈ s := by
  simp [List.mem_map, h]

theorem mem_protectedChars_iff {q : Char} (hampersand : q ≠ '&') (hplace : q ≠ '\ue000') :
    q ∈ protectedChars s ↔ q ∈ s := by
  rw [Format.protectedChars_eq_map]
  refine mem_map_iff_of_fixed fun c => ?_
  split
  · rename_i hc
    rw [hc]
    exact ⟨fun he => absurd he.symm hplace, fun he => absurd he.symm hampersand⟩
  · exact Iff.rfl

theorem of_isQuote {q : Char} (h : OpenTag.isQuote q = true) : q = '"' ∨ q = '\'' := by
  simpa [OpenTag.isQuote] using h

theorem sameQuotes_protectedChars (h : SameQuotes s t) :
    SameQuotes (protectedChars s) (protectedChars t) := by
  intro q hq
  have hne : q ≠ '&' ∧ q ≠ '\ue000' := by
    rcases of_isQuote hq with rfl | rfl <;> decide
  rw [mem_protectedChars_iff hne.1 hne.2, mem_protectedChars_iff hne.1 hne.2]
  exact h q hq

theorem sameQuotes_of_slashed (h : Slashed s t) : SameQuotes s t := by
  intro q hq
  have hne : q ∉ [' ', '/', '>'] := by
    rcases of_isQuote hq with rfl | rfl <;> decide
  simp only [List.mem_cons, List.not_mem_nil, or_false, not_or] at hne
  induction h with
  | nil => exact Iff.rfl
  | cons c _ ih => simp [ih]
  | slash _ ih => simp [ih, hne]

theorem sameQuotes_of_toLower (h : s.map Char.toLower = t.map Char.toLower) : SameQuotes s t := by
  intro q hq
  have hfixed (c : Char) : c.toLower = q ↔ c = q := by
    have hsame : (c.toLower == q) = (c == q) := by
      rcases of_isQuote hq with rfl | rfl
      · exact Text.of_toLower (f := (· == '"')) (fun c hc => Markup.of_ascii
          (P := fun c => (c.toLower == '"') = (c == '"')) (by decide) hc) c
      · exact Text.of_toLower (f := (· == '\'')) (fun c hc => Markup.of_ascii
          (P := fun c => (c.toLower == '\'') = (c == '\'')) (by decide) hc) c
    simpa using congrArg (· = true) hsame
  rw [← mem_map_iff_of_fixed (s := s) hfixed, ← mem_map_iff_of_fixed (s := t) hfixed, h]

-- ---------------------------------------------------------------------------
-- What comes to the reader

/-- A text as it comes to the reader: void start tags closed, ampersands replaced. -/
def readied (s : List Char) : List Char :=
  protectedChars (closeLone s)

theorem protectedChars_close (u s : List Char) :
    protectedChars (u ++ '>' :: s) = protectedChars u ++ '>' :: protectedChars s := by
  rw [protectedChars_append]
  rfl

theorem sameQuotes_readied (s : List Char) : SameQuotes (protectedChars s) (readied s) :=
  sameQuotes_protectedChars (sameQuotes_of_slashed (VoidElement.slashed_closeLone s))

theorem sameQuotes_readied_of_toLower (h : s.map Char.toLower = t.map Char.toLower) :
    SameQuotes (readied s) (readied t) := by
  intro q hq
  rw [← sameQuotes_readied s q hq, ← sameQuotes_readied t q hq]
  exact sameQuotes_protectedChars (sameQuotes_of_toLower h) q hq

theorem slashedTo_protectedChars {b : Bool} {rest : List Char} (h : SlashedTo rest b s t) :
    SlashedTo (protectedChars rest) b (protectedChars s) (protectedChars t) := by
  rw [Format.protectedChars_eq_map, Format.protectedChars_eq_map, Format.protectedChars_eq_map]
  exact h.map rfl rfl rfl

theorem not_mem_readied (s : List Char) : '&' ∉ readied s := by
  have hnone := Format.not_mem_protectedChars (String.ofList (closeLone s))
  rwa [String.toList_ofList] at hnone

/-- Both texts come to the reader with the same up to a `>`. -/
theorem readied_alike (h : s.map Char.toLower = t.map Char.toLower) (u : List Char) :
    ∃ v b, SlashedTo (readied s) b (protectedChars u ++ '>' :: readied s) (v ++ '>' :: readied s) ∧
      (IsFirm u s → b = false) ∧ readied (u ++ '>' :: s) = v ++ '>' :: readied s ∧
        readied (u ++ '>' :: t) = v ++ '>' :: readied t := by
  obtain ⟨v, b, hslashed, hfirm, hs, ht⟩ := VoidElement.closeLone_alike h u
  have hveiled := slashedTo_protectedChars (hslashed (closeLone s))
  rw [protectedChars_close, protectedChars_close] at hveiled
  refine ⟨protectedChars v, b, hveiled, hfirm, ?_, ?_⟩
  · rw [readied, hs, protectedChars_close]
    rfl
  · rw [readied, ht, protectedChars_close]
    rfl

theorem readied_alike_open (h : s.map Char.toLower = t.map Char.toLower) (u : List Char) :
    ∃ v b, SlashedTo (readied s) b (protectedChars u ++ '>' :: readied s) (v ++ '>' :: readied s) ∧
      (IsFirm ('<' :: u) s → b = false) ∧
        readied ('<' :: (u ++ '>' :: s)) = '<' :: (v ++ '>' :: readied s) ∧
          readied ('<' :: (u ++ '>' :: t)) = '<' :: (v ++ '>' :: readied t) := by
  obtain ⟨w, b, hslashed, hfirm, hs, ht⟩ := readied_alike h ('<' :: u)
  have hopen : protectedChars ('<' :: u) = '<' :: protectedChars u := rfl
  rw [hopen, List.cons_append] at hslashed
  cases w with
  | nil => cases hslashed
  | cons c v =>
    cases hslashed with
    | cons _ hslashed => exact ⟨v, b, hslashed, hfirm, hs, ht⟩

-- ---------------------------------------------------------------------------
-- Constructs

theorem protectedChars_append_cons_iff {c : Char} (hc : c ∉ ['>', '\ue000', '&']) (u s r : List Char) :
    protectedChars u ++ '>' :: s = c :: r ↔
      ∃ more, u = c :: more ∧ protectedChars more ++ '>' :: s = r := by
  simp only [List.mem_cons, List.not_mem_nil, or_false, not_or] at hc
  cases u with
  | nil =>
    refine ⟨fun he => absurd (List.cons.inj he).1.symm hc.1, fun ⟨more, he, _⟩ => ?_⟩
    cases he
  | cons d u =>
    rw [Format.protectedChars_eq_map, List.map_cons, ← Format.protectedChars_eq_map,
      List.cons_append, List.cons_eq_cons]
    constructor
    · rintro ⟨hd, rfl⟩
      split at hd
      · exact absurd hd.symm hc.2.1
      · exact ⟨u, by rw [hd], rfl⟩
    · rintro ⟨more, he, rfl⟩
      cases he
      exact ⟨if_neg hc.2.2, rfl⟩

theorem reachesOver_iff (s : List Char) : reachesOver s = true ↔
    (∃ r, s = '!' :: '-' :: '-' :: r) ∨ ∃ r, s = '!' :: '[' :: r := by
  constructor
  · intro h
    unfold reachesOver at h
    split at h
    · exact .inl ⟨_, rfl⟩
    · exact .inr ⟨_, rfl⟩
    · cases h
  · rintro (⟨r, rfl⟩ | ⟨r, rfl⟩) <;> rfl

theorem reachesOver_append (u s : List Char) :
    reachesOver (protectedChars u ++ '>' :: s) = reachesOver u := by
  have hmark := @protectedChars_append_cons_iff '!' (by decide)
  have hdash := @protectedChars_append_cons_iff '-' (by decide)
  have hbracket := @protectedChars_append_cons_iff '[' (by decide)
  rw [Bool.eq_iff_iff, reachesOver_iff, reachesOver_iff]
  simp only [hmark, hdash, hbracket]
  aesop

/-- A construct in the one text comes to the reader as one in both. -/
theorem exists_constructAt {tokens : List Token} (h : s.map Char.toLower = t.map Char.toLower)
    (reads : constructAt (protectedChars (u ++ '>' :: s)) = .read tokens literal (protectedChars s))
    (ends : reachesOver u = true ∨ literal.isSome = true → IsFirm ('<' :: u) s) :
    ∃ v found, readied ('<' :: (u ++ '>' :: s)) = '<' :: (v ++ '>' :: readied s) ∧
      readied ('<' :: (u ++ '>' :: t)) = '<' :: (v ++ '>' :: readied t) ∧
        constructAt (v ++ '>' :: readied s) = .read found literal (readied s) ∧
          constructAt (v ++ '>' :: readied t) = .read found literal (readied t) := by
  obtain ⟨v, b, hslashed, hfirm, hs, ht⟩ := readied_alike_open h u
  rw [protectedChars_close] at reads
  have hready := Token.constructAt_append (sameQuotes_readied s) reads
  have hampersand : '&' ∉ v ++ '>' :: readied s := by
    have hnone := not_mem_readied ('<' :: (u ++ '>' :: s))
    rw [hs] at hnone
    exact fun hm => hnone (List.mem_cons_of_mem _ hm)
  have hopen (hb : b = true) :
      reachesOver (protectedChars u ++ '>' :: readied s) = false ∧ literal = none := by
    have hover : ¬ (reachesOver u = true ∨ literal.isSome = true) := fun hover => by
      rw [hfirm (ends hover)] at hb
      cases hb
    rw [reachesOver_append]
    simpa using hover
  obtain ⟨found, hfound⟩ := Token.constructAt_slashed hslashed hampersand hopen hready
  exact ⟨v, found, hs, ht, hfound,
    Token.constructAt_append (sameQuotes_readied_of_toLower h) hfound⟩

-- ---------------------------------------------------------------------------
-- Tags of components

theorem takeWhile_component (h : kind.IsSpelled name) (apart : x.takeWhile OpenTag.isNameChar = []) :
    (name ++ x).takeWhile OpenTag.isNameChar = name ∧
      (name ++ x).dropWhile OpenTag.isNameChar = x := by
  have hletters : ∀ c ∈ name, OpenTag.isNameChar c = true := fun c hc =>
    (Markup.of_isNameLetter (h.isNameLetter c hc)).1
  have hwhole := List.takeWhile_append_dropWhile (p := OpenTag.isNameChar) (l := x)
  rw [apart, List.nil_append] at hwhole
  rw [List.takeWhile_append_of_pos hletters, List.dropWhile_append_of_pos hletters, apart, hwhole,
    List.append_nil]
  exact ⟨rfl, rfl⟩

theorem read_component (h : kind.IsSpelled name) (apart : x.takeWhile OpenTag.isNameChar = []) :
    OpenTag.read (name ++ x) = OpenTag.readingOf kind.standardTag.toList
      ((OpenTag.attributesOf (OpenTag.startsWithGap x) (OpenTag.skipGaps x)).1.map (·.parts))
      (OpenTag.attributesOf (OpenTag.startsWithGap x) (OpenTag.skipGaps x)).2 := by
  obtain ⟨htake, hdrop⟩ := takeWhile_component h apart
  have hlast : (name.getLast?.map fun c => OpenTag.isQuote c || Text.isBlank c).getD false =
      false := by
    cases hc : name.getLast? with
    | none => rfl
    | some c =>
      obtain ⟨-, -, -, hblank, -, -, hquote⟩ :=
        Markup.of_isNameLetter (h.isNameLetter c (List.mem_of_getLast? hc))
      simp [hblank, hquote]
  have htouches : OpenTag.touches name x = OpenTag.startsWithGap x := by
    rw [OpenTag.touches, hlast, Bool.or_false]
  have hlower : Text.lower name = Text.lower kind.standardTag.toList :=
    h.lower.trans kind.isSpelled_standardTag.lower.symm
  rw [OpenTag.read_eq, htake, hdrop, htouches]
  simp only [OpenTag.readingOf, hlower]

theorem takeWhile_protectedChars_name (s : List Char) :
    (protectedChars s).takeWhile OpenTag.isNameChar =
      protectedChars (s.takeWhile OpenTag.isNameChar) := by
  have hsame : (OpenTag.isNameChar ∘ fun c => if c = '&' then '\ue000' else c) =
      OpenTag.isNameChar := by
    funext c
    by_cases hc : c = '&'
    · subst hc
      rfl
    · simp [hc]
  rw [Format.protectedChars_eq_map, List.takeWhile_map, hsame, ← Format.protectedChars_eq_map]

theorem constructAt_component {tag : OpenTag} {rest : List Char} (h : kind.IsSpelled name)
    (apart : x.takeWhile OpenTag.isNameChar = [])
    (reads : OpenTag.read (name ++ x) = .complete tag rest) :
    constructAt (name ++ x) = .read [.startTag tag] none rest := by
  obtain ⟨c, more, hname, hc⟩ := h.exists_letter
  have htag : tag.name = kind.standardTag := by
    rw [read_component h apart] at reads
    have hlower := (OpenTag.of_readingOf reads).1
    rw [kind.isSpelled_standardTag.lower, String.ofList_toList] at hlower
    exact hlower
  have hliteral : Token.isLiteralElement tag.name.toList = false := by
    rw [htag]
    cases kind <;> rfl
  rw [hname, List.cons_append, Token.constructAt_of_isAlpha hc, ← List.cons_append, ← hname,
    Token.startTagAt, reads]
  simp [hliteral]

theorem readied_startTag (h : kind.IsSpelled name) {y : List Char} (hx : readied x = y) :
    readied ('<' :: (name ++ x)) = '<' :: (name ++ y) := by
  have hopen : protectedChars ('<' :: (name ++ closeLone x)) =
      '<' :: protectedChars (name ++ closeLone x) := rfl
  rw [readied, VoidElement.closeLone_component h, hopen, protectedChars_append,
    Format.protectedChars_of_not_mem (h.not_mem rfl), ← hx]
  rfl

theorem readied_endTag (h : kind.IsSpelled name) {y : List Char} (hx : readied x = y) :
    readied ('<' :: '/' :: (name ++ x)) = '<' :: '/' :: (name ++ y) := by
  have hopen : protectedChars ('<' :: '/' :: (name ++ closeLone x)) =
      '<' :: '/' :: protectedChars (name ++ closeLone x) := rfl
  rw [readied, VoidElement.closeLone_endTag (h.not_mem rfl), hopen, protectedChars_append,
    Format.protectedChars_of_not_mem (h.not_mem rfl), ← hx]
  rfl

theorem apart_slashed {b : Bool} {rest v : List Char}
    (h : SlashedTo rest b (protectedChars u ++ '>' :: rest) (v ++ '>' :: rest))
    (apart : u.takeWhile OpenTag.isNameChar = []) : v.takeWhile OpenTag.isNameChar = [] := by
  have hstop : OpenTag.isNameChar '>' = false := rfl
  have htake := (h.takeWhile (p := OpenTag.isNameChar) rfl rfl).1
  rw [Text.takeWhile_append_cons hstop, Text.takeWhile_append_cons hstop,
    takeWhile_protectedChars_name, apart] at htake
  exact htake.symm

theorem apart_close (apart : u.takeWhile OpenTag.isNameChar = []) (rest : List Char) :
    (u ++ '>' :: rest).takeWhile OpenTag.isNameChar = [] := by
  rw [Text.takeWhile_append_cons rfl, apart]

/-- A start tag of a component comes to the reader as the same tag in both texts. -/
theorem exists_startTag {tag : OpenTag} (h : s.map Char.toLower = t.map Char.toLower)
    (spelled : kind.IsSpelled name) (respelled : kind.IsSpelled name')
    (apart : u.takeWhile OpenTag.isNameChar = [])
    (reads : OpenTag.read (protectedChars (name ++ (u ++ '>' :: s))) =
      .complete tag (protectedChars s)) :
    ∃ v found, readied ('<' :: (name ++ (u ++ '>' :: s))) = '<' :: (name ++ (v ++ '>' :: readied s)) ∧
      readied ('<' :: (name' ++ (u ++ '>' :: t))) = '<' :: (name' ++ (v ++ '>' :: readied t)) ∧
        constructAt (name ++ (v ++ '>' :: readied s)) = .read found none (readied s) ∧
          constructAt (name' ++ (v ++ '>' :: readied t)) = .read found none (readied t) := by
  obtain ⟨v, b, hslashed, -, hs, ht⟩ := readied_alike h u
  have hapart := apart_close (apart_slashed hslashed apart)
  rw [protectedChars_append, Format.protectedChars_of_not_mem (spelled.not_mem rfl),
    protectedChars_close, ← List.append_assoc] at reads
  have hcomplete := OpenTag.read_append (sameQuotes_readied s) reads
  have hampersand : '&' ∉ name ++ (v ++ '>' :: readied s) := by
    have hnone := not_mem_readied (u ++ '>' :: s)
    rw [hs] at hnone
    exact fun hm => (List.mem_append.mp hm).elim (spelled.not_mem rfl) hnone
  rw [List.append_assoc] at hcomplete
  obtain ⟨found, hfound, -⟩ := OpenTag.read_slashed
    (SlashedTo.append (.refl name) hslashed) hampersand hcomplete
  have hfound' : OpenTag.read (name' ++ (v ++ '>' :: readied t)) =
      .complete found (readied t) := by
    rw [read_component respelled (hapart _), ← read_component spelled (hapart _),
      ← List.append_assoc]
    rw [← List.append_assoc] at hfound
    exact OpenTag.read_append (sameQuotes_readied_of_toLower h) hfound
  exact ⟨v, [.startTag found], readied_startTag spelled hs, readied_startTag respelled ht,
    constructAt_component spelled (hapart _) hfound,
    constructAt_component respelled (hapart _) hfound'⟩

theorem takeWhile_eq_nil_of_apart {p : Char → Bool}
    (stops : (['\t', '\n', '\r', '\x0c', ' ', '/', '>', '\x00'].all fun c => !p c) = true)
    (apart : x.takeWhile OpenTag.isNameChar = []) : x.takeWhile p = [] := by
  cases x with
  | nil => rfl
  | cons c x =>
    have hc : OpenTag.isNameChar c = false := by
      rw [List.takeWhile_cons] at apart
      split at apart
      · cases apart
      · rename_i hc
        exact Bool.eq_false_iff.mpr hc
    have hstop : c ∈ ['\t', '\n', '\r', '\x0c', ' ', '/', '>', '\x00'] := by
      simp only [OpenTag.isNameChar, Bool.not_eq_false', Bool.or_eq_true, beq_iff_eq] at hc
      simpa [or_assoc] using hc
    have hp := List.all_eq_true.mp stops c hstop
    simpa using hp

theorem closedBy_component (h : kind.IsSpelled name) (apart : x.takeWhile OpenTag.isNameChar = []) :
    closedBy (name ++ x) = [.endTag kind.standardTag] := by
  obtain ⟨c, more, hname, hc⟩ := h.exists_letter
  have hletter := Markup.of_isNameLetter (h.isNameLetter c (by simp [hname]))
  have hstart : Text.skipBlanks (name ++ x) = name ++ x := by
    rw [hname, List.cons_append, Text.skipBlanks_of_not_blank hletter.2.2.2.1]
  have hstarts : Token.startsWithLetter (name ++ x) = true := by
    rw [hname]
    exact hc
  have hplain : (name ++ x).takeWhile Token.isPlainNameChar = name := by
    have hletters : ∀ c ∈ name, Token.isPlainNameChar c = true := fun c hc =>
      (Markup.of_isNameLetter (h.isNameLetter c hc)).2.2.1
    rw [List.takeWhile_append_of_pos hletters, takeWhile_eq_nil_of_apart (by decide) apart,
      List.append_nil]
  rw [closedBy, hstart, hplain, (takeWhile_component h apart).1, hstarts, h.lower,
    String.ofList_toList]
  simp

theorem exists_endTag (h : s.map Char.toLower = t.map Char.toLower)
    (spelled : kind.IsSpelled name) (respelled : kind.IsSpelled name')
    (apart : u.takeWhile OpenTag.isNameChar = []) (inside : '>' ∉ u) :
    ∃ v found, readied ('<' :: '/' :: (name ++ (u ++ '>' :: s))) =
        '<' :: '/' :: (name ++ (v ++ '>' :: readied s)) ∧
      readied ('<' :: '/' :: (name' ++ (u ++ '>' :: t))) =
        '<' :: '/' :: (name' ++ (v ++ '>' :: readied t)) ∧
        constructAt ('/' :: (name ++ (v ++ '>' :: readied s))) = .read found none (readied s) ∧
          constructAt ('/' :: (name' ++ (v ++ '>' :: readied t))) =
            .read found none (readied t) := by
  obtain ⟨v, b, hslashed, -, hs, ht⟩ := readied_alike h u
  have hinside : '>' ∉ v := by
    have hprotected : '>' ∉ protectedChars u := fun hm =>
      inside ((mem_protectedChars_iff (by decide) (by decide)).mp hm)
    obtain ⟨inner, hinner⟩ := hslashed.cutAtClose (Text.cutAtChar_append hprotected _)
    have hcut : Token.upToClose (fun _ => []) (v ++ '>' :: readied s) =
        .read [] none (readied s) := by
      rw [Token.upToClose, hinner]
    exact (Token.upToClose_append hcut).1
  have hread {name : List Char} (h : kind.IsSpelled name) (rest : List Char) :
      constructAt ('/' :: (name ++ (v ++ '>' :: rest))) =
        .read [.endTag kind.standardTag] none rest := by
    have hclose : '>' ∉ name ++ v := fun hm => (List.mem_append.mp hm).elim (h.not_mem rfl) hinside
    rw [← closedBy_component h (apart_slashed hslashed apart), ← List.append_assoc]
    exact Token.upToClose_of_not_mem hclose rest
  exact ⟨v, _, readied_endTag spelled hs, readied_endTag respelled ht, hread spelled _,
    hread respelled _⟩

-- ---------------------------------------------------------------------------
-- Bodies

theorem exists_literalEnd {body spelled : List Char} (h : s.map Char.toLower = t.map Char.toLower)
    (bodied : Token.isLiteralElement name = true)
    (reads : cutAt (literalEnd? name) (protectedChars (u ++ '>' :: s)) =
      some (body, spelled, protectedChars s)) (ends : IsFirm u s) :
    ∃ v body', readied (u ++ '>' :: s) = v ++ '>' :: readied s ∧
      readied (u ++ '>' :: t) = v ++ '>' :: readied t ∧
        cutAt (literalEnd? name) (v ++ '>' :: readied s) = some (body', spelled, readied s) ∧
          cutAt (literalEnd? name) (v ++ '>' :: readied t) = some (body', spelled, readied t) := by
  obtain ⟨v, b, hslashed, hfirm, hs, ht⟩ := readied_alike h u
  obtain rfl := hfirm ends
  rw [protectedChars_close] at reads
  have hready := Token.cutAt_literalEnd?_append bodied reads (readied s)
  obtain ⟨body', hbody⟩ := Token.cutAt_literalEnd?_slashed bodied hslashed hready
  exact ⟨v, body', hs, ht, hbody, Token.cutAt_literalEnd?_append bodied hbody (readied t)⟩

theorem Markup.Token.scan_literal {before spelled rest : List Char}
    (h : cutAt (literalEnd? name) s = some (before, spelled, rest))
    (ascii : ∀ c ∈ spelled, c.toNat < 0x80) (closing : Bool) :
    scan closing (some name) s =
      textBefore before ++ .endTag (String.ofList name) :: scan closing none rest := by
  have hall : (spelled.all fun c => decide (c.toNat < 0x80)) = true := by
    simpa using ascii
  rw [scan]
  split
  · rename_i hcut
    cases h.symm.trans hcut
  · rename_i hcut
    cases h.symm.trans hcut
    rw [if_pos hall]

theorem Markup.Token.scan_before {before : List Char} (h : ∀ c ∈ before, isPlain c = true)
    (closing : Bool) (s : List Char) :
    scan closing none (before ++ '<' :: s) = textBefore before ++ scan closing none ('<' :: s) := by
  cases before with
  | nil => rfl
  | cons c before =>
    have hstop : isPlain '<' = false := rfl
    rw [scan_text h]
    simp [textBefore, hstop]

-- ---------------------------------------------------------------------------
-- Tokens

theorem readied_char {c : Char} (hc : c ≠ '<') (s : List Char) :
    readied (c :: s) = (if c = '&' then '\ue000' else c) :: readied s := by
  have hkept := VoidElement.closeLone_of_not_mem (u := [c]) (by simpa using Ne.symm hc) s
  rw [List.singleton_append, List.singleton_append] at hkept
  rw [readied, hkept, Format.protectedChars_eq_map, List.map_cons, ← Format.protectedChars_eq_map]
  rfl

theorem isPlain_readied {c : Char} (hc : c ≠ '<') :
    isPlain (if c = '&' then '\ue000' else c) = true := by
  split
  · rfl
  · simp [isPlain, *]

theorem of_opensNothing {c : Char} (h : Token.opensNothing c = true) :
    c.toNat < 0x80 ∧ c.isAlpha = false ∧ c ≠ '<' ∧ c ∉ ['/', '!', '?'] := by
  simpa [Token.opensNothing, and_assoc] using h

theorem readied_bare {c : Char} (h : Token.opensNothing c = true) (s : List Char) :
    readied ('<' :: c :: s) = '<' :: readied (c :: s) := by
  obtain ⟨hascii, hletter, -⟩ := of_opensNothing h
  rw [readied, VoidElement.closeLone_bare hascii hletter, Format.protectedChars_eq_map,
    List.map_cons, ← Format.protectedChars_eq_map]
  rfl

theorem constructAt_bare {c : Char} (h : Token.opensNothing c = true) (s : List Char) :
    constructAt (readied (c :: s)) = .read [Token.textOf ['<']] none (readied (c :: s)) := by
  obtain ⟨-, hletter, hopen, hsigns⟩ := of_opensNothing h
  rw [readied_char hopen]
  split
  · exact Token.constructAt_of_other (by decide) _
  · rw [Token.constructAt_of_other hsigns, if_neg (by simp [hletter])]

/-- Both texts are read as the same tokens, also behind the same text. -/
theorem Recased.scan_readied (h : Recased IsFirm literal s t) (closing : Bool) {before : List Char}
    (plain : ∀ c ∈ before, isPlain c = true) (outside : literal ≠ none → before = []) :
    scan closing literal (before ++ readied s) = scan closing literal (before ++ readied t) := by
  induction h generalizing before with
  | same => rfl
  | char hc rest ih =>
    rw [readied_char hc, readied_char hc, List.append_cons, List.append_cons before _ (readied _)]
    exact ih (List.forall_mem_append.mpr ⟨plain, List.forall_mem_singleton.mpr (isPlain_readied hc)⟩)
      fun hne => absurd rfl hne
  | bare opens rest ih =>
    obtain ⟨-, -, hopen, -⟩ := of_opensNothing opens
    rw [readied_bare opens, readied_bare opens, Token.scan_before plain, Token.scan_before plain,
      Token.scan_of_constructAt (constructAt_bare opens _),
      Token.scan_of_constructAt (constructAt_bare opens _), readied_char hopen, readied_char hopen]
    exact congrArg _ (congrArg _ (@ih [_] (List.forall_mem_singleton.mpr (isPlain_readied hopen))
      fun hne => absurd rfl hne))
  | startTag component spelled respelled apart reads rest ih =>
    obtain ⟨v, found, hs, ht, hfound, hfound'⟩ :=
      exists_startTag rest.toLower spelled respelled apart reads
    rw [hs, ht, Token.scan_before plain, Token.scan_before plain, Token.scan_of_constructAt hfound,
      Token.scan_of_constructAt hfound']
    exact congrArg _ (congrArg _ (@ih [] nofun fun _ => rfl))
  | endTag component spelled respelled apart inside rest ih =>
    obtain ⟨v, found, hs, ht, hfound, hfound'⟩ :=
      exists_endTag rest.toLower spelled respelled apart inside
    rw [hs, ht, Token.scan_before plain, Token.scan_before plain, Token.scan_of_constructAt hfound,
      Token.scan_of_constructAt hfound']
    exact congrArg _ (congrArg _ (@ih [] nofun fun _ => rfl))
  | construct reads ends rest ih =>
    obtain ⟨v, found, hs, ht, hfound, hfound'⟩ := exists_constructAt rest.toLower reads ends
    rw [hs, ht, Token.scan_before plain, Token.scan_before plain, Token.scan_of_constructAt hfound,
      Token.scan_of_constructAt hfound']
    exact congrArg _ (congrArg _ (@ih [] nofun fun _ => rfl))
  | literal bodied reads ascii ends rest ih =>
    obtain rfl := outside nofun
    obtain ⟨v, body, hs, ht, hbody, hbody'⟩ := exists_literalEnd rest.toLower bodied reads ends
    rw [List.nil_append, List.nil_append, hs, ht, Token.scan_literal hbody ascii,
      Token.scan_literal hbody' ascii]
    exact congrArg _ (congrArg _ (@ih [] nofun fun _ => rfl))

theorem read_recased {text text' : String} (h : Recased IsFirm none text.toList text'.toList) :
    Format.standard.read (VoidElement.normalize text') =
      Format.standard.read (VoidElement.normalize text) := by
  have htokens : scan false none (readied text'.toList) = scan false none (readied text.toList) :=
    (@Recased.scan_readied _ _ _ h false [] nofun fun _ => rfl).symm
  rw [Format.read_standard, Format.read_standard, VoidElement.normalize, VoidElement.normalize,
    String.toList_ofList, String.toList_ofList, Markup.Forest.parse, Markup.Forest.parse]
  exact congrArg _ htokens

end Mailgrid
