import Mailgrid.Failure
import Mailgrid.Markup.OpenTag
import Mailgrid.Text.Fold

/-!
# Tokens

A markup text as the sequence of its tags, texts and other constructs. Every
text has tokens: what looks like a construct but never ends is read as text.
Only a marked section of an unknown kind is refused, and a reference by a number
that cannot be read; nothing behind `refused` counts. Inside `script` and
`style` all is text up to the matching end tag.

While the end of the text may still be missing, an unfinished construct stops
the reading. From there on the text is taken as complete, and unfinished
constructs become texts; `closing` tells the two readings apart.
-/

namespace Mailgrid.Markup

open Mailgrid.Text (isBlank skipBlanks cutAt cutAtChar)

inductive Token where
  | text (content : String)
  | startTag (tag : OpenTag)
  | endTag (name : String)
  | comment (content : String)
  /-- A document type, with the word itself. -/
  | docType (content : String)
  | marked (content : String)
  | instruction (content : String)
  | refused (f : Failure)

namespace Token

def textOf (s : List Char) : Token :=
  .text (String.ofList s)

/-- What stands after a `<`. -/
inductive Construct where
  /-- Tokens, the element whose content is literal from here on, and what follows. -/
  | read (tokens : List Token) (literal : Option (List Char)) (rest : List Char)
  | unfinished
  | refused (f : Failure)

/-- A construct up to the first `>`. -/
def upToClose (token : List Char → List Token) (s : List Char) : Construct :=
  match cutAtChar '>' s with
  | some (inner, rest) => .read (token inner) none rest
  | none => .unfinished

-- ---------------------------------------------------------------------------
-- Tags

def isLiteralElement (name : List Char) : Bool :=
  name == "script".toList || name == "style".toList

def startTagAt (s : List Char) : Construct :=
  match OpenTag.read s with
  | .complete tag rest =>
    let name := tag.name.toList
    .read [.startTag tag] (if !tag.closed && isLiteralElement name then some name else none) rest
  | .unfinished => .unfinished
  | .refused => .refused .numberTooLong
  | .broken rest => .read [textOf ('<' :: s.take (s.length - rest.length))] none rest

def isPlainNameChar (c : Char) : Bool :=
  c.isAlphanum || c == '-' || c == '.' || c == ':' || c == '_'

def startsWithLetter : List Char → Bool
  | [] => false
  | c :: _ => c.isAlpha

/-- What an end tag with the text `inner` between `</` and `>` closes. Without a name it is a
comment, and without any text nothing. -/
def closedBy (inner : List Char) : List Token :=
  let start := skipBlanks inner
  if startsWithLetter start && (skipBlanks (start.dropWhile isPlainNameChar)).isEmpty then
    [.endTag (String.ofList (Text.lower (start.takeWhile isPlainNameChar)))]
  else if startsWithLetter inner then
    [.endTag (String.ofList (Text.lower (inner.takeWhile OpenTag.isNameChar)))]
  else if inner.isEmpty then []
  else [.comment (String.ofList inner)]

-- ---------------------------------------------------------------------------
-- Comments, declarations and marked sections

/-- Two dashes, blanks and the `>` that end a comment. -/
def commentEnd? : List Char → Option (List Char)
  | '-' :: '-' :: rest =>
    match skipBlanks rest with
    | '>' :: after => some after
    | _ => none
  | _ => none

def commentAt (s : List Char) : Construct :=
  match cutAt commentEnd? s with
  | some (inner, rest) => .read [.comment (String.ofList inner)] none rest
  | none => .unfinished

/-- The `]` and the `>` that end a conditional section. -/
def conditionalEnd? : List Char → Option (List Char)
  | ']' :: rest =>
    match skipBlanks rest with
    | '>' :: after => some after
    | _ => none
  | _ => none

/-- The two `]` and the `>` that end a section of a keyword. -/
def keywordEnd? : List Char → Option (List Char)
  | ']' :: rest => conditionalEnd? (skipBlanks rest)
  | _ => none

def isSectionNameChar (c : Char) : Bool :=
  c.isAlphanum || c == '-' || c == '_' || c == '.'

/-- How a marked section of this name ends. -/
def sectionEnd? (name : String) : Option (List Char → Option (List Char)) :=
  if ["temp", "cdata", "ignore", "include", "rcdata"].contains name then some keywordEnd?
  else if ["if", "else", "endif"].contains name then some conditionalEnd?
  else none

def sectionAt (s : List Char) : Construct :=
  if s.isEmpty then .unfinished
  else if !startsWithLetter s then .refused .refusedMarkup
  else if (skipBlanks (s.dropWhile isSectionNameChar)).isEmpty then .unfinished
  else
    match sectionEnd? (String.ofList ((s.takeWhile isSectionNameChar).map Char.toLower)) with
    | none => .refused .refusedMarkup
    | some ending =>
      match cutAt ending s with
      | some (inner, rest) => .read [.marked (String.ofList inner)] none rest
      | none => .unfinished

def isDocType (s : List Char) : Bool :=
  (s.take 7).map Char.toLower == "doctype".toList

def declarationAt : List Char → Construct
  | '-' :: '-' :: rest => commentAt rest
  | '[' :: rest => sectionAt rest
  | s => upToClose (fun inner =>
      [if isDocType s then .docType (String.ofList inner) else .comment (String.ofList inner)]) s

def constructAt : List Char → Construct
  | '/' :: rest => upToClose closedBy rest
  | '!' :: rest => declarationAt rest
  | '?' :: rest => upToClose (fun inner => [.instruction (String.ofList inner)]) rest
  | [] => .unfinished
  | c :: rest => if c.isAlpha then startTagAt (c :: rest) else .read [textOf ['<']] none (c :: rest)

/-- The text that an unfinished construct is read as, and what follows it. -/
def asText (s : List Char) : List Char × List Char :=
  match cutAtChar '>' s with
  | some (inner, rest) => ('<' :: inner ++ ['>'], rest)
  | none =>
    match cutAtChar '<' s with
    | some (inner, _) => ('<' :: inner, s.drop inner.length)
    | none => (['<'], s)

-- ---------------------------------------------------------------------------
-- References

/-- What stands after an ampersand: the token it is read as, and what follows. -/
inductive Referred where
  | complete (token : Token) (rest : List Char)
  /-- The reading stops here, as at an unfinished construct. -/
  | stopped (text : List Char) (rest : List Char)

def isReferenceNameChar (c : Char) : Bool :=
  c.isAlphanum || c == '-' || c == '.'

/-- The digits of a number and what follows them, when that is there and no digit. -/
def digitsBefore? (isOne : Char → Bool) (s : List Char) : Option (List Char × List Char) :=
  match s.takeWhile isOne, s.dropWhile isOne with
  | d :: digits, c :: rest =>
    if Reference.isHexDigit c then none else some (d :: digits, Reference.skipSemicolon (c :: rest))
  | _, _ => none

def hexToken (digits : List Char) : Token :=
  textOf [Reference.charOfNumber (Reference.hexNumber digits)]

def decimalToken (digits : List Char) : Token :=
  if Reference.isTooLong digits then .refused .numberTooLong
  else textOf [Reference.charOfNumber (Reference.decimalNumber digits)]

def numberAt? : List Char → Option (Token × List Char)
  | 'x' :: rest =>
    (digitsBefore? Reference.isHexDigit rest).map fun (ds, after) => (hexToken ds, after)
  | 'X' :: rest =>
    (digitsBefore? Reference.isHexDigit rest).map fun (ds, after) => (hexToken ds, after)
  | rest => (digitsBefore? Char.isDigit rest).map fun (ds, after) => (decimalToken ds, after)

/-- Cuts a name that reaches the end of the text before its last dash or point. -/
def cutAtLastMark : List Char → Option (List Char × List Char)
  | [] => none
  | c :: rest =>
    match cutAtLastMark rest with
    | some (name, after) => some (c :: name, after)
    | none => if c == '-' || c == '.' then some ([], c :: rest) else none

def nameAt? (s : List Char) : Option (List Char × List Char) :=
  match s.dropWhile isReferenceNameChar with
  | [] => cutAtLastMark s
  | after => some (s.takeWhile isReferenceNameChar, Reference.skipSemicolon after)

def referredBy (name : List Char) : List Char :=
  (Reference.textOf? name).getD ('&' :: name)

/-- Reads after an ampersand. An unfinished reference of one letter at the very end loses its
ampersand. -/
def referenceAt (closing : Bool) : List Char → Referred
  | '#' :: rest =>
    match numberAt? rest with
    | some (token, after) => .complete token after
    | none =>
      if rest.contains ';' then .stopped ['&', '#'] rest else .stopped [] ('&' :: '#' :: rest)
  | s =>
    if startsWithLetter s then
      match nameAt? s with
      | some (name, after) => .complete (textOf (referredBy name)) after
      | none => if closing && s.length == 1 then .stopped [] s else .stopped [] ('&' :: s)
    else .complete (textOf ['&']) s

-- ---------------------------------------------------------------------------
-- Literal content

/-- The end tag of the literal element `name` at the start of a text: its spelling, and what
follows. -/
def literalEnd? (name : List Char) : List Char → Option (List Char × List Char)
  | '<' :: '/' :: rest =>
    match Text.spelling? name (skipBlanks rest) with
    | some (spelled, after) =>
      match skipBlanks after with
      | '>' :: rest => some (spelled, rest)
      | _ => none
    | none => none
  | _ => none

-- ---------------------------------------------------------------------------
-- Lengths

theorem length_of_upToClose {token : List Char → List Token} {s rest : List Char}
    {tokens : List Token} {literal : Option (List Char)}
    (h : upToClose token s = .read tokens literal rest) : rest.length ≤ s.length := by
  unfold upToClose at h
  split at h
  · rename_i hc; cases h; exact Nat.le_of_lt (OpenTag.length_le_of_cutAtChar hc)
  · cases h

theorem length_of_startTagAt {s rest : List Char} {tokens : List Token}
    {literal : Option (List Char)} (h : startTagAt s = .read tokens literal rest) :
    rest.length ≤ s.length := by
  unfold startTagAt at h
  split at h
  · rename_i hr; cases h; exact OpenTag.length_le_of_read_complete hr
  · cases h
  · cases h
  · rename_i hr; cases h; exact OpenTag.length_le_of_read_broken hr

theorem length_of_conditionalEnd? {s rest : List Char} (h : conditionalEnd? s = some rest) :
    rest.length ≤ s.length := by
  unfold conditionalEnd? at h
  split at h
  · rename_i s'
    split at h
    · rename_i hs; cases h
      have := Text.length_skipBlanks_le s'
      rw [hs] at this
      simp only [List.length_cons] at this ⊢; omega
    · cases h
  · cases h

theorem length_of_keywordEnd? {s rest : List Char} (h : keywordEnd? s = some rest) :
    rest.length ≤ s.length := by
  unfold keywordEnd? at h
  split at h
  · rename_i s'
    have := length_of_conditionalEnd? h
    have := Text.length_skipBlanks_le s'
    simp only [List.length_cons]; omega
  · cases h

theorem length_of_commentEnd? {s rest : List Char} (h : commentEnd? s = some rest) :
    rest.length ≤ s.length := by
  unfold commentEnd? at h
  split at h
  · rename_i s'
    split at h
    · rename_i hs; cases h
      have := Text.length_skipBlanks_le s'
      rw [hs] at this
      simp only [List.length_cons] at this ⊢; omega
    · cases h
  · cases h

theorem length_of_cutAt {ending : List Char → Option (List Char)} {s before rest : List Char}
    (he : ∀ {s rest}, ending s = some rest → rest.length ≤ s.length)
    (h : cutAt ending s = some (before, rest)) : rest.length ≤ s.length := by
  obtain ⟨after, rfl, ha⟩ := Text.look_of_cutAt h
  have := he ha
  simp only [List.length_append]; omega

theorem length_of_commentAt {s rest : List Char} {tokens : List Token}
    {literal : Option (List Char)} (h : commentAt s = .read tokens literal rest) :
    rest.length ≤ s.length := by
  unfold commentAt at h
  split at h
  · rename_i hc; cases h; exact length_of_cutAt length_of_commentEnd? hc
  · cases h

theorem length_of_sectionEnd? {name : String} {ending : List Char → Option (List Char)}
    (h : sectionEnd? name = some ending) {s rest : List Char} (he : ending s = some rest) :
    rest.length ≤ s.length := by
  unfold sectionEnd? at h
  split at h
  · cases h; exact length_of_keywordEnd? he
  · split at h
    · cases h; exact length_of_conditionalEnd? he
    · cases h

theorem length_of_sectionAt {s rest : List Char} {tokens : List Token}
    {literal : Option (List Char)} (h : sectionAt s = .read tokens literal rest) :
    rest.length ≤ s.length := by
  unfold sectionAt at h
  repeat' split at h
  all_goals first
    | cases h; done
    | (rename_i hs _ _ _ hc; cases h; exact length_of_cutAt (length_of_sectionEnd? hs) hc)

theorem length_of_constructAt {s rest : List Char} {tokens : List Token}
    {literal : Option (List Char)} (h : constructAt s = .read tokens literal rest) :
    rest.length ≤ s.length := by
  unfold constructAt at h
  split at h
  · exact Nat.le_succ_of_le (length_of_upToClose h)
  · refine Nat.le_succ_of_le ?_
    unfold declarationAt at h
    split at h
    · have := length_of_commentAt h
      simp only [List.length_cons]; omega
    · exact Nat.le_succ_of_le (length_of_sectionAt h)
    · exact length_of_upToClose h
  · exact Nat.le_succ_of_le (length_of_upToClose h)
  · cases h
  · split at h
    · exact length_of_startTagAt h
    · cases h; exact Nat.le_refl _

theorem length_asText_le (s : List Char) : (asText s).2.length ≤ s.length := by
  unfold asText
  split
  · rename_i hc; exact Nat.le_of_lt (OpenTag.length_le_of_cutAtChar hc)
  · split <;> simp

theorem length_of_digitsBefore? {isOne : Char → Bool} {s digits rest : List Char}
    (h : digitsBefore? isOne s = some (digits, rest)) : rest.length ≤ s.length := by
  unfold digitsBefore? at h
  split at h
  · rename_i hd
    split at h
    · cases h
    · cases h
      refine Nat.le_trans (Reference.length_skipSemicolon_le _) ?_
      rw [← hd]; exact Text.length_dropWhile_le _ _
  · cases h

theorem length_of_numberAt? {s rest : List Char} {token : Token}
    (h : numberAt? s = some (token, rest)) : rest.length ≤ s.length := by
  unfold numberAt? at h
  split at h <;>
  · simp only [Option.map_eq_some_iff, Prod.mk.injEq] at h
    obtain ⟨⟨ds, after⟩, hd, -, rfl⟩ := h
    have := length_of_digitsBefore? hd
    simp only [List.length_cons] at *; omega

theorem length_of_cutAtLastMark {s name rest : List Char}
    (h : cutAtLastMark s = some (name, rest)) : rest.length ≤ s.length := by
  induction s generalizing name with
  | nil => simp [cutAtLastMark] at h
  | cons c s ih =>
    simp only [cutAtLastMark] at h
    split at h
    · rename_i hc; cases h; exact Nat.le_succ_of_le (ih hc)
    · split at h
      · cases h; exact Nat.le_refl _
      · cases h

theorem length_of_nameAt? {s name rest : List Char} (h : nameAt? s = some (name, rest)) :
    rest.length ≤ s.length := by
  unfold nameAt? at h
  split at h
  · exact length_of_cutAtLastMark h
  · cases h
    exact Nat.le_trans (Reference.length_skipSemicolon_le _) (Text.length_dropWhile_le _ _)

theorem length_of_referenceAt {closing : Bool} {s rest : List Char} {token : Token}
    (h : referenceAt closing s = .complete token rest) : rest.length ≤ s.length := by
  unfold referenceAt at h
  split at h
  · split at h
    · rename_i hn; cases h; exact Nat.le_succ_of_le (length_of_numberAt? hn)
    · split at h <;> cases h
  · split at h
    · split at h
      · rename_i hn; cases h; exact length_of_nameAt? hn
      · split at h <;> cases h
    · cases h; exact Nat.le_refl _

theorem length_of_stopped {closing : Bool} {s text rest : List Char}
    (h : referenceAt closing s = .stopped text rest) : rest.length ≤ s.length + 1 := by
  unfold referenceAt at h
  split at h
  · split at h
    · cases h
    · split at h <;> (cases h; simp only [List.length_cons]; omega)
  · split at h
    · split at h
      · cases h
      · split at h <;> (cases h; simp)
    · cases h

theorem length_of_literalEnd? {name s spelled rest : List Char}
    (h : literalEnd? name s = some (spelled, rest)) : rest.length < s.length := by
  unfold literalEnd? at h
  split at h
  · rename_i s'
    split at h
    · rename_i after hs
      split at h
      · rename_i hr; cases h
        have h1 := (Text.length_of_spelling? hs).1
        have h2 := Text.length_skipBlanks_le s'
        have h3 := Text.length_skipBlanks_le after
        rw [hr] at h3
        simp only [List.length_cons] at *; omega
      · cases h
    · cases h
  · cases h

theorem length_of_cut_literalEnd? {name s before spelled rest : List Char}
    (h : cutAt (literalEnd? name) s = some (before, spelled, rest)) : rest.length < s.length := by
  obtain ⟨after, rfl, ha⟩ := Text.look_of_cutAt h
  have := length_of_literalEnd? ha
  simp only [List.length_append]; omega

-- ---------------------------------------------------------------------------
-- The sequence of tokens

/-- A text, unless it is empty. -/
def textBefore (s : List Char) : List Token :=
  if s.isEmpty then [] else [textOf s]

def isPlain (c : Char) : Bool :=
  !(c == '<' || c == '&')

/-- The tokens of a text; `literal` names the element whose content is literal here. -/
def scan (closing : Bool) (literal : Option (List Char)) (s : List Char) : List Token :=
  match literal with
  | some name =>
    match _h : cutAt (literalEnd? name) s with
    | none => []
    | some (before, spelled, rest) =>
      if spelled.all fun c => c.toNat < 0x80 then
        textBefore before ++ .endTag (String.ofList name) :: scan closing none rest
      else textOf (s.take (s.length - rest.length)) :: scan closing (some name) rest
  | none =>
    match s with
    | [] => []
    | '<' :: s =>
      match _h : constructAt s with
      | .read tokens literal rest => tokens ++ scan closing literal rest
      | .refused f => [.refused f]
      | .unfinished =>
        if _hc : closing then textOf (asText s).1 :: scan true none (asText s).2
        else scan true none ('<' :: s)
    | '&' :: s =>
      match _h : referenceAt closing s with
      | .complete token rest => token :: scan closing none rest
      | .stopped shown rest =>
        if _hc : closing then textBefore shown ++ textBefore rest
        else textBefore shown ++ scan true none rest
    | c :: s => textOf (c :: s.takeWhile isPlain) :: scan closing none (s.dropWhile isPlain)
termination_by (s.length, if closing then 0 else 1)
decreasing_by
  · exact Prod.Lex.left _ _ (length_of_cut_literalEnd? _h)
  · exact Prod.Lex.left _ _ (length_of_cut_literalEnd? _h)
  · exact Prod.Lex.left _ _ (Nat.lt_succ_of_le (length_of_constructAt _h))
  · exact Prod.Lex.left _ _ (Nat.lt_succ_of_le (length_asText_le _))
  · simp only [_hc]; exact Prod.Lex.right _ (by decide)
  · exact Prod.Lex.left _ _ (Nat.lt_succ_of_le (length_of_referenceAt _h))
  · simp only [_hc]
    rcases Nat.lt_or_eq_of_le (length_of_stopped _h) with hl | hl
    · exact Prod.Lex.left _ _ hl
    · rw [hl]; exact Prod.Lex.right _ (by decide)
  · exact Prod.Lex.left _ _ (Nat.lt_succ_of_le (Text.length_dropWhile_le _ _))

def ofText (s : List Char) : List Token :=
  scan false none s

end Token

end Mailgrid.Markup
