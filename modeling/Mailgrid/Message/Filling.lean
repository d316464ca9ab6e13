import Mailgrid.Message
import Mailgrid.Message.Number
import Mailgrid.Message.Subject

/-!
# Filling in messages

A message may hold fields in braces, which named values take the place of; a
brace that is meant as such is written twice. A field names a value or a part of
it, and may ask for the value as it is shown inside a list and for a layout. A
layout may hold fields itself.
-/

namespace Mailgrid.Message

/-- A field: what it stands for, perhaps a conversion, and a layout. -/
structure Field where
  path : List Char
  conversion : Option Char
  layout : List Char

/-- A part of a message: text, a field, or a brace that does not make one. -/
inductive Segment where
  | text (s : List Char)
  | field (f : Field)
  | broken

-- ---------------------------------------------------------------------------
-- Reading messages

/-- The text up to the brace that closes `depth` others, and what stands behind that. -/
def layoutEnd? (depth : Nat) : List Char → Option (List Char × List Char)
  | [] => none
  | c :: rest =>
    if c = '\x7d' ∧ depth = 0 then some ([], rest)
    else
      let depth := if c = '\x7b' then depth + 1 else if c = '\x7d' then depth - 1 else depth
      (layoutEnd? depth rest).map fun (inner, after) => (c :: inner, after)

/-- The path of a field, the sign that ends it, and what stands behind that. No sign ends it between
brackets. -/
def pathEnd? (isBracketed : Bool) : List Char → Option (List Char × Char × List Char)
  | [] => none
  | c :: rest =>
    if !isBracketed && c == '\x7b' then none
    else if !isBracketed && (c == '\x7d' || c == ':' || c == '!') then some ([], c, rest)
    else
      (pathEnd? (if isBracketed then c != ']' else c == '[') rest).map fun (path, ending, after) =>
        (c :: path, ending, after)

/-- A field behind its opening brace, and what stands behind the closing one. -/
def field? (s : List Char) : Option (Field × List Char) := do
  let (path, ending, rest) ← pathEnd? false s
  if ending = '\x7d' then return (⟨path, none, []⟩, rest)
  if ending = ':' then
    let (layout, rest) ← layoutEnd? 0 rest
    return (⟨path, none, layout⟩, rest)
  match rest with
  | conversion :: '\x7d' :: rest => return (⟨path, some conversion, []⟩, rest)
  | conversion :: ':' :: rest =>
    let (layout, rest) ← layoutEnd? 0 rest
    return (⟨path, some conversion, layout⟩, rest)
  | _ => none

theorem length_of_layoutEnd? {depth : Nat} {s inner after : List Char}
    (h : layoutEnd? depth s = some (inner, after)) : after.length < s.length := by
  induction s generalizing depth inner with
  | nil => cases h
  | cons c rest ih =>
    simp only [layoutEnd?] at h
    split at h
    · cases h; simp
    · simp only [Option.map_eq_some_iff, Prod.mk.injEq] at h
      obtain ⟨⟨i, a⟩, ha, -, rfl⟩ := h
      exact Nat.lt_succ_of_lt (ih ha)

theorem length_of_pathEnd? {isBracketed : Bool} {s path after : List Char} {ending : Char}
    (h : pathEnd? isBracketed s = some (path, ending, after)) : after.length < s.length := by
  induction s generalizing isBracketed path with
  | nil => cases h
  | cons c rest ih =>
    simp only [pathEnd?] at h
    split at h
    · cases h
    · split at h
      · cases h; simp
      · simp only [Option.map_eq_some_iff, Prod.mk.injEq] at h
        obtain ⟨⟨p, e, a⟩, ha, -, rfl, rfl⟩ := h
        exact Nat.lt_succ_of_lt (ih ha)

theorem length_of_field? {s after : List Char} {f : Field} (h : field? s = some (f, after)) :
    after.length < s.length := by
  unfold field? at h
  cases hp : pathEnd? false s with
  | none => simp [hp] at h
  | some found =>
    obtain ⟨path, ending, rest⟩ := found
    have hlt := length_of_pathEnd? hp
    simp only [hp, Option.bind_eq_bind, Option.bind_some] at h
    split at h
    · cases h; exact hlt
    · split at h
      · cases hl : layoutEnd? 0 rest with
        | none => simp [hl] at h
        | some found =>
          obtain ⟨layout, rest'⟩ := found
          simp only [hl, Option.bind_some] at h
          cases h
          exact Nat.lt_trans (length_of_layoutEnd? hl) hlt
      · split at h
        · cases h
          simp only [List.length_cons] at hlt
          omega
        · rename_i rest'
          cases hl : layoutEnd? 0 rest' with
          | none => simp [hl] at h
          | some found =>
            obtain ⟨layout, rest''⟩ := found
            simp only [hl, Option.bind_some] at h
            cases h
            have := length_of_layoutEnd? hl
            simp only [List.length_cons] at hlt
            omega
        · cases h

/-- The parts of a message. Nothing is read behind a broken one. -/
def segments (s : List Char) : List Segment :=
  match s with
  | [] => []
  | '\x7b' :: '\x7b' :: rest => .text ['\x7b'] :: segments rest
  | '\x7d' :: '\x7d' :: rest => .text ['\x7d'] :: segments rest
  | '\x7d' :: _ => [.broken]
  | '\x7b' :: rest =>
    match _h : field? rest with
    | some (f, after) => .field f :: segments after
    | none => [.broken]
  | c :: rest => .text [c] :: segments rest
termination_by s.length
decreasing_by
  · simp only [List.length_cons]; omega
  · simp only [List.length_cons]; omega
  · exact Nat.lt_succ_of_lt (length_of_field? _h)
  · simp

-- ---------------------------------------------------------------------------
-- Fields

/-- A value in a layout; without one it is written as it reads. -/
def laidOut (s : Subject) (layout : List Char) : Except Failure (List Char) := do
  if layout.isEmpty then return s.shown.toList
  match s with
  | .value (.text s) => (← Layout.ofText .left (some 's') layout).text s.toList
  | .value (.int n) => (← Layout.ofText .right (some 'd') layout).int n
  | .value (.bool b) => (← Layout.ofText .right (some 'd') layout).int (if b then 1 else 0)
  | .value (.float x) => (← Layout.ofText .right none layout).float x
  | _ => throw .unusableLayout

/-- A text with its fields filled in, in which layouts may hold fields less than `depth` deep. -/
def filledText (values : List (String × Value)) (depth : Nat) (s : List Char) :
    Except Failure (List Char) := do
  match depth with
  | 0 => throw .malformedPlaceholder
  | depth + 1 =>
    let parts ← (segments s).mapM fun
      | .text s => pure s
      | .broken => throw .malformedPlaceholder
      | .field f => do
        let subject ← Subject.find values f.path
        let subject ← match f.conversion with
          | some conversion => subject.converted conversion
          | none => pure subject
        let layout ←
          if f.layout.contains '\x7b' then filledText values depth f.layout else pure f.layout
        laidOut subject layout
    return parts.flatten

/-- The message with its fields filled in. Without any values it is left as it is. -/
def filled (values : List (String × Value)) (text : String) : Except Failure String := do
  if values.isEmpty then return text
  return String.ofList (← filledText values 2 text.toList)

/-- Names that no value may have. -/
def reservedNames : List String :=
  ["message", "level"]

/-- What is shown of a message with its values. Fields are only filled in if it is shown. -/
def told (verbosity : Option Int) (values : List (String × Value)) (m : Message) :
    Except Failure (Option String) := do
  if values.any fun (name, _) => reservedNames.contains name then throw .reservedField
  if verbosity.any (isShown · m) then return some (← filled values m.text)
  return none

end Mailgrid.Message
