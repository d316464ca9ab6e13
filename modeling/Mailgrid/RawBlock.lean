import Mailgrid.Settings
import Mailgrid.Text.Fold

/-!
# Raw blocks

What stands between a raw marker and the next closing one reaches the output
untouched. Before a document is read its raw blocks are cut out, each replaced
by a placeholder with its number; at the end the placeholders are replaced by
the contents, in one pass, so that no content is looked at again.

Markers may be written in any case and with blanks around the slash and name.
-/

namespace Mailgrid

open Mailgrid.Text (skipBlanks)

/-- A text whose raw blocks are replaced by placeholders. -/
structure Shielded where
  text : String
  blocks : List String
  deriving DecidableEq

namespace RawBlock

/-- The name of the marker with its blanks and the `>`, and what follows. -/
def markerName? (s : List Char) : Option (List Char) :=
  match Text.spelling? "raw".toList (skipBlanks s) with
  | some (_, rest) =>
    match skipBlanks rest with
    | '>' :: after => some after
    | _ => none
  | none => none

def opening? : List Char → Option (List Char)
  | '<' :: rest => markerName? rest
  | _ => none

def closing? : List Char → Option (List Char)
  | '<' :: rest =>
    match skipBlanks rest with
    | '/' :: after => markerName? after
    | _ => none
  | _ => none

theorem length_of_markerName? {s rest : List Char} (h : markerName? s = some rest) :
    rest.length < s.length := by
  unfold markerName? at h
  split at h
  · rename_i after hs
    split at h
    · rename_i ha; cases h
      have h1 := Text.length_skipBlanks_le s
      have h2 := (Text.length_of_spelling? hs).1
      have h3 := Text.length_skipBlanks_le after
      rw [ha] at h3
      simp only [List.length_cons] at h3; omega
    · cases h
  · cases h

theorem length_of_opening? {s rest : List Char} (h : opening? s = some rest) :
    rest.length < s.length := by
  unfold opening? at h
  split at h
  · exact Nat.lt_succ_of_lt (length_of_markerName? h)
  · cases h

theorem length_of_closing? {s rest : List Char} (h : closing? s = some rest) :
    rest.length ≤ s.length := by
  unfold closing? at h
  split at h
  · rename_i s'
    split at h
    · rename_i after ha
      have h1 := Text.length_skipBlanks_le s'
      rw [ha] at h1
      have h2 := length_of_markerName? h
      simp only [List.length_cons] at *; omega
    · cases h
  · cases h

/-- The content of the raw block at the start of a text. -/
def block? (s : List Char) : Option (Text.Match (List Char) s) :=
  match ho : opening? s with
  | none => none
  | some inside =>
    match hc : Text.cutAt closing? inside with
    | none => none
    | some (content, rest) =>
      some ⟨content, rest, by
        obtain ⟨after, rfl, ha⟩ := Text.look_of_cutAt hc
        have h1 := length_of_opening? ho
        have h2 := length_of_closing? ha
        simp only [List.length_append] at h1; omega⟩

/-- Writes placeholders for the blocks, counting from `index`. -/
def placeholders (settings : Settings) (index : Nat) : List (Text.Piece (List Char)) → List Char
  | [] => []
  | .plain c :: rest => c :: placeholders settings index rest
  | .found _ :: rest =>
    (settings.placeholder index).toList ++ placeholders settings (index + 1) rest

/-- Cuts the raw blocks out of a document. -/
def shield (settings : Settings) (text : String) : Shielded :=
  let pieces := Text.pieces block? text.toList
  ⟨String.ofList (placeholders settings 0 pieces),
    (pieces.filterMap Text.Piece.value?).map String.ofList⟩

/-- The longest run of digits in `digits` reading on from `before` that the end of a placeholder
follows, and what comes behind. -/
def longestIndex? (ending : List Char) (before : List Char) :
    List Char → Option (List Char × List Char)
  | [] =>
    if before.isEmpty then none else (Text.after? ending []).map (before, ·)
  | c :: rest =>
    match if Text.isDigit c then longestIndex? ending (before ++ [c]) rest else none with
    | some found => some found
    | none =>
      if before.isEmpty then none else (Text.after? ending (c :: rest)).map (before, ·)

/-- The placeholder at the start of a text. -/
def placeholder? (settings : Settings) (s : List Char) : Option (List Char × List Char) :=
  match Text.after? settings.rawStart.toList s with
  | none => none
  | some digits =>
    (longestIndex? settings.rawEnd.toList [] digits).map fun (index, rest) =>
      (settings.rawStart.toList ++ index ++ settings.rawEnd.toList, rest)

theorem length_of_longestIndex? {ending before s index rest : List Char}
    (h : longestIndex? ending before s = some (index, rest)) :
    before.length + s.length = index.length + ending.length + rest.length ∧ index ≠ [] := by
  induction s generalizing before with
  | nil =>
    simp only [longestIndex?] at h
    split at h
    · cases h
    · rename_i hb
      simp only [Option.map_eq_some_iff, Prod.mk.injEq] at h
      obtain ⟨r, hr, rfl, rfl⟩ := h
      have := congrArg List.length (Text.append_of_after? hr)
      simp only [List.length_append, List.length_nil] at *
      exact ⟨by omega, by simpa using hb⟩
  | cons c s ih =>
    simp only [longestIndex?] at h
    split at h
    · rename_i hf; cases h
      split at hf
      · obtain ⟨hl, hn⟩ := ih hf
        simp only [List.length_append, List.length_cons, List.length_nil] at *
        exact ⟨by omega, hn⟩
      · cases hf
    · split at h
      · cases h
      · rename_i hb
        simp only [Option.map_eq_some_iff, Prod.mk.injEq] at h
        obtain ⟨r, hr, rfl, rfl⟩ := h
        have := congrArg List.length (Text.append_of_after? hr)
        simp only [List.length_append] at this
        exact ⟨by omega, by simpa using hb⟩

theorem length_of_placeholder? {settings : Settings} {s written rest : List Char}
    (h : placeholder? settings s = some (written, rest)) : rest.length < s.length := by
  unfold placeholder? at h
  split at h
  · cases h
  · rename_i digits hd
    simp only [Option.map_eq_some_iff, Prod.mk.injEq] at h
    obtain ⟨⟨index, r⟩, hi, rfl, rfl⟩ := h
    obtain ⟨hl, hn⟩ := length_of_longestIndex? hi
    have := congrArg List.length (Text.append_of_after? hd)
    have := List.length_pos_iff.mpr hn
    simp only [List.length_append, List.length_nil] at *; omega

/-- What a placeholder is replaced by: the block of its number, or itself if there is none. -/
def blockOf (settings : Settings) (blocks : List String) (written : List Char) : List Char :=
  match settings.placeholderIndex? (String.ofList written) with
  | some (.ofNat index) => (blocks[index]?.map String.toList).getD written
  | _ => written

def blockMatch? (settings : Settings) (blocks : List String) (s : List Char) :
    Option (Text.Match (List Char) s) :=
  match h : placeholder? settings s with
  | some (written, rest) =>
    some ⟨blockOf settings blocks written, rest, length_of_placeholder? h⟩
  | none => none

/-- Puts blocks in the place of their placeholders. -/
def restore (settings : Settings) (blocks : List String) (text : String) : String :=
  if blocks.isEmpty then text
  else String.ofList (Text.substitute (blockMatch? settings blocks) text.toList)

end RawBlock

end Mailgrid
