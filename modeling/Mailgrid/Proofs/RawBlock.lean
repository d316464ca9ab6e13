import Mailgrid.Proofs.Markup.Tidy
import Mailgrid.RawBlock

/-!
# Documents without raw blocks

No part of a tidy document opens a raw block, so nothing is cut out of it.
-/

namespace Mailgrid.RawBlock

open Mailgrid.Markup (Part isNameLetter)
open Mailgrid.Text (skipBlanks)

theorem shield_of_not_opening (settings : Settings) {text : String}
    (h : ∀ s, s <:+ text.toList → opening? s = none) : shield settings text = ⟨text, []⟩ := by
  have hnone : ∀ s, s <:+ text.toList → block? s = none := by
    intro s hs
    unfold block?
    split
    · rfl
    · rename_i ho
      rw [h s hs] at ho
      cases ho
  have hplain (s : List Char) (index : Nat) :
      placeholders settings index (s.map .plain) = s ∧
        (s.map Text.Piece.plain).filterMap (@Text.Piece.value? (List Char)) = [] := by
    induction s with
    | nil => exact ⟨rfl, rfl⟩
    | cons c rest ih => exact ⟨congrArg (c :: ·) ih.1, ih.2⟩
  rw [shield, Text.pieces_of_none hnone]
  simp only [(hplain text.toList 0).1, (hplain text.toList 0).2, String.ofList_toList]
  rfl

theorem not_opening_of_part {p : Part} (h : p.Tidy) (ht : p.isText = false)
    {s rest : List Char} (hs : '<' :: s = p.write ++ rest) : opening? ('<' :: s) = none := by
  obtain ⟨c, tail, hw, hc, hblank⟩ := h.exists_behind ht
  have hstart : skipBlanks s = s := by
    rw [hw, List.cons_append, List.append_assoc, List.cons_append] at hs
    rw [(List.cons.inj hs).2]
    cases hn : p.name with
    | nil => exact Text.skipBlanks_of_not_blank (hblank hn) _
    | cons d more =>
      have hletter := h.isNameLetter_name d (hn ▸ List.mem_cons_self)
      exact Text.skipBlanks_of_not_blank (Markup.of_isNameLetter hletter).2.2.2.1 _
  rw [opening?, markerName?, hstart]
  split
  · rename_i spelled after hword
    split
    · rename_i behind hb
      have hend : ∀ c ∈ after.head?, isNameLetter c = false := by
        intro c hc
        cases after with
        | nil => cases hc
        | cons d after =>
          cases hc
          cases hd : isNameLetter c with
          | false => rfl
          | true =>
            obtain ⟨-, -, -, hblank, -, hne, -⟩ := Markup.of_isNameLetter hd
            rw [Text.skipBlanks_of_not_blank hblank] at hb
            exact absurd (List.cons.inj hb).1 hne
      obtain ⟨t, rfl, hlower, -⟩ :=
        h.of_spelling? ht hs hword (by decide) (by decide) hend
      have htidy : t.Tidy := h
      have hapart := htidy.apart
      rw [String.toList_inj.mp hlower] at hapart
      cases hapart
    · rfl
  · rfl

theorem shield_tidy (settings : Settings) {parts : List Part} (h : ∀ p ∈ parts, p.Tidy)
    {text : String} (written : text.toList = parts.flatMap Part.write) :
    shield settings text = ⟨text, []⟩ := by
  refine shield_of_not_opening settings fun s hs => ?_
  rw [written] at hs
  cases s with
  | nil => rfl
  | cons c s =>
    by_cases hc : c = '<'
    · subst hc
      obtain ⟨p, rest, hp, ht, he⟩ := Markup.exists_part_of_suffix h hs
      exact not_opening_of_part (h p (hp.subset List.mem_cons_self)) ht he
    · unfold opening?
      split
      · rename_i hs
        exact absurd (List.cons.inj hs).1 hc
      · rfl

end Mailgrid.RawBlock
