import Mailgrid.Proofs.Document.Recased
import Mailgrid.Proofs.Document.Tidy

/-!
# Tidy documents with components in another case

In a tidy document each tag and each comment is read as it is written, and none
of them is taken for a void start tag that is not closed. So the names of its
components may be written in any case.
-/

namespace Mailgrid

open Format (protectedChars protectedChars_append protectedChars_of_not_mem)
open Markup (OpenTag Part Tag Token bareStyle isNameLetter_ampersand not_mem_of_isLegible
  not_mem_of_lacks)
open Markup.Token (constructAt reachesOver)
open VoidElement (IsFirm)

variable {u s t : List Char} {p p' : Part} {tag : Tag}

namespace Markup

/-- The one part is the other with the name of a component in another case, if it differs at all.
Centers are the same in both. -/
inductive Part.Recased : Part → Part → Prop where
  | same (p : Part) : Recased p p
  | startTag {kind : Component} {tag : Tag} {name : String} (component : kind ≠ .center)
    (spelled : kind.IsSpelled tag.name.toList) (respelled : kind.IsSpelled name.toList) :
    Recased (.startTag tag) (.startTag { tag with name })
  | endTag {kind : Component} {tag : Tag} {name : String} (component : kind ≠ .center)
    (spelled : kind.IsSpelled tag.name.toList) (respelled : kind.IsSpelled name.toList) :
    Recased (.endTag tag) (.endTag { tag with name })

-- ---------------------------------------------------------------------------
-- Start tags

/-- What stands in a start tag behind its name. -/
def Part.behind (tag : Tag) : List Char :=
  bareStyle.attributes tag.attributes ++ if tag.void then ['/'] else []

theorem Part.behindName_eq (tag : Tag) : behindName tag = behind tag ++ ['>'] := by
  unfold behindName behind ending
  split <;> simp

theorem Part.write_startTag_append (tag : Tag) (s : List Char) :
    (startTag tag).write ++ s = '<' :: (tag.name.toList ++ (behind tag ++ '>' :: s)) := by
  simp [write_startTag, behindName_eq]

theorem Part.write_endTag_append (tag : Tag) (s : List Char) :
    (endTag tag).write ++ s = '<' :: '/' :: (tag.name.toList ++ '>' :: s) := by
  simp [write, Style.endTag]

namespace Tag.Tidy

theorem apart_behind (h : tag.Tidy) : (Part.behind tag).takeWhile OpenTag.isNameChar = [] := by
  obtain ⟨c, tail, hbehind, hc⟩ := h.exists_behindName
  have hstop : OpenTag.isNameChar c = false := by
    simp only [List.mem_cons, List.not_mem_nil, or_false] at hc
    rcases hc with rfl | rfl | rfl <;> rfl
  rw [← Text.takeWhile_append_cons (d := '>') rfl (Part.behind tag) [], ← Part.behindName_eq, hbehind]
  simp [hstop]

theorem protectedChars_written (h : tag.Tidy) (s : List Char) :
    protectedChars (tag.name.toList ++ (Part.behind tag ++ '>' :: s)) =
      tag.veiled.name.toList ++ (bareStyle.attributes tag.veiled.attributes ++
        (Part.ending tag ++ protectedChars s)) := by
  have hname := protectedChars_of_not_mem (not_mem_of_isLegible h.legible isNameLetter_ampersand)
  have hending : protectedChars (Part.ending tag) = Part.ending tag := by
    unfold Part.ending
    split <;> rfl
  have hbehind : Part.behind tag ++ '>' :: s =
      bareStyle.attributes tag.attributes ++ (Part.ending tag ++ s) := by
    rw [List.append_cons, ← Part.behindName_eq, Part.behindName, List.append_assoc]
  have hattributes : protectedChars (bareStyle.attributes tag.attributes) =
      bareStyle.attributes tag.veiled.attributes := (protectedChars_attributes h.attributes).symm
  rw [hbehind, protectedChars_append, protectedChars_append, protectedChars_append, hname, hending,
    hattributes]
  rfl

theorem exists_ending (tag : Tag) : ∃ last closed, OpenTag.Ending (Part.ending tag) last closed := by
  unfold Part.ending
  split
  · exact ⟨_, _, .closed⟩
  · exact ⟨_, _, .open_⟩

theorem read_written (h : tag.Tidy) (s : List Char) :
    ∃ found, OpenTag.read (protectedChars (tag.name.toList ++ (Part.behind tag ++ '>' :: s))) =
      .complete found (protectedChars s) := by
  obtain ⟨last, closed, hending⟩ := exists_ending tag
  have hreadable := Tag.isReadable_of_isLegible h.isLegible_veiled
  have hread := OpenTag.read_quoted (Tag.isQuoted_of_isReadable hreadable) hending (protectedChars s)
  rw [(Tag.pairs_of_isReadable hreadable).1] at hread
  exact ⟨_, (congrArg _ (h.protectedChars_written s)).trans hread⟩

end Tag.Tidy

end Markup

-- ---------------------------------------------------------------------------
-- Other parts

/-- What is no void start tag at its first character holds none if it has no other `<`. -/
theorem VoidElement.isFirm_of_not_mem (h : '<' ∉ u)
    (apart : lone? ('<' :: (u ++ '>' :: s)) = none) : IsFirm ('<' :: u) s := by
  intro v hv _ spot hspot
  obtain ⟨c, rest, hstart, -⟩ := start_of_startTag? (startTag_of_lone? hspot)
  rcases List.suffix_cons_iff.mp hv with rfl | hv
  · cases apart.symm.trans hspot
  · cases v with
    | nil => cases hstart
    | cons d v =>
      obtain ⟨rfl, -⟩ := List.cons.inj hstart
      exact absurd (hv.subset List.mem_cons_self) h

theorem Markup.Token.reachesOver_of_ne {c : Char} (h : c ≠ '!') (s : List Char) :
    reachesOver (c :: s) = false := by
  unfold reachesOver
  split
  · rename_i he
    exact absurd (List.cons.inj he).1 h
  · rename_i he
    exact absurd (List.cons.inj he).1 h
  · rfl

namespace Markup.Part

theorem Tidy.exists_construct (h : p.Tidy) (ht : p.isText = false) :
    ∃ u, p.write = '<' :: (u ++ ['>']) ∧ ∀ s,
      (∃ tokens, constructAt (protectedChars (u ++ '>' :: s)) =
        .read tokens none (protectedChars s)) ∧
      (reachesOver u = true → IsFirm ('<' :: u) s) := by
  cases p with
  | leaf kind content =>
    cases kind with
    | text => cases ht
    | comment =>
      have hwritten : (leaf .comment content).write =
        "<!--".toList ++ content.toList ++ "-->".toList := rfl
      refine ⟨'!' :: '-' :: '-' :: (content.toList ++ ['-', '-']), by simp [hwritten], fun s =>
        ⟨⟨[.comment (String.ofList (protectedChars content.toList))], ?_⟩, fun _ => ?_⟩⟩
      · have hdash : '-' ∉ protectedChars content.toList := fun hm =>
          not_mem_of_lacks h (c := '-') (by decide)
            ((mem_protectedChars_iff (by decide) (by decide)).mp hm)
        rw [← Token.constructAt_comment (Token.cutAt_commentEnd?_of_not_mem hdash),
          protectedChars_close]
        simp [protectedChars]
      · have hopen : '<' ∉ content.toList := not_mem_of_lacks h (by decide)
        exact VoidElement.isFirm_of_not_mem (by simp [hopen]) rfl
    | leadingDocType =>
      have hwritten : (leaf .leadingDocType content).write =
        "<!DOCTYPE ".toList ++ content.toList ++ ['>'] := rfl
      have hampersand : '&' ∉ '!' :: ("DOCTYPE".toList ++ ' ' :: content.toList) := by
        simp [not_mem_of_isLegible h isNameLetter_ampersand]
      have hclose : '>' ∉ ' ' :: content.toList := by
        simp [not_mem_of_isLegible h (c := '>') rfl]
      refine ⟨'!' :: ("DOCTYPE".toList ++ ' ' :: content.toList), by simp [hwritten], fun s =>
        ⟨⟨[.docType (String.ofList ("DOCTYPE".toList ++ ' ' :: content.toList))], ?_⟩, fun h =>
        absurd h Bool.false_ne_true⟩⟩
      rw [← Token.constructAt_docType (by decide) hclose, protectedChars_close,
        protectedChars_of_not_mem hampersand]
      simp
    | _ => exact absurd h id
  | startTag tag =>
    have h : tag.Tidy := h
    obtain ⟨c, letters, hname, hc, -⟩ := exists_of_isLegible h.legible
    obtain ⟨last, closed, hending⟩ := Tag.Tidy.exists_ending tag
    have hreadable := Tag.isReadable_of_isLegible h.isLegible_veiled
    refine ⟨tag.name.toList ++ behind tag, ?_, fun s => ⟨?_, fun hreaches => ?_⟩⟩
    · rw [write_startTag, behindName_eq, List.append_assoc]
    · have hread := Token.constructAt_quoted (Tag.isQuoted_of_isReadable hreadable) hending
        (protectedChars s)
      rw [(Tag.pairs_of_isReadable hreadable).1, ← h.protectedChars_written, ← List.append_assoc]
        at hread
      exact ⟨_, hread⟩
    · have hmark : c ≠ '!' := by
        rintro rfl
        cases hc
      rw [hname, List.cons_append, Token.reachesOver_of_ne hmark] at hreaches
      cases hreaches
  | endTag tag =>
    have h : tag.Tidy := h.1
    have hampersand : '&' ∉ '/' :: tag.name.toList := by
      simp [not_mem_of_isLegible h.legible isNameLetter_ampersand]
    refine ⟨'/' :: tag.name.toList, rfl, fun s => ⟨?_, fun h => absurd h Bool.false_ne_true⟩⟩
    rw [protectedChars_close, protectedChars_of_not_mem hampersand]
    exact ⟨_, Token.constructAt_legibleEnd h.legible (protectedChars s)⟩

end Markup.Part

-- ---------------------------------------------------------------------------
-- Documents

theorem Recased.append {stands : List Char → List Char → Prop} (hu : '<' ∉ u)
    (h : Recased stands none s t) : Recased stands none (u ++ s) (u ++ t) := by
  induction u with
  | nil => exact h
  | cons c u ih =>
    simp only [List.mem_cons, not_or] at hu
    exact .char (Ne.symm hu.1) (ih hu.2)

theorem Markup.Part.Recased.append (h : p.Recased p') (tidy : p.Tidy)
    (rest : Mailgrid.Recased IsFirm none s t) :
    Mailgrid.Recased IsFirm none (p.write ++ s) (p'.write ++ t) := by
  cases h with
  | same =>
    cases ht : p.isText with
    | true => exact Mailgrid.Recased.append (tidy.not_mem_text ht) rest
    | false =>
      obtain ⟨u, hwritten, hconstruct⟩ := tidy.exists_construct ht
      obtain ⟨⟨tokens, hread⟩, hfirm⟩ := hconstruct s
      have hsplit (s : List Char) : p.write ++ s = '<' :: (u ++ '>' :: s) := by
        simp [hwritten]
      rw [hsplit, hsplit]
      exact .construct hread (fun hover => hover.elim hfirm nofun) rest
  | startTag component spelled respelled =>
    obtain ⟨found, hread⟩ := Tag.Tidy.read_written tidy s
    rw [write_startTag_append, write_startTag_append]
    exact .startTag component spelled respelled (Tag.Tidy.apart_behind tidy) hread rest
  | endTag component spelled respelled =>
    rw [write_endTag_append, write_endTag_append]
    exact Mailgrid.Recased.endTag component spelled respelled (u := []) rfl nofun rest

theorem recased_of_parts {parts parts' : List Part} (tidy : ∀ p ∈ parts, p.Tidy)
    (h : List.Forall₂ Part.Recased parts parts') :
    Recased IsFirm none (parts.flatMap Part.write) (parts'.flatMap Part.write) := by
  induction h with
  | nil => exact .same none []
  | cons hp _ ih =>
    obtain ⟨hfirst, hmore⟩ := List.forall_mem_cons.mp tidy
    exact hp.append hfirst (ih hmore)

end Mailgrid
