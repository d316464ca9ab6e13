import Mailgrid.Proofs.Text.Fold
import Mailgrid.Proofs.Text.Search
import Mailgrid.VoidElement
import Mathlib.Data.List.TakeWhile

/-!
# Tags that are seen in a part of a text

Whether a tag is seen at the start of a text depends on little of that text:
where the tag ends within a part, and so does all that is looked for behind it,
the tag is also seen in that part alone.
-/

namespace Mailgrid

-- ---------------------------------------------------------------------------
-- Texts with more behind them

namespace Text

variable {word s t spelled rest before : List Char} {c d : Char}

theorem exists_isLike_of_spelling? (h : spelling? word s = some (spelled, rest)) :
    ∀ c ∈ spelled, ∃ w ∈ word, isLike w c = true := by
  induction word generalizing s spelled with
  | nil =>
    cases h
    simp
  | cons w word ih =>
    cases s with
    | nil => cases h
    | cons c s =>
      simp only [spelling?] at h
      split at h
      · rename_i hc
        obtain ⟨⟨more, behind⟩, hs, he⟩ := Option.map_eq_some_iff.mp h
        cases he
        intro d hd
        rcases List.mem_cons.mp hd with rfl | hd
        · exact ⟨w, List.mem_cons_self, hc⟩
        · obtain ⟨v, hv, hlike⟩ := ih hs d hd
          exact ⟨v, List.mem_cons_of_mem _ hv, hlike⟩
      · cases h

theorem spelling?_append (hw : ∀ w ∈ word, isLike w d = false) (hd : d ∈ s) (t : List Char) :
    spelling? word (s ++ t) =
      (spelling? word s).map fun (spelled, rest) => (spelled, rest ++ t) := by
  induction word generalizing s with
  | nil => rfl
  | cons w word ih =>
    obtain ⟨hne, hword⟩ := List.forall_mem_cons.mp hw
    cases s with
    | nil => cases hd
    | cons c s =>
      simp only [List.cons_append, spelling?]
      split
      · rename_i hc
        have hs : d ∈ s := by
          rcases List.mem_cons.mp hd with rfl | hs
          · rw [hc] at hne
            cases hne
          · exact hs
        simp [ih hword hs, Function.comp_def]
      · rfl

theorem afterFolded?_append (hw : ∀ w ∈ word, foldKey w ≠ foldKey d) (hd : d ∈ s) (t : List Char) :
    afterFolded? word (s ++ t) = (afterFolded? word s).map (· ++ t) := by
  induction word generalizing s with
  | nil => rfl
  | cons w word ih =>
    obtain ⟨hne, hword⟩ := List.forall_mem_cons.mp hw
    cases s with
    | nil => cases hd
    | cons c s =>
      simp only [List.cons_append, afterFolded?]
      split
      · rename_i hc
        have hs : d ∈ s := by
          rcases List.mem_cons.mp hd with rfl | hs
          · exact absurd hc hne
          · exact hs
        exact ih hword hs
      · rfl

theorem mem_of_afterFolded? (hw : ∀ w ∈ word, foldKey w ≠ foldKey d) (hd : d ∈ s)
    (h : afterFolded? word s = some rest) : d ∈ rest := by
  induction word generalizing s with
  | nil =>
    cases h
    exact hd
  | cons w word ih =>
    obtain ⟨hne, hword⟩ := List.forall_mem_cons.mp hw
    cases s with
    | nil => cases hd
    | cons c s =>
      simp only [afterFolded?] at h
      split at h
      · rename_i hc
        rcases List.mem_cons.mp hd with rfl | hs
        · exact absurd hc hne
        · exact ih hword hs h
      · cases h

theorem suffix_of_afterFolded? (h : afterFolded? word s = some rest) : rest <:+ s := by
  induction word generalizing s with
  | nil =>
    cases h
    exact List.suffix_rfl
  | cons w word ih =>
    cases s with
    | nil => cases h
    | cons c s =>
      simp only [afterFolded?] at h
      split at h
      · exact (ih h).trans (List.suffix_cons c s)
      · cases h

theorem run_append {p : Char → Bool} (hd : d ∈ s) (hp : p d = false) (t : List Char) :
    (s ++ t).takeWhile p = s.takeWhile p ∧ (s ++ t).dropWhile p = s.dropWhile p ++ t ∧
      d ∈ s.dropWhile p := by
  induction s with
  | nil => cases hd
  | cons c s ih =>
    cases hc : p c with
    | false => simpa [hc] using hd
    | true =>
      rcases List.mem_cons.mp hd with rfl | hs
      · rw [hp] at hc
        cases hc
      · simpa [hc] using ih hs

theorem cutAtChar_append_of_mem (h : c ∈ s) (t : List Char) :
    cutAtChar c (s ++ t) = (cutAtChar c s).map fun (before, rest) => (before, rest ++ t) := by
  obtain ⟨before, rest, rfl, hb⟩ := List.eq_append_cons_of_mem h
  rw [List.append_assoc, List.cons_append, cutAtChar_append hb, cutAtChar_append hb]
  rfl

theorem not_mem_of_cutAtChar (h : cutAtChar c s = some (before, rest)) : c ∉ before := by
  have hs : c ∈ s := by simp [append_of_cutAtChar h]
  obtain ⟨first, more, rfl, hfirst⟩ := List.eq_append_cons_of_mem hs
  cases (cutAtChar_append hfirst more).symm.trans h
  exact hfirst

end Text

-- ---------------------------------------------------------------------------
-- Tags of void elements

namespace VoidElement

open Text (isBlank skipBlanks cutAtChar foldKey isLike spelling?)

variable {s t : List Char} {spot : Spot} {d : Char}

/-- A spot in a text that goes on. -/
def Spot.before (spot : Spot) (t : List Char) : Spot :=
  { spot with rest := spot.rest ++ t }

/-- Characters that nothing which is looked for behind a void start tag has, but for the last. -/
def stops : List Char :=
  ['>', '"', '\'']

theorem not_isLike_stop (hd : d ∈ stops) :
    ∀ name ∈ names, ∀ w ∈ name.toList, isLike w d = false := by
  have hnone : ∀ d ∈ stops, ∀ name ∈ names, ∀ w ∈ name.toList, isLike w d = false := by decide
  exact hnone d hd

theorem foldKey_of_isLike {w c : Char} (h : isLike w c = true) :
    foldKey c = w ∨ foldKey c = 'ſ' ∨ foldKey c = 'ı' := by
  simp only [isLike, Bool.or_eq_true, Bool.and_eq_true, beq_iff_eq] at h
  rcases h with (h | ⟨-, rfl⟩) | ⟨-, rfl⟩
  · exact .inl h
  · exact .inr (.inl (by decide))
  · exact .inr (.inr (by decide))

theorem spelledName?_append (h : '>' ∈ s) (t : List Char) :
    spelledName? (s ++ t) = (spelledName? s).map fun (name, rest) => (name, rest ++ t) := by
  have hall : ∀ name ∈ names, spelling? name.toList (s ++ t) =
      (spelling? name.toList s).map fun (name, rest) => (name, rest ++ t) := fun name hname =>
    Text.spelling?_append (not_isLike_stop (by decide) name hname) h t
  unfold spelledName?
  generalize names = known at hall
  induction known with
  | nil => rfl
  | cons name known ih =>
    obtain ⟨hname, hknown⟩ := List.forall_mem_cons.mp hall
    rw [List.findSome?_cons, List.findSome?_cons, hname]
    cases spelling? name.toList s with
    | none => exact ih hknown
    | some found => rfl

theorem of_spelledName? {name rest : List Char} (h : spelledName? s = some (name, rest)) :
    s = name ++ rest ∧ ∀ d ∈ stops, d ∉ name ∧ ∀ w ∈ name, foldKey w ≠ foldKey d := by
  obtain ⟨word, hword, hspelled⟩ := List.exists_of_findSome?_eq_some h
  refine ⟨(Text.length_of_spelling? hspelled).2, ?_⟩
  have hlike := Text.exists_isLike_of_spelling? hspelled
  intro d hd
  constructor
  · intro hmem
    obtain ⟨w, hw, hwd⟩ := hlike d hmem
    rw [not_isLike_stop hd word hword w hw] at hwd
    cases hwd
  · intro c hc heq
    obtain ⟨w, hw, hwc⟩ := hlike c hc
    have hstops : ∀ d ∈ stops, foldKey d = d ∧ d ≠ 'ſ' ∧ d ≠ 'ı' ∧
        ∀ name ∈ names, ∀ w ∈ name.toList, w ≠ d := by decide
    obtain ⟨hself, hlong, hdotless, hne⟩ := hstops d hd
    rw [hself] at heq
    rcases foldKey_of_isLike hwc with he | he | he
    · exact hne word hword w hw (he.symm.trans heq)
    · exact hlong (heq.symm.trans he)
    · exact hdotless (heq.symm.trans he)

theorem parts_of_startTag? (h : startTag? s = some spot) :
    s = '<' :: (spot.name ++ (spot.inner ++ '>' :: spot.rest)) ∧ '>' ∉ spot.name ++ spot.inner ∧
      ∀ d ∈ stops, ∀ w ∈ spot.name, foldKey w ≠ foldKey d := by
  unfold startTag? at h
  split at h
  · split at h
    · cases h
    · rename_i hn
      obtain ⟨rfl, hname⟩ := of_spelledName? hn
      split at h
      · rename_i hc
        split at h
        · cases h
          obtain rfl := Text.append_of_cutAtChar hc
          have hclose := (hname '>' (by decide)).1
          have hinner := Text.not_mem_of_cutAtChar hc
          exact ⟨rfl, by simp [hclose, hinner], fun d hd => (hname d hd).2⟩
        · cases h
      · cases h
  · cases h

theorem whole_append (h : startTag? s = some spot) : spot.whole ++ spot.rest = s := by
  rw [(parts_of_startTag? h).1]
  simp [Spot.whole]

theorem startTag?_append (h : '>' ∈ s) (t : List Char) :
    startTag? (s ++ t) = (startTag? s).map (·.before t) := by
  cases s with
  | nil => cases h
  | cons c s =>
    by_cases hc : c = '<'
    · subst hc
      have hs : '>' ∈ s := by simpa using h
      simp only [List.cons_append, startTag?, spelledName?_append hs]
      cases hn : spelledName? s with
      | none => rfl
      | some found =>
        obtain ⟨name, rest⟩ := found
        obtain ⟨rfl, hname⟩ := of_spelledName? hn
        have hrest : '>' ∈ rest := by simpa [(hname '>' (by decide)).1] using hs
        simp only [Option.map_some, Text.cutAtChar_append_of_mem hrest]
        cases cutAtChar '>' rest with
        | none => rfl
        | some cut =>
          simp only [Option.map_some]
          split <;> rfl
    · simp [startTag?, hc]

theorem afterEndName?_append {name : List Char} (hname : ∀ w ∈ name, foldKey w ≠ foldKey d)
    (hd : d ∈ stops) (hs : d ∈ s) (t : List Char) :
    afterEndName? name (s ++ t) = (afterEndName? name s).map (· ++ t) := by
  have hstop : ∀ d ∈ stops, isBlank d = false ∧ d ≠ '<' ∧ d ≠ '/' := by decide
  obtain ⟨hblank, hopen, hslash⟩ := hstop d hd
  obtain ⟨-, hskip, hmem⟩ := Text.run_append hs hblank t
  unfold afterEndName?
  rw [show skipBlanks (s ++ t) = skipBlanks s ++ t from hskip]
  change d ∈ skipBlanks s at hmem
  cases hr : skipBlanks s with
  | nil =>
    rw [hr] at hmem
    cases hmem
  | cons c rest =>
    rw [hr] at hmem
    by_cases hc : c = '<'
    · subst hc
      cases rest with
      | nil => simp [hopen] at hmem
      | cons e rest =>
        by_cases he : e = '/'
        · subst he
          have hrest : d ∈ rest := by simpa [hopen, hslash] using hmem
          exact Text.afterFolded?_append hname hrest t
        · simp [he]
    · simp [hc]

theorem lone?_append (h : startTag? s = some spot) (hd : d ∈ stops) (hs : d ∈ spot.rest)
    (t : List Char) : lone? (s ++ t) = (lone? s).map (·.before t) := by
  obtain ⟨he, -, hname⟩ := parts_of_startTag? h
  have hclose : '>' ∈ s := by simp [he]
  simp only [lone?, startTag?_append hclose, h, Option.map_some, Spot.before,
    afterEndName?_append (hname d hd) hd hs, Option.isSome_map]
  split <;> rfl

theorem mem_of_afterEndName? {name rest : List Char} (hname : ∀ w ∈ name, foldKey w ≠ foldKey d)
    (hd : d ∈ stops) (hs : d ∈ s) (h : afterEndName? name s = some rest) : d ∈ rest := by
  have hstop : ∀ d ∈ stops, isBlank d = false ∧ d ≠ '<' ∧ d ≠ '/' := by decide
  obtain ⟨hblank, hopen, hslash⟩ := hstop d hd
  obtain ⟨-, -, hmem⟩ := Text.run_append hs hblank []
  change d ∈ skipBlanks s at hmem
  unfold afterEndName? at h
  split at h
  · rename_i more hr
    rw [hr] at hmem
    exact Text.mem_of_afterFolded? hname (by simpa [hopen, hslash] using hmem) h
  · cases h

theorem paired?_append (h : startTag? s = some spot) (hd : d ∈ stops) (hs : d ∈ spot.rest)
    (t : List Char) : paired? (s ++ t) = (paired? s).map (·.before t) := by
  obtain ⟨he, -, hname⟩ := parts_of_startTag? h
  have hclose : '>' ∈ s := by simp [he]
  simp only [paired?, startTag?_append hclose, h, Option.map_some, Spot.before,
    afterEndName?_append (hname d hd) hd hs]
  cases hb : afterEndName? spot.name spot.rest with
  | none => rfl
  | some behind =>
    have hstop : ∀ d ∈ stops, isBlank d = false := by decide
    obtain ⟨-, hskip, hmem⟩ :=
      Text.run_append (mem_of_afterEndName? (hname d hd) hd hs hb) (hstop d hd) t
    simp only [Option.map_some]
    rw [show skipBlanks (behind ++ t) = skipBlanks behind ++ t from hskip]
    change d ∈ skipBlanks behind at hmem
    cases hr : skipBlanks behind with
    | nil =>
      rw [hr] at hmem
      cases hmem
    | cons c rest =>
      by_cases hc : c = '>'
      · subst hc
        rfl
      · simp [hc]

-- ---------------------------------------------------------------------------
-- Tags with a slash

theorem closed?_append (h : '>' ∈ s) (t : List Char) :
    closed? (s ++ t) = (closed? s).map (·.before t) := by
  match s with
  | [] => cases h
  | [c] =>
    obtain rfl := List.mem_singleton.mp h
    cases t <;> rfl
  | c :: e :: s =>
    by_cases hc : c = '<'
    · subst hc
      simp only [List.cons_append, closed?]
      split
      · rename_i he
        have hs : '>' ∈ s := by
          rcases List.mem_cons.mp h with hne | h
          · cases hne
          · rcases List.mem_cons.mp h with rfl | hs
            · cases he
            · exact hs
        obtain ⟨htake, hdrop, hmem⟩ := Text.run_append (p := isNameChar) hs rfl t
        rw [htake, hdrop, Text.cutAtChar_append_of_mem hmem]
        cases cutAtChar '>' (s.dropWhile isNameChar) with
        | none => rfl
        | some cut =>
          simp only [Option.map_some]
          split <;> rfl
      · rfl
    · simp [closed?, hc]

theorem parts_of_closed? (h : closed? s = some spot) :
    s = '<' :: (spot.name ++ (spot.inner ++ '>' :: spot.rest)) ∧ '>' ∉ spot.name ++ spot.inner ∧
      (∃ c more, spot.name = c :: more ∧ c.isAlpha = true ∧ ∀ d ∈ more, isNameChar d = true) ∧
      spot.inner.getLast? = some '/' := by
  unfold closed? at h
  split at h
  · rename_i c s
    split at h
    · rename_i hc
      split at h
      · rename_i inner rest hcut
        split at h
        · rename_i hslash
          cases h
          have hs : s = s.takeWhile isNameChar ++ (inner ++ '>' :: rest) := by
            rw [← Text.append_of_cutAtChar hcut, List.takeWhile_append_dropWhile]
          have hname : ∀ d ∈ s.takeWhile isNameChar, isNameChar d = true :=
            fun d hd => List.mem_takeWhile_imp hd
          refine ⟨?_, ?_, ⟨c, _, rfl, hc, hname⟩, hslash.1⟩
          · rw [List.cons_append, ← hs]
          · intro hmem
            rcases List.mem_append.mp hmem with hmem | hmem
            · rcases List.mem_cons.mp hmem with rfl | hmem
              · cases hc
              · cases hname _ hmem
            · exact Text.not_mem_of_cutAtChar hcut hmem
        · cases h
      · cases h
    · cases h
  · cases h

end VoidElement

end Mailgrid
