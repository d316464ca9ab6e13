import Mailgrid.Files.Glob
import Mailgrid.Proofs.Failure
import Mailgrid.Proofs.Files.FileTree
import Mathlib.Data.List.Nodup

/-!
# What patterns select

Every path that a pattern without steps up selects leads down from the directory
that is searched, and none is selected twice. So the selected files stand in
strict order, and the names that lead to one never begin with those of another.
-/

namespace Mailgrid

/-- Does a part of a pattern lead down? -/
def GlobPart.Down (part : GlobPart) : Prop :=
  part ≠ .parent ∧ part ≠ .exact ".."

/-- The names by which a part of a pattern leads from one path to the next. -/
def GlobPart.Steps : GlobPart → List String → Prop
  | .exact name, way => way = [name]
  | .parent, way => way = [".."]
  | .names _, way => ∃ name, name ≠ ".." ∧ way = [name]
  | .deep, way => ".." ∉ way

theorem GlobPart.Down.not_mem_steps {part : GlobPart} (h : part.Down) {names : List String}
    (hn : part.Steps names) : ".." ∉ names := by
  cases part with
  | exact name =>
    obtain rfl : names = [name] := hn
    exact fun hm => h.2 (congrArg GlobPart.exact (List.mem_singleton.mp hm).symm)
  | parent => exact absurd rfl h.1
  | names pieces =>
    obtain ⟨name, hne, rfl⟩ := hn
    exact fun hm => hne (List.mem_singleton.mp hm).symm
  | deep => exact hn

namespace FileTree

variable {t : FileTree} {p : Path}

theorem of_mem_under (sound : t.Sound) {place names : List String} {e : FileEntry}
    (h : (names, e) ∈ t.under place) : ".." ∉ names := by
  simp only [under, List.mem_filterMap] at h
  obtain ⟨⟨other, f⟩, hm, h⟩ := h
  split at h
  · cases h
    exact fun hd => sound.named _ hm (List.mem_of_mem_drop hd)
  · cases h

theorem pairwise_under (sound : t.Sound) (place : List String) :
    (t.under place).Pairwise fun a b => a.1 ≠ b.1 := by
  have hentry {a b : List String × FileEntry} (h : (if place.isPrefixOf a.1 &&
      decide (place.length < a.1.length) then some (a.1.drop place.length, a.2) else none) = some b) :
      a.1 = place ++ b.1 := by
    split at h
    · rename_i hp
      rw [Bool.and_eq_true, List.isPrefixOf_iff_prefix] at hp
      obtain ⟨rest, hrest⟩ := hp.1
      cases h
      rw [← hrest, List.drop_left]
    · cases h
  refine (List.pairwise_map.mp sound.nodup).filterMap _ fun a a' hne b hb b' hb' he => hne ?_
  rw [hentry hb, hentry hb', he]

theorem nodup_names (sound : t.Sound) (p : Path) : (t.names p).Nodup := by
  unfold names
  split
  · refine (pairwise_under sound _).filterMap _ fun a a' hne b hb b' hb' he => ?_
    split at hb
    · split at hb'
      · cases hb
        cases hb'
        exact hne (he ▸ rfl)
      · cases hb'
    · cases hb
  · exact .nil

theorem of_mem_names (sound : t.Sound) {name : String} (h : name ∈ t.names p) : name ≠ ".." := by
  rw [names] at h
  split at h
  · obtain ⟨⟨names, e⟩, hm, h⟩ := List.mem_filterMap.mp h
    split at h
    · rename_i heq
      cases heq
      cases h
      rintro rfl
      exact of_mem_under sound hm List.mem_cons_self
    · cases h
  · cases h

theorem of_mem_directories (sound : t.Sound) {q : Path} (h : q ∈ t.directories p) :
    ∃ names, q = p.descend names ∧ ".." ∉ names := by
  have hself : p = p.descend [] ∧ ".." ∉ ([] : List String) := ⟨(Path.descend_nil p).symm, nofun⟩
  rw [directories] at h
  split at h
  · rcases List.mem_cons.mp h with rfl | h
    · exact ⟨[], hself⟩
    · obtain ⟨⟨names, e⟩, hm, h⟩ := List.mem_filterMap.mp h
      split at h
      · rename_i heq
        cases heq
        cases h
        exact ⟨names, rfl, of_mem_under sound hm⟩
      · cases h
  · rw [List.mem_singleton.mp h]
    exact ⟨[], hself⟩

end FileTree

namespace Glob

variable {t : FileTree} {p q : Path} {directoriesOnly : Bool} {found : List Path}

theorem nodup_eraseDups [BEq α] [LawfulBEq α] (l : List α) : l.eraseDups.Nodup := by
  match l with
  | [] => exact .nil
  | a :: rest =>
    have hshorter := List.length_filter_le (fun b => !b == a) rest
    rw [List.eraseDups_cons, List.nodup_cons, List.mem_eraseDups]
    exact ⟨by simp, nodup_eraseDups _⟩
termination_by l.length
decreasing_by
  rw [List.length_cons]
  omega

theorem of_selectFrom_exact {name : String} {rest : List GlobPart}
    (h : selectFrom t directoriesOnly (.exact name :: rest) p = .ok found) :
    ∃ b : Bool, (if b then selectFrom t directoriesOnly rest (p.child name) else pure []) =
      .ok found := by
  simp only [selectFrom] at h
  split at h
  · exact (bind_eq_ok.mp h).imp fun b hb => hb.2
  · exact (bind_eq_ok.mp h).imp fun b hb => hb.2

/-- What is selected is selected by the other parts from where the first one leads. -/
theorem of_mem_selectFrom (sound : t.Sound) {part : GlobPart} {rest : List GlobPart}
    (h : selectFrom t directoriesOnly (part :: rest) p = .ok found) (hq : q ∈ found) :
    ∃ names list, part.Steps names ∧ selectFrom t directoriesOnly rest (p.descend names) = .ok list ∧
      q ∈ list := by
  cases part with
  | exact name =>
    obtain ⟨b, hb⟩ := of_selectFrom_exact h
    split at hb
    · exact ⟨[name], found, rfl, hb, hq⟩
    · cases hb
      cases hq
  | parent => exact ⟨[".."], found, rfl, h, hq⟩
  | names pieces =>
    simp only [selectFrom, bind_eq_ok, pure_eq_ok] at h
    obtain ⟨lists, hlists, rfl⟩ := h
    obtain ⟨list, hlist, hq⟩ := List.mem_flatten.mp hq
    obtain ⟨name, hname, hselected⟩ := of_mem_mapM hlists list hlist
    obtain ⟨inside, -, hselected⟩ := bind_eq_ok.mp hselected
    split at hselected
    · exact ⟨[name], list, ⟨name, FileTree.of_mem_names sound hname, rfl⟩, hselected, hq⟩
    · cases hselected
      cases hq
  | deep =>
    simp only [selectFrom, bind_eq_ok, pure_eq_ok] at h
    obtain ⟨lists, hlists, rfl⟩ := h
    obtain ⟨list, hlist, hq⟩ := List.mem_flatten.mp (List.mem_eraseDups.mp hq)
    obtain ⟨directory, hd, hselected⟩ := of_mem_mapM hlists list hlist
    obtain ⟨names, rfl, hnames⟩ := FileTree.of_mem_directories sound hd
    exact ⟨names, list, hnames, hselected, hq⟩

theorem down_of_selectFrom (sound : t.Sound) {parts : List GlobPart}
    (hdown : ∀ part ∈ parts, part.Down) (h : selectFrom t directoriesOnly parts p = .ok found)
    (hq : q ∈ found) : ∃ names, q = p.descend names ∧ ".." ∉ names := by
  induction parts generalizing p found with
  | nil =>
    cases h
    rw [List.mem_singleton.mp hq]
    exact ⟨[], (Path.descend_nil p).symm, nofun⟩
  | cons part rest ih =>
    obtain ⟨hpart, hrest⟩ := List.forall_mem_cons.mp hdown
    obtain ⟨names, list, hsteps, hlist, hq⟩ := of_mem_selectFrom sound h hq
    obtain ⟨more, rfl, hmore⟩ := ih hrest hlist hq
    exact ⟨names ++ more, by simp, by simp [hpart.not_mem_steps hsteps, hmore]⟩

theorem nodup_selectFrom (sound : t.Sound) {parts : List GlobPart}
    (hdown : ∀ part ∈ parts, part.Down) (h : selectFrom t directoriesOnly parts p = .ok found) :
    found.Nodup := by
  induction parts generalizing p found with
  | nil =>
    cases h
    exact List.nodup_singleton p
  | cons part rest ih =>
    obtain ⟨hpart, hrest⟩ := List.forall_mem_cons.mp hdown
    have hchild {name : String} {b : Bool} {list : List Path}
        (h : (if b then selectFrom t directoriesOnly rest (p.child name) else pure []) = .ok list) :
        list.Nodup ∧ ∀ q ∈ list, ∃ names, q = p.descend (name :: names) := by
      split at h
      · refine ⟨ih hrest h, fun q hq => ?_⟩
        obtain ⟨names, rfl, -⟩ := down_of_selectFrom sound hrest h hq
        exact ⟨names, by simp [Path.child]⟩
      · cases h
        exact ⟨.nil, nofun⟩
    cases part with
    | exact name =>
      obtain ⟨b, hb⟩ := of_selectFrom_exact h
      exact (hchild hb).1
    | parent => exact absurd rfl hpart.1
    | names pieces =>
      simp only [selectFrom, bind_eq_ok, pure_eq_ok] at h
      obtain ⟨lists, hlists, rfl⟩ := h
      have hnamed {name : String} {list : List Path} (h : (do
          let inside ← t.isDirectory (p.child name)
          if (nameFits pieces name.toList && (!(directoriesOnly || !rest.isEmpty) || inside)) = true
          then selectFrom t directoriesOnly rest (p.child name) else pure []) = .ok list) :
          list.Nodup ∧ ∀ q ∈ list, ∃ names, q = p.descend (name :: names) := by
        obtain ⟨inside, -, h⟩ := bind_eq_ok.mp h
        exact hchild h
      refine List.nodup_flatten.mpr ⟨fun list hlist => ?_, ?_⟩
      · obtain ⟨name, -, hselected⟩ := of_mem_mapM hlists list hlist
        exact (hnamed hselected).1
      · refine pairwise_mapM ?_ (FileTree.nodup_names sound p) hlists
        intro a b list list' hne hlist hlist' q hq hq'
        obtain ⟨names, rfl⟩ := (hnamed hlist).2 q hq
        obtain ⟨names', he⟩ := (hnamed hlist').2 _ hq'
        exact hne (List.cons.inj (Path.descend_inj.mp he)).1
    | deep =>
      simp only [selectFrom, bind_eq_ok, pure_eq_ok] at h
      obtain ⟨lists, -, rfl⟩ := h
      exact nodup_eraseDups _

theorem down_of_partOf {text : String} (h : text ≠ "..") {part : GlobPart}
    (hp : partOf text = .ok part) : part.Down := by
  unfold partOf at hp
  simp only [h, if_false] at hp
  split at hp
  · cases hp
    exact ⟨nofun, nofun⟩
  · split at hp
    · cases hp
    · split at hp
      · cases hp
        exact ⟨nofun, nofun⟩
      · cases hp
        exact ⟨nofun, fun he => h (GlobPart.exact.inj he)⟩

theorem parts_of_ofText {text : String} {g : Glob} (hg : Glob.ofText text = .ok g) :
    (Path.partsOf text).mapM partOf = .ok g.parts := by
  unfold ofText at hg
  dsimp only at hg
  split at hg
  · cases hg
  · split at hg
    · cases hg
    · obtain ⟨parts, hparts, hg⟩ := bind_eq_ok.mp hg
      split at hg
      · cases hg
      · cases hg
        exact hparts

theorem down_of_ofText {text : String} (hd : ".." ∉ Path.partsOf text) {g : Glob}
    (hg : Glob.ofText text = .ok g) : ∀ part ∈ g.parts, part.Down := by
  intro part hpart
  obtain ⟨name, hname, hp⟩ := of_mem_mapM (parts_of_ofText hg) part hpart
  exact down_of_partOf (fun he => hd (he ▸ hname)) hp

theorem files_eq {g : Glob} {sources : List Path} (h : g.files t p = .ok sources) :
    ∃ selected, g.select t p = .ok selected ∧
      sources = (selected.filter fun q => (t.isFile q).toOption == some true).mergeSort
        fun a b => !decide (b.parts < a.parts) := by
  simp only [files, bind_eq_ok, pure_eq_ok] at h
  obtain ⟨selected, hselect, kept, hkept, rfl⟩ := h
  obtain rfl := of_filterM hkept
  exact ⟨selected, hselect, rfl⟩

theorem mem_files_iff {g : Glob} {sources : List Path} (h : g.files t p = .ok sources) :
    ∃ selected, g.select t p = .ok selected ∧
      ∀ q, q ∈ sources ↔ q ∈ selected ∧ t.isFile q = .ok true := by
  obtain ⟨selected, hselect, rfl⟩ := files_eq h
  refine ⟨selected, hselect, fun q => ?_⟩
  rw [(List.mergeSort_perm _ _).mem_iff, List.mem_filter]
  refine and_congr_right fun _ => ?_
  cases t.isFile q <;> simp [Except.toOption]

theorem isFile_eq_false {place : Path} (h : t.isDirectory place = .ok true) :
    t.isFile place ≠ .ok true := by
  intro hf
  obtain ⟨there, text, hl, hg⟩ := FileTree.of_isFile hf
  rw [FileTree.isDirectory, FileTree.find?_of_locate hl, hg] at h
  cases h

theorem of_select (sound : t.Sound) {text : String} (hd : ".." ∉ Path.partsOf text) {g : Glob}
    (hg : Glob.ofText text = .ok g) {selected : List Path} (h : g.select t p = .ok selected) :
    selected.Nodup ∧ ∀ q ∈ selected, ∃ names, q = p.descend names ∧ ".." ∉ names ∧
      (t.isFile q = .ok true → names ≠ []) := by
  rw [select, bind_eq_ok] at h
  obtain ⟨inside, hinside, h⟩ := h
  split at h
  · rename_i hin
    have hdown := down_of_ofText hd hg
    refine ⟨nodup_selectFrom sound hdown h, fun q hq => ?_⟩
    obtain ⟨names, rfl, hnames⟩ := down_of_selectFrom sound hdown h hq
    refine ⟨names, rfl, hnames, ?_⟩
    rintro hfile rfl
    rw [Path.descend_nil] at hfile
    exact isFile_eq_false (hin ▸ hinside) hfile
  · cases h
    exact ⟨.nil, nofun⟩

section
variable {a b c : List String}

theorem not_lt_trans (hab : ¬ b < a) (hbc : ¬ c < b) : ¬ c < a :=
  List.le_trans hab hbc

theorem not_lt_total (a b : List String) : ¬ b < a ∨ ¬ a < b :=
  List.le_total a b

theorem lt_of_not_lt (h : ¬ b < a) (hne : a ≠ b) : a < b := by
  by_contra hlt
  exact hne (List.le_antisymm h hlt)

end

/-- The selected files, in strict order, and the names that lead to them. -/
theorem of_files (sound : t.Sound) {text : String} (hd : ".." ∉ Path.partsOf text) {g : Glob}
    (hg : Glob.ofText text = .ok g) {sources : List Path} (h : g.files t p = .ok sources) :
    sources.Pairwise (fun a b => a.parts < b.parts) ∧
      ∀ q ∈ sources, ∃ names, q = p.descend names ∧ names ≠ [] ∧ ".." ∉ names ∧
        t.isFile q = .ok true := by
  obtain ⟨selected, hselect, hmem⟩ := mem_files_iff h
  obtain ⟨hnodup, hall⟩ := of_select sound hd hg hselect
  have hsources : ∀ q ∈ sources, ∃ names, q = p.descend names ∧ names ≠ [] ∧ ".." ∉ names ∧
      t.isFile q = .ok true := by
    intro q hq
    obtain ⟨hs, hfile⟩ := (hmem q).mp hq
    obtain ⟨names, rfl, hnames, hne⟩ := hall q hs
    exact ⟨names, rfl, hne hfile, hnames, hfile⟩
  refine ⟨?_, hsources⟩
  obtain ⟨selected', hselect', hsorted⟩ := files_eq h
  obtain rfl := Except.ok.inj (hselect.symm.trans hselect')
  have hdistinct : sources.Nodup := by
    rw [hsorted, (List.mergeSort_perm _ _).nodup_iff]
    exact hnodup.filter _
  have hle (a b : Path) : (!decide (b.parts < a.parts)) = true ↔ ¬ b.parts < a.parts := by
    rw [Bool.not_eq_true', decide_eq_false_iff_not]
  have hordered : sources.Pairwise fun a b => (!decide (b.parts < a.parts)) = true := by
    rw [hsorted]
    refine List.pairwise_mergeSort (fun a b c hab hbc => ?_) (fun a b => ?_) _
    · exact (hle a c).mpr (not_lt_trans ((hle a b).mp hab) ((hle b c).mp hbc))
    · rw [Bool.or_eq_true, hle, hle]
      exact not_lt_total _ _
  refine (hordered.and hdistinct).imp_of_mem fun {a b} ha hb hab => ?_
  obtain ⟨names, rfl, -⟩ := hsources a ha
  obtain ⟨names', rfl, -⟩ := hsources b hb
  refine lt_of_not_lt ((hle _ _).mp hab.1) fun he => hab.2 ?_
  rw [List.append_cancel_left he]

end Glob

end Mailgrid
