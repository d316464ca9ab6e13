import Mailgrid.Proofs.Files.Glob

/-!
# Staying inside a directory

Names that never step up above where they start lead to a place inside the
directory that they are followed from, whatever tree they are followed in. A
pattern of such parts selects only paths of such names. To make a directory or to
write a file by such names changes nothing outside that directory.
-/

namespace Mailgrid

/-- Do names that start so deep below a directory never step up above it? -/
def Path.staysIn (depth : Nat) : List String → Bool
  | [] => true
  | name :: rest =>
    if name = ".." then depth != 0 && staysIn (depth - 1) rest else staysIn (depth + 1) rest

namespace Path

variable {depth : Nat} {names more : List String}

theorem staysIn_parent : staysIn depth (".." :: names) = (depth != 0 && staysIn (depth - 1) names) := by
  rw [staysIn, if_pos rfl]

theorem staysIn_name {name : String} (h : name ≠ "..") :
    staysIn depth (name :: names) = staysIn (depth + 1) names := by
  rw [staysIn, if_neg h]

theorem staysIn_mono {deeper : Nat} (hle : depth ≤ deeper) (h : staysIn depth names = true) :
    staysIn deeper names = true := by
  induction names generalizing depth deeper with
  | nil => rfl
  | cons name rest ih =>
    by_cases hname : name = ".."
    · rw [hname, staysIn_parent, Bool.and_eq_true, bne_iff_ne] at h ⊢
      exact ⟨by omega, ih (by omega) h.2⟩
    · rw [staysIn_name hname] at h ⊢
      exact ih (by omega) h

theorem staysIn_of_append (h : staysIn depth (names ++ more) = true) : staysIn depth names = true := by
  induction names generalizing depth with
  | nil => rfl
  | cons name rest ih =>
    rw [List.cons_append] at h
    by_cases hname : name = ".."
    · rw [hname, staysIn_parent, Bool.and_eq_true] at h ⊢
      exact ⟨h.1, ih h.2⟩
    · rw [staysIn_name hname] at h ⊢
      exact ih h

theorem staysIn_append (hd : ".." ∉ names) (h : staysIn depth more = true) :
    staysIn depth (names ++ more) = true := by
  induction names generalizing depth with
  | nil => exact h
  | cons name rest ih =>
    obtain ⟨hname, hrest⟩ : name ≠ ".." ∧ ".." ∉ rest := by simpa [eq_comm] using hd
    rw [List.cons_append, staysIn_name hname]
    exact ih hrest (staysIn_mono (Nat.le_succ depth) h)

end Path

namespace FileTree

open Mailgrid.Path (staysIn)

variable {t t' : FileTree} {here out names more : List String} {p : Path}

theorem prefix_of_follow (hs : staysIn more.length names = true)
    (h : t.follow (out ++ more) names = .ok here) : out <+: here := by
  induction names generalizing more with
  | nil =>
    cases h
    exact List.prefix_append out more
  | cons name rest ih =>
    obtain ⟨-, -, hf⟩ := of_follow_cons h
    by_cases hname : name = ".."
    · rw [hname, Path.staysIn_parent, Bool.and_eq_true, bne_iff_ne] at hs
      have hmore : more ≠ [] := fun he => hs.1 (he ▸ rfl)
      rw [if_pos hname, List.dropLast_append_of_ne_nil hmore] at hf
      refine ih ?_ hf
      rw [List.length_dropLast]
      exact hs.2
    · rw [Path.staysIn_name hname] at hs
      rw [if_neg hname, List.append_assoc] at hf
      refine ih ?_ hf
      rw [List.length_append]
      exact hs

/-- Does a path lead to a directory there? -/
structure Reaches (t : FileTree) (p : Path) (place : List String) : Prop where
  follow : t.follow [] p.parts = .ok place
  directory : t.get? place = some .directory

theorem Reaches.of_directories (h : t.Reaches p out)
    (hd : ∀ other, t.get? other = some .directory → t'.get? other = some .directory) :
    t'.Reaches p out :=
  ⟨follow_of_directories hd h.follow, hd _ h.directory⟩

/-- From a directory, names that stay inside lead to a place inside. -/
theorem Reaches.prefix_of_follow (h : t.Reaches p out) (hs : staysIn 0 names = true)
    (hf : t.follow [] (p.parts ++ names) = .ok here) : out <+: here := by
  rw [follow_append, h.follow, ok_bind] at hf
  have hinside : staysIn ([] : List String).length names = true := hs
  exact FileTree.prefix_of_follow hinside (by rwa [List.append_nil])

/-- To make a directory makes those on the way that are not there, and nothing else. -/
theorem of_makeFrom {front rest : List String} (h : t.follow [] front = .ok here)
    (hdir : t.get? here = some .directory) (hm : t.makeFrom front rest = .ok t') :
    t.Extends t' ∧ (∃ place, t'.follow [] (front ++ rest) = .ok place ∧
        t'.get? place = some .directory) ∧
      ∀ place, t'.get? place ≠ t.get? place → t.get? place = none ∧
        t'.get? place = some .directory ∧
        ∃ names, names <+: rest ∧ t'.follow [] (front ++ names) = .ok place := by
  induction rest generalizing t front here with
  | nil =>
    cases hm
    exact ⟨fun _ _ he => he, ⟨here, by rwa [List.append_nil], hdir⟩, fun _ hne => absurd rfl hne⟩
  | cons name rest ih =>
    rw [FileTree.makeFrom, bind_eq_ok] at hm
    obtain ⟨found, hfound, hm⟩ := hm
    have hlonger {names : List String} (hn : names <+: rest) : name :: names <+: name :: rest :=
      List.cons_prefix_cons.mpr ⟨rfl, hn⟩
    rw [List.append_cons front name rest]
    split at hm
    · -- the directory is there
      obtain ⟨place, hl⟩ : ∃ place, t.locate ⟨front ++ [name], false⟩ = .ok place := by
        rw [find?] at hfound
        split at hfound
        · rename_i place hl
          exact ⟨place, hl⟩
        · cases hfound
        · cases hfound
      have hthere := Except.ok.inj ((find?_of_locate hl).symm.trans hfound)
      obtain ⟨hextends, hlast, hnew⟩ := ih (of_locate hl).2 hthere hm
      refine ⟨hextends, hlast, fun other hne => ?_⟩
      obtain ⟨hnone, hmade, names, hnames, hf⟩ := hnew other hne
      rw [← List.append_cons] at hf
      exact ⟨hnone, hmade, name :: names, hlonger hnames, hf⟩
    · cases hm
    · -- it is made
      obtain ⟨place, hl, hm⟩ := bind_eq_ok.mp hm
      have hnone := Except.ok.inj ((find?_of_locate hl).symm.trans hfound)
      have hplace : place ≠ [] := by
        rintro rfl
        cases hnone
      have hput := extends_put hnone .directory
      have hf := hput.follow (of_locate hl).2
      obtain ⟨hextends, hlast, hnew⟩ := ih hf (get?_put t hplace _) hm
      refine ⟨fun other e he => hextends other e (hput other e he), hlast, fun other hne => ?_⟩
      by_cases hother : other = place
      · subst hother
        have hmade := hextends _ _ (get?_put t hplace .directory)
        exact ⟨hnone, hmade, [name], hlonger List.nil_prefix, hextends.follow hf⟩
      · rw [← get?_put_of_ne t hother .directory] at hne ⊢
        obtain ⟨hnone', hmade, names, hnames, hf'⟩ := hnew other hne
        rw [← List.append_cons] at hf'
        exact ⟨hnone', hmade, name :: names, hlonger hnames, hf'⟩

theorem of_makeDirectory (hm : t.makeDirectory p = .ok t') :
    t.Extends t' ∧ (∃ place, t'.Reaches p place) ∧
      ∀ place, t'.get? place ≠ t.get? place → t.get? place = none ∧
        t'.get? place = some .directory ∧
        ∃ names, names <+: p.parts ∧ t'.follow [] names = .ok place := by
  rw [FileTree.makeDirectory] at hm
  split at hm
  · cases hm
  · obtain ⟨hextends, ⟨place, hf, hdir⟩, hnew⟩ := of_makeFrom rfl rfl hm
    exact ⟨hextends, ⟨place, hf, hdir⟩, hnew⟩

/-- Are two trees the same outside a directory, which stays where it is? -/
structure Within (t t' : FileTree) (out : List String) : Prop where
  directories : ∀ other, t.get? other = some .directory → t'.get? other = some .directory
  inside : ∀ place, t'.get? place ≠ t.get? place → out <+: place ∧ place ≠ out

theorem Within.refl (t : FileTree) (out : List String) : Within t t out :=
  ⟨fun _ h => h, fun _ hne => absurd rfl hne⟩

theorem Within.trans {t'' : FileTree} (h : Within t t' out) (h' : Within t' t'' out) :
    Within t t'' out := by
  refine ⟨fun other hd => h'.directories other (h.directories other hd), fun place hne => ?_⟩
  by_cases hfirst : t'.get? place = t.get? place
  · exact h'.inside place (hfirst ▸ hne)
  · exact h.inside place hfirst

theorem Reaches.within_makeDirectory {q : Path} (h : t.Reaches p out)
    (hs : staysIn 0 names = true) (hq : q.parts <+: p.parts ++ names)
    (hm : t.makeDirectory q = .ok t') : Within t t' out := by
  obtain ⟨hextends, -, hnew⟩ := of_makeDirectory hm
  have hdirs (other) (hd : t.get? other = some .directory) := hextends other _ hd
  have h' := h.of_directories hdirs
  refine ⟨hdirs, fun place hne => ?_⟩
  obtain ⟨hnone, -, front, hfront, hf⟩ := hnew place hne
  have hout : place ≠ out := by
    rintro rfl
    cases hnone.symm.trans h.directory
  refine ⟨?_, hout⟩
  rcases List.prefix_or_prefix_of_prefix (hfront.trans hq) (List.prefix_append p.parts names) with
    hup | hdown
  · -- the directories on the way to the target are there
    obtain ⟨after, hafter⟩ := hup
    have hway := h.follow
    rw [← hafter] at hway
    obtain ⟨there, hthere, hdir⟩ := directory_of_follow hway h.directory
    obtain rfl := Except.ok.inj ((hextends.follow hthere).symm.trans hf)
    cases hnone.symm.trans hdir
  · obtain ⟨inner, rfl⟩ := hdown
    obtain ⟨rest, hrest⟩ := (List.prefix_append_right_inj p.parts).mp (hfront.trans hq)
    exact h'.prefix_of_follow (Path.staysIn_of_append (hrest ▸ hs)) hf

theorem Reaches.within_write (h : t.Reaches p out) (hs : staysIn 0 names = true) {text : String}
    (hw : t.write (p.descend names) text = .ok t') : Within t t' out := by
  rw [FileTree.write, bind_eq_ok] at hw
  obtain ⟨place, hl, hw⟩ := hw
  split at hw
  · cases hw
  · rename_i hfile
    cases hw
    refine ⟨fun other hd => ?_, fun other hne => ?_⟩
    · rwa [get?_put_of_ne]
      rintro rfl
      exact hfile hd
    · obtain rfl : other = place := by
        by_contra hother
        exact hne (get?_put_of_ne t hother _)
      refine ⟨h.prefix_of_follow hs (of_locate hl).2, ?_⟩
      rintro rfl
      exact hfile h.directory

end FileTree

-- ---------------------------------------------------------------------------
-- Patterns

namespace Glob

open Mailgrid.Path (staysIn)

/-- Does a pattern never step up above the directory that is searched, even where `**` stands for
no directory at all? -/
def staysInside (pattern : String) : Bool :=
  staysIn 0 ((Path.partsOf pattern).filter (· ≠ "**"))

variable {t : FileTree} {p q : Path} {directoriesOnly : Bool} {found : List Path}

theorem staysIn_of_steps {text : String} {part : GlobPart} (hp : partOf text = .ok part)
    {names : List String} (hn : part.Steps names) {depth : Nat} {rest : List String}
    (h : staysIn depth ((text :: rest).filter (· ≠ "**")) = true) :
    ∃ deeper, staysIn deeper (rest.filter (· ≠ "**")) = true ∧
      ∀ more, staysIn deeper more = true → staysIn depth (names ++ more) = true := by
  have hname {name : String} (hne : name ≠ "..") (hsub : text ≠ "..") (hdeep : text ≠ "**") :
      ∃ deeper, staysIn deeper (rest.filter (· ≠ "**")) = true ∧
        ∀ more, staysIn deeper more = true → staysIn depth ([name] ++ more) = true := by
    rw [List.filter_cons_of_pos (by simpa using hdeep), Path.staysIn_name hsub] at h
    refine ⟨depth + 1, h, fun more hmore => ?_⟩
    rwa [List.singleton_append, Path.staysIn_name hne]
  unfold partOf at hp
  dsimp only at hp
  split at hp
  · rename_i hdeep
    cases hp
    rw [hdeep, List.filter_cons_of_neg (by simp)] at h
    exact ⟨depth, h, fun more => Path.staysIn_append hn⟩
  · rename_i hdeep
    split at hp
    · rename_i hup
      cases hp
      cases hn
      rw [hup, List.filter_cons_of_pos (by decide), Path.staysIn_parent, Bool.and_eq_true] at h
      refine ⟨depth - 1, h.2, fun more hmore => ?_⟩
      rw [List.singleton_append, Path.staysIn_parent, h.1, hmore]
      rfl
    · rename_i hsub
      split at hp
      · cases hp
      · split at hp
        · cases hp
          obtain ⟨name, hne, rfl⟩ := hn
          exact hname hne hsub hdeep
        · cases hp
          cases hn
          exact hname hsub hsub hdeep

theorem staysIn_of_selectFrom (sound : t.Sound) {texts : List String} {parts : List GlobPart}
    (hparts : texts.mapM partOf = .ok parts) {depth : Nat}
    (hs : staysIn depth (texts.filter (· ≠ "**")) = true)
    (h : selectFrom t directoriesOnly parts p = .ok found) (hq : q ∈ found) :
    ∃ names, q = p.descend names ∧ staysIn depth names = true := by
  induction texts generalizing parts p found depth with
  | nil =>
    cases hparts
    cases h
    rw [List.mem_singleton.mp hq]
    exact ⟨[], (Path.descend_nil p).symm, rfl⟩
  | cons text rest ih =>
    simp only [List.mapM_cons, bind_eq_ok, pure_eq_ok] at hparts
    obtain ⟨part, hpart, others, hothers, rfl⟩ := hparts
    obtain ⟨names, list, hsteps, hlist, hq⟩ := of_mem_selectFrom sound h hq
    obtain ⟨deeper, hrest, hlonger⟩ := staysIn_of_steps hpart hsteps hs
    obtain ⟨more, rfl, hmore⟩ := ih hothers hrest hlist hq
    exact ⟨names ++ more, Path.descend_descend p names more, hlonger more hmore⟩

/-- The names that lead to a selected file never step up above the directory that is searched. -/
theorem staysIn_of_files (sound : t.Sound) {text : String} (hs : staysInside text = true) {g : Glob}
    (hg : Glob.ofText text = .ok g) {sources : List Path} (h : g.files t p = .ok sources)
    (hq : q ∈ sources) : ∃ names, q = p.descend names ∧ staysIn 0 names = true := by
  obtain ⟨selected, hselect, hmem⟩ := mem_files_iff h
  rw [select, bind_eq_ok] at hselect
  obtain ⟨inside, -, hselect⟩ := hselect
  split at hselect
  · exact staysIn_of_selectFrom sound (parts_of_ofText hg) hs hselect ((hmem q).mp hq).1
  · cases hselect
    cases ((hmem q).mp hq).1

end Glob

end Mailgrid
