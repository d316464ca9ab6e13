import Mailgrid.Files.FileTree
import Mathlib.Data.List.Infix

/-!
# Following and making paths

Which place a path leads to depends only on the directories on its way, so a path
still leads where it did when more is put into a tree. To make a directory changes
nothing but its place and the places above it; to write a file, nothing but its
place. `Written` says what a tree is like after files have been written into a
directory that was new or empty, and `Written.write` is the step for one more file.
All these changes keep a tree `Sound`.
-/

namespace Mailgrid

namespace Path

@[simp] theorem parts_descend (p : Path) (names : List String) :
    (p.descend names).parts = p.parts ++ names := rfl

@[simp] theorem doubled_descend (p : Path) (names : List String) :
    (p.descend names).doubled = p.doubled := rfl

@[simp] theorem descend_descend (p : Path) (names more : List String) :
    (p.descend names).descend more = p.descend (names ++ more) := by
  simp [descend]

@[simp] theorem descend_nil (p : Path) : p.descend [] = p := by
  simp [descend]

@[simp] theorem below_descend (p : Path) (names : List String) :
    (p.descend names).below p = names := by
  simp [below, descend]

theorem descend_inj {p : Path} {names more : List String} :
    p.descend names = p.descend more ↔ names = more := by
  simp [descend]

theorem parent_descend (p : Path) {names : List String} (h : names ≠ []) :
    (p.descend names).parent = p.descend names.dropLast := by
  simp [parent, descend, List.dropLast_append_of_ne_nil h]

theorem holdsNought_descend (p : Path) (names : List String) :
    (p.descend names).holdsNought =
      (p.holdsNought || names.any fun part => part.toList.contains '\x00') := by
  simp [holdsNought, descend]

/-- Is a path no longer than a path may be? -/
def Fits (p : Path) : Prop :=
  p.shown.utf8ByteSize ≤ FileTree.maxPathBytes

/-- Can a path lead anywhere? -/
structure Usable (p : Path) : Prop where
  noNought : p.holdsNought = false
  fits : p.Fits

/-- The bytes of parts, each with a slash. -/
def size : List String → Nat
  | [] => 0
  | part :: rest => part.utf8ByteSize + 1 + size rest

theorem size_append (parts more : List String) : size (parts ++ more) = size parts + size more := by
  induction parts with
  | nil => exact (Nat.zero_add _).symm
  | cons part rest ih => rw [List.cons_append, size, size, ih, ← Nat.add_assoc]

theorem size_intercalate (part : String) (rest : List String) :
    ("/".intercalate (part :: rest)).utf8ByteSize + 1 = size (part :: rest) := by
  induction rest generalizing part with
  | nil => simp [size]
  | cons next rest ih =>
    have hslash : "/".utf8ByteSize = 1 := rfl
    rw [size, ← ih next]
    simp only [String.intercalate_cons_cons, String.utf8ByteSize_append, hslash]
    omega

theorem size_shown (p : Path) : p.shown.utf8ByteSize =
    (if p.doubled then 2 else 1) + ("/".intercalate p.parts).utf8ByteSize := by
  rw [shown, String.utf8ByteSize_append]
  cases p.doubled <;> rfl

theorem Fits.of_descend {p : Path} {names : List String} (h : (p.descend names).Fits) : p.Fits := by
  rw [Fits, size_shown] at h ⊢
  rw [parts_descend, doubled_descend] at h
  refine Nat.le_trans (Nat.add_le_add_left ?_ _) h
  cases p.parts with
  | nil => exact Nat.zero_le _
  | cons part rest =>
    refine Nat.le_of_add_le_add_right (b := 1) ?_
    rw [List.cons_append, size_intercalate, size_intercalate, ← List.cons_append, size_append]
    exact Nat.le_add_right _ _

theorem Fits.undoubled {p : Path} (h : p.Fits) : Fits ⟨p.parts, false⟩ := by
  rw [Fits, size_shown] at h ⊢
  have hroot : (if false then 2 else 1) ≤ if p.doubled then 2 else 1 := by
    cases p.doubled <;> decide
  exact Nat.le_trans (Nat.add_le_add_right hroot _) h

theorem Usable.of_descend {p : Path} {names : List String} (h : (p.descend names).Usable) :
    p.Usable := by
  refine ⟨?_, h.fits.of_descend⟩
  have hn := h.noNought
  rw [holdsNought_descend, Bool.or_eq_false_iff] at hn
  exact hn.1

theorem Usable.of_append {front rest : List String} {doubled : Bool}
    (h : Usable ⟨front ++ rest, doubled⟩) : Usable ⟨front, doubled⟩ :=
  of_descend (p := ⟨front, doubled⟩) h

theorem Usable.undoubled {p : Path} (h : p.Usable) : Usable ⟨p.parts, false⟩ :=
  ⟨h.noNought, h.fits.undoubled⟩

end Path

namespace FileTree

variable {t t' : FileTree} {here place names : List String}

-- ---------------------------------------------------------------------------
-- Following

theorem follow_cons {name : String} (h : t.get? here = some .directory)
    (hs : name.utf8ByteSize ≤ maxNameBytes) (rest : List String) :
    t.follow here (name :: rest) =
      t.follow (if name = ".." then here.dropLast else here ++ [name]) rest := by
  rw [follow, h]
  exact if_neg (Nat.not_lt_of_le hs)

theorem of_follow_cons {name : String} {rest : List String}
    (h : t.follow here (name :: rest) = .ok place) :
    t.get? here = some .directory ∧ name.utf8ByteSize ≤ maxNameBytes ∧
      t.follow (if name = ".." then here.dropLast else here ++ [name]) rest = .ok place := by
  rw [follow] at h
  split at h
  · rename_i hdir
    split at h
    · cases h
    · rename_i hs
      exact ⟨hdir, Nat.le_of_not_lt hs, h⟩
  · cases h
  · cases h

theorem follow_append (t : FileTree) (here names more : List String) :
    t.follow here (names ++ more) = t.follow here names >>= fun there => t.follow there more := by
  induction names generalizing here with
  | nil => rfl
  | cons name rest ih =>
    rw [List.cons_append, follow, follow]
    split
    · split
      · rfl
      · exact ih _
    · rfl
    · rfl

/-- Names that are no steps up lead through directories, each in the one before. -/
theorem follow_eq_ok_iff (hd : ".." ∉ names) :
    t.follow here names = .ok place ↔ place = here ++ names ∧
      (∀ name ∈ names, name.utf8ByteSize ≤ maxNameBytes) ∧
      ∀ front, front <+: names → front ≠ names → t.get? (here ++ front) = some .directory := by
  induction names generalizing here with
  | nil =>
    simp only [follow, List.append_nil, List.not_mem_nil, List.prefix_nil]
    constructor
    · rintro ⟨⟩
      exact ⟨rfl, nofun, fun front h hne => absurd h hne⟩
    · rintro ⟨rfl, -⟩
      rfl
  | cons name rest ih =>
    obtain ⟨hname, hrest⟩ : name ≠ ".." ∧ ".." ∉ rest := by
      simpa [eq_comm] using hd
    constructor
    · intro h
      obtain ⟨hdir, hs, hf⟩ := of_follow_cons h
      rw [if_neg hname] at hf
      obtain ⟨rfl, hsizes, hdirs⟩ := (ih hrest).mp hf
      refine ⟨by simp, List.forall_mem_cons.mpr ⟨hs, hsizes⟩, fun front hfront hne => ?_⟩
      cases front with
      | nil => simpa using hdir
      | cons a front =>
        obtain ⟨rfl, hrest⟩ := List.cons_prefix_cons.mp hfront
        simpa using hdirs front hrest fun he => hne (he ▸ rfl)
    · rintro ⟨rfl, hsizes, hdirs⟩
      obtain ⟨hs, hsizes⟩ := List.forall_mem_cons.mp hsizes
      have hdir : t.get? here = some .directory := by
        simpa using hdirs [] (List.nil_prefix) (by simp)
      rw [follow_cons hdir hs, if_neg hname]
      refine (ih hrest).mpr ⟨by simp, hsizes, fun front hfront hne => ?_⟩
      have hall := hdirs (name :: front) (List.cons_prefix_cons.mpr ⟨rfl, hfront⟩) (by simpa using hne)
      simpa using hall

/-- All that a place is in is a directory. -/
def Stands (t : FileTree) (place : List String) : Prop :=
  ∀ front, front <+: place → front ≠ place → t.get? front = some .directory

theorem Stands.follow (hs : t.Stands here) (h : t.follow here names = .ok place) :
    t.Stands place := by
  induction names generalizing here with
  | nil =>
    cases h
    exact hs
  | cons name rest ih =>
    obtain ⟨hdir, -, hf⟩ := of_follow_cons h
    refine ih (fun front hfront hne => ?_) hf
    split at hfront
    · have hhere := hfront.trans (List.dropLast_prefix here)
      by_cases he : front = here
      · exact he ▸ hdir
      · exact hs front hhere he
    · rename_i hname
      rw [if_neg hname] at hne
      rcases List.prefix_concat_iff.mp hfront with he | hhere
      · exact absurd he hne
      · by_cases he : front = here
        · exact he ▸ hdir
        · exact hs front hhere he

theorem stands_root (t : FileTree) : t.Stands [] :=
  fun _ h hne => absurd (List.prefix_nil.mp h) hne

theorem of_locate {p : Path} (h : t.locate p = .ok place) :
    p.Usable ∧ t.follow [] p.parts = .ok place := by
  rw [locate] at h
  split at h
  · cases h
  · rename_i hn
    split at h
    · cases h
    · rename_i hs
      exact ⟨⟨by simpa using hn, Nat.le_of_not_lt hs⟩, h⟩

theorem locate_eq {p : Path} (hu : p.Usable) : t.locate p = t.follow [] p.parts := by
  rw [locate, hu.noNought, if_neg Bool.false_ne_true]
  exact if_neg (Nat.not_lt_of_le hu.fits)

-- ---------------------------------------------------------------------------
-- Trees with more in them

theorem follow_of_directories
    (hd : ∀ other, t.get? other = some .directory → t'.get? other = some .directory)
    (h : t.follow here names = .ok place) : t'.follow here names = .ok place := by
  induction names generalizing here with
  | nil => exact h
  | cons name rest ih =>
    obtain ⟨hdir, hs, hf⟩ := of_follow_cons h
    rw [follow_cons (hd _ hdir) hs]
    exact ih hf

/-- All that is in a tree is in another one too. -/
def Extends (t t' : FileTree) : Prop :=
  ∀ place e, t.get? place = some e → t'.get? place = some e

theorem Extends.follow (he : t.Extends t') (h : t.follow here names = .ok place) :
    t'.follow here names = .ok place :=
  follow_of_directories (fun _ hdir => he _ _ hdir) h

theorem Extends.locate (he : t.Extends t') {p : Path} (h : t.locate p = .ok place) :
    t'.locate p = .ok place := by
  obtain ⟨hu, hfollow⟩ := of_locate h
  rw [locate_eq hu]
  exact he.follow hfollow

theorem of_isFile {p : Path} (h : t.isFile p = .ok true) :
    ∃ place text, t.locate p = .ok place ∧ t.get? place = some (.file text) := by
  rw [isFile, bind_eq_ok] at h
  obtain ⟨found, hfound, h⟩ := h
  rw [find?] at hfound
  split at hfound
  · rename_i place hl
    cases hfound
    split at h
    · rename_i text hg
      exact ⟨place, text, hl, hg⟩
    · cases h
  · cases hfound
  · cases hfound
    cases h

theorem Extends.read (he : t.Extends t') {p : Path} (h : t.isFile p = .ok true) :
    t'.read p = t.read p := by
  obtain ⟨place, text, hl, hg⟩ := of_isFile h
  rw [FileTree.read, FileTree.read, hl, he.locate hl, ok_bind, ok_bind, hg, he _ _ hg]

-- ---------------------------------------------------------------------------
-- Making directories

theorem find?_of_locate {p : Path} (h : t.locate p = .ok place) :
    t.find? p = .ok (t.get? place) := by
  rw [find?, h]
  rfl

theorem extends_put {place : List String} (h : t.get? place = none) (e : FileEntry) :
    t.Extends (t.put place e) := by
  intro other f ho
  rwa [get?_put_of_ne]
  rintro rfl
  cases h.symm.trans ho

theorem directory_of_follow {more : List String} (h : t.follow here (names ++ more) = .ok place)
    (hp : t.get? place = some .directory) :
    ∃ there, t.follow here names = .ok there ∧ t.get? there = some .directory := by
  rw [follow_append, bind_eq_ok] at h
  obtain ⟨there, hthere, h⟩ := h
  refine ⟨there, hthere, ?_⟩
  cases more with
  | nil =>
    cases h
    exact hp
  | cons name more => exact (of_follow_cons h).1

theorem makeFrom_there {front more : List String} (hu : Path.Usable ⟨front ++ more, false⟩)
    (h : t.follow [] (front ++ more) = .ok place) (hp : t.get? place = some .directory)
    (rest : List String) :
    t.makeFrom front (more ++ rest) = t.makeFrom (front ++ more) rest := by
  induction more generalizing front with
  | nil => simp
  | cons name more ih =>
    rw [List.append_cons] at hu h ⊢
    obtain ⟨there, hthere, hdir⟩ := directory_of_follow h hp
    have hfound : t.find? ⟨front ++ [name], false⟩ = .ok (some .directory) := by
      rw [find?_of_locate ((locate_eq hu.of_append).trans hthere), hdir]
    rw [List.cons_append, makeFrom, hfound]
    exact ih hu h

/-- Behind a directory, more are made by names without steps up. -/
theorem makeFrom_below {front rest : List String} (hu : Path.Usable ⟨front ++ rest, false⟩)
    (h : t.follow [] front = .ok here) (hdir : t.get? here = some .directory) (hd : ".." ∉ rest)
    (hs : ∀ name ∈ rest, name.utf8ByteSize ≤ maxNameBytes)
    (free : ∀ names, names <+: rest → t.get? (here ++ names) = none ∨
      t.get? (here ++ names) = some .directory) :
    ∃ t', t.makeFrom front rest = .ok t' ∧
      (∀ names, names <+: rest → t'.get? (here ++ names) = some .directory) ∧
      ∀ place, (∀ names, names <+: rest → place ≠ here ++ names) → t'.get? place = t.get? place := by
  induction rest generalizing t front here with
  | nil =>
    refine ⟨t, rfl, fun names hnames => ?_, fun place _ => rfl⟩
    rw [List.prefix_nil.mp hnames, List.append_nil]
    exact hdir
  | cons name rest ih =>
    obtain ⟨hname, hrest⟩ : name ≠ ".." ∧ ".." ∉ rest := by
      simpa [eq_comm] using hd
    obtain ⟨hsize, hsizes⟩ := List.forall_mem_cons.mp hs
    rw [List.append_cons] at hu
    have hpath : t.follow [] (front ++ [name]) = .ok (here ++ [name]) := by
      rw [follow_append, h, ok_bind, follow_cons hdir hsize, if_neg hname]
      rfl
    have hfound : t.find? ⟨front ++ [name], false⟩ = .ok (t.get? (here ++ [name])) :=
      find?_of_locate ((locate_eq hu.of_append).trans hpath)
    -- the rest is made in a tree in which the directory of the first name is there
    have hmade {t₁ : FileTree} (hstep : t.makeFrom front (name :: rest) =
        t₁.makeFrom (front ++ [name]) rest) (he : t.Extends t₁)
        (hnew : t₁.get? (here ++ [name]) = some .directory)
        (hold : ∀ place, place ≠ here ++ [name] → t₁.get? place = t.get? place) :
        ∃ t', t.makeFrom front (name :: rest) = .ok t' ∧
          (∀ names, names <+: name :: rest → t'.get? (here ++ names) = some .directory) ∧
          ∀ place, (∀ names, names <+: name :: rest → place ≠ here ++ names) →
            t'.get? place = t.get? place := by
      have hfront {names : List String} (hn : names <+: rest) : name :: names <+: name :: rest :=
        List.cons_prefix_cons.mpr ⟨rfl, hn⟩
      have hfree : ∀ names, names <+: rest → t₁.get? (here ++ [name] ++ names) = none ∨
          t₁.get? (here ++ [name] ++ names) = some .directory := by
        intro names hn
        cases names with
        | nil => exact .inr (by rwa [List.append_nil])
        | cons a names =>
          rw [hold _ (by simp), ← List.append_cons]
          exact free _ (hfront hn)
      obtain ⟨t', hmake, hdirs, hothers⟩ := ih hu (he.follow hpath) hnew hrest hsizes hfree
      refine ⟨t', hstep.trans hmake, fun names hn => ?_, fun place hplace => ?_⟩
      · cases names with
        | nil =>
          rw [List.append_nil, hothers here fun names _ => by simp, hold here (by simp)]
          exact hdir
        | cons a names =>
          obtain ⟨rfl, hrest⟩ := List.cons_prefix_cons.mp hn
          rw [List.append_cons]
          exact hdirs names hrest
      · rw [hothers place fun names hn => ?_, hold place (hplace [name] (by simp))]
        rw [← List.append_cons]
        exact hplace _ (hfront hn)
    rcases free [name] (by simp) with hnone | hthere
    · refine hmade ?_ (extends_put hnone .directory) (get?_put t (by simp) _)
        fun place hne => get?_put_of_ne t hne _
      rw [makeFrom, hfound, hnone, ok_bind, (locate_eq hu.of_append).trans hpath]
      rfl
    · refine hmade ?_ (fun _ _ he => he) hthere fun _ _ => rfl
      rw [makeFrom, hfound, hthere]
      rfl

-- ---------------------------------------------------------------------------
-- A directory that is there or may be made

/-- Can a name be in a path? -/
structure Named (name : String) : Prop where
  noStep : name ≠ ".."
  short : name.utf8ByteSize ≤ maxNameBytes
  noNought : name.toList.contains '\x00' = false

/-- A path leads to a directory and then on by names that are directories or may become some. -/
structure Opens (t : FileTree) (p : Path) (place : List String) : Prop where
  noNought : p.holdsNought = false
  way : ∃ front here rest, p.parts = front ++ rest ∧ place = here ++ rest ∧
    t.follow [] front = .ok here ∧ t.get? here = some .directory ∧
    (∀ name ∈ rest, Named name) ∧
    ∀ names, names <+: rest → t.get? (here ++ names) = none ∨
      t.get? (here ++ names) = some .directory

theorem Opens.of_locate {p : Path} (h : t.locate p = .ok place)
    (hdir : t.get? place = some .directory) : t.Opens p place := by
  obtain ⟨hu, hfollow⟩ := FileTree.of_locate h
  refine ⟨hu.noNought, p.parts, place, [], by simp, by simp, hfollow, hdir, nofun, fun names hn => ?_⟩
  rw [List.prefix_nil.mp hn, List.append_nil]
  exact .inr hdir

theorem free_of_follow {front rest : List String} (h : t.follow [] front = .ok here)
    (hdir : t.get? here = some .directory)
    (free : ∀ names, names <+: rest → t.get? (here ++ names) = none ∨
      t.get? (here ++ names) = some .directory) {other : List String} (ho : other <+: here ++ rest) :
    t.get? other = none ∨ t.get? other = some .directory := by
  rcases List.prefix_or_prefix_of_prefix ho (List.prefix_append here rest) with hp | hp
  · by_cases he : other = here
    · exact .inr (he ▸ hdir)
    · exact .inr ((stands_root t).follow h other hp he)
  · obtain ⟨names, rfl⟩ := hp
    exact free names ((List.prefix_append_right_inj here).mp ho)

theorem Opens.free {p : Path} (h : t.Opens p place) {front : List String} (hf : front <+: place) :
    t.get? front = none ∨ t.get? front = some .directory := by
  obtain ⟨-, start, here, rest, -, rfl, hfollow, hdir, -, hfree⟩ := h
  exact free_of_follow hfollow hdir hfree hf

theorem Opens.makeDirectory {p : Path} (h : t.Opens p place) (hu : (p.descend names).Usable)
    (hn : ∀ name ∈ names, Named name)
    (free : ∀ front, front <+: names → t.get? (place ++ front) = none ∨
      t.get? (place ++ front) = some .directory) :
    ∃ t', t.makeDirectory (p.descend names) = .ok t' ∧ t'.locate p = .ok place ∧
      (∀ front, front <+: place ++ names → t'.get? front = some .directory) ∧
      ∀ other, ¬ other <+: place ++ names → t'.get? other = t.get? other := by
  obtain ⟨-, front, here, rest, hparts, rfl, hfollow, hdir, hnamed, hfree⟩ := h
  have hall : ∀ name ∈ rest ++ names, Named name := List.forall_mem_append.mpr ⟨hnamed, hn⟩
  have hfree' : ∀ more, more <+: rest ++ names →
      t.get? (here ++ more) = none ∨ t.get? (here ++ more) = some .directory := by
    intro more hm
    rcases List.prefix_or_prefix_of_prefix hm (List.prefix_append rest names) with hp | hp
    · exact hfree more hp
    · obtain ⟨after, rfl⟩ := hp
      rw [← List.append_assoc]
      exact free after ((List.prefix_append_right_inj rest).mp hm)
  have hway : Path.Usable ⟨front ++ (rest ++ names), false⟩ := by
    rw [← List.append_assoc, ← hparts]
    exact hu.undoubled
  obtain ⟨t', ht', hdirs, hothers⟩ := makeFrom_below hway hfollow hdir
    (fun hm => (hall _ hm).noStep rfl) (fun name hm => (hall name hm).short) hfree'
  have hmake : t.makeDirectory (p.descend names) = .ok t' := by
    have hthere : Path.Usable ⟨[] ++ front, false⟩ := hway.of_append
    rw [FileTree.makeDirectory, hu.noNought, if_neg Bool.false_ne_true, Path.parts_descend, hparts,
      List.append_assoc, makeFrom_there hthere hfollow hdir]
    exact ht'
  have hextends : t.Extends t' := by
    intro other e he
    by_cases hother : ∃ more, more <+: rest ++ names ∧ other = here ++ more
    · obtain ⟨more, hmore, rfl⟩ := hother
      rw [hdirs more hmore]
      exact ((hfree' more hmore).resolve_left (by simp [he])).symm.trans he
    · rwa [hothers other fun more hmore heq => hother ⟨more, hmore, heq⟩]
  refine ⟨t', hmake, ?_, fun other hother => ?_, fun other hother => ?_⟩
  · rw [locate_eq hu.of_descend, hparts, follow_append, hextends.follow hfollow, ok_bind]
    refine (follow_eq_ok_iff fun hm => (hnamed _ hm).noStep rfl).mpr
      ⟨rfl, fun name hm => (hnamed name hm).short, fun more hmore _ => ?_⟩
    exact hdirs more (hmore.trans (List.prefix_append rest names))
  · rw [List.append_assoc] at hother
    rcases List.prefix_or_prefix_of_prefix hother (List.prefix_append here _) with hp | hp
    · by_cases he : other = here
      · exact he ▸ hextends _ _ hdir
      · exact hextends _ _ ((stands_root t).follow hfollow other hp he)
    · obtain ⟨more, rfl⟩ := hp
      exact hdirs more ((List.prefix_append_right_inj here).mp hother)
  · refine hothers other fun more hmore he => hother ?_
    rw [he, List.append_assoc]
    exact (List.prefix_append_right_inj here).mpr hmore

theorem write_below {p : Path} (h : t.locate p = .ok place) (hu : (p.descend names).Usable)
    (hn : ∀ name ∈ names, Named name)
    (hdirs : ∀ front, front <+: names → front ≠ names → t.get? (place ++ front) = some .directory)
    (hfile : t.get? (place ++ names) ≠ some .directory) (text : String) :
    t.write (p.descend names) text = .ok (t.put (place ++ names) (.file (some text))) := by
  have hlocate : t.locate (p.descend names) = .ok (place ++ names) := by
    rw [locate_eq hu, Path.parts_descend, follow_append, (of_locate h).2, ok_bind]
    exact (follow_eq_ok_iff fun hm => (hn _ hm).noStep rfl).mpr
      ⟨rfl, fun name hm => (hn name hm).short, hdirs⟩
  rw [write, hlocate, ok_bind]
  split
  · rename_i hd
    exact absurd hd hfile
  · rfl

theorem of_isFile_descend {p : Path} (h : t.isFile (p.descend names) = .ok true) (hd : ".." ∉ names) :
    (∀ name ∈ names, Named name) ∧ ∃ there text, t.follow [] p.parts = .ok there ∧
      t.get? (there ++ names) = some (.file text) ∧
      ∀ front, front <+: names → front ≠ names → t.get? (there ++ front) = some .directory := by
  obtain ⟨place, text, hl, hfile⟩ := of_isFile h
  obtain ⟨hu, hfollow⟩ := of_locate hl
  rw [Path.parts_descend, follow_append, bind_eq_ok] at hfollow
  obtain ⟨there, hthere, hfollow⟩ := hfollow
  obtain ⟨rfl, hsizes, hdirs⟩ := (follow_eq_ok_iff hd).mp hfollow
  have hnought := hu.noNought
  rw [Path.holdsNought_descend, Bool.or_eq_false_iff, List.any_eq_false] at hnought
  exact ⟨fun name hm => ⟨fun he => hd (he ▸ hm), hsizes name hm, by simpa using hnought.2 name hm⟩,
    there, text, hthere, hfile, hdirs⟩

/-- No way to a file leads through another one. -/
theorem eq_of_prefix {p : Path} {more : List String} (h : t.isFile (p.descend names) = .ok true)
    (h' : t.isFile (p.descend more) = .ok true) (hd : ".." ∉ names) (hd' : ".." ∉ more)
    (hp : names <+: more) : names = more := by
  by_contra hne
  obtain ⟨-, there, text, hthere, hfile, -⟩ := of_isFile_descend h hd
  obtain ⟨-, there', -, hthere', -, hdirs⟩ := of_isFile_descend h' hd'
  obtain rfl := Except.ok.inj (hthere.symm.trans hthere')
  cases (hdirs names hp hne).symm.trans hfile

-- ---------------------------------------------------------------------------
-- Files in a directory

/-- A path leads to an empty directory, or to a place where one may be made. -/
structure Vacant (t : FileTree) (p : Path) (place : List String) : Prop where
  opens : t.Opens p place
  empty : ∀ other, place <+: other → other ≠ place → t.get? other = none

theorem vacant_of_directory {p : Path} (h : t.locate p = .ok place)
    (hdir : t.get? place = some .directory)
    (empty : ∀ other, place <+: other → other ≠ place → t.get? other = none) : t.Vacant p place :=
  ⟨.of_locate h hdir, empty⟩

theorem vacant_of_new {p : Path} {front rest : List String} {name : String}
    (hnought : p.holdsNought = false) (hparts : p.parts = front ++ name :: rest)
    (h : t.follow [] front = .ok here) (hdir : t.get? here = some .directory)
    (hnamed : ∀ name' ∈ name :: rest, Named name')
    (new : ∀ other, here ++ [name] <+: other → t.get? other = none) :
    t.Vacant p (here ++ name :: rest) := by
  have hnew : here ++ [name] <+: here ++ name :: rest := by
    rw [List.append_cons here name rest]
    exact List.prefix_append _ rest
  refine ⟨⟨hnought, front, here, name :: rest, hparts, rfl, h, hdir, hnamed, fun names hn => ?_⟩,
    fun other ho _ => new other (hnew.trans ho)⟩
  cases names with
  | nil => exact .inr (by rwa [List.append_nil])
  | cons a names =>
    obtain ⟨rfl, -⟩ := List.cons_prefix_cons.mp hn
    refine .inl (new _ ?_)
    rw [List.append_cons here a names]
    exact List.prefix_append _ names

/-- A tree after files, each by the names that lead to it from a place, have been written there: the
files, the directories that they are in, and what was there before. -/
structure Written (t t' : FileTree) (place : List String) (done : List (List String × String)) :
    Prop where
  file : ∀ f ∈ done, t'.get? (place ++ f.1) = some (.file (some f.2))
  directory : ∀ f ∈ done, ∀ front, front <+: place ++ f.1 → front ≠ place ++ f.1 →
    t'.get? front = some .directory
  other : ∀ other, (∀ f ∈ done, ¬ other <+: place ++ f.1) → t'.get? other = t.get? other

theorem written_nil (t : FileTree) (place : List String) : Written t t place [] :=
  ⟨nofun, nofun, fun _ _ => rfl⟩

theorem not_prefix_of_append (place : List String) (h : names ≠ []) : ¬ place ++ names <+: place := by
  intro hp
  have hle := hp.length_le
  rw [List.length_append] at hle
  exact h (List.length_eq_zero_iff.mp (by omega))

namespace Written

variable {p : Path} {done : List (List String × String)}

theorem keeps (h : Written t t' place done) (hv : t.Vacant p place) (hne : ∀ f ∈ done, f.1 ≠ []) :
    t.Extends t' := by
  intro other e he
  by_cases hother : ∃ f ∈ done, other <+: place ++ f.1
  · obtain ⟨f, hf, hfront⟩ := hother
    have habove : other <+: place := by
      rcases List.prefix_or_prefix_of_prefix hfront (List.prefix_append place f.1) with hp | hp
      · exact hp
      · by_cases heq : other = place
        · exact heq ▸ List.prefix_rfl
        · cases (hv.empty other hp heq).symm.trans he
    have hproper : other ≠ place ++ f.1 := by
      rintro rfl
      exact not_prefix_of_append place (hne f hf) habove
    rw [h.directory f hf other hfront hproper]
    exact ((hv.opens.free habove).resolve_left (by simp [he])).symm.trans he
  · rwa [h.other other fun f hf hp => hother ⟨f, hf, hp⟩]

theorem free (h : Written t t' place done) (hv : t.Vacant p place) {front : List String}
    (hf : ∀ f ∈ done, f.1 ≠ front) :
    t'.get? (place ++ front) = none ∨ t'.get? (place ++ front) = some .directory := by
  by_cases hother : ∃ f ∈ done, place ++ front <+: place ++ f.1
  · obtain ⟨f, hm, hfront⟩ := hother
    exact .inr (h.directory f hm _ hfront fun he => hf f hm (List.append_cancel_left he).symm)
  · rw [h.other _ fun f hm hp => hother ⟨f, hm, hp⟩]
    cases front with
    | nil =>
      rw [List.append_nil]
      exact hv.opens.free List.prefix_rfl
    | cons a front => exact .inl (hv.empty _ (List.prefix_append _ _) (by simp))

theorem opens (h : Written t t' place done) (hv : t.Vacant p place) (hne : ∀ f ∈ done, f.1 ≠ []) :
    t'.Opens p place := by
  obtain ⟨hnought, front, here, rest, hparts, rfl, hfollow, hdir, hnamed, hfree⟩ := hv.opens
  have he := h.keeps hv hne
  refine ⟨hnought, front, here, rest, hparts, rfl, he.follow hfollow, he _ _ hdir, hnamed,
    fun names hnames => ?_⟩
  have hfront : here ++ names <+: here ++ rest := (List.prefix_append_right_inj here).mpr hnames
  by_cases hdone : done = []
  · rw [h.other _ (by simp [hdone])]
    exact hfree names hnames
  · obtain ⟨f, hf⟩ := List.exists_mem_of_ne_nil done hdone
    refine .inr (h.directory f hf _ (hfront.trans (List.prefix_append _ _)) ?_)
    intro heq
    exact not_prefix_of_append _ (hne f hf) (heq ▸ hfront)

/-- One more file is written, if its names do not begin with those of another, nor those of another
with its. -/
theorem write (h : Written t t' place done) (hv : t.Vacant p place) (hne : ∀ f ∈ done, f.1 ≠ [])
    (hu : (p.descend names).Usable) (hnames : names ≠ []) (hn : ∀ name ∈ names, Named name)
    (apart : ∀ f ∈ done, ¬ f.1 <+: names ∧ ¬ names <+: f.1) (text : String) :
    ∃ t₁ t₂, t'.makeDirectory (p.descend names).parent = .ok t₁ ∧
      t₁.write (p.descend names) text = .ok t₂ ∧ Written t t₂ place (done ++ [(names, text)]) := by
  have hlast : names.dropLast ++ [names.getLast hnames] = names := List.dropLast_append_getLast hnames
  have hup : (p.descend names.dropLast).Usable := by
    rw [← hlast, ← Path.descend_descend] at hu
    exact hu.of_descend
  have hinner : names.dropLast <+: names := List.dropLast_prefix names
  have hproper {front : List String} (hf : front <+: place ++ names) (he : front ≠ place ++ names) :
      front <+: place ++ names.dropLast := by
    rw [← hlast, ← List.append_assoc] at hf
    refine (List.prefix_concat_iff.mp hf).resolve_left fun heq => he ?_
    rw [heq, List.append_assoc, hlast]
  have hbehind {front : List String} (hf : place ++ front <+: place ++ names.dropLast) :
      front <+: names :=
    ((List.prefix_append_right_inj place).mp hf).trans hinner
  obtain ⟨t₁, hmake, hlocate, hdirs, hothers⟩ := (h.opens hv hne).makeDirectory hup
    (fun name hm => hn name (hinner.subset hm))
    (fun front hf => h.free hv fun f hm he => (apart f hm).1 (he ▸ hf.trans hinner))
  have hlong : ¬ place ++ names <+: place ++ names.dropLast := by
    intro hp
    rw [← hlast, ← List.append_assoc, List.dropLast_concat] at hp
    exact not_prefix_of_append _ (List.cons_ne_nil _ _) hp
  have hnone : t₁.get? (place ++ names) = none := by
    rw [hothers _ hlong, h.other _ fun f hm hp => (apart f hm).2 ?_]
    · exact hv.empty _ (List.prefix_append _ _) (by simpa using hnames)
    · exact (List.prefix_append_right_inj place).mp hp
  have hwrite := write_below hlocate hu hn
    (fun front hf he => hdirs _ (hproper ((List.prefix_append_right_inj place).mpr hf)
      fun heq => he (List.append_cancel_left heq)))
    (by rw [hnone]; exact nofun) text
  have hplace : place ++ names ≠ [] := by simp [hnames]
  refine ⟨t₁, _, ?_, hwrite, ⟨fun f hf => ?_, fun f hf front hp he => ?_, fun other hother => ?_⟩⟩
  · rw [Path.parent_descend p hnames]
    exact hmake
  · rcases List.mem_append.mp hf with hf | hf
    · have hne' : place ++ f.1 ≠ place ++ names := fun he =>
        (apart f hf).1 (List.append_cancel_left he ▸ List.prefix_rfl)
      rw [get?_put_of_ne t₁ hne', hothers _ fun hp => (apart f hf).1 (hbehind hp)]
      exact h.file f hf
    · rw [List.mem_singleton.mp hf]
      exact get?_put t₁ hplace _
  · rcases List.mem_append.mp hf with hf | hf
    · have hne' : front ≠ place ++ names := by
        rintro rfl
        exact (apart f hf).2 ((List.prefix_append_right_inj place).mp hp)
      rw [get?_put_of_ne t₁ hne']
      by_cases hfront : front <+: place ++ names.dropLast
      · exact hdirs front hfront
      · rw [hothers front hfront]
        exact h.directory f hf front hp he
    · rw [List.mem_singleton.mp hf] at hp he
      rw [get?_put_of_ne t₁ he]
      exact hdirs front (hproper hp he)
  · have hnew := hother _ (List.mem_append_right done List.mem_cons_self)
    have hne' : other ≠ place ++ names := fun he => hnew (he ▸ List.prefix_rfl)
    have hup' : place ++ names.dropLast <+: place ++ names :=
      (List.prefix_append_right_inj place).mpr hinner
    rw [get?_put_of_ne t₁ hne', hothers other fun hp => hnew (hp.trans hup')]
    exact h.other other fun f hf => hother f (List.mem_append_left _ hf)

end Written

-- ---------------------------------------------------------------------------
-- Sound trees

/-- Each place is there once, and no name stands for a step up. -/
structure Sound (t : FileTree) : Prop where
  nodup : (t.entries.map (·.1)).Nodup
  named : ∀ e ∈ t.entries, ".." ∉ e.1

theorem no_step_of_follow (hh : ".." ∉ here) (h : t.follow here names = .ok place) : ".." ∉ place := by
  induction names generalizing here with
  | nil =>
    cases h
    exact hh
  | cons name rest ih =>
    obtain ⟨-, -, hf⟩ := of_follow_cons h
    refine ih ?_ hf
    split
    · exact fun hm => hh (List.mem_of_mem_dropLast hm)
    · rename_i hname
      simp [hh, Ne.symm hname]

theorem no_step_of_locate {p : Path} (h : t.locate p = .ok place) : ".." ∉ place :=
  no_step_of_follow List.not_mem_nil (of_locate h).2

theorem Sound.put (h : t.Sound) (hp : ".." ∉ place) (e : FileEntry) : (t.put place e).Sound := by
  refine ⟨Table.nodup_assign place e h.nodup, fun f hf => ?_⟩
  rcases Table.mem_of_mem_assign hf with rfl | hf
  · exact hp
  · exact h.named f hf

theorem Sound.write (h : t.Sound) {p : Path} {text : String} (hw : t.write p text = .ok t') :
    t'.Sound := by
  rw [FileTree.write, bind_eq_ok] at hw
  obtain ⟨place, hl, hw⟩ := hw
  split at hw
  · cases hw
  · cases hw
    exact h.put (no_step_of_locate hl) _

theorem Sound.makeFrom (h : t.Sound) (hm : t.makeFrom here names = .ok t') : t'.Sound := by
  induction names generalizing t here with
  | nil =>
    cases hm
    exact h
  | cons name rest ih =>
    simp only [FileTree.makeFrom, bind_eq_ok] at hm
    obtain ⟨found, -, hm⟩ := hm
    split at hm
    · exact ih h hm
    · cases hm
    · obtain ⟨place, hl, hm⟩ := bind_eq_ok.mp hm
      exact ih (h.put (no_step_of_locate hl) _) hm

theorem Sound.makeDirectory (h : t.Sound) {p : Path} (hm : t.makeDirectory p = .ok t') :
    t'.Sound := by
  rw [FileTree.makeDirectory] at hm
  split at hm
  · cases hm
  · exact h.makeFrom hm

end FileTree

end Mailgrid
