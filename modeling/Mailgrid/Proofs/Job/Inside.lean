import Mailgrid.Proofs.Files.Inside
import Mailgrid.Proofs.Job.Meets
import Mailgrid.Proofs.Job.Written

/-!
# Where a job writes

A document is written by the names that lead to it from the input directory, so
where they never step up above that, it is written inside the target. Whether they
do is seen from the pattern. `Contained` is what each document keeps; what a job
does before is to make directories.

A pattern that steps up can lead out of the target, even to the document itself:
`not_writes_inside`.
-/

namespace Mailgrid.Job

open FileTree (Reaches Within)
open Glob (staysInside)
open Mailgrid.Path (staysIn)

variable {job : Job} {t : FileTree} {out : List String} {source : Path} {sources : List Path}

theorem staysIn_of_search (sound : t.Sound) (inside : staysInside job.arguments.pattern = true)
    (h : job.search t = .ok sources) (hs : source ∈ sources) :
    ∃ names, source = job.input.descend names ∧ staysIn 0 names = true := by
  rw [search, bind_eq_ok] at h
  obtain ⟨g, hg, hfound⟩ := h
  exact Glob.staysIn_of_files sound inside hg hfound hs

/-- Has a tree changed only inside the directory that the target leads to? -/
structure Contained (job : Job) (t : FileTree) (out : List String) (t' : FileTree) : Prop where
  sound : t'.Sound
  reaches : t'.Reaches job.target out
  within : Within t t' out

theorem Contained.step {t' t'' : FileTree} (h : job.Contained t out t') (hs : t''.Sound)
    (hw : Within t' t'' out) : job.Contained t out t'' :=
  ⟨hs, h.reaches.of_directories hw.directories, h.within.trans hw⟩

/-- A document that is found below the input directory is written inside the target. -/
theorem keepsAt_contained {names : List String} (hs : staysIn 0 names = true) :
    KeepsAt (job.Contained t out) job (job.input.descend names) := by
  have hplace : job.place (job.input.descend names) = job.target.descend names := by
    rw [place, Path.below_descend]
  refine ⟨?_, fun html => ?_⟩
  · refine meets_makeDirectory (fun {u u'} h hm => ?_) fun _ h => h
    refine h.step (h.sound.makeDirectory hm) (h.reaches.within_makeDirectory hs ?_ hm)
    rw [hplace]
    exact List.dropLast_prefix _
  · refine meets_writeText (fun {u u'} h hw => ?_) fun _ h => h
    rw [hplace] at hw
    exact h.step (h.sound.write hw) (h.reaches.within_write hs hw)

theorem keeps_contained (inside : staysInside job.arguments.pattern = true) :
    Keeps (job.Contained t out) job.convertDocuments := by
  refine keeps_convertDocuments job fun u sources hu hsearch s hs => ?_
  obtain ⟨names, rfl, hnames⟩ := staysIn_of_search hu.sound inside hsearch hs
  exact keepsAt_contained hnames

theorem contained_convertDocuments (sound : t.Sound) (reaches : t.Reaches job.target out)
    (inside : staysInside job.arguments.pattern = true) (log : List Message) (errors : String) :
    job.Contained t out (job.convertDocuments.run ⟨t, log, errors⟩).2.files :=
  (keeps_contained inside).files ⟨t, log, errors⟩ ⟨sound, reaches, .refl t out⟩

/-- Has a target been made, and nothing but directories? -/
structure Prepared (t : FileTree) (target : Path) (t' : FileTree) : Prop where
  sound : t'.Sound
  reaches : ∃ out, t'.Reaches target out
  made : ∀ place, t'.get? place ≠ t.get? place → t.get? place = none ∧
    t'.get? place = some .directory

/-- Is all that is new or changed a directory that was made, or inside the target? -/
def MadeOrInside (t : FileTree) (target : Path) (t' : FileTree) : Prop :=
  ∀ place, t'.get? place ≠ t.get? place →
    t.get? place = none ∧ t'.get? place = some .directory ∨
      ∃ out, t'.Reaches target out ∧ out <+: place ∧ place ≠ out

variable {target : Path}

theorem Prepared.madeOrInside {t' : FileTree} (h : Prepared t target t') : MadeOrInside t target t' :=
  fun place hne => .inl (h.made place hne)

theorem meets_makeTarget (sound : t.Sound) (target : Path) :
    Meets (· = t) (makeDirectory target) (fun _ => Prepared t target) (MadeOrInside t target) := by
  refine meets_makeDirectory (fun {u u'} hu hm => ?_) fun u hu place hne => ?_
  · subst hu
    obtain ⟨-, hreaches, hnew⟩ := FileTree.of_makeDirectory hm
    exact ⟨sound.makeDirectory hm, hreaches, fun place hne =>
      ⟨(hnew place hne).1, (hnew place hne).2.1⟩⟩
  · exact absurd (congrArg (·.get? place) hu) hne

theorem meets_convertDocuments (htarget : job.target = target)
    (inside : staysInside job.arguments.pattern = true) :
    Meets (Prepared t target) job.convertDocuments (fun _ => MadeOrInside t target)
      (MadeOrInside t target) := by
  subst htarget
  rintro desk ⟨hs, ⟨out, hr⟩, hmade⟩
  have hend (u) (hu : job.Contained desk.files out u) : MadeOrInside t job.target u := by
    intro place hne
    by_cases hsame : u.get? place = desk.files.get? place
    · rw [hsame] at hne ⊢
      exact .inl (hmade place hne)
    · exact .inr ⟨out, hu.reaches, hu.within.inside place hsame⟩
  exact ((keeps_contained inside).mono (fun _ h => h) (fun _ => hend) hend) desk
    ⟨hs, hr, .refl desk.files out⟩

/-- A whole job makes directories, and writes documents inside its target. -/
theorem madeOrInside_run (sound : t.Sound) (inside : staysInside job.arguments.pattern = true) :
    MadeOrInside t (job.output.join job.arguments.outputSubdir) (job.run Stage.all t).desk.files := by
  have hplaces := meets_checkPlaces job (meets_makeTarget sound _) fun u hu place hne =>
    absurd (congrArg (·.get? place) hu) hne
  rw [files_run]
  refine Meets.files (P := (· = t)) ?_ ⟨t, [], ""⟩ rfl
  refine hplaces.bind fun first => .of_and fun hfirst => ?_
  refine ((meets_loadOptions first).mono (fun _ h => h) (fun _ _ h => h)
    fun _ h => h.madeOrInside).bind fun second => .of_and fun hsecond => ?_
  obtain ⟨htarget, hpattern⟩ : second.target = job.output.join job.arguments.outputSubdir ∧
      second.arguments = job.arguments := by
    obtain ⟨_, rfl⟩ := hfirst
    obtain ⟨_, rfl⟩ := hsecond
    exact ⟨rfl, rfl⟩
  refine (meets_convertDocuments htarget (hpattern ▸ inside)).bind fun third => ?_
  exact (keeps_reportResults third).bind fun _ => meets_pure fun _ h => h

/-- Documents that a pattern finds without stepping up are written inside the target, wherever it
is: nothing outside it is new or changed, no file of a directory apart from it is, and so it is for
a whole job but for directories that are made on the way. -/
theorem writes_inside (sound : t.Sound) (inside : staysInside job.arguments.pattern = true) :
    (∀ out log errors, t.Reaches job.target out →
      let t' := (job.convertDocuments.run ⟨t, log, errors⟩).2.files
      (∀ place, t'.get? place ≠ t.get? place → out <+: place ∧ place ≠ out) ∧
        (∀ apart, ¬ out <+: apart → ¬ apart <+: out →
          ∀ place, apart <+: place → t'.get? place = t.get? place) ∧
        ∀ sources, job.search t = .ok sources → ∀ s ∈ sources, ∀ (u : FileTree) (place : List String),
          u.Reaches job.target out → u.locate (job.place s) = .ok place → out <+: place) ∧
      MadeOrInside t (job.output.join job.arguments.outputSubdir)
        (job.run Stage.all t).desk.files := by
  refine ⟨fun out log errors reaches => ?_, madeOrInside_run sound inside⟩
  have hwithin := (contained_convertDocuments sound reaches inside log errors).within
  refine ⟨hwithin.inside, fun apart hout happart place hplace => ?_, fun sources found s hs u place
    hu hl => ?_⟩
  · by_contra hne
    rcases List.prefix_or_prefix_of_prefix (hwithin.inside place hne).1 hplace with hp | hp
    · exact hout hp
    · exact happart hp
  · obtain ⟨names, rfl, hnames⟩ := staysIn_of_search sound inside found hs
    rw [Job.place, Path.below_descend] at hl
    exact hu.prefix_of_follow hnames (FileTree.of_locate hl).2

-- ---------------------------------------------------------------------------
-- Patterns that step up

/-- A document with a column, a directory beside it, and a directory to write to. -/
def letters : FileTree :=
  ⟨[(["in"], .directory), (["in", "a.html"], .file (some "<columns>Hi</columns>")),
    (["in", "x"], .directory), (["out"], .directory)]⟩

theorem sound_letters : letters.Sound :=
  ⟨by decide, by decide⟩

theorem reaches_out : letters.Reaches ⟨["out"], false⟩ ["out"] :=
  ⟨rfl, rfl⟩

/-- A pattern that comes down before it steps up leaves the document as it is. -/
theorem writes_inside_letters :
    let job := plain 10000 "x/../*.html" ⟨["out"], false⟩
    staysInside job.arguments.pattern = true ∧
      (job.convertDocuments.run ⟨letters, [], ""⟩).2.files.get? ["in", "a.html"] =
        some (.file (some "<columns>Hi</columns>")) := by
  intro job
  have hinside : staysInside job.arguments.pattern = true := by decide
  obtain ⟨hdocuments, -⟩ := @writes_inside job letters sound_letters hinside
  obtain ⟨-, hapart, -⟩ := hdocuments ["out"] [] "" reaches_out
  refine ⟨hinside, ?_⟩
  exact hapart ["in"] (by decide) (by decide) ["in", "a.html"] (by decide)

/-- A pattern that steps up and comes down again to the input directory finds the document, and
converts it into itself. -/
theorem not_writes_inside :
    let job := plain 10000 "../in/a.html" ⟨["out"], false⟩
    letters.Reaches job.target ["out"] ∧ (∃ g, Glob.ofText job.arguments.pattern = .ok g) ∧
      ∃ next desk, job.convertDocuments.run ⟨letters, [], ""⟩ = (.ok next, desk) ∧
        desk.files.get? ["in", "a.html"] = some (.file (some (loneCellText "Hi"))) ∧
        letters.get? ["in", "a.html"] = some (.file (some "<columns>Hi</columns>")) ∧
        ¬ ["out"] <+: ["in", "a.html"] := by
  intro job
  obtain ⟨engine, hbuilt, hengine⟩ : ∃ engine, job.buildEngine = .ok (engine, []) ∧
      Engine.build .standard .null = .ok (engine, []) := ⟨_, rfl, rfl⟩
  have hg : Glob.ofText "../in/a.html" = .ok ⟨[.parent, .exact "in", .exact "a.html"], false⟩ :=
    eq_ok_of_toOption (by decide +kernel)
  let source : Path := ⟨["in", "..", "in", "a.html"], false⟩
  have hfound : job.search letters = .ok [source] :=
    search_of_select hg rfl rfl (List.pairwise_singleton _ _)
  have htext : String.ofList (unifyBreaks "<columns>Hi</columns>".toList) =
      "<columns>Hi</columns>" := by decide
  have hout : outcome engine letters source = .ok (loneCellText "Hi") :=
    outcome_eq_ok.mpr ⟨"<columns>Hi</columns>", rfl, htext ▸ Engine.convert_columns hengine⟩
  have hmake : letters.makeDirectory (job.place source).parent = .ok letters := rfl
  have hwrite : letters.write (job.place source) (loneCellText "Hi") =
      .ok (letters.put ["in", "a.html"] (.file (some (loneCellText "Hi")))) := rfl
  obtain ⟨log, hrun⟩ := run_convertDocument_ok hout hmake hwrite ([] ++ announced [source] []) ""
  refine ⟨reaches_out, ⟨_, hg⟩, { job with written := some [job.place source] },
    ⟨letters.put ["in", "a.html"] (.file (some (loneCellText "Hi"))), log, ""⟩, ?_,
    FileTree.get?_put _ (by decide) _, rfl, by decide⟩
  rw [run_convertDocuments hbuilt hfound, run_bind, List.mapM_cons, run_bind, hrun]
  rfl

end Mailgrid.Job
