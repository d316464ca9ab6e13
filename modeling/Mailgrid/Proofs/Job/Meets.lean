import Mailgrid.Proofs.Job.Documents

/-!
# What tasks do to files

`Meets P x Q E`: from files with `P`, the task `x` comes to a value and files with
`Q`, or it stops at files with `E`. Only making directories and writing files change
a tree, so what holds of a stage follows from what holds of these two.
-/

namespace Mailgrid.Job

def Meets (P : FileTree → Prop) (x : Task α) (Q : α → FileTree → Prop) (E : FileTree → Prop) : Prop :=
  ∀ desk, P desk.files → match x.run desk with
    | (.ok a, next) => Q a next.files
    | (.error _, next) => E next.files

/-- Do files have `P` after a task, however it ends, if they had it before? -/
abbrev Keeps (P : FileTree → Prop) (x : Task α) : Prop :=
  Meets P x (fun _ => P) P

variable {P : FileTree → Prop} {Q : α → FileTree → Prop} {E : FileTree → Prop} {x : Task α}

theorem Meets.files (h : Meets P x (fun _ => E) E) (desk : Desk) (hP : P desk.files) :
    E (x.run desk).2.files := by
  have hend := h desk hP
  split at hend <;> rename_i hrun <;> rwa [hrun]

theorem Meets.mono {P' : FileTree → Prop} {Q' : α → FileTree → Prop} {E' : FileTree → Prop}
    (h : Meets P x Q E) (hP : ∀ t, P' t → P t) (hQ : ∀ a t, Q a t → Q' a t)
    (hE : ∀ t, E t → E' t) : Meets P' x Q' E' := by
  intro desk hdesk
  have hend := h desk (hP _ hdesk)
  split at hend
  · exact hQ _ _ hend
  · exact hE _ hend

theorem Meets.of_and {c : Prop} (h : c → Meets P x Q E) : Meets (fun t => P t ∧ c) x Q E :=
  fun desk hdesk => h hdesk.2 desk hdesk.1

theorem Meets.bind {R : β → FileTree → Prop} {f : α → Task β} (hx : Meets P x Q E)
    (hf : ∀ a, Meets (Q a) (f a) R E) : Meets P (x >>= f) R E := by
  intro desk h
  have hmid := hx desk h
  rw [run_bind]
  cases hrun : x.run desk with
  | mk result next =>
    rw [hrun] at hmid
    cases result with
    | ok a => exact hf a next hmid
    | error stop => exact hmid

theorem meets_pure {a : α} (h : ∀ t, P t → Q a t) : Meets P (pure a) Q E :=
  fun _ hP => h _ hP

theorem meets_throw {stop : Stop} (h : ∀ t, P t → E t) : Meets P (throw stop : Task α) Q E :=
  fun _ hP => h _ hP

theorem keeps_tellAll (messages : List Message) : Meets P (tellAll messages) (fun _ => P) E :=
  fun _ hP => hP

theorem keeps_tell (level : Int) (text : String) : Meets P (tell level text) (fun _ => P) E :=
  fun _ hP => hP

theorem meets_giveUp {text : String} (h : ∀ t, P t → E t) : Meets P (giveUp text : Task α) Q E :=
  fun _ hP => h _ hP

theorem Meets.files_bind {R : β → FileTree → Prop} {f : FileTree → Task β}
    (hf : ∀ t, P t → Meets P (f t) R E) : Meets P (Job.files >>= f) R E := by
  rintro ⟨t, log, errors⟩ hP
  rw [run_bind, run_files]
  exact hf t hP ⟨t, log, errors⟩ hP

theorem Meets.lift_bind {R : β → FileTree → Prop} {result : Except Failure α} {f : α → Task β}
    (h : ∀ t, P t → E t) (hf : ∀ a, result = .ok a → Meets P (f a) R E) :
    Meets P (lift result >>= f) R E := by
  intro desk hP
  cases result with
  | ok a => exact hf a rfl desk hP
  | error failure => exact h _ hP

theorem Meets.ite {c : Prop} [Decidable c] {y : Task α} (hx : Meets P x Q E) (hy : Meets P y Q E) :
    Meets P (if c then x else y) Q E := by
  split
  · exact hx
  · exact hy

theorem Keeps.mapM {f : α → Task β} {l : List α} (hf : ∀ a ∈ l, Keeps P (f a)) :
    Keeps P (l.mapM f) := by
  induction l with
  | nil => exact meets_pure fun _ hP => hP
  | cons a rest ih =>
    obtain ⟨ha, hrest⟩ := List.forall_mem_cons.mp hf
    rw [List.mapM_cons]
    exact ha.bind fun b => (ih hrest).bind fun bs => meets_pure fun _ hP => hP

theorem Keeps.foldlM {step : β → α → Task β} (hs : ∀ b a, Keeps P (step b a)) (l : List α) (b : β) :
    Keeps P (l.foldlM step b) := by
  induction l generalizing b with
  | nil => exact meets_pure fun _ hP => hP
  | cons a rest ih =>
    rw [List.foldlM_cons]
    exact (hs b a).bind ih

-- ---------------------------------------------------------------------------
-- Reading and changing files

theorem keeps_readText (p : Path) (h : ∀ t, P t → E t) : Meets P (readText p) (fun _ => P) E :=
  .files_bind fun _ _ => .lift_bind h fun _ _ => meets_pure fun _ hP => hP

theorem meets_change {change : FileTree → Except Failure FileTree} {R : FileTree → Prop}
    (hc : ∀ {t t'}, P t → change t = .ok t' → R t') (h : ∀ t, P t → E t) :
    Meets P (do keep (← lift (change (← files)))) (fun _ => R) E := by
  rintro ⟨t, log, errors⟩ hP
  rw [run_bind, run_files]
  dsimp only
  cases hchange : change t with
  | error failure => exact h t hP
  | ok t' => exact hc hP hchange

theorem meets_makeDirectory {p : Path} {R : FileTree → Prop}
    (hc : ∀ {t t'}, P t → t.makeDirectory p = .ok t' → R t') (h : ∀ t, P t → E t) :
    Meets P (makeDirectory p) (fun _ => R) E :=
  meets_change hc h

theorem meets_writeText {p : Path} {text : String} {R : FileTree → Prop}
    (hc : ∀ {t t'}, P t → t.write p text = .ok t' → R t') (h : ∀ t, P t → E t) :
    Meets P (writeText p text) (fun _ => R) E :=
  meets_change hc h

-- ---------------------------------------------------------------------------
-- The stages

/-- To check places changes files only where the target is made. -/
theorem meets_checkPlaces (job : Job) {R : FileTree → Prop}
    (hmade : Meets P (makeDirectory (job.output.join job.arguments.outputSubdir)) (fun _ => R) E)
    (h : ∀ t, P t → E t) :
    Meets P job.checkPlaces (fun next t => R t ∧ ∃ optionsFile, next = { job with
      target := job.output.join job.arguments.outputSubdir, optionsFile }) E := by
  have hlast : Meets P (do
      makeDirectory (job.output.join job.arguments.outputSubdir)
      tell 2 ("Output directory: " ++ (job.output.join job.arguments.outputSubdir).shown)
      pure { job with
        target := job.output.join job.arguments.outputSubdir
        optionsFile := job.givenFile.or job.optionsFile }) (fun next t => R t ∧ ∃ optionsFile,
          next = { job with target := job.output.join job.arguments.outputSubdir, optionsFile }) E :=
    hmade.bind fun _ => (keeps_tell _ _).bind fun _ => meets_pure fun t ht => ⟨ht, _, rfl⟩
  unfold checkPlaces
  refine (keeps_tell _ _).bind fun _ => .files_bind fun t _ => .lift_bind h fun b _ => ?_
  dsimp only
  refine .ite ((meets_giveUp h (Q := fun _ => P)).bind fun _ => ?_) ?_
  all_goals
    split
    · refine .files_bind fun t _ => .lift_bind h fun there _ => .ite ?_ ?_
      · exact (meets_giveUp h (Q := fun _ => P)).bind fun _ => (keeps_tell _ _).bind fun _ => hlast
      · exact (keeps_tell _ _).bind fun _ => hlast
    · exact hlast

theorem keeps_readOptions (file : Path) : Keeps P (readOptions file) := by
  refine (keeps_readText file fun _ hP => hP).bind fun text => ?_
  split
  · exact meets_giveUp fun _ hP => hP
  · exact meets_throw fun _ hP => hP
  · exact meets_pure fun _ hP => hP
  · exact meets_pure fun _ hP => hP
  · exact meets_giveUp fun _ hP => hP

theorem meets_loadOptions (job : Job) :
    Meets P job.loadOptions (fun next t => P t ∧ ∃ options, next = { job with options }) P := by
  have hread (entries : List (Value × Value)) : Meets P (do
      let options ← lift (Options.ofEntries job.settings
        (withWidth job.arguments.columnCount entries))
      if !options.columnCount.isShowable then throw (.failure .numberTooLong)
      tell 2 ("Grid width: " ++ options.columnCount.shown)
      pure { job with options := some options })
        (fun next t => P t ∧ ∃ options, next = { job with options }) P := by
    refine .lift_bind (fun _ hP => hP) fun options _ => ?_
    refine .ite ((meets_throw (Q := fun _ => P) fun _ hP => hP).bind fun _ => ?_) ?_
    all_goals exact (keeps_tell _ _).bind fun _ => meets_pure fun t hP => ⟨hP, _, rfl⟩
  unfold loadOptions
  dsimp only
  split
  · exact (keeps_readOptions _).bind hread
  · exact (meets_pure (Q := fun _ => P) fun _ hP => hP).bind hread

/-- Is a property kept where a document is written? -/
structure KeepsAt (P : FileTree → Prop) (job : Job) (source : Path) : Prop where
  made : Keeps P (makeDirectory (job.place source).parent)
  written : ∀ html, Keeps P (writeText (job.place source) html)

theorem keeps_convertDocument {job : Job} {source : Path} (h : KeepsAt P job source)
    (engine : Engine) : Keeps P (job.convertDocument engine source) := by
  refine (keeps_readText source fun _ hP => hP).bind fun text => (keeps_tellAll _).bind fun _ => ?_
  split
  · exact h.made.bind fun _ => (h.written _).bind fun _ => (keeps_tell _ _).bind fun _ =>
      meets_pure fun _ hP => hP
  · split
    · exact meets_giveUp fun _ hP => hP
    · exact meets_throw fun _ hP => hP

theorem keeps_convertDocuments (job : Job) (h : ∀ t sources, P t → job.search t = .ok sources →
    ∀ s ∈ sources, KeepsAt P job s) : Keeps P job.convertDocuments := by
  have hsources (engine : Engine) : Keeps P (do
      let pattern ← lift (Glob.ofText job.arguments.pattern)
      let sources ← lift (pattern.files (← files) job.input)
      tell 1 ("Converting " ++ toString sources.length ++ " document(s)...")
      let written ← sources.mapM (job.convertDocument engine)
      pure { job with written := some written }) := by
    refine .lift_bind (fun _ hP => hP) fun g hg => .files_bind fun t hP =>
      .lift_bind (fun _ hP => hP) fun sources hfound => (keeps_tell _ _).bind fun _ => ?_
    have hsearch : job.search t = .ok sources := by rw [search, hg, ok_bind, hfound]
    exact (Keeps.mapM fun s hs => keeps_convertDocument (h t sources hP hsearch s hs) engine).bind
      fun _ => meets_pure fun _ hP => hP
  unfold convertDocuments
  dsimp only
  split
  · exact (meets_pure (Q := fun _ => P) fun _ hP => hP).bind fun options =>
      .lift_bind (fun _ hP => hP) fun built _ => (keeps_tellAll _).bind fun _ => hsources built.1
  · exact .lift_bind (fun _ hP => hP) fun options _ =>
      .lift_bind (fun _ hP => hP) fun built _ => (keeps_tellAll _).bind fun _ => hsources built.1

theorem keeps_reportResults (job : Job) : Keeps P job.reportResults := by
  unfold reportResults
  split
  · exact meets_giveUp fun _ hP => hP
  · exact (keeps_tell _ _).bind fun _ => (keeps_tell _ _).bind fun _ => (keeps_tell _ _).bind fun _ =>
      meets_pure fun _ hP => hP

theorem files_run (job : Job) (stages : List Stage) (t : FileTree) :
    (job.run stages t).desk.files = ((stages.foldlM Stage.run job).run ⟨t, [], ""⟩).2.files := by
  rw [run]
  split <;> rename_i hrun <;> rw [hrun]

end Mailgrid.Job
