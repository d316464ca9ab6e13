import Mailgrid.Job
import Mailgrid.Proofs.Files.Glob

/-!
# The documents of a job

A job converts its documents in the order of their paths and writes each to the
same names below its target. Where all of them can be converted it ends well, and
where one cannot it ends there: what has been written is what the documents before
it come to, and nothing else is new or changed.

`Written` is the invariant of the loop. Converting one document keeps it with that
document added, since no names of one document begin with those of another; failing
to convert one changes no files.
-/

namespace Mailgrid.Job

open FileTree (Named Vacant Written)

-- ---------------------------------------------------------------------------
-- Tasks

theorem run_bind (x : Task α) (f : α → Task β) (desk : Desk) : (x >>= f).run desk =
    match x.run desk with
    | (.ok a, next) => (f a).run next
    | (.error stop, next) => (.error stop, next) := by
  unfold ExceptT.run
  simp only [bind, ExceptT.bind, ExceptT.mk, StateT.bind, ExceptT.bindCont]
  cases x desk with
  | mk result next => cases result <;> rfl

theorem of_run_bind {x : Task α} {f : α → Task β} {desk next : Desk} {b : β}
    (h : (x >>= f).run desk = (.ok b, next)) :
    ∃ a mid, x.run desk = (.ok a, mid) ∧ (f a).run mid = (.ok b, next) := by
  rw [run_bind] at h
  split at h
  · rename_i a mid hx
    exact ⟨a, mid, hx, h⟩
  · cases h

section
variable {t t' : FileTree} {log : List Message} {errors : String} {p : Path} {text : String}

theorem run_lift_ok (a : α) (desk : Desk) : (lift (.ok a)).run desk = (.ok a, desk) := rfl

theorem run_files : files.run ⟨t, log, errors⟩ = (.ok t, ⟨t, log, errors⟩) := rfl

theorem run_tellAll (messages : List Message) :
    (tellAll messages).run ⟨t, log, errors⟩ = (.ok (), ⟨t, log ++ messages, errors⟩) := rfl

theorem run_tell (level : Int) (text : String) :
    (tell level text).run ⟨t, log, errors⟩ = (.ok (), ⟨t, log ++ [⟨level, text⟩], errors⟩) := rfl

theorem run_readText (h : t.read p = .ok text) : (readText p).run ⟨t, log, errors⟩ =
    (.ok (String.ofList (unifyBreaks text.toList)), ⟨t, log, errors⟩) := by
  change (lift (t.read p) >>= fun text => _).run ⟨t, log, errors⟩ = _
  rw [h]
  rfl

theorem run_makeDirectory (h : t.makeDirectory p = .ok t') :
    (makeDirectory p).run ⟨t, log, errors⟩ = (.ok (), ⟨t', log, errors⟩) := by
  change (lift (t.makeDirectory p) >>= fun made => keep made).run ⟨t, log, errors⟩ = _
  rw [h]
  rfl

theorem run_writeText (h : t.write p text = .ok t') :
    (writeText p text).run ⟨t, log, errors⟩ = (.ok (), ⟨t', log, errors⟩) := by
  change (lift (t.write p text) >>= fun made => keep made).run ⟨t, log, errors⟩ = _
  rw [h]
  rfl

end

-- ---------------------------------------------------------------------------
-- One document

/-- Where a document is written. -/
def place (job : Job) (source : Path) : Path :=
  job.target.descend (source.below job.input)

/-- What a file comes to when it is read and converted. -/
def outcome (engine : Engine) (t : FileTree) (source : Path) : Except Failure String := do
  let text ← t.read source
  (engine.convert (String.ofList (unifyBreaks text.toList))).result

variable {job : Job} {engine : Engine} {t t' : FileTree} {source : Path} {text html : String}

theorem outcome_eq_ok : outcome engine t source = .ok html ↔ ∃ text, t.read source = .ok text ∧
    (engine.convert (String.ofList (unifyBreaks text.toList))).result = .ok html :=
  bind_eq_ok

theorem run_convertDocument_ok {made : FileTree} (h : outcome engine t source = .ok html)
    (hmake : t.makeDirectory (job.place source).parent = .ok made)
    (hwrite : made.write (job.place source) html = .ok t') (log : List Message) (errors : String) :
    ∃ log', (job.convertDocument engine source).run ⟨t, log, errors⟩ =
      (.ok (job.place source), ⟨t', log', errors⟩) := by
  obtain ⟨text, hread, hresult⟩ := outcome_eq_ok.mp h
  unfold convertDocument place at *
  dsimp only
  rw [run_bind, run_readText hread]
  dsimp only
  rw [run_bind, run_tellAll, hresult]
  dsimp only
  rw [run_bind, run_makeDirectory hmake]
  dsimp only
  rw [run_bind, run_writeText hwrite]
  exact ⟨_, rfl⟩

/-- A failure that says something ends the job, and changes no files. -/
theorem run_convertDocument_error {failure : Failure} (hread : t.read source = .ok text)
    (hresult : (engine.convert (String.ofList (unifyBreaks text.toList))).result = .error failure)
    (hmessage : failure.message?.isSome = true) (log : List Message) (errors : String) :
    ∃ log' errors', (job.convertDocument engine source).run ⟨t, log, errors⟩ =
      (.error (.exit 1), ⟨t, log', errors'⟩) := by
  obtain ⟨message, hmessage⟩ := Option.isSome_iff_exists.mp hmessage
  unfold convertDocument
  dsimp only
  rw [run_bind, run_readText hread]
  dsimp only
  rw [run_bind, run_tellAll, hresult]
  dsimp only
  rw [hmessage]
  exact ⟨_, _, rfl⟩

theorem fits_of_run_writeText {p : Path} {text : String} {desk next : Desk}
    (h : (writeText p text).run desk = (.ok (), next)) : p.Fits := by
  obtain ⟨files, mid, -, h⟩ := of_run_bind h
  obtain ⟨written, _, hwrite, -⟩ := of_run_bind h
  cases hw : files.write p text with
  | error failure =>
    rw [hw] at hwrite
    cases hwrite
  | ok _ =>
    rw [FileTree.write, bind_eq_ok] at hw
    obtain ⟨place, hl, -⟩ := hw
    exact (FileTree.of_locate hl).1.fits

theorem fits_of_run_convertDocument {source p : Path} {desk next : Desk}
    (h : (job.convertDocument engine source).run desk = (.ok p, next)) :
    (job.place source).Fits := by
  obtain ⟨text, _, -, h⟩ := of_run_bind h
  obtain ⟨_, _, -, h⟩ := of_run_bind h
  dsimp only at h
  split at h
  · obtain ⟨_, _, -, h⟩ := of_run_bind h
    obtain ⟨_, _, hwrite, -⟩ := of_run_bind h
    exact fits_of_run_writeText hwrite
  · split at h <;> cases h

-- ---------------------------------------------------------------------------
-- Documents in a row

/-- A file that names without steps up lead to from the input directory. -/
def IsSource (job : Job) (t : FileTree) (source : Path) : Prop :=
  ∃ names, source = job.input.descend names ∧ names ≠ [] ∧ ".." ∉ names ∧
    t.isFile source = .ok true

theorem IsSource.not_leads_to {other : Path} (h : job.IsSource t source) (h' : job.IsSource t other)
    (hne : source ≠ other) : ¬ source.below job.input <+: other.below job.input := by
  obtain ⟨names, rfl, -, hd, hfile⟩ := h
  obtain ⟨names', rfl, -, hd', hfile'⟩ := h'
  rw [Path.below_descend, Path.below_descend]
  exact fun hp => hne (by rw [FileTree.eq_of_prefix hfile hfile' hd hd' hp])

theorem outcome_of_extends (he : t.Extends t') (h : job.IsSource t source) :
    outcome engine t' source = outcome engine t source := by
  obtain ⟨names, rfl, -, -, hfile⟩ := h
  rw [outcome, outcome, he.read hfile]

/-- Where one document is written, the files written before it are kept. -/
theorem run_convertDocument_written {out : List String} {files : FileTree}
    {done : List (List String × String)} (hv : t.Vacant job.target out) (h : Written t files out done)
    (hne : ∀ f ∈ done, f.1 ≠ []) (hsource : job.IsSource t source)
    (hout : outcome engine t source = .ok html) (hfits : (job.place source).Fits)
    (apart : ∀ f ∈ done, ¬ f.1 <+: source.below job.input ∧ ¬ source.below job.input <+: f.1)
    (log : List Message) (errors : String) :
    ∃ files' log', (job.convertDocument engine source).run ⟨files, log, errors⟩ =
        (.ok (job.place source), ⟨files', log', errors⟩) ∧
      Written t files' out (done ++ [(source.below job.input, html)]) := by
  have hread := (outcome_of_extends (h.keeps hv hne) hsource).trans hout
  obtain ⟨names, rfl, hnames, hd, hfile⟩ := hsource
  obtain ⟨hnamed, -⟩ := FileTree.of_isFile_descend hfile hd
  rw [place, Path.below_descend] at hfits
  rw [Path.below_descend] at apart ⊢
  have hu : (job.target.descend names).Usable := by
    refine ⟨?_, hfits⟩
    rw [Path.holdsNought_descend, hv.opens.noNought, Bool.false_or, List.any_eq_false]
    intro name hm
    rw [(hnamed name hm).noNought]
    exact Bool.false_ne_true
  obtain ⟨made, files', hmake, hwrite, hwritten⟩ := h.write hv hne hu hnames hnamed apart html
  have hplace : job.place (job.input.descend names) = job.target.descend names := by
    rw [place, Path.below_descend]
  rw [← hplace] at hmake hwrite
  obtain ⟨log', hrun⟩ := run_convertDocument_ok hread hmake hwrite log errors
  exact ⟨files', log', hrun, hwritten⟩

variable {sources : List Path} {htmls : List String}

/-- The names that documents are written by, each with what is written. -/
def results (job : Job) (sources : List Path) (htmls : List String) :
    List (List String × String) :=
  (sources.map (·.below job.input)).zip htmls

theorem run_mapM_convertDocument {out : List String} {files : FileTree}
    {done : List (List String × String)} (hv : t.Vacant job.target out)
    (hsources : ∀ s ∈ sources, job.IsSource t s) (hnodup : sources.Nodup)
    (hout : List.Forall₂ (fun s html => outcome engine t s = .ok html) sources htmls)
    (hfits : ∀ s ∈ sources, (job.place s).Fits) (h : Written t files out done)
    (hne : ∀ f ∈ done, f.1 ≠ [])
    (apart : ∀ f ∈ done, ∀ s ∈ sources,
      ¬ f.1 <+: s.below job.input ∧ ¬ s.below job.input <+: f.1)
    (log : List Message) (errors : String) :
    ∃ files' log', (sources.mapM (job.convertDocument engine)).run ⟨files, log, errors⟩ =
        (.ok (sources.map job.place), ⟨files', log', errors⟩) ∧
      Written t files' out (done ++ job.results sources htmls) := by
  induction hout generalizing files done log with
  | nil => exact ⟨files, log, rfl, by simpa [results] using h⟩
  | @cons source html sources htmls hhtml _ ih =>
    obtain ⟨hsource, hmore⟩ := List.forall_mem_cons.mp hsources
    obtain ⟨hfit, hfits⟩ := List.forall_mem_cons.mp hfits
    obtain ⟨hnew, hnodup⟩ := List.nodup_cons.mp hnodup
    obtain ⟨files₁, log₁, hrun, hwritten⟩ := run_convertDocument_written hv h hne hsource hhtml hfit
      (fun f hf => apart f hf source List.mem_cons_self) log errors
    have hnames : source.below job.input ≠ [] := by
      obtain ⟨names, rfl, hnames, -⟩ := hsource
      rwa [Path.below_descend]
    have hapart : ∀ s ∈ sources, ¬ source.below job.input <+: s.below job.input ∧
        ¬ s.below job.input <+: source.below job.input := by
      intro s hs
      have hs' : source ≠ s := fun he => hnew (he ▸ hs)
      exact ⟨hsource.not_leads_to (hmore s hs) hs', (hmore s hs).not_leads_to hsource hs'.symm⟩
    obtain ⟨files₂, log₂, hrest, hall⟩ := ih hmore hnodup hfits hwritten
      (List.forall_mem_append.mpr ⟨hne, List.forall_mem_singleton.mpr hnames⟩)
      (List.forall_mem_append.mpr ⟨fun f hf s hs => apart f hf s (List.mem_cons_of_mem source hs),
        List.forall_mem_singleton.mpr hapart⟩) log₁
    refine ⟨files₂, log₂, ?_, by simpa [results] using hall⟩
    rw [List.mapM_cons, run_bind, hrun]
    dsimp only
    rw [run_bind, hrest]
    rfl

theorem of_run_mapM {f : α → Task β} {l : List α} {bs : List β} {desk next : Desk}
    (h : (l.mapM f).run desk = (.ok bs, next)) :
    ∀ a ∈ l, ∃ before b after, (f a).run before = (.ok b, after) := by
  induction l generalizing desk next bs with
  | nil => exact nofun
  | cons a rest ih =>
    rw [List.mapM_cons] at h
    obtain ⟨b, mid, hfirst, h⟩ := of_run_bind h
    obtain ⟨others, _, hrest, -⟩ := of_run_bind h
    exact List.forall_mem_cons.mpr ⟨⟨desk, b, mid, hfirst⟩, ih hrest⟩

-- ---------------------------------------------------------------------------
-- The stage

/-- The options of a job, or those that stand for none. -/
def givenOptions (job : Job) : Except Failure Options :=
  match job.options with
  | some options => pure options
  | none => Options.ofEntries job.settings []

/-- The engine of a job, with what is told about it. -/
def buildEngine (job : Job) : Except Failure (Engine × List Message) := do
  Engine.ofOptions job.settings (← job.givenOptions)

/-- The files that the pattern of a job selects. -/
def search (job : Job) (t : FileTree) : Except Failure (List Path) := do
  (← Glob.ofText job.arguments.pattern).files t job.input

/-- What is told before the first document is converted. -/
def announced (sources : List Path) (messages : List Message) : List Message :=
  messages ++ [⟨1, "Converting " ++ toString sources.length ++ " document(s)..."⟩]

section
variable {messages : List Message} (built : job.buildEngine = .ok (engine, messages))
include built

theorem convertDocuments_of_built (log : List Message) (errors : String) :
    job.convertDocuments.run ⟨t, log, errors⟩ = ((do
      let pattern ← lift (Glob.ofText job.arguments.pattern)
      let sources ← lift (pattern.files (← files) job.input)
      tell 1 ("Converting " ++ toString sources.length ++ " document(s)...")
      let written ← sources.mapM (job.convertDocument engine)
      pure { job with written := some written }) : Task Job).run ⟨t, log ++ messages, errors⟩ := by
  rw [buildEngine, bind_eq_ok] at built
  obtain ⟨options, hoptions, hengine⟩ := built
  unfold givenOptions at hoptions
  unfold convertDocuments
  cases hjob : job.options with
  | some given =>
    rw [hjob] at hoptions
    cases hoptions
    dsimp only
    rw [pure_bind, run_bind, hengine, run_lift_ok]
    rfl
  | none =>
    rw [hjob] at hoptions
    dsimp only at hoptions ⊢
    rw [run_bind, hoptions, run_lift_ok]
    dsimp only
    rw [run_bind, hengine, run_lift_ok]
    rfl

theorem run_convertDocuments_of_error {failure : Failure} (h : job.search t = .error failure)
    (log : List Message) (errors : String) : job.convertDocuments.run ⟨t, log, errors⟩ =
      (.error (.failure failure), ⟨t, log ++ messages, errors⟩) := by
  rw [convertDocuments_of_built built, run_bind]
  rw [search] at h
  cases hg : Glob.ofText job.arguments.pattern with
  | error f =>
    rw [hg] at h
    cases h
    rfl
  | ok g =>
    rw [hg, ok_bind] at h
    rw [run_lift_ok]
    dsimp only
    rw [run_bind, run_files]
    dsimp only
    rw [run_bind, h]
    rfl

theorem run_convertDocuments (h : job.search t = .ok sources) (log : List Message)
    (errors : String) : job.convertDocuments.run ⟨t, log, errors⟩ = ((do
      let written ← sources.mapM (job.convertDocument engine)
      pure { job with written := some written }) : Task Job).run
        ⟨t, log ++ announced sources messages, errors⟩ := by
  rw [search, bind_eq_ok] at h
  obtain ⟨g, hg, hfound⟩ := h
  rw [convertDocuments_of_built built, run_bind, hg, run_lift_ok]
  dsimp only
  rw [run_bind, run_files]
  dsimp only
  rw [run_bind, hfound, run_lift_ok]
  dsimp only
  rw [run_bind, run_tell, List.append_assoc]
  rfl

theorem fits_of_run_convertDocuments (h : job.search t = .ok sources) {log : List Message}
    {errors : String} {next : Job} {desk : Desk}
    (hrun : job.convertDocuments.run ⟨t, log, errors⟩ = (.ok next, desk)) :
    ∀ s ∈ sources, (job.place s).Fits := by
  rw [run_convertDocuments built h] at hrun
  obtain ⟨written, _, hall, -⟩ := of_run_bind hrun
  intro s hs
  obtain ⟨before, p, after, hone⟩ := of_run_mapM hall s hs
  exact fits_of_run_convertDocument hone

end

end Mailgrid.Job
