import Mailgrid.Proofs.Engine
import Mailgrid.Proofs.Engine.Renamed
import Mailgrid.Proofs.Job.Documents

/-!
# How far a job comes

`writes_up_to_failure` says what the files are after a job has converted its
documents: with each of them written if all can be converted, and otherwise with
those that stand before the first that cannot. It is put together of what the
search for documents comes to (`Glob.of_files`), what a row of documents that can
be converted leaves (`run_mapM_convertDocument`), and that a document that cannot
be converted leaves all as it was (`run_convertDocument_error`).

A pattern can be refused, and a path can be too long to be written to, so not every
job whose documents can be converted ends well: `not_writes_up_to_failure`.
-/

namespace Mailgrid.Job

open FileTree (Named Written)
open Markup (Forest Spelling bareStyle)

variable {job : Job} {engine : Engine} {messages : List Message} {t : FileTree}
  {sources : List Path} {out : List String}

/-- What is read of a file fails without a message, so one that has a message comes of converting. -/
theorem of_outcome_error {source : Path} {failure : Failure} (hfile : t.isFile source = .ok true)
    (h : outcome engine t source = .error failure) (hmessage : failure.message?.isSome = true) :
    ∃ text, t.read source = .ok text ∧
      (engine.convert (String.ofList (unifyBreaks text.toList))).result = .error failure := by
  obtain ⟨place, found, hl, hg⟩ := FileTree.of_isFile hfile
  cases found with
  | some text =>
    have hread : t.read source = .ok text := by
      rw [FileTree.read, hl, ok_bind, hg]
      rfl
    rw [outcome, hread] at h
    exact ⟨text, hread, h⟩
  | none =>
    rw [outcome, FileTree.read, hl, ok_bind, hg] at h
    cases h
    cases hmessage

theorem of_search (sound : t.Sound) (down : ".." ∉ Path.partsOf job.arguments.pattern)
    (h : job.search t = .ok sources) :
    sources.Pairwise (fun p q => p.parts < q.parts) ∧ ∀ s ∈ sources, job.IsSource t s := by
  rw [search, bind_eq_ok] at h
  obtain ⟨g, hg, hfound⟩ := h
  exact Glob.of_files sound down hg hfound

theorem nodup_of_sorted (h : sources.Pairwise fun p q => p.parts < q.parts) : sources.Nodup :=
  List.Pairwise.imp (fun {p q} hlt (he : p = q) => List.lt_irrefl q.parts (he ▸ hlt)) h

theorem run_mapM_vacant (vacant : t.Vacant job.target out)
    (hsources : ∀ s ∈ sources, job.IsSource t s) (hnodup : sources.Nodup) {htmls : List String}
    (hout : List.Forall₂ (fun s html => outcome engine t s = .ok html) sources htmls)
    (hfits : ∀ s ∈ sources, (job.place s).Fits) (log : List Message) (errors : String) :
    ∃ files log', (sources.mapM (job.convertDocument engine)).run ⟨t, log, errors⟩ =
        (.ok (sources.map job.place), ⟨files, log', errors⟩) ∧
      Written t files out (job.results sources htmls) := by
  obtain ⟨files, log', hrun, hwritten⟩ := run_mapM_convertDocument vacant hsources hnodup hout hfits
    (FileTree.written_nil t out) nofun nofun log errors
  exact ⟨files, log', hrun, hwritten⟩

theorem nodup_places (hsources : ∀ s ∈ sources, job.IsSource t s) (hnodup : sources.Nodup) :
    (sources.map job.place).Nodup := by
  refine List.Nodup.map_on (fun a ha b hb he => ?_) hnodup
  obtain ⟨names, rfl, -⟩ := hsources a ha
  obtain ⟨names', rfl, -⟩ := hsources b hb
  rw [place, place, Path.below_descend, Path.below_descend, Path.descend_inj] at he
  rw [he]

theorem run_all_converted (sound : t.Sound) (vacant : t.Vacant job.target out)
    (built : job.buildEngine = .ok (engine, messages))
    (down : ".." ∉ Path.partsOf job.arguments.pattern) (found : job.search t = .ok sources)
    {htmls : List String}
    (hout : List.Forall₂ (fun s html => outcome engine t s = .ok html) sources htmls)
    (hfits : ∀ s ∈ sources, (job.place s).Fits) (log : List Message) (errors : String) :
    ∃ written desk, job.convertDocuments.run ⟨t, log, errors⟩ =
        (.ok { job with written := some written }, desk) ∧
      written = sources.map job.place ∧ written.Nodup ∧ written.length = sources.length ∧
      Written t desk.files out (job.results sources htmls) := by
  obtain ⟨hsorted, hsources⟩ := of_search sound down found
  have hnodup := nodup_of_sorted hsorted
  obtain ⟨files, log', hrun, hwritten⟩ :=
    run_mapM_vacant vacant hsources hnodup hout hfits (log ++ announced sources messages) errors
  refine ⟨_, ⟨files, log', errors⟩, ?_, rfl, nodup_places hsources hnodup, List.length_map _, hwritten⟩
  rw [run_convertDocuments built found, run_bind, hrun]
  rfl

theorem run_until_failure (sound : t.Sound) (vacant : t.Vacant job.target out)
    (built : job.buildEngine = .ok (engine, messages))
    (down : ".." ∉ Path.partsOf job.arguments.pattern) {before after : List Path} {p : Path}
    (found : job.search t = .ok (before ++ p :: after)) {htmls : List String}
    (hout : List.Forall₂ (fun s html => outcome engine t s = .ok html) before htmls)
    (hfits : ∀ s ∈ before, (job.place s).Fits) {failure : Failure}
    (hfailure : outcome engine t p = .error failure) (hmessage : failure.message?.isSome = true)
    (log : List Message) (errors : String) :
    ∃ desk, job.convertDocuments.run ⟨t, log, errors⟩ = (.error (.exit 1), desk) ∧
      Written t desk.files out (job.results before htmls) ∧
      ∀ s ∈ p :: after, desk.files.get? (out ++ s.below job.input) = none := by
  obtain ⟨hsorted, hsources⟩ := of_search sound down found
  have hnodup := nodup_of_sorted hsorted
  obtain ⟨hbefore, hrest⟩ := List.forall_mem_append.mp hsources
  obtain ⟨hnodup, -, happart⟩ := List.nodup_append.mp hnodup
  obtain ⟨files, log', hrun, hwritten⟩ :=
    run_mapM_vacant vacant hbefore hnodup hout hfits
      (log ++ announced (before ++ p :: after) messages) errors
  have hresults : ∀ f ∈ job.results before htmls, ∃ s ∈ before, f.1 = s.below job.input := by
    intro f hf
    obtain ⟨s, hs, he⟩ := List.mem_map.mp (List.of_mem_zip hf).1
    exact ⟨s, hs, he.symm⟩
  have hne : ∀ f ∈ job.results before htmls, f.1 ≠ [] := by
    intro f hf
    obtain ⟨s, hs, he⟩ := hresults f hf
    obtain ⟨names, rfl, hnames, -⟩ := hbefore s hs
    rwa [he, Path.below_descend]
  -- what is converted next is a file of the tree that the job started with
  have hp := hrest p List.mem_cons_self
  have hkeeps := hwritten.keeps vacant hne
  obtain ⟨names, hpath, -, -, hfile⟩ := hp
  obtain ⟨text, hread, hresult⟩ := of_outcome_error hfile hfailure hmessage
  obtain ⟨log'', errors', hend⟩ : ∃ log'' errors', (job.convertDocument engine p).run
      ⟨files, log', errors⟩ = (.error (.exit 1), ⟨files, log'', errors'⟩) :=
    run_convertDocument_error ((hkeeps.read hfile).trans hread) hresult hmessage log' errors
  refine ⟨⟨files, log'', errors'⟩, ?_, hwritten, fun s hs => ?_⟩
  · rw [run_convertDocuments built found, run_bind, List.mapM_append, run_bind, hrun]
    dsimp only
    rw [run_bind, List.mapM_cons, run_bind, hend]
  · obtain ⟨names, hpath, hnames, -⟩ := hrest s hs
    rw [hwritten.other _ fun f hf hfront => ?_]
    · refine vacant.empty _ (List.prefix_append _ _) fun he => hnames ?_
      rwa [hpath, Path.below_descend, List.append_right_eq_self] at he
    · obtain ⟨s', hs', he⟩ := hresults f hf
      rw [he] at hfront
      exact (hrest s hs).not_leads_to (hbefore s' hs') (fun heq => happart s' hs' s hs heq.symm)
        ((List.prefix_append_right_inj out).mp hfront)

/-- A job converts what its pattern selects in the order of the paths, into a directory that was new
or empty. Where all can be converted and no place has too long a path, all is written, each to its own
place. Where one cannot, the job ends with a message, and what is written is what the documents before
it come to. Nothing else is new or changed. -/
theorem writes_up_to_failure (sound : t.Sound) (vacant : t.Vacant job.target out)
    (built : job.buildEngine = .ok (engine, messages))
    (down : ".." ∉ Path.partsOf job.arguments.pattern) (log : List Message) (errors : String) :
    (∀ failure, job.search t = .error failure → job.convertDocuments.run ⟨t, log, errors⟩ =
      (.error (.failure failure), ⟨t, log ++ messages, errors⟩)) ∧
    ∀ sources, job.search t = .ok sources →
      (sources.Pairwise (fun p q => p.parts < q.parts) ∧
        ∃ g selected, Glob.ofText job.arguments.pattern = .ok g ∧
          g.select t job.input = .ok selected ∧
          ∀ p, p ∈ sources ↔ p ∈ selected ∧ t.isFile p = .ok true) ∧
      (∀ htmls, List.Forall₂ (fun s html => outcome engine t s = .ok html) sources htmls →
        (∀ s ∈ sources, (job.place s).Fits) →
        ∃ written desk, job.convertDocuments.run ⟨t, log, errors⟩ =
            (.ok { job with written := some written }, desk) ∧
          written = sources.map job.place ∧ written.Nodup ∧ written.length = sources.length ∧
          Written t desk.files out (job.results sources htmls)) ∧
      (∀ next desk, job.convertDocuments.run ⟨t, log, errors⟩ = (.ok next, desk) →
        ∀ s ∈ sources, (job.place s).Fits) ∧
      ∀ before p after htmls failure, sources = before ++ p :: after →
        List.Forall₂ (fun s html => outcome engine t s = .ok html) before htmls →
        (∀ s ∈ before, (job.place s).Fits) →
        outcome engine t p = .error failure → failure.message?.isSome = true →
        ∃ desk, job.convertDocuments.run ⟨t, log, errors⟩ = (.error (.exit 1), desk) ∧
          Written t desk.files out (job.results before htmls) ∧
          ∀ s ∈ p :: after, desk.files.get? (out ++ s.below job.input) = none := by
  refine ⟨fun failure h => run_convertDocuments_of_error built h log errors,
    fun sources found => ⟨⟨(of_search sound down found).1, ?_⟩, ?_,
      fun _ _ hrun => fits_of_run_convertDocuments built found hrun, ?_⟩⟩
  · rw [search, bind_eq_ok] at found
    obtain ⟨g, hg, hfound⟩ := found
    obtain ⟨selected, hselect, hmem⟩ := Glob.mem_files_iff hfound
    exact ⟨g, selected, hg, hselect, hmem⟩
  · intro htmls hout hfits
    exact run_all_converted sound vacant built down found hout hfits log errors
  · rintro before p after htmls failure rfl hout hfits hfailure hmessage
    exact run_until_failure sound vacant built down found hout hfits hfailure hmessage log errors

-- ---------------------------------------------------------------------------
-- Two documents

/-- A job without options in the directory `in`. -/
def plain (limit : Int) (pattern : String) (target : Path) : Job :=
  { start { Settings.standard with maxExpansions := limit } { pattern } ⟨["in"], false⟩ target with
    target }

theorem build_plain (limit : Int) (pattern : String) (target : Path) : ∃ engine,
    (plain limit pattern target).buildEngine = .ok (engine, []) ∧
      engine.unfolder = .standard 12 ∧ engine.format = Format.standard ∧
      engine.settings.maxExpansions = limit :=
  ⟨_, rfl, rfl, rfl, rfl⟩

/-- A document that can be converted, one that cannot if there are no expansions left, and a directory
with nothing in it. -/
def mails : FileTree :=
  ⟨[(["in"], .directory), (["in", "a"], .file (some "Hi")),
    (["in", "b"], .file (some "<row></row>")), (["out"], .directory)]⟩

theorem sound_mails : mails.Sound :=
  ⟨by decide, by decide⟩

theorem get?_mails {name : String} (hin : name ≠ "in") {rest : List String}
    (hout : name :: rest ≠ ["out"]) : mails.get? (name :: rest) = none := by
  have hkey (more : List String) : (name :: rest == "in" :: more) = false := by
    simp [hin]
  have hother : (name :: rest == ["out"]) = false := beq_eq_false_iff_ne.mpr hout
  simp only [FileTree.get?, List.isEmpty_cons, mails, List.lookup, hkey, hother]
  rfl

theorem vacant_out : mails.Vacant ⟨["out"], false⟩ ["out"] := by
  refine FileTree.vacant_of_directory rfl rfl fun other ho hne => ?_
  obtain ⟨more, rfl⟩ := ho
  exact get?_mails (by decide) hne

theorem vacant_mails {name : String} {rest : List String} (hin : name ≠ "in") (hout : name ≠ "out")
    (hnamed : ∀ name' ∈ name :: rest, Named name') :
    mails.Vacant ⟨name :: rest, false⟩ (name :: rest) := by
  have hnought : Path.holdsNought ⟨name :: rest, false⟩ = false := by
    rw [Path.holdsNought, List.any_eq_false]
    intro part hpart
    rw [(hnamed part hpart).noNought]
    exact Bool.false_ne_true
  have hparts : name :: rest = [] ++ name :: rest := rfl
  refine FileTree.vacant_of_new hnought hparts rfl rfl hnamed fun other ho => ?_
  obtain ⟨more, rfl⟩ := ho
  exact get?_mails hin fun he => hout (List.cons.inj he).1

theorem search_of_select {g : Glob} (hg : Glob.ofText job.arguments.pattern = .ok g)
    (hselect : g.select t job.input = .ok sources) (hfiles : sources.filterM t.isFile = .ok sources)
    (hsorted : sources.Pairwise fun p q => (!decide (q.parts < p.parts)) = true) :
    job.search t = .ok sources := by
  rw [search, hg, ok_bind, Glob.files, hselect, ok_bind, hfiles, ok_bind,
    List.mergeSort_of_pairwise hsorted]
  rfl

theorem search_all (limit : Int) (target : Path) : (plain limit "*" target).search mails =
    .ok [⟨["in", "a"], false⟩, ⟨["in", "b"], false⟩] := by
  have hg : Glob.ofText "*" = .ok ⟨[.names [.any]], false⟩ := eq_ok_of_toOption (by decide +kernel)
  have hselect : Glob.select ⟨[.names [.any]], false⟩ mails ⟨["in"], false⟩ =
    .ok [⟨["in", "a"], false⟩, ⟨["in", "b"], false⟩] := eq_ok_of_toOption (by decide +kernel)
  exact search_of_select hg hselect rfl (by decide)

theorem search_one (limit : Int) (target : Path) : (plain limit "a" target).search mails =
    .ok [⟨["in", "a"], false⟩] := by
  have hg : Glob.ofText "a" = .ok ⟨[.exact "a"], false⟩ := eq_ok_of_toOption (by decide +kernel)
  exact search_of_select hg rfl rfl (List.pairwise_singleton _ _)

section
variable (unfolds : engine.unfolder = .standard 12) (formats : engine.format = Format.standard)
include unfolds formats

theorem outcome_words : outcome engine mails ⟨["in", "a"], false⟩ = .ok "Hi" := by
  let words : Forest Unit := .leaf () (.text .plain) "Hi" .nil
  have hwritten : "Hi".toList = bareStyle.write none words := by decide
  have hheaded : words.Headed := by decide
  obtain ⟨hshield, -⟩ := Engine.prepared_tidy engine.settings hheaded.tidy hwritten
  refine outcome_eq_ok.mpr ⟨"Hi", rfl, ?_⟩
  exact Engine.convert_shielded unfolds formats hheaded (by decide) nofun hshield hwritten

theorem outcome_row (limited : engine.settings.maxExpansions = 0) :
    outcome engine mails ⟨["in", "b"], false⟩ = .error (.expansionLimit 0 "row") := by
  let row : Forest Unit := .element () ⟨"row", [], false⟩ .nil .nil
  have htidy : row.TidyBelow := by decide
  have hwritten : "<row></row>".toList = bareStyle.write none row := by decide
  obtain ⟨hshield, hnormal⟩ := Engine.prepared_tidy engine.settings htidy hwritten
  have hload : Document.load Format.standard "<row></row>" =
      .ok ⟨Format.standard, ⟨[], []⟩, .element 0 ⟨"row", [], false⟩ .nil .nil, 1⟩ := by
    have hspelling : Spelling.ofText "<row></row>" = ⟨[], []⟩ := by decide +kernel
    have hread : (row.veiled.reread [] "").leading.number 0 =
      (.element 0 ⟨"row", [], false⟩ .nil .nil, 1) := by decide +kernel
    rw [Document.load_tidy htidy hwritten, hspelling, hread]
  rw [← hnormal] at hload
  have hread : mails.read ⟨["in", "b"], false⟩ = .ok "<row></row>" := rfl
  rw [outcome, hread]
  exact (Engine.convert_loaded formats unfolds limited hshield hload).1 _ rfl

end

theorem writes_up_to_failure_twoDocuments :
    let job := plain 0 "*" ⟨["new"], false⟩
    let part := plain 0 "a" ⟨["out"], false⟩
    (∃ desk, job.convertDocuments.run ⟨mails, [], ""⟩ = (.error (.exit 1), desk) ∧
      Written mails desk.files ["new"] [(["a"], "Hi")] ∧ desk.files.get? ["new", "b"] = none) ∧
    ∃ desk, part.convertDocuments.run ⟨mails, [], ""⟩ =
        (.ok { part with written := some [⟨["out", "a"], false⟩] }, desk) ∧
      Written mails desk.files ["out"] [(["a"], "Hi")] := by
  intro job part
  have hnamed : ∀ name ∈ ["new"], Named name :=
    List.forall_mem_singleton.mpr ⟨by decide, by decide, by decide⟩
  have hnew : mails.Vacant job.target ["new"] := vacant_mails (by decide) (by decide) hnamed
  have hempty : mails.Vacant part.target ["out"] := vacant_out
  refine ⟨?_, ?_⟩
  · obtain ⟨engine, hbuilt, hunfolds, hformats, hlimit⟩ := build_plain 0 "*" ⟨["new"], false⟩
    obtain ⟨-, hfound⟩ := writes_up_to_failure sound_mails hnew hbuilt (by decide) [] ""
    obtain ⟨-, -, -, hfailing⟩ := hfound _ (search_all 0 _)
    obtain ⟨desk, hrun, hwritten, hrest⟩ := hfailing [⟨["in", "a"], false⟩] ⟨["in", "b"], false⟩ []
      ["Hi"] _ rfl (.cons (outcome_words hunfolds hformats) .nil)
      (List.forall_mem_singleton.mpr (by unfold Path.Fits; decide +kernel))
      (outcome_row hunfolds hformats hlimit) rfl
    exact ⟨desk, hrun, hwritten, hrest _ List.mem_cons_self⟩
  · obtain ⟨engine, hbuilt, hunfolds, hformats, -⟩ := build_plain 0 "a" ⟨["out"], false⟩
    obtain ⟨-, hfound⟩ := writes_up_to_failure sound_mails hempty hbuilt (by decide) [] ""
    obtain ⟨-, hdone, -⟩ := hfound _ (search_one 0 _)
    obtain ⟨written, desk, hrun, rfl, -, -, hwritten⟩ := hdone ["Hi"]
      (.cons (outcome_words hunfolds hformats) .nil)
      (List.forall_mem_singleton.mpr (by unfold Path.Fits; decide +kernel))
    exact ⟨desk, hrun, hwritten⟩

-- ---------------------------------------------------------------------------
-- Patterns that are refused, and paths that are too long

def longName (size : Nat) : String :=
  String.ofList (List.replicate size 'o')

theorem size_longName (size : Nat) : (longName size).utf8ByteSize = size := by
  rw [longName, String.utf8ByteSize_ofList]
  induction size with
  | zero => rfl
  | succ size ih =>
    rw [List.replicate_succ, String.utf8Len_cons, ih]
    rfl

theorem mem_longName {size : Nat} {c : Char} (h : c ∈ (longName size).toList) : c = 'o' := by
  rw [longName, String.toList_ofList] at h
  exact List.eq_of_mem_replicate h

theorem longName_ne {size : Nat} {name : String} (h : name.toList.any (· ≠ 'o') = true) :
    longName size ≠ name := by
  rintro rfl
  obtain ⟨c, hc, hne⟩ := List.any_eq_true.mp h
  exact of_decide_eq_true hne (mem_longName hc)

theorem named_longName {size : Nat} (h : size ≤ FileTree.maxNameBytes) :
    Named (longName size) := by
  refine ⟨longName_ne (by decide), (size_longName size).trans_le h, ?_⟩
  rw [Bool.eq_false_iff]
  intro hm
  cases mem_longName (List.contains_iff_mem.mp hm)

/-- A directory of which the path is as long as a path may be. -/
def deepest : Path :=
  ⟨longName 254 :: List.replicate 15 (longName 255), false⟩

theorem named_deepest : ∀ name ∈ deepest.parts, Named name := by
  refine List.forall_mem_cons.mpr ⟨named_longName (by decide), fun name hm => ?_⟩
  rw [List.eq_of_mem_replicate hm]
  exact named_longName (by decide)

theorem size_deepest (names : List String) : (deepest.descend names).shown.utf8ByteSize =
    FileTree.maxPathBytes + Path.size names := by
  have hsize := Path.size_intercalate (longName 254) (List.replicate 15 (longName 255) ++ names)
  have hdeepest : Path.size (longName 254 :: List.replicate 15 (longName 255)) =
      FileTree.maxPathBytes := by
    simp only [List.replicate, Path.size, size_longName]
    rfl
  rw [← List.cons_append, Path.size_append, hdeepest] at hsize
  rw [Path.size_shown, Nat.add_comm]
  exact hsize

/-- A pattern with `**` as a part of a name is refused, and nothing can be written to a directory with a
path that is just not too long. -/
theorem not_writes_up_to_failure :
    (let job := plain 0 "**.html" ⟨["out"], false⟩;
      mails.Vacant job.target ["out"] ∧ ".." ∉ Path.partsOf job.arguments.pattern ∧
        ∃ engine, job.buildEngine = .ok (engine, []) ∧
          ∀ next desk, job.convertDocuments.run ⟨mails, [], ""⟩ ≠ (.ok next, desk)) ∧
    (let job := plain 0 "a" deepest;
      mails.Vacant job.target deepest.parts ∧ ".." ∉ Path.partsOf job.arguments.pattern ∧
        job.target.Fits ∧ ∃ engine, job.buildEngine = .ok (engine, []) ∧
          ∃ sources htmls, job.search mails = .ok sources ∧
            List.Forall₂ (fun s html => outcome engine mails s = .ok html) sources htmls ∧
            ∀ next desk, job.convertDocuments.run ⟨mails, [], ""⟩ ≠ (.ok next, desk)) := by
  refine ⟨?_, ?_⟩
  · obtain ⟨engine, hbuilt, -⟩ := build_plain 0 "**.html" ⟨["out"], false⟩
    have hsearch : (plain 0 "**.html" ⟨["out"], false⟩).search mails = .error .misplacedWildcard :=
      rfl
    refine ⟨vacant_out, by decide, engine, hbuilt, fun next desk h => ?_⟩
    rw [run_convertDocuments_of_error hbuilt hsearch] at h
    cases h
  · obtain ⟨engine, hbuilt, hunfolds, hformats, -⟩ := build_plain 0 "a" deepest
    have hfits : deepest.Fits := by
      have hsize := size_deepest []
      rw [Path.descend_nil] at hsize
      exact hsize.le
    have hlong : ¬ (deepest.descend ["a"]).Fits := by
      rw [Path.Fits, size_deepest]
      decide
    refine ⟨vacant_mails (longName_ne (by decide)) (longName_ne (by decide)) named_deepest, by decide,
      hfits, engine, hbuilt,
      [⟨["in", "a"], false⟩], ["Hi"], search_one 0 _,
      .cons (outcome_words hunfolds hformats) .nil, fun next desk h => ?_⟩
    have hfit := fits_of_run_convertDocuments hbuilt (search_one 0 _) h _ List.mem_cons_self
    exact hlong hfit

end Mailgrid.Job
