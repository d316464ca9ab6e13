import Mailgrid.Engine
import Mailgrid.Files.Glob
import Mailgrid.Job.Arguments
import Mailgrid.Yaml

/-!
# Jobs

A job converts the documents in one directory into another. It checks its
places, loads its options, converts document by document in the order of their
paths, and reports. A document that cannot be converted ends the job; what was
written before stays.
-/

namespace Mailgrid

/-- What a job works on: the files, what it told, and what it complained about. -/
structure Desk where
  files : FileTree
  log : List Message
  errors : String

/-- Why a job ends early. -/
inductive Stop where
  | exit (code : Nat)
  | failure (f : Failure)

abbrev Task := ExceptT Stop (StateM Desk)

structure Job where
  settings : Settings
  arguments : Arguments
  input : Path
  output : Path
  /-- Where documents are written. -/
  target : Path
  optionsFile : Option Path
  options : Option Options
  /-- What was written, once documents are converted. -/
  written : Option (List Path)

namespace Job

def start (settings : Settings) (arguments : Arguments) (input output : Path) : Job :=
  ⟨settings, arguments, input, output, .root, none, none, none⟩

-- ---------------------------------------------------------------------------
-- What a task does

def tellAll (messages : List Message) : Task Unit :=
  modify fun desk => { desk with log := desk.log ++ messages }

def tell (level : Int) (text : String) : Task Unit :=
  tellAll [⟨level, text⟩]

/-- Complains, and ends the job. -/
def giveUp (text : String) : Task α := do
  modify fun desk => { desk with errors := desk.errors ++ text ++ "\n" }
  throw (.exit 1)

def lift (result : Except Failure α) : Task α :=
  match result with
  | .ok a => pure a
  | .error f => throw (.failure f)

def files : Task FileTree := do
  return (← get).files

def keep (files : FileTree) : Task Unit :=
  modify fun desk => { desk with files }

/-- Every line break as one character. -/
def unifyBreaks : List Char → List Char
  | [] => []
  | '\r' :: '\n' :: rest => '\n' :: unifyBreaks rest
  | '\r' :: rest => '\n' :: unifyBreaks rest
  | c :: rest => c :: unifyBreaks rest

def readText (p : Path) : Task String := do
  let text ← lift ((← files).read p)
  pure (String.ofList (unifyBreaks text.toList))

def makeDirectory (p : Path) : Task Unit := do
  keep (← lift ((← files).makeDirectory p))

/-- What is written is of characters, so all of it can be encoded. -/
def writeText (p : Path) (text : String) : Task Unit := do
  keep (← lift ((← files).write p text))

-- ---------------------------------------------------------------------------
-- The stages

/-- The options file that a job is given, in its input directory unless elsewhere. -/
def givenFile (job : Job) : Option Path :=
  match job.arguments.config with
  | some name => if name.isEmpty then none else some (job.input.join name)
  | none => none

/-- Finds the places of a job and makes the directory that it writes to. -/
def checkPlaces (job : Job) : Task Job := do
  tell 2 "Checking environment..."
  if !(← lift ((← files).isDirectory job.input)) then
    giveUp ("Error: Input directory not found: " ++ job.input.shown)
  if let some file := job.givenFile then
    if !(← lift ((← files).exists? file)) then
      giveUp ("Error: Options file not found: " ++ file.shown)
    tell 2 ("Options file: " ++ file.shown)
  let target := job.output.join job.arguments.outputSubdir
  makeDirectory target
  tell 2 ("Output directory: " ++ target.shown)
  pure { job with target, optionsFile := job.givenFile.or job.optionsFile }

/-- What is said behind the name of an options file that breaks the rules of its format. -/
def malformedNote : String := ": not well-formed"

/-- The entries of an options file; a file without a value has none. -/
def readOptions (file : Path) : Task (List (Value × Value)) := do
  match Yaml.read (← readText file) with
  | .error .malformed =>
    giveUp ("Error: Cannot parse options file " ++ file.shown ++ malformedNote)
  | .error (.failure f) => throw (.failure f)
  | .ok .null => pure []
  | .ok (.mapping entries) => pure entries
  | .ok _ => giveUp ("Error: Options file " ++ file.shown ++ " must contain a mapping")

/-- Puts the width that was asked for over the one in the file. -/
def withWidth (width : Option Int) (entries : List (Value × Value)) : List (Value × Value) :=
  match width with
  | some n => if n = 0 then entries else Table.assign (.text "columnCount") (.int n) entries
  | none => entries

def loadOptions (job : Job) : Task Job := do
  let entries ← match job.optionsFile with
    | some file => readOptions file
    | none => pure []
  let options ← lift (Options.ofEntries job.settings (withWidth job.arguments.columnCount entries))
  if !options.columnCount.isShowable then throw (.failure .numberTooLong)
  tell 2 ("Grid width: " ++ options.columnCount.shown)
  pure { job with options := some options }

/-- Converts one document, and tells where it was written. -/
def convertDocument (job : Job) (engine : Engine) (source : Path) : Task Path := do
  let names := source.below job.input
  let conversion := engine.convert (← readText source)
  tellAll conversion.log
  match conversion.result with
  | .ok html =>
    let target := job.target.descend names
    makeDirectory target.parent
    writeText target html
    tell 2 ("Wrote " ++ target.shown)
    pure target
  | .error failure =>
    match failure.message? with
    | some message => giveUp ("Conversion error in " ++ Path.shownParts names ++ ": " ++ message)
    | none => throw (.failure failure)

def convertDocuments (job : Job) : Task Job := do
  let options ← match job.options with
    | some options => pure options
    | none => lift (Options.ofEntries job.settings [])
  let (engine, messages) ← lift (Engine.ofOptions job.settings options)
  tellAll messages
  let pattern ← lift (Glob.ofText job.arguments.pattern)
  let sources ← lift (pattern.files (← files) job.input)
  tell 1 ("Converting " ++ toString sources.length ++ " document(s)...")
  let written ← sources.mapM (job.convertDocument engine)
  pure { job with written := some written }

def reportResults (job : Job) : Task Job := do
  match job.written with
  | none => giveUp "Error: Conversion failed"
  | some written =>
    tell 1 "✓ Conversion successful!"
    tell 1 ("  Documents: " ++ toString written.length)
    tell 1 ("  Output:    " ++ job.target.shown)
    pure job

inductive Stage where
  | places
  | options
  | documents
  | results
  deriving DecidableEq

def Stage.all : List Stage :=
  [places, options, documents, results]

def Stage.run (job : Job) : Stage → Task Job
  | places => job.checkPlaces
  | options => job.loadOptions
  | documents => job.convertDocuments
  | results => job.reportResults

/-- What a job comes to. -/
structure Result where
  desk : Desk
  stopped : Option Stop

/-- Runs stages of a job on files. -/
def run (job : Job) (stages : List Stage) (files : FileTree) : Result :=
  match (stages.foldlM Stage.run job).run ⟨files, [], ""⟩ with
  | (.ok _, desk) => ⟨desk, none⟩
  | (.error stop, desk) => ⟨desk, some stop⟩

/-- The line that tells the version. -/
def versionLine : String := "inky 1.0.0\n"

end Job

end Mailgrid
