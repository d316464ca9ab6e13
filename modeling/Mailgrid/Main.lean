import Mailgrid.Job

/-!
# The program

Reads the input directory, runs a job on it, and writes what the job wrote. The
first two words of the command line are the input and the output directory.
-/

namespace Mailgrid.Program

/-- The entries of a file tree at and below one place of the disk. -/
partial def load (place : List String) : IO (List (List String × FileEntry)) := do
  let path := (← IO.currentDir) / (Path.root.descend place).shown
  if ← path.isDir then
    let names := (← path.readDir).toList.map (·.fileName)
    let inner ← names.mapM fun name => load (place ++ [name])
    pure ((place, .directory) :: inner.flatten)
  else if ← path.pathExists then
    pure [(place, .file (String.fromUTF8? (← IO.FS.readBinFile path)))]
  else pure []

/-- The directories that lead to a place. -/
def above (place : List String) : List (List String × FileEntry) :=
  (List.range place.length).tail.map fun n => (place.take n, .directory)

def store (before after : FileTree) : IO Unit := do
  for (place, entry) in after.entries do
    if before.get? place ≠ some entry then
      let path := (← IO.currentDir) / (Path.root.descend place).shown
      match entry with
      | .directory => IO.FS.createDirAll path
      | .file (some text) => IO.FS.writeFile path text
      | .file none => pure ()

def exitCode : Option Stop → UInt32
  | none => 0
  | some (.exit code) => code.toUInt32
  | some (.failure _) => 1

/-- The variables of the environment that are settings. -/
def environment : IO (List (String × String)) := do
  let found ← Settings.names.mapM fun name => do
    let key := "INKY_" ++ Text.upperString name
    pure ((← IO.getEnv key).map fun value => (key, value))
  pure (found.filterMap id)

def convert (settings : Settings) (arguments : Arguments) (input output : String) :
    IO UInt32 := do
  let here := Path.ofText (← IO.currentDir).toString
  let job := Job.start settings arguments (here.join input) (here.join output)
  let places := job.input :: job.output :: (job.givenFile.map (·.parent)).toList
  let entries ← places.mapM fun p => load p.parts
  let files : FileTree := ⟨places.flatMap (fun p => above p.parts) ++ entries.flatten⟩
  let result := job.run Job.Stage.all files
  store files result.desk.files
  for line in Message.shown arguments.verbosity result.desk.log do
    IO.eprintln line
  IO.eprint result.desk.errors
  pure (exitCode result.stopped)

def usage : String := "usage: inky INPUT OUTPUT [options]"

def run : List String → IO UInt32
  | input :: output :: rest =>
    match Arguments.parse rest with
    | .convert arguments => do
      match Settings.load (← environment) [] with
      | .ok settings => convert settings arguments input output
      | .error _ => do IO.eprintln "invalid settings in the environment"; pure 1
    | .version => do IO.print Job.versionLine; pure 0
    | .help => do IO.println usage; pure 0
    | .refused => do IO.eprintln usage; pure 2
  | words =>
    match Arguments.parse words with
    | .version => do IO.print Job.versionLine; pure 0
    | .help => do IO.println usage; pure 0
    | _ => do IO.eprintln usage; pure 2

end Mailgrid.Program

def main (words : List String) : IO UInt32 :=
  Mailgrid.Program.run words
