import Mailgrid.Text.Integer
import Mailgrid.Text.Search

/-!
# Arguments of a job

What the words of a command line ask for. An option may be shortened as long as
only one begins like that, and its value may follow an equals sign. Options of
one letter that take no value may share a hyphen. A word with a hyphen is a
value only if it is a number or has a space in it.

Words are judged one after the other; what follows a request for the version is
not looked at any more, but a word that could be two options spoils all.
-/

namespace Mailgrid

structure Arguments where
  pattern : String := "**/*.html"
  columnCount : Option Int := none
  config : Option String := none
  outputSubdir : String := "."
  verbosity : Int := 1
  deriving DecidableEq

inductive Flag where
  | help
  | pattern
  | columnCount
  | config
  | outputSubdir
  | verbosity
  | version
  deriving DecidableEq

namespace Flag

def all : List Flag :=
  [help, pattern, columnCount, config, outputSubdir, verbosity, version]

def name : Flag → String
  | help => "--help"
  | pattern => "--pattern"
  | columnCount => "--columnCount"
  | config => "--config"
  | outputSubdir => "--outputSubdir"
  | verbosity => "--verbosity"
  | version => "--version"

def ofLetter? (c : Char) : Option Flag :=
  if c = 'h' then some help
  else if c = 'v' then some verbosity
  else if c = 'V' then some version
  else none

def takesValue : Flag → Bool
  | pattern | columnCount | config | outputSubdir => true
  | help | verbosity | version => false

/-- The flag of exactly this word. -/
def ofWord? (word : List Char) : Option Flag :=
  match word with
  | ['-', c] => ofLetter? c
  | word => all.find? fun f => f.name.toList == word

end Flag

/-- What one word of a command line can be. -/
inductive Word where
  | option (flag : Flag) (attached : Option (List Char)) (letters : Bool)
  | value (text : String)
  | unknown
  deriving DecidableEq

namespace Word

def isNumber (s : List Char) : Bool :=
  match s with
  | '-' :: rest =>
    let behind := rest.dropWhile Text.isDigit
    match behind with
    | [] => !rest.isEmpty
    | '.' :: fraction => !fraction.isEmpty && fraction.all Text.isDigit
    | _ => false
  | _ => false

/-- A word with a hyphen that names no option. -/
def other (word : List Char) : Word :=
  if isNumber word || word.contains ' ' then value (String.ofList word) else unknown

def isLetters (word : List Char) : Bool :=
  match word with
  | '-' :: c :: _ => c != '-'
  | _ => false

/-- The option that a word begins with; nothing if there are two. -/
def abbreviated? (word : List Char) (attached : Option (List Char)) (whole : List Char) :
    Option Word :=
  match Flag.all.filter fun f => word.isPrefixOf f.name.toList with
  | [] => some (other whole)
  | [flag] => some (option flag attached false)
  | _ => none

/-- What a word is, unless it could be two options. -/
def ofText? (text : String) : Option Word :=
  let word := text.toList
  match word with
  | '-' :: c :: rest =>
    match Flag.ofWord? word with
    | some flag => some (option flag none (isLetters word))
    | none =>
      let cut := Text.cutAtChar '=' word
      match cut.bind fun (before, _) => Flag.ofWord? before with
      | some flag => some (option flag (cut.map (·.2)) (isLetters word))
      | none =>
        if c = '-' then
          match cut with
          | some (before, attached) => abbreviated? before (some attached) word
          | none => abbreviated? word none word
        else match Flag.ofLetter? c with
          | some flag => some (option flag (some rest) true)
          | none => some (other word)
  | _ => some (value text)

end Word

/-- What a command line asks for. -/
inductive Request where
  | convert (arguments : Arguments)
  | version
  | help
  | refused
  deriving DecidableEq

namespace Arguments

/-- Takes over the value of an option. -/
def set? (a : Arguments) (flag : Flag) (value : String) : Option Arguments :=
  match flag with
  | .pattern => some { a with pattern := value }
  | .columnCount => (Text.integer? value.toList).map fun n => { a with columnCount := some n }
  | .config => some { a with config := some value }
  | .outputSubdir => some { a with outputSubdir := value }
  | _ => none

/-- Takes options without a value, in order, and goes on unless one of them ends all. -/
def perform (a : Arguments) (next : Arguments → Request) : List Flag → Request
  | [] => next a
  | .verbosity :: rest => perform { a with verbosity := a.verbosity + 1 } next rest
  | .version :: _ => .version
  | .help :: _ => .help
  | _ :: _ => .refused

/-- Takes the words in order; `extra` tells that one before was neither option nor value. -/
def ofWords (a : Arguments) (extra : Bool) : List Word → Request
  | [] => if extra then .refused else .convert a
  | .option flag attached letters :: rest =>
    if flag.takesValue then
      match attached, rest with
      | some value, rest =>
        match a.set? flag (String.ofList value) with
        | some a => ofWords a extra rest
        | none => .refused
      | none, .value value :: rest =>
        match a.set? flag value with
        | some a => ofWords a extra rest
        | none => .refused
      | none, _ => .refused
    else
      match attached with
      | none => a.perform (fun a => ofWords a extra rest) [flag]
      | some more =>
        match more.mapM Flag.ofLetter? with
        | some (next :: others) =>
          if letters then a.perform (fun a => ofWords a extra rest) (flag :: next :: others)
          else .refused
        | _ => .refused
  | _ :: rest => ofWords a true rest

/-- The words of a command line up to two hyphens on their own. -/
def parse (words : List String) : Request :=
  let (before, after) := words.span (· != "--")
  match before.mapM Word.ofText? with
  | none => .refused
  | some known => ofWords {} false (known ++ after.map fun _ => .unknown)

end Arguments

end Mailgrid
