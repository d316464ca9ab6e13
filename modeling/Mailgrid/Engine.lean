import Mailgrid.RawBlock
import Mailgrid.Unfolding
import Mailgrid.VoidElement

/-!
# Engines

An engine converts documents written with components into tables. Raw blocks
are cut out first and put back last; in between the document is read, unfolded
and written.
-/

namespace Mailgrid

structure Engine where
  settings : Settings
  options : Options
  unfolder : Unfolder

/-- The outcome of a conversion, with what was told on the way. -/
structure Conversion where
  result : Except Failure String
  log : List Message

namespace Engine

def keyText : Value → Except Failure String
  | .text key => pure key
  | _ => throw .keyNotText

/-- What an engine tells about keys of no component. -/
def unknownMessages (o : Options) : Except Failure (List Message) := do
  let keys ← o.unknownKeys.mapM keyText
  pure (if keys.isEmpty then []
    else [⟨1, "Ignoring unknown component keys: " ++ ", ".intercalate keys⟩])

def ofOptions (settings : Settings) (o : Options) : Except Failure (Engine × List Message) := do
  let components ← o.components
  let rules ← Rules.ofOptions o
  pure (⟨settings, o, rules, components⟩, ← unknownMessages o)

/-- The engine of untyped options. -/
def build (settings : Settings) (options : Value) : Except Failure (Engine × List Message) := do
  ofOptions settings (← Options.ofValue settings options)

def format (e : Engine) : Format :=
  Format.ofEntries e.settings e.options.markup

def shieldMessages (blocks : List String) : List Message :=
  if blocks.isEmpty then []
  else [⟨2, "Shielded " ++ toString blocks.length ++ " raw block(s)"⟩]

def convertedMessage (text : String) (count : Nat) : Message :=
  ⟨2, "Converted document: " ++ toString text.length ++ " characters, " ++ toString count ++
    " rewrite(s)"⟩

/-- The written form of a document, with its raw blocks. -/
def finish (e : Engine) (blocks : List String) (d : Document) : Except Failure String := do
  let written ← d.respell.text
  pure (RawBlock.restore e.settings blocks (VoidElement.canonicalize written))

/-- Converts a document. -/
def convert (e : Engine) (text : String) : Conversion :=
  let shielded := RawBlock.shield e.settings text
  let before := shieldMessages shielded.blocks
  match Document.load e.format (VoidElement.normalize shielded.text) with
  | .error failure => ⟨.error failure, before⟩
  | .ok document =>
    let run := e.unfolder.run e.settings.maxExpansions ⟨document, []⟩
    match run.failure with
    | some failure => ⟨.error failure, before ++ run.log⟩
    | none =>
      ⟨e.finish shielded.blocks run.draft.document,
        before ++ run.log ++ [convertedMessage text run.count]⟩

end Engine

end Mailgrid
