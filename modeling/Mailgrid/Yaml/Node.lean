import Mailgrid.Yaml.Token

/-!
# Nodes of options files

What an options file describes: scalars, lists and mappings, each with a tag if
one is written. An anchor names a node, and a reference to that name stands for
the node itself, so that one node may be held by several others, and by itself.
Nodes are therefore numbered, in the order in which they start, and hold each
other by number.

`Graph.ofTokens` reads the one node of a file. Lists and mappings are told apart
by the tokens of their blocks or by brackets and braces; where a node is missing
there is an empty scalar.
-/

namespace Mailgrid.Yaml

inductive Content where
  | scalar (text : String)
  | list (items : List Nat)
  | mapping (entries : List (Nat × Nat))

/-- The tag of a node: the written one, or for a scalar perhaps the one that its text implies. -/
inductive NodeTag where
  | written (tag : String)
  | plain
  | usual

structure Node where
  tag : NodeTag
  content : Content

/-- The nodes of a file, of which one describes the whole; there is none in an empty file. -/
structure Graph where
  nodes : Array Node
  root : Option Nat

/-- What is left to read, and the nodes that are known. -/
structure Reading where
  tokens : List Token
  /-- What the handles of tags stand for. -/
  handles : List (String × String)
  anchors : List (String × Nat)
  nodes : Array Node

abbrev Reader := StateT Reading (Except Fault)

namespace Reader

-- ---------------------------------------------------------------------------
-- Tokens

/-- The next token. A fault ends all reading. -/
def peek : Reader Token := do
  match (← get).tokens with
  | .fault f :: _ => throw f
  | token :: _ => pure token
  | [] => throw .malformed

def next : Reader Unit :=
  modify fun r => { r with tokens := r.tokens.drop 1 }

def refuse : Reader α :=
  throw .malformed

-- ---------------------------------------------------------------------------
-- Nodes

/-- A new node, which an anchor may name from now on. -/
def add (anchor : Option String) (node : Node) : Reader Nat := do
  let r ← get
  let number := r.nodes.size
  let anchors := match anchor with
    | some name => (name, number) :: r.anchors
    | none => r.anchors
  set { r with nodes := r.nodes.push node, anchors }
  pure number

def setContent (number : Nat) (content : Content) : Reader Unit :=
  modify fun r => { r with nodes := r.nodes.modify number fun node => { node with content } }

/-- The node where one is missing. -/
def missing : Reader Nat :=
  add none ⟨.plain, .scalar ""⟩

def referred (name : String) : Reader Nat := do
  match (← get).anchors.lookup name with
  | some number => pure number
  | none => refuse

/-- What is written before a node. -/
structure Properties where
  anchor : Option String
  tag : Option WrittenTag

def anchor? : Reader (Option String) := do
  match ← peek with
  | .anchor name => next; pure (some name)
  | _ => pure none

def tag? : Reader (Option WrittenTag) := do
  match ← peek with
  | .tag t => next; pure (some t)
  | _ => pure none

/-- An anchor and a tag, in either order. -/
def properties : Reader Properties := do
  match ← anchor? with
  | some anchor => return ⟨some anchor, ← tag?⟩
  | none =>
    match ← tag? with
    | some tag => return ⟨← anchor?, some tag⟩
    | none => return ⟨none, none⟩

/-- The written tag in full. An exclamation mark on its own asks for the tag that a plain scalar
would have. -/
def fullTag (t : WrittenTag) : Reader NodeTag := do
  match t.handle with
  | none => pure (if t.suffix = "!" then .plain else .written t.suffix)
  | some handle =>
    match (← get).handles.lookup handle with
    | some stands =>
      let tag := stands ++ t.suffix
      pure (if tag = "!" then .plain else .written tag)
    | none => refuse

/-- A name must not be given twice. -/
def checkAnchor (anchor : Option String) : Reader Unit := do
  match anchor with
  | some name => if ((← get).anchors.lookup name).isSome then refuse
  | none => pure ()

/-- How many nodes may stand inside each other. -/
def maxDepth : Nat := 485

-- ---------------------------------------------------------------------------
-- Tokens that end a node

def endsItem : Token → Bool
  | .dash | .blockEnd => true
  | _ => false

def endsEntry : Token → Bool
  | .key | .value | .blockEnd => true
  | _ => false

def endsFlushItem (token : Token) : Bool :=
  endsItem token || endsEntry token

def endsBracketed : Token → Bool
  | .comma | .closeBracket => true
  | _ => false

def endsBraced : Token → Bool
  | .comma | .closeBrace => true
  | _ => false

/-- Does a key end here, because its value or the end of the entry follows? -/
def endsKey (ends : Token → Bool) : Token → Bool
  | .value => true
  | token => ends token

-- ---------------------------------------------------------------------------
-- Nodes by tokens

/-- Where a node stands: may it start a block, and may a list start without a block of its own? -/
inductive Site where
  | bracketed
  | block
  | entry
  deriving DecidableEq

mutual
/-- A node at a depth. Each function takes a token before it calls another one that does not, so
that `fuel` need not be more than three times as many as there are tokens. -/
def node (fuel depth : Nat) (site : Site) : Reader Nat := do
  match fuel with
  | 0 => refuse
  | fuel + 1 =>
    if maxDepth < depth then throw (.failure .nestedTooDeep)
    if let .reference name ← peek then
      next
      return ← referred name
    let p ← properties
    let tag ← match p.tag with
      | some t => pure (some (← fullTag t))
      | none => pure none
    checkAnchor p.anchor
    let list (items : Reader (List Nat)) : Reader Nat := do
      let number ← add p.anchor ⟨tag.getD .usual, .list []⟩
      setContent number (.list (← items))
      pure number
    let mapping (entries : Reader (List (Nat × Nat))) : Reader Nat := do
      let number ← add p.anchor ⟨tag.getD .usual, .mapping []⟩
      setContent number (.mapping (← entries))
      pure number
    match ← peek, site with
    | .dash, .entry => list (flushItems fuel depth)
    | .scalar text isPlain, _ =>
      next
      add p.anchor ⟨tag.getD (if isPlain then .plain else .usual), .scalar text⟩
    | .openBracket, _ =>
      next
      list (bracketItems fuel depth true)
    | .openBrace, _ =>
      next
      mapping (braceEntries fuel depth true)
    | .blockList, .block | .blockList, .entry =>
      next
      list (blockItems fuel depth)
    | .blockMapping, .block | .blockMapping, .entry =>
      next
      mapping (blockEntries fuel depth)
    | _, _ =>
      if p.anchor.isSome || p.tag.isSome then add p.anchor ⟨tag.getD .plain, .scalar ""⟩
      else refuse
/-- A node inside another one, or a missing one if it ends before it starts. -/
def part (fuel depth : Nat) (site : Site) (ends : Token → Bool) : Reader Nat := do
  match fuel with
  | 0 => refuse
  | fuel + 1 => if ends (← peek) then missing else node fuel (depth + 1) site
/-- The value of an entry, which has one only behind the sign for it. -/
def value (fuel depth : Nat) (site : Site) (ends : Token → Bool) : Reader Nat := do
  match fuel, ← peek with
  | fuel + 1, .value =>
    next
    part fuel depth site ends
  | _, _ => missing
def blockItems (fuel depth : Nat) : Reader (List Nat) := do
  match fuel, ← peek with
  | fuel + 1, .dash =>
    next
    let item ← part fuel depth .block endsItem
    return item :: (← blockItems fuel depth)
  | _, .blockEnd =>
    next
    return []
  | _, _ => refuse
/-- The items of a list without a block of its own, which ends where no item starts. -/
def flushItems (fuel depth : Nat) : Reader (List Nat) := do
  match fuel, ← peek with
  | fuel + 1, .dash =>
    next
    let item ← part fuel depth .block endsFlushItem
    return item :: (← flushItems fuel depth)
  | _, _ => return []
def blockEntries (fuel depth : Nat) : Reader (List (Nat × Nat)) := do
  match fuel, ← peek with
  | fuel + 1, .key =>
    next
    let key ← part fuel depth .entry endsEntry
    let value ← value fuel depth .entry endsEntry
    return (key, value) :: (← blockEntries fuel depth)
  | _, .blockEnd =>
    next
    return []
  | _, _ => refuse
/-- An entry behind the sign of its key, between brackets or braces. -/
def markedEntry (fuel depth : Nat) (ends : Token → Bool) : Reader (Nat × Nat) := do
  match fuel with
  | 0 => refuse
  | fuel + 1 =>
    next
    let key ← part fuel depth .bracketed (endsKey ends)
    return (key, ← value fuel depth .bracketed ends)
def bracketItems (fuel depth : Nat) (isFirst : Bool) : Reader (List Nat) := do
  match fuel with
  | 0 => refuse
  | fuel + 1 =>
    if (← peek) matches .closeBracket then next; return []
    if !isFirst then
      if (← peek) matches .comma then next else refuse
    match ← peek with
    | .closeBracket =>
      next
      return []
    | .key =>
      let number ← add none ⟨.usual, .mapping []⟩
      setContent number (.mapping [← markedEntry fuel (depth + 1) endsBracketed])
      return number :: (← bracketItems fuel depth false)
    | _ =>
      let item ← node fuel (depth + 1) .bracketed
      return item :: (← bracketItems fuel depth false)
def braceEntries (fuel depth : Nat) (isFirst : Bool) : Reader (List (Nat × Nat)) := do
  match fuel with
  | 0 => refuse
  | fuel + 1 =>
    if (← peek) matches .closeBrace then next; return []
    if !isFirst then
      if (← peek) matches .comma then next else refuse
    match ← peek with
    | .closeBrace =>
      next
      return []
    | .key =>
      let entry ← markedEntry fuel depth endsBraced
      return entry :: (← braceEntries fuel depth false)
    | _ =>
      let key ← node fuel (depth + 1) .bracketed
      return (key, ← missing) :: (← braceEntries fuel depth false)
end

-- ---------------------------------------------------------------------------
-- Documents

/-- Handles that need no directive. -/
def usualHandles : List (String × String) :=
  [("!", "!"), ("!!", "tag:yaml.org,2002:")]

/-- The handles of the directives before a document. Nothing may be told twice, and a version has to
be one that is known. -/
def directives (fuel : Nat) (isVersioned : Bool) (handles : List (String × String)) :
    Reader (List (String × String)) := do
  match fuel, ← peek with
  | fuel + 1, .directive d =>
    next
    match d with
    | .version major =>
      if isVersioned || major != 1 then refuse
      directives fuel true handles
    | .handle name stands =>
      if (handles.lookup name).isSome then refuse
      directives fuel isVersioned (handles ++ [(name, stands)])
    | .other => directives fuel isVersioned handles
  | _, _ => pure (handles ++ usualHandles)

def endsDocument : Token → Bool
  | .directive _ | .documentStart | .documentEnd | .textEnd => true
  | _ => false

/-- Nothing but ends of documents may follow. -/
def finish (fuel : Nat) : Reader Unit := do
  match fuel, ← peek with
  | fuel + 1, .documentEnd =>
    next
    finish fuel
  | _, .textEnd => pure ()
  | _, _ => refuse

/-- The node of the only document, if there is one. -/
def document (fuel : Nat) : Reader (Option Nat) := do
  match ← peek with
  | .textEnd => return none
  | .directive _ | .documentStart =>
    let handles ← directives fuel false []
    modify fun r => { r with handles }
    if !((← peek) matches .documentStart) then refuse
    next
    let root ← if endsDocument (← peek) then missing else node fuel 1 .block
    finish fuel
    return some root
  | _ =>
    let root ← node fuel 1 .block
    finish fuel
    return some root

end Reader

/-- The nodes that tokens describe. -/
def Graph.ofTokens (tokens : List Token) : Except Fault Graph := do
  let (root, r) ← Reader.document (3 * tokens.length + 3) |>.run ⟨tokens, Reader.usualHandles, [], #[]⟩
  pure ⟨r.nodes, root⟩

end Mailgrid.Yaml
