import Mailgrid.Value.Hash
import Mailgrid.Yaml.Literal
import Mailgrid.Yaml.Node

/-!
# Options files

The value that an options file describes. Its nodes are made into values from
the outside in: a list or a mapping is made before what it holds, so that it may
hold itself, and of two faults the one further out counts.

What a mapping is merged with comes before its own entries, and of two entries
with one key the later counts. A list or a mapping that holds itself is unfolded
once more where it does.
-/

namespace Mailgrid.Yaml

/-- What a node is made into, with the nodes that it holds. -/
inductive Shape where
  | value (v : Value)
  | list (items : List Nat)
  | pairs (entries : List (Nat × Nat))
  | set (members : List Nat)
  | mapping (entries : List (Nat × Nat))

/-- The nodes of a file while they are made into values. -/
structure Making where
  /-- The kind of each node and what it holds. Merging changes both. -/
  nodes : Array (Kind × Content)
  shapes : Array (Option Shape)
  /-- Nodes whose shape is known but not yet what they hold. -/
  waiting : List Nat

abbrev Maker := StateT Making (Except Fault)

/-- The kind that the tag of a node tells, or the text of a plain scalar. -/
def Node.kind (node : Node) : Kind :=
  match node.tag, node.content with
  | .written tag, _ => Kind.ofTag tag
  | .plain, .scalar text => Kind.implied text.toList
  | .usual, .scalar _ => .text
  | _, .list _ => .list
  | _, .mapping _ => .mapping

namespace Maker

def refuse : Maker α :=
  throw .malformed

def kindOf (number : Nat) : Maker Kind := do
  return ((← get).nodes[number]?.map (·.1)).getD .unknown

def contentOf (number : Nat) : Maker Content := do
  return ((← get).nodes[number]?.map (·.2)).getD (.scalar "")

def entriesOf (number : Nat) : Maker (List (Nat × Nat)) := do
  match ← contentOf number with
  | .mapping entries => pure entries
  | _ => refuse

def setKind (number : Nat) (kind : Kind) : Maker Unit :=
  modify fun m => { m with nodes := m.nodes.modify number fun node => (kind, node.2) }

def setEntries (number : Nat) (entries : List (Nat × Nat)) : Maker Unit :=
  modify fun m => { m with nodes := m.nodes.modify number fun node => (node.1, .mapping entries) }

def setShape (number : Nat) (shape : Shape) : Maker Unit :=
  modify fun m => { m with shapes := m.shapes.setIfInBounds number (some shape) }

-- ---------------------------------------------------------------------------
-- Scalars

/-- The text of a node that has to be a scalar; a mapping may have one under its default key. `fuel`
bounds how deep that is. -/
def scalarText (fuel number : Nat) : Maker String := do
  match fuel with
  | 0 => throw (.failure .nestedTooDeep)
  | fuel + 1 =>
    match ← contentOf number with
    | .scalar text => pure text
    | .list _ => refuse
    | .mapping entries =>
      match ← entries.findM? fun (key, _) => return (← kindOf key) == .default with
      | some (_, value) => scalarText fuel value
      | none => refuse

def scalar (kind : Kind) (number : Nat) : Maker Value := do
  let text ← scalarText ((← get).nodes.size + 1) number
  match kind, ← contentOf number with
  | .date, .mapping _ => throw (.failure .dateNotScalar)
  | kind, _ => Literal.value kind text

-- ---------------------------------------------------------------------------
-- Merging

mutual
/-- Takes what a mapping is merged with into it, one thing after the other; `merged` comes from those
before. Each step takes an entry out of a mapping, so that `fuel` need not be more than twice as
many as there are entries. -/
def mergeFrom (fuel number : Nat) (merged : List (Nat × Nat)) : Maker Unit := do
  let entries ← entriesOf number
  let kinds ← entries.mapM fun (key, _) => kindOf key
  match fuel, (entries.zip kinds).find? fun (_, kind) => kind == .merge with
  | fuel + 1, some ((_, source), _) =>
    setEntries number (entries.eraseIdx ((kinds.findIdx? (· == .merge)).getD 0))
    let more ← mergedEntries fuel source
    mergeFrom fuel number (merged ++ more)
  | _, _ =>
    for (key, _) in entries do
      if (← kindOf key) == .default then setKind key .text
    setEntries number (merged ++ entries)
/-- The entries of a mapping that others are merged with, or of a list of such mappings, the last of
which comes first. -/
def mergedEntries (fuel source : Nat) : Maker (List (Nat × Nat)) := do
  match fuel with
  | 0 => refuse
  | fuel + 1 =>
    match ← contentOf source with
    | .mapping _ =>
      mergeFrom fuel source []
      entriesOf source
    | .list items =>
      let found ← items.mapM fun item => do
        let _ ← entriesOf item
        mergeFrom fuel item []
        entriesOf item
      pure found.reverse.flatten
    | .scalar _ => refuse
end

/-- The entries of a mapping with all that it is merged with. -/
def mergedMapping (number : Nat) : Maker (List (Nat × Nat)) := do
  let count := (← get).nodes.foldl (fun n node => match node.2 with
    | .mapping entries => n + entries.length
    | _ => n) 0
  let _ ← entriesOf number
  mergeFrom (2 * count + 2) number []
  entriesOf number

-- ---------------------------------------------------------------------------
-- Shapes

def wait (number : Nat) (shape : Shape) : Maker Unit := do
  setShape number shape
  modify fun m => { m with waiting := m.waiting ++ [number] }

/-- Gives a node its shape. What a list or a mapping holds has to wait. -/
def start (number : Nat) : Maker Unit := do
  if ((← get).shapes[number]?.join).isSome then return
  match ← kindOf number with
  | .list => wait number (.list [])
  | .orderedPairs => wait number (.pairs [])
  | .set => wait number (.set [])
  | .mapping => wait number (.mapping [])
  | kind => setShape number (.value (← scalar kind number))

/-- Starts the key and the value of an entry. A list or a mapping cannot be a key. -/
def startEntry (entry : Nat × Nat) : Maker Unit := do
  start entry.1
  match (← get).shapes[entry.1]?.join with
  | some (.value _) => start entry.2
  | _ => refuse

/-- The only entry of a mapping. -/
def soleEntry (number : Nat) : Maker (Nat × Nat) := do
  match ← entriesOf number with
  | [(key, value)] =>
    start key
    start value
    pure (key, value)
  | _ => refuse

/-- Starts what a node holds. -/
def fill (number : Nat) : Maker Unit := do
  match ← kindOf number, ← contentOf number with
  | .list, .list items =>
    items.forM start
    setShape number (.list items)
  | .orderedPairs, .list items =>
    setShape number (.pairs (← items.mapM soleEntry))
  | .set, .mapping _ =>
    let entries ← mergedMapping number
    entries.forM startEntry
    setShape number (.set (entries.map (·.1)))
  | .mapping, .mapping _ =>
    let entries ← mergedMapping number
    entries.forM startEntry
    setShape number (.mapping entries)
  | _, _ => refuse

/-- Fills all that waits, in order; each node waits once at most. -/
def fillAll (fuel : Nat) : Maker Unit := do
  match fuel, (← get).waiting with
  | fuel + 1, number :: rest =>
    modify fun m => { m with waiting := rest }
    fill number
    fillAll fuel
  | _, _ => pure ()

end Maker

/-- The shapes of all nodes that a graph holds. -/
def shapes (g : Graph) (root : Nat) : Except Fault (Array (Option Shape)) := do
  let making : Making :=
    ⟨g.nodes.map fun node => (node.kind, node.content), Array.replicate g.nodes.size none, []⟩
  let make : Maker Unit := do
    Maker.start root
    Maker.fillAll (g.nodes.size + 1)
  pure (← make.run making).2.shapes

-- ---------------------------------------------------------------------------
-- Values

/-- A value, and whether a list or a mapping inside it stands inside itself. -/
structure Unfolded where
  value : Value
  hasLoop : Bool

/-- Values that are known; those with loops depend on where they stand and are not. -/
abbrev Known := StateM (Array (Option Value))

def Shape.empty : Shape → Value
  | .mapping _ => .mapping []
  | _ => .list []

def Shape.make (shape : Shape) (unfold : Nat → Known Unfolded) : Known Unfolded := do
  let all (numbers : List Nat) : Known (List Value × Bool) := do
    let found ← numbers.mapM unfold
    pure (found.map (·.value), found.any (·.hasLoop))
  match shape with
  | .value v => pure ⟨v, false⟩
  | .list items =>
    let (items, hasLoop) ← all items
    pure ⟨.list items, hasLoop⟩
  | .pairs entries =>
    let (keys, loops) ← all (entries.map (·.1))
    let (values, more) ← all (entries.map (·.2))
    pure ⟨.list (List.zipWith .pair keys values), loops || more⟩
  | .set members =>
    let (members, _) ← all members
    pure ⟨.set (Hash.ordered ((Table.ofList (members.map (·, ()))).map (·.1))), false⟩
  | .mapping entries =>
    let (keys, _) ← all (entries.map (·.1))
    let (values, hasLoop) ← all (entries.map (·.2))
    pure ⟨.mapping (Table.ofList (keys.zip values)), hasLoop⟩

/-- The value of a node inside the nodes of a path; `turns` tells how often a node inside itself is
still to be unfolded. -/
def unfold (shapes : Array (Option Shape)) (fuel turns : Nat) (path : List Nat) (number : Nat) :
    Known Unfolded := do
  match fuel, shapes[number]?.join with
  | fuel + 1, some shape =>
    if let some v := (← get)[number]?.join then return ⟨v, false⟩
    if path.contains number then
      match turns with
      | 0 => return ⟨.again shape.empty, true⟩
      | turns + 1 =>
        let whole ← shape.make (unfold shapes fuel turns [number])
        return ⟨.again whole.value, true⟩
    let made ← shape.make (unfold shapes fuel turns (number :: path))
    if !made.hasLoop then modify fun known => known.setIfInBounds number (some made.value)
    return made
  | _, _ => return ⟨.null, false⟩

/-- The value of a node. No path is longer than there are nodes. -/
def valueOf (shapes : Array (Option Shape)) (number : Nat) : Known Value := do
  return (← unfold shapes (2 * shapes.size + 2) 1 [] number).value

/-- The value of a whole file. What a mapping holds is unfolded from there, not from the mapping. -/
def wholeValue (shapes : Array (Option Shape)) (root : Nat) : Value :=
  let make : Known Value := do
    match shapes[root]?.join with
    | some (.mapping entries) =>
      let keys ← entries.mapM fun (key, _) => valueOf shapes key
      let values ← entries.mapM fun (_, value) => valueOf shapes value
      pure (.mapping (Table.ofList (keys.zip values)))
    | _ => valueOf shapes root
  (make.run (Array.replicate shapes.size none)).1

/-- The value that a text describes. An empty one describes nothing. -/
def read (text : String) : Except Fault Value := do
  let graph ← Graph.ofTokens (Token.ofText text.toList)
  match graph.root with
  | none => pure .null
  | some root => return wholeValue (← shapes graph root) root

end Mailgrid.Yaml
