/-!
# Templates

Markup that is generated: elements around pieces of markup that are there
already. `write` sets every piece and every value of an attribute as it is,
between double quotes, and gives every element an end tag.
-/

namespace Mailgrid

inductive Template where
  | nil
  /-- A piece of markup. -/
  | piece (markup : String) (next : Template)
  | element (name : String) (attributes : List (String × String)) (content next : Template)
  deriving DecidableEq

namespace Template

def append : Template → Template → Template
  | nil, more => more
  | piece markup next, more => piece markup (next.append more)
  | element name attributes content next, more =>
    element name attributes content (next.append more)

instance : Append Template := ⟨append⟩

/-- A piece of markup on its own. -/
def raw (markup : String) : Template :=
  piece markup nil

/-- An element on its own. -/
def node (name : String) (attributes : List (String × String)) (content : Template) : Template :=
  element name attributes content nil

def writeAttribute : String × String → String
  | (name, value) => " " ++ name ++ "=\"" ++ value ++ "\""

/-- Each attribute with a space before it. -/
def writeAttributes (attributes : List (String × String)) : String :=
  String.join (attributes.map writeAttribute)

def write : Template → String
  | nil => ""
  | piece markup next => markup ++ next.write
  | element name attributes content next =>
    "<" ++ name ++ writeAttributes attributes ++ ">" ++ content.write ++ "</" ++ name ++ ">" ++
      next.write

theorem write_append (t u : Template) : (t ++ u).write = t.write ++ u.write := by
  change (t.append u).write = _
  induction t with
  | nil => simp [append, write]
  | piece markup next ih => simp [append, write, ih, String.append_assoc]
  | element name attributes content next _ ih => simp [append, write, ih, String.append_assoc]

@[simp] theorem write_raw (markup : String) : (raw markup).write = markup := by
  simp [raw, write]

@[simp] theorem write_node (name : String) (attributes : List (String × String))
    (content : Template) : (node name attributes content).write =
      "<" ++ name ++ writeAttributes attributes ++ ">" ++ content.write ++ "</" ++ name ++ ">" := by
  simp [node, write]

end Template

end Mailgrid
