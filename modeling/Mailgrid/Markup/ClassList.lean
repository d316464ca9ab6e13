import Mailgrid.Markup.Forest
import Mailgrid.Text.Blank

/-!
# Class lists

The words of an element's `class` attribute. A class is added behind the others
and never twice.
-/

namespace Mailgrid.Markup.Tag

/-- The classes that the value of an attribute lists. -/
def classesOf : AttributeValue → List String
  | .words values => values
  | value => (Text.words value.shown.toList).map String.ofList

def classes (t : Tag) : List String :=
  match t.get? "class" with
  | some value => classesOf value
  | none => []

def hasClass (t : Tag) (name : String) : Bool :=
  t.classes.contains name

def addClass (t : Tag) (name : String) : Tag :=
  if t.hasClass name then t
  else t.set "class" (.text (" ".intercalate (t.classes ++ [name])))

theorem addClass_of_hasClass {t : Tag} {name : String} (h : t.hasClass name = true) :
    t.addClass name = t := by
  simp [addClass, h]

end Mailgrid.Markup.Tag
