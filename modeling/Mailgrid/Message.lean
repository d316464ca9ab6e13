/-!
# Messages

What is told about the work while it goes on. A message has a level, and is
shown to whoever asks for that level or more.
-/

namespace Mailgrid

structure Message where
  level : Int
  text : String
  deriving DecidableEq

namespace Message

def isShown (verbosity : Int) (m : Message) : Bool :=
  m.level ≤ verbosity

/-- The texts that are shown, in order. -/
def shown (verbosity : Int) (log : List Message) : List String :=
  (log.filter (isShown verbosity)).map (·.text)

end Message

end Mailgrid
