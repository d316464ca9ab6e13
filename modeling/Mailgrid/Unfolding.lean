import Mailgrid.Expansion
import Mailgrid.Message

/-!
# Unfolding

Component after component is expanded, always the first one in document order
that is pending, until none is left. What an expansion puts into the document
may hold components again; they are pending like all others. An element that
was changed in place is settled, and never pending again.

A run stops at its limit of expansions. The draft it leaves is then as those
expansions left it, and another run goes on from there.
-/

namespace Mailgrid

open Markup (Node Place Tag)

/-- A document that is being unfolded. -/
structure Draft where
  document : Document
  /-- The marks of the elements that were changed in place. -/
  settled : List Nat

/-- What an engine expands components with. -/
structure Unfolder where
  rules : Rules
  /-- Which tags are components. -/
  components : List (String × Component)

/-- What a run comes to: how many expansions it did, and why it stopped if not at its end. -/
structure Run where
  draft : Draft
  count : Nat
  log : List Message
  failure : Option Failure

/-- A component that is to be expanded. -/
structure Pending where
  place : Place Nat
  tag : String
  kind : Component

/-- What is told when the component is expanded. -/
def Pending.message (p : Pending) : Message :=
  if p.kind = .center then ⟨3, "Rewrote <" ++ p.tag ++ "> in place"⟩
  else ⟨3, "Expanded <" ++ p.tag ++ "> as " ++ p.kind.key⟩

namespace Unfolder

def kindOf? (u : Unfolder) (settled : List Nat) (mark : Nat) : Node Nat → Option Component
  | .leaf _ _ => none
  | .element t _ =>
    match u.components.lookup t.name with
    | some kind => if settled.contains mark then none else some kind
    | none => none

def pendingAt? (u : Unfolder) (settled : List Nat) (place : Place Nat) : Option Pending :=
  match place.node with
  | .leaf _ _ => none
  | .element t children =>
    (u.kindOf? settled place.mark (.element t children)).map fun kind => ⟨place, t.name, kind⟩

/-- The first pending component in document order. -/
def pending? (u : Unfolder) (d : Draft) : Option Pending :=
  match d.document.content.place? fun mark node => (u.kindOf? d.settled mark node).isSome with
  | some place => u.pendingAt? d.settled place
  | none => none

/-- Puts an expansion in the place of its element. -/
def put (d : Draft) (mark : Nat) : Expansion → Except Failure Draft
  | .markup text => do
    let (document, _) ← d.document.replace mark text
    pure { d with document }
  | .inPlace content =>
    pure ⟨d.document.adapt mark fun tag _ => (tag, content), d.settled ++ [mark]⟩

def expand (u : Unfolder) (d : Draft) (p : Pending) : Except Failure Draft := do
  put d p.place.mark (← Expansion.ofPlace u.rules d.document.format (some p.kind) p.place)

def endMessage (count : Nat) : Message :=
  ⟨2, "Reached fixed point after " ++ toString count ++ " rewrite(s)"⟩

/-- A run that has done `count` expansions and may do `left` more. -/
def runFrom (u : Unfolder) (limit : Int) (count : Nat) (left : Nat) (d : Draft) : Run :=
  match u.pending? d with
  | none => ⟨d, count, [endMessage count], none⟩
  | some p =>
    match left with
    | 0 => ⟨d, count, [], some (.expansionLimit limit p.tag)⟩
    | left + 1 =>
      match u.expand d p with
      | .error failure => ⟨d, count, [], some failure⟩
      | .ok next =>
        let rest := u.runFrom limit (count + 1) left next
        { rest with log := p.message :: rest.log }

/-- Expands components until none is pending. A limit below nought allows as many as nought. -/
def run (u : Unfolder) (limit : Int) (d : Draft) : Run :=
  u.runFrom limit 0 limit.toNat d

end Unfolder

end Mailgrid
