import PubSub.Crash

/-!
# Events

A published event is a value of some class, with the values of its base classes embedded, or it carries an
event that nobody heard. What a listener gets of an event is a sight of it.
-/

namespace PubSub

/-- A value of an event class. -/
structure Payload where
  cls : Name
  number : Int64
  note : String
  /-- Rendering this value for diagnostics fails. -/
  unprintable : Bool
  /-- The embedded values of base classes, in the order of declaration. -/
  bases : List Payload

namespace Payload

def text (p : Payload) : String :=
  p.cls.text ++ "(" ++ toString p.number.toInt ++ (if p.note = "" then "" else "," ++ p.note) ++ ")"

/-- The first embedded value of exactly that class. -/
def base? (p : Payload) (cls : Name) : Option Payload :=
  p.bases.find? (·.cls = cls)

end Payload

inductive Event where
  | value (payload : Payload)
  /-- Published in place of an event that nobody heard. -/
  | dead (unheard : Event)

namespace Event

def cls : Event → Name
  | value p => p.cls
  | dead _ => .dead

def isDead : Event → Bool
  | value _ => false
  | dead _ => true

def number : Event → Int64
  | value p => p.number
  | dead e => e.number

def text : Event → String
  | value p => p.text
  | dead e => "dead:" ++ e.text

/-- The text of an event in diagnostics. -/
def debug : Event → Except Crash String
  | value p => if p.unprintable then .error .unprintable else .ok p.text
  | dead e => do return "DeadEvent \x7b event: " ++ (← e.debug) ++ " \x7d"

def base? : Event → Name → Option Payload
  | value p, cls => p.base? cls
  | dead _, _ => none

end Event

/-- What a listener sees of an event: the event as one of its types, or the constant that stands for a
wrapper. -/
inductive Sight where
  | event (seen : Event) (as : Name)
  | wrapper (index : Nat)

namespace Sight

def number : Sight → Int64
  | event e _ => e.number
  | wrapper _ => 0

def text : Sight → String
  | event e (.interface i) => (Name.interface i).text ++ ":" ++ e.text
  | event e .root => Name.root.text ++ ":" ++ e.text
  | event e _ => e.text
  | wrapper i => (Name.wrapper i).text

/-- The event behind a sight, to be published on. -/
def whole? : Sight → Option Event
  | event e _ => some e
  | wrapper _ => none

/-- The event carried by a sight of an unheard one. -/
def unheard? : Sight → Option Event
  | event (.dead e) _ => some e
  | _ => none

end Sight
end PubSub
