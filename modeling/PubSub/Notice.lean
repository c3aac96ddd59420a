import PubSub.Failure
import PubSub.Event

/-!
# Notices

What a bus reports about itself, one line each. A notice that names an event renders it, which may crash.
-/

namespace PubSub

inductive Notice where
  | started
  | closed
  | subscribed (key : Key) (id : Nat)
  | unsubscribed (key : Key) (id : Nat)
  | publishing (event : Event) (depth keys subscriptions : Nat)
  | unheard (event : Event)
  | depthReached (event : Event) (depth limit : Nat)
  | listenerFailed (failure : ListenerFailure)
  /-- A listener crashed while its failure was reported. -/
  | listenerCrashed
  | initialized
  | destroyed

inductive Level where
  | debug
  | info
  | warn
  | error
  deriving DecidableEq

def Level.text : Level → String
  | debug => "DEBUG"
  | info => "INFO"
  | warn => "WARN"
  | error => "ERROR"

namespace Notice

def level : Notice → Level
  | started | closed => .info
  | subscribed _ _ | unsubscribed _ _ | publishing _ _ _ _ | initialized | destroyed => .debug
  | unheard _ | depthReached _ _ _ => .warn
  | listenerFailed _ | listenerCrashed => .error

def message : Notice → String
  | started => "Event bus started"
  | closed => "Event bus closed"
  | subscribed _ _ => "Subscribed listener"
  | unsubscribed _ _ => "Unsubscribed listener"
  | publishing _ _ _ _ => "Publishing event"
  | unheard _ => "No listeners registered for event"
  | depthReached _ _ _ => "Publish depth limit reached"
  | listenerFailed _ => "Listener failed"
  | listenerCrashed => "Listener task panicked outside its invocation"
  | initialized => "Managed event bus initialized"
  | destroyed => "Managed event bus destroyed"

private def occursIn (word : List Char) : List Char → Bool
  | [] => word.isEmpty
  | c :: cs => word.isPrefixOf (c :: cs) || occursIn word cs

/-- Which of several failures a text starts with is left to chance, so such a text is not reported. -/
def reportable? (cause : ListenerError) : Option String :=
  if occursIn "listener(s) failed".toList cause.text.toList then none else some cause.text

/-- The name of a subscription. -/
def subscriptionText (id : Nat) : String :=
  "sub-" ++ toString id

/-- The fields of a notice by name, in the order of the names. -/
def fields : Notice → Except Crash (List (String × String))
  | started | closed | listenerCrashed | initialized | destroyed => .ok []
  | subscribed key id | unsubscribed key id => .ok [("key", key.text), ("subscription", subscriptionText id)]
  | publishing event depth keys subscriptions => do
    return [("depth", toString depth), ("event", ← event.debug), ("keys", toString keys),
      ("subscriptions", toString subscriptions)]
  | unheard event => do return [("event", ← event.debug)]
  | depthReached event depth limit => do
    return [("depth", toString depth), ("event", ← event.debug), ("limit", toString limit)]
  | listenerFailed failure =>
    .ok (("callback", failure.callback) :: ((reportable? failure.cause).map (("cause", ·))).toList
      ++ [("event", failure.event), ("key", failure.key.text), ("target", failure.target)])

def line (n : Notice) : Except Crash String := do
  let fields ← n.fields
  return " ".intercalate (n.level.text :: n.message :: fields.map fun f => f.1 ++ "=" ++ f.2)

end Notice
end PubSub
