import PubSub.Key

/-!
# Failures of a publish

A publish fails as a whole or because of its listeners. What a listener fails with may be the failure of a publish
that it made itself, so failures nest.
-/

namespace PubSub

mutual

inductive PublishError where
  /-- The bus does not take events any more. -/
  | closed
  /-- At least one listener failed; in the order in which they were observed. -/
  | listenersFailed (first : ListenerFailure) (rest : List ListenerFailure)
  /-- The publish was nested as deep as the bus allows. -/
  | depthExceeded (depth limit : Nat)
  /-- Listeners were abandoned before they ended. -/
  | interrupted (pending : Nat)

inductive ListenerFailure where
  | mk (event : String) (key : Key) (target callback : String) (cause : ListenerError)

inductive ListenerError where
  | failed (fault : Fault)
  /-- What the listener left to be done later failed. -/
  | deferred (fault : Fault)
  /-- The listener gave up. -/
  | crashed (message : String)
  /-- The event cannot be seen as the type that the listener takes. -/
  | typeMismatch (expected : Name)

/-- An error of the listener's own, or that of a publish. -/
inductive Fault where
  /-- One that is not printable crashes whoever asks for its text. -/
  | message {printable : Bool} (text : String)
  | publish (error : PublishError)

end

/-- An error of the listener's own that can be printed. -/
abbrev Fault.plain (text : String) : Fault :=
  @Fault.message true text

mutual

def PublishError.text : PublishError → String
  | .closed => "Event bus is closed"
  | .listenersFailed first rest =>
    toString (rest.length + 1) ++ " listener(s) failed, first: " ++ first.text
  | .depthExceeded depth limit =>
    "Publish depth " ++ toString depth ++ " reached the limit of " ++ toString limit
  | .interrupted pending => toString pending ++ " listener invocation(s) interrupted by shutdown"

def ListenerFailure.text : ListenerFailure → String
  | .mk event key target callback cause =>
    "`" ++ callback ++ "` on `" ++ target ++ "` failed handling " ++ event ++ " (key `" ++ key.text ++ "`): "
      ++ cause.text

def ListenerError.text : ListenerError → String
  | .failed fault => "listener returned an error: " ++ fault.text
  | .deferred fault => "deferred reply failed: " ++ fault.text
  | .crashed message => "listener panicked: " ++ message
  | .typeMismatch expected => "event could not be viewed as `" ++ expected.text ++ "`"

def Fault.text : Fault → String
  | .message text => text
  | .publish error => error.text

end

mutual

/-- The texts of the errors below this one, each the cause of the one before. -/
def PublishError.sources : PublishError → List String
  | .listenersFailed first _ => first.text :: first.sources
  | .closed | .depthExceeded _ _ | .interrupted _ => []

def ListenerFailure.sources : ListenerFailure → List String
  | .mk _ _ _ _ cause => cause.text :: cause.sources

def ListenerError.sources : ListenerError → List String
  | .failed fault | .deferred fault => fault.text :: fault.sources
  | .crashed _ | .typeMismatch _ => []

def Fault.sources : Fault → List String
  | .message _ => []
  | .publish error => error.sources

end

mutual

/-- No error among this one and those nested in it has more than one failure, so no text depends on which
failure came first. -/
def PublishError.isSingular : PublishError → Bool
  | .listenersFailed first rest => rest.isEmpty && first.isSingular
  | .closed | .depthExceeded _ _ | .interrupted _ => true

def ListenerFailure.isSingular : ListenerFailure → Bool
  | .mk _ _ _ _ cause => cause.isSingular

def ListenerError.isSingular : ListenerError → Bool
  | .failed fault | .deferred fault => fault.isSingular
  | .crashed _ | .typeMismatch _ => true

def Fault.isSingular : Fault → Bool
  | .message _ => true
  | .publish error => error.isSingular

end

mutual

/-- No text that the text of this one is made of crashes. -/
def PublishError.isPrintable : PublishError → Bool
  | .listenersFailed first _ => first.isPrintable
  | .closed | .depthExceeded _ _ | .interrupted _ => true

def ListenerFailure.isPrintable : ListenerFailure → Bool
  | .mk _ _ _ _ cause => cause.isPrintable

def ListenerError.isPrintable : ListenerError → Bool
  | .failed fault | .deferred fault => fault.isPrintable
  | .crashed _ | .typeMismatch _ => true

def Fault.isPrintable : Fault → Bool
  | @Fault.message printable _ => printable
  | .publish error => error.isPrintable

end

namespace ListenerFailure

def event : ListenerFailure → String
  | .mk event _ _ _ _ => event

def key : ListenerFailure → Key
  | .mk _ key _ _ _ => key

def target : ListenerFailure → String
  | .mk _ _ target _ _ => target

def callback : ListenerFailure → String
  | .mk _ _ _ callback _ => callback

def cause : ListenerFailure → ListenerError
  | .mk _ _ _ _ cause => cause

end ListenerFailure

/-- The failures of the listeners, if that is what the error is about. -/
def PublishError.failures : PublishError → List ListenerFailure
  | .listenersFailed first rest => first :: rest
  | .closed | .depthExceeded _ _ | .interrupted _ => []

end PubSub
