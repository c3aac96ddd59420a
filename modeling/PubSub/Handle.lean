import PubSub.Config
import PubSub.Notice

/-!
# Subscription handles

The receipt for a registration, and what a bus answers when it refuses a request.
-/

namespace PubSub

/-- The bus that issued it, and the subscriptions with their keys. -/
structure Handle where
  bus : Nat
  entries : List (Key × Nat)
  deriving DecidableEq

namespace Handle

def ids (h : Handle) : List String :=
  h.entries.map (Notice.subscriptionText ·.2)

def size (h : Handle) : Nat :=
  h.entries.length

def isEmpty (h : Handle) : Bool :=
  h.entries.isEmpty

private def entryDebug (e : Key × Nat) : String :=
  "(" ++ e.1.debug ++ ", SubscriptionId(" ++ toString e.2 ++ "))"

/-- The identity of the bus is not shown. -/
def debug (h : Handle) : String :=
  "SubscriptionHandle \x7b bus: *, entries: [" ++ ", ".intercalate (h.entries.map entryDebug) ++ "] \x7d"

end Handle

inductive BusError where
  | closed
  /-- The target declares nothing to subscribe. -/
  | noHandlers (target : String)
  /-- The handle was issued by another bus. -/
  | foreignHandle
  | config (error : ConfigError)
  deriving DecidableEq

def BusError.message : BusError → String
  | closed => "Event bus is closed"
  | noHandlers target => "`" ++ target ++ "` declares no event handlers"
  | foreignHandle => "Subscription handle was not issued by this event bus"
  | config error => error.message

end PubSub
