/-!
# Gates

Invocations wait at a gate until permits are released. Permits go to those in front of the queue; a newcomer passes
at once only if there are more permits than invocations in the queue.
-/

namespace PubSub

structure Gate where
  /-- The number of arrivals so far. -/
  arrivals : Nat
  permits : Nat
  /-- The invocations that wait, in the order of their arrival. -/
  queue : List Nat
  deriving DecidableEq

namespace Gate

def empty : Gate :=
  ⟨0, 0, []⟩

def arrive (g : Gate) : Gate :=
  { g with arrivals := g.arrivals + 1 }

def release (g : Gate) (permits : Nat) : Gate :=
  { g with permits := g.permits + permits }

/-- The invocation can pass: no more invocations are in front of it than there are permits to spare. -/
def admits (g : Gate) (invocation : Nat) : Bool :=
  (g.queue.takeWhile (· ≠ invocation)).length < g.permits

def pass (g : Gate) (invocation : Nat) : Gate :=
  { g with permits := g.permits - 1, queue := g.queue.erase invocation }

def wait (g : Gate) (invocation : Nat) : Gate :=
  { g with queue := g.queue ++ [invocation] }

def leave (g : Gate) (invocation : Nat) : Gate :=
  { g with queue := g.queue.erase invocation }

end Gate
end PubSub
