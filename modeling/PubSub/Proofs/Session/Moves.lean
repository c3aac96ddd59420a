import Mathlib.Logic.Relation
import PubSub.Program

/-!
# Moves

All that happens to the buses, the invocations and the publications of a session comes down to a few moves: publishes,
other effects of commands, and the progress of single invocations. Whatever each of these keeps is kept by whole runs.
-/

namespace PubSub

/-- What can happen to one bus. -/
inductive Bus.Changes (b : Bus) : Bus → Prop
  | subscribed {bindings : List (Key × Callback)} {b' : Bus} {handle : Handle}
      (h : b.subscribe bindings = .ok (b', handle)) : b.Changes b'
  | unsubscribed {handle : Handle} {b' : Bus} {removed : List (Key × Nat)}
      (h : b.unsubscribe handle = .ok (b', removed)) : b.Changes b'
  | closed : b.Changes b.close
  | looked {declared : Name → Except Crash Descriptor} {cls : Name} {r : Resolution} {b' : Bus}
      (h : b.keysFor declared cls = .ok (r, b')) : b.Changes b'
  | published {declared : Name → Except Crash Descriptor} {depth : Nat} {e : Event} {d : Dispatch}
      (h : b.publish declared depth e = .ok d) : b.Changes { b with matcher := d.matcher }

/-- A publish that fails at once fails in one of these ways. -/
def PublishError.isRefusal : PublishError → Bool
  | .closed | .depthExceeded _ _ => true
  | .listenersFailed _ _ | .interrupted _ => false

/-- Here a listener may have to wait. -/
def Behaviour.mayBlock : Behaviour → Bool
  | .pass _ _ | .await _ _ => true
  | _ => false

/-- A step after which a listener goes on by itself. -/
inductive Behaviour.Follows : Behaviour → Behaviour → Prop
  | request (command : Command) (next : Answer → Behaviour) (answer : Answer) :
    Follows (.request command next) (next answer)
  | record (entry : LogEntry) (next : Behaviour) : Follows (.record entry next) next
  | arrive (gate : String) (next : Behaviour) : Follows (.arrive gate next) next
  | pass (gate : String) (next : Behaviour) : Follows (.pass gate next) next
  | unpublished (bus : String) (message : Message) (next : Option Nat → Behaviour) :
    Follows (.publish bus message next) (next none)
  | forward (publication : Nat) (next : Behaviour) : Follows (.forward publication next) next
  | workerName (next : String → Behaviour) (name : String) : Follows (.workerName next) (next name)

namespace Invocation

/-- It is parked only where it may have to wait, and always while it waits for its turn. -/
def Sound (i : Invocation) : Prop :=
  match i.stage with
  | .fresh => i.parked = false
  | .queued _ => i.parked = true ∧ i.bypasses = false
  | .calling p | .deferring p => i.parked = true → p.mayBlock = true

end Invocation

namespace Session

/-- Nothing happens to buses, invocations, publications and addresses; identities may be given out. -/
structure Aside (s s' : Session) : Prop where
  hierarchy : s'.hierarchy = s.hierarchy
  tracing : s'.tracing = s.tracing
  issued : s.issued ≤ s'.issued
  addresses : s'.addresses = s.addresses
  buses : s'.buses = s.buses
  invocations : s'.invocations = s.invocations
  publications : s'.publications = s.publications

/-- A publish from some place leads to a publication. -/
inductive Publishes (ctx : Context) (s : Session) : Session → Nat → Prop
  | refused {error : PublishError} (h : error.isRefusal) : s.Publishes ctx (s.refuse error).1 (s.refuse error).2
  | planned {b : Bus} {e : Event} {d : Dispatch} {s' : Session} (hb : s.buses.get? b.id = some b)
      (hd : b.publish s.hierarchy.declared ctx.depth e = .ok d)
      (hs : (s.putBus { b with matcher := d.matcher }).Aside s') :
      s.Publishes ctx (s'.schedule ctx b.id d.plan).1 (s'.schedule ctx b.id d.plan).2

/-- What is new on a bus gets an address, which nothing else that is not gone has. -/
structure Places (s : Session) (b b' : Bus) (addresses : Table Caller Nat) : Prop where
  kept : ∀ c a, s.addresses.get? c = some a → addresses.get? c = some a
  placed : ∀ k, ∀ x ∈ b'.registry.row k, x ∉ b.registry.row k → ∃ a, addresses.get? ⟨b'.id, x.id⟩ = some a
  named : ∀ c a, s.addresses.get? c = none → addresses.get? c = some a →
    c.bus = b'.id ∧ ∃ k, ∃ x ∈ b'.registry.row k, x.id = c.subscription
  apart : ∀ c c' a, s.addresses.get? c = none → addresses.get? c = some a → addresses.get? c' = some a →
    (s.putBus b').holdsOn c → (s.putBus b').holdsOn c' → c = c'

/-- What a command may do, other than to publish. -/
inductive Effect : Session → Session → Prop
  | aside {s s' : Session} (h : s.Aside s') : Effect s s'
  | declared (s : Session) (later : Hierarchy) : Effect s { s with hierarchy := s.hierarchy.replace later }
  | opened {s : Session} {config : Config} {b : Bus} (h : Bus.start s.issue.2 config = .ok b) :
    Effect s (s.issue.1.putBus b)
  | changed {s : Session} {b b' : Bus} {addresses : Table Caller Nat} (hb : s.buses.get? b.id = some b)
      (h : b.Changes b') (hplaces : s.Places b b' addresses) : Effect s { s.putBus b' with addresses }
  | flagged {s : Session} {id : Nat} {p p' : Publication} (hp : s.publications.get? id = some p)
      (hp' : p' = p.await ∨ p' = p.leave) : Effect s (s.putPublication id p')
  | interrupted {s : Session} {id : Nat} {i : Invocation} {b : Bus} (hi : s.invocations.get? id = some i)
      (hidle : i.isIdle) (hb : s.buses.get? i.bus = some b) (hclosed : b.isOpen = false) :
    Effect s (s.finish id i (.lost false))

abbrev Effects : Session → Session → Prop :=
  Relation.ReflTransGen Effect

/-- What a command does that is made at some place: it publishes once, or not at all. -/
inductive Acts (ctx : Context) (s : Session) : Session → Prop
  | calmly {s' : Session} (h : Effects s s') : s.Acts ctx s'
  | publishing {s₁ s' : Session} {publication : Nat} (h : s.Publishes ctx s₁ publication) (haside : s₁.Aside s') :
    s.Acts ctx s'

/-- How far one invocation gets by itself. -/
inductive Progress (id : Nat) : Session → Session → Prop
  | parked {s : Session} {i : Invocation} (hi : s.invocations.get? id = some i) (h : (i.park s.issue.2).Sound) :
    Progress id s (s.issue.1.putInvocation id (i.park s.issue.2))
  | called {s : Session} {i : Invocation} {sight : Sight} (hi : s.invocations.get? id = some i) (hrest : i.rest? = none)
      (hturn : i.bypasses || s.turnIsFree i)
      (hsight : i.subscription.callback.lens.extract i.view i.event = .ok (some sight)) :
    Progress id s (s.putInvocation id (i.goOn (i.subscription.callback.listener i.context.depth sight)))
  | wentOn {s : Session} {i : Invocation} {p p' : Behaviour} (hi : s.invocations.get? id = some i)
      (hrest : i.rest? = some p) (h : p.Follows p') : Progress id s (s.putInvocation id (i.goOn p'))
  | left {s : Session} {i : Invocation} {rest : Behaviour} (hi : s.invocations.get? id = some i)
      (hrest : i.rest? = some (.later rest)) :
    Progress id s (s.putInvocation id { i with stage := .deferring rest, parked := false })
  | awaited {s : Session} {i : Invocation} {publication : Nat} {next : Except PublishError Delivery → Behaviour}
      {p : Publication} {result : Except PublishError Delivery} (hi : s.invocations.get? id = some i)
      (hrest : i.rest? = some (.await publication next)) (hp : s.publications.get? publication = some p)
      (hresult : p.result? = some result) : Progress id s (s.putInvocation id (i.goOn (next result)))
  | published {s s' : Session} {i : Invocation} {bus : String} {message : Message} {next : Option Nat → Behaviour}
      {publication : Nat} (hi : s.invocations.get? id = some i) (hrest : i.rest? = some (.publish bus message next))
      (h : s.Publishes i.context s' publication) :
    Progress id s (s'.putInvocation id (i.goOn (next (some publication))))
  | finished {s : Session} {i : Invocation} (hi : s.invocations.get? id = some i) (outcome : Outcome) :
    Progress id s (s.finish id i outcome)

/-- An effect of a command, a publish from some place, or the progress of an invocation. -/
inductive Move : Session → Session → Prop
  | effect {s s' : Session} (h : Effect s s') : Move s s'
  | publish {s s' : Session} {ctx : Context} {publication : Nat} (h : s.Publishes ctx s' publication) : Move s s'
  | progress {s s' : Session} (id : Nat) (h : Progress id s s') : Move s s'

abbrev Moves : Session → Session → Prop :=
  Relation.ReflTransGen Move

end Session
end PubSub
