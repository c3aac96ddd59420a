import PubSub.Session.Publishing
import PubSub.Session.Subscribing
import PubSub.Workers

/-!
# Commands at work

The answer of a session to each command, and what the command changes. A command that refers to something that is
not there changes nothing.
-/

namespace PubSub.Session

/-- Lets a name keep a bus; the bus that it kept before may go. -/
def hold (s : Session) (name : String) (bus : Nat) : Session :=
  { s with holds := s.holds.put name ⟨bus, true⟩ }.dropUnkept

/-- Starts a bus that nothing keeps yet; if that fails, gives the answer. -/
def openBus (s : Session) (config : Config) : Except Answer (Session × Bus) := do
  let (s, id) := s.issue
  let b ← (Bus.start id config).mapError (.refused · none)
  config.startWorkers.mapError .crashed
  return ((s.putBus b).report (b.optional [.started]), b)

/-- Fills the owner with a new bus, if it is empty. -/
def initOwner (s : Session) (name : String) (owner : Owner) : Session × Answer :=
  match owner.bus with
  | some _ => (s, .ok)
  | none =>
    match s.openBus owner.config with
    | .error answer => (s, answer)
    | .ok (s, b) =>
      ({ s with owners := s.owners.put name { owner with bus := some b.id } }.report [.initialized], .ok)

/-- Empties the owner and closes the bus that it had. -/
def destroyOwner (s : Session) (name : String) (owner : Owner) : Session :=
  match owner.bus.bind s.buses.get? with
  | none => s
  | some b =>
    { (s.closeBus b).report [.destroyed] with
      owners := s.owners.put name { owner with bus := none } }.dropUnkept

/-- Answers with what is found, and changes nothing. -/
def inspect {α : Type} (s : Session) (found : Option α) (answer : α → Answer) : Session × Answer :=
  (s, found.elim .misfit answer)

/-- Goes on with what is found. -/
def provided {α : Type} (s : Session) (found : Option α) (act : α → Session × Answer) :
    Session × Answer :=
  found.elim (s, .misfit) act

def dropName (s : Session) (name : String) (hold : Hold) : Session × Answer :=
  if hold.keeps then
    ({ s with holds := s.holds.put name { hold with keeps := false } }.dropUnkept, .ok)
  else (s, .misfit)

def keysOn (s : Session) (b : Bus) (cls : Name) : Session × Answer :=
  if !cls.isPublishable then (s, .misfit)
  else match b.keysFor s.hierarchy.declared cls with
    | .error c => (s, .crashed c)
    | .ok (keys, b) => (s.putBus b, .keys keys.keys)

def unsubscribe (s : Session) (b : Bus) (handle : Handle) : Session × Answer :=
  match b.unsubscribe handle with
  | .error e => (s, .refused e none)
  | .ok (b', removed) =>
    ((s.putBus b').report (b.optional (removed.map fun e => .unsubscribed e.1 e.2)), .ok)

def define (s : Session) (name label : String) (threadSafe : Bool) (work : Role → Listener)
    (methods : List Handler) : Session × Answer :=
  let (s, identity) := s.issue
  ({ s with objects := s.objects.put name ⟨identity, name, label, threadSafe, work, methods⟩ }, .ok)

/-- Stops awaiting what the program started under this name. -/
def forget (s : Session) (name : String) (publication : Nat) : Session :=
  { s.unwatch publication with pending := s.pending.erase name }

def startPublish (s : Session) (ctx : Context) (name : String) (p : Publish) : Session × Answer :=
  match s.publish ctx p with
  | none => (s, .misfit)
  | some (s, .error c) => (s, .crashed c)
  | some (s, .ok publication) => ({ s with pending := s.pending.put name publication }, .started)

def perform (s : Session) (ctx : Context) : Command → Session × Answer
  | .declare later => ({ s with hierarchy := s.hierarchy.replace later }, .ok)
  | .openBus name base settings =>
    match s.openBus (settings.foldl Config.set base) with
    | .error answer => (s, answer)
    | .ok (s, b) => (s.hold name b.id, .ok)
  | .clone name copy => s.provided (s.bus? name) fun b => (s.hold copy b.id, .ok)
  | .drop name => s.provided (s.holds.get? name) (s.dropName name)
  | .alive name => s.inspect (s.holds.get? name) fun hold => .flag (s.isKept hold.bus)
  | .closed name => s.inspect (s.bus? name) fun b => .flag !b.isOpen
  | .close name => s.provided (s.bus? name) fun b => (s.closeBus b, .ok)
  | .count name none => s.inspect (s.bus? name) fun b => .number b.subscriptionCount
  | .count name (some type) => s.inspect (s.bus? name) fun b => .number (b.registry.count (.named type))
  | .keys name cls => s.provided (s.bus? name) (s.keysOn · cls)
  | .debug name => s.inspect (s.bus? name) fun b => .texts [b.debug, weakBusDebug]
  | .config name => s.inspect (s.bus? name) fun b => .config b.config
  | .sameBus left right =>
    s.inspect (s.bus? left) fun l => (s.bus? right).elim .misfit fun r => .flag (l.id = r.id)
  | .object name label threadSafe script methods =>
    s.define name label threadSafe script.listener (methods.map Method.handler)
  | .subscribe name object route handle =>
    s.provided (s.bus? name) fun b => s.provided (s.objects.get? object) (s.subscribe b · route handle)
  | .unsubscribe name handle =>
    s.provided (s.bus? name) fun b => s.provided (s.handles.get? handle) (s.unsubscribe b)
  | .handle name => s.inspect (s.handles.get? name) .handle
  | .sameHandle left right =>
    s.inspect (s.handles.get? left) fun l => (s.handles.get? right).elim .misfit fun r => .flag (l = r)
  | .start name publish => s.startPublish ctx name publish
  | .forget name => s.provided (s.pending.get? name) fun publication => (s.forget name publication, .ok)
  | .release gate permits => (s.changeGate gate (·.release permits), .ok)
  | .peak object => s.inspect (s.objects.get? object) fun o => .number (s.activity o.identity).peak
  | .calls object => s.inspect (s.objects.get? object) fun o => .number (s.activity o.identity).finished
  | .managed name config => ({ s with owners := s.owners.put name ⟨config, none⟩ }.dropUnkept, .ok)
  | .init name => s.provided (s.owners.get? name) (s.initOwner name)
  | .destroy name => s.provided (s.owners.get? name) fun owner => (s.destroyOwner name owner, .ok)
  | .managedBus name bus =>
    s.provided (s.owners.get? name) fun owner =>
      match owner.bus with
      | none => (s, .flag false)
      | some id => (s.hold bus id, .flag true)

end PubSub.Session
