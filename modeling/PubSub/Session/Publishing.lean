import PubSub.Session.Ending

/-!
# Publishing

A publish gets a publication and one invocation for each subscription that it is scheduled for, made in the context
of the publisher.
-/

namespace PubSub.Session

/-- A publication that has failed already. -/
def refuse (s : Session) (error : PublishError) : Session × Nat :=
  let (s, publication) := s.issue
  (s.putPublication publication (.refused error), publication)

def invoke (ctx : Context) (bus publication : Nat) (event : Event) (s : Session)
    (target : Subscription × Option View) : Session :=
  let (s, id) := s.issue
  s.putInvocation id ⟨publication, bus, target.1, s.address ⟨bus, target.1.id⟩, target.2, event, ctx, .fresh, false⟩

def schedule (s : Session) (ctx : Context) (bus : Nat) : Plan → Session × Nat
  | .refused error => s.refuse error
  | .scheduled event targets =>
    let (s, publication) := s.issue
    let s := s.putPublication publication (.underWay targets.length)
    (targets.foldl (invoke ctx bus publication event) s, publication)

/-- Publishes an event on a bus. A crash while the event is asked for its declaration changes nothing; one while a
notice is rendered comes after that. -/
def publishOn (s : Session) (ctx : Context) (b : Bus) (event : Event) : Session × Except Crash Nat :=
  match b.publish s.hierarchy.declared ctx.depth event with
  | .error c => (s, .error c)
  | .ok d =>
    let s := s.putBus { b with matcher := d.matcher }
    match d.notice.elim (.ok s) s.announce with
    | .error c => (s, .error c)
    | .ok s =>
      let (s, publication) := s.schedule ctx b.id d.plan
      (s, .ok publication)

def make (s : Session) (r : Recipe) : Event :=
  s.hierarchy.value r.cls r.number r.note r.unprintable

/-- Publishes for the program; nothing if there is nothing to publish, or no bus to do it on. -/
def publish (s : Session) (ctx : Context) (p : Publish) : Option (Session × Except Crash Nat) :=
  if !p.recipe.cls.isPublishable then none
  else match s.bus? p.bus, p.access with
    | some b, _ => some (s.publishOn ctx b (s.make p.recipe))
    | none, .held => none
    | none, .weak =>
      if (s.holds.get? p.bus).isNone then none
      else
        let (s, publication) := s.refuse .closed
        some (s, .ok publication)

/-- Publishes for a listener. If the bus is gone, the publish of a new event fails, and there is none of an
existing event. -/
def publishMessage (s : Session) (ctx : Context) (bus : String) (message : Message) :
    Session × Except Crash (Option Nat) :=
  match s.bus? bus, message with
  | some b, .recipe r =>
    let (s, result) := s.publishOn ctx b (s.make r)
    (s, result.map some)
  | some b, .event e =>
    let (s, result) := s.publishOn ctx b e
    (s, result.map some)
  | none, .recipe _ =>
    let (s, publication) := s.refuse .closed
    (s, .ok (some publication))
  | none, .event _ => (s, .ok none)

end PubSub.Session
