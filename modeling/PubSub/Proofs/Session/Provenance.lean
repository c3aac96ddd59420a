import PubSub.Proofs.Operations
import PubSub.Proofs.Session.Transitions

/-!
# Provenance

Every bus of a session is what operations have made of it since it was started: each publish and each question for keys
was asked while some hierarchy was in force. So what holds of a new bus and is kept by all operations holds of every
bus that can be reached.
-/

namespace PubSub

namespace Bus

/-- What operations have made of it since it was started. -/
def IsOperated (b : Bus) : Prop :=
  ∃ id config started ops, start id config = .ok started ∧ b = (started.operateAll ops).1

theorem operateAll_append (b : Bus) (ops : List Operation) (op : Operation) :
    (b.operateAll (ops ++ [op])).1 = ((b.operateAll ops).1.operate op).1 := by
  induction ops generalizing b with
  | nil => rfl
  | cons first ops ih => exact ih (b.operate first).1

theorem IsOperated.induction {P : Bus → Prop} {b : Bus} (h : b.IsOperated)
    (hstart : ∀ id config b, start id config = .ok b → P b) (hoperate : ∀ b op, P b → P (b.operate op).1) : P b := by
  obtain ⟨id, config, started, ops, hstarted, rfl⟩ := h
  have hall (b : Bus) (hb : P b) : P (b.operateAll ops).1 := by
    induction ops generalizing b with
    | nil => exact hb
    | cons op ops ih => exact ih (b.operate op).1 (hoperate b op hb)
  exact hall started (hstart id config started hstarted)

namespace IsOperated

variable {b b' : Bus}

theorem start {id : Nat} {config : Config} (h : Bus.start id config = .ok b) : b.IsOperated :=
  ⟨id, config, b, [], h, rfl⟩

theorem operate (h : b.IsOperated) (op : Operation) : (b.operate op).1.IsOperated := by
  obtain ⟨id, config, started, ops, hstarted, rfl⟩ := h
  exact ⟨id, config, started, ops ++ [op], hstarted, (operateAll_append ..).symm⟩

theorem subscribe (h : b.IsOperated) {bindings : List (Key × Callback)} {handle : Handle}
    (hsubscribe : b.subscribe bindings = .ok (b', handle)) : b'.IsOperated := by
  have hoperated := h.operate (.subscribe bindings)
  simpa only [Bus.operate, settled, hsubscribe] using hoperated

theorem subscribeHandlers (h : b.IsOperated) {target : String} {handlers : List (Key × Callback)} {handle : Handle}
    (hsubscribe : b.subscribeHandlers target handlers = .ok (b', handle)) : b'.IsOperated := by
  have hoperated := h.operate (.subscribeHandlers target handlers)
  simpa only [Bus.operate, settled, hsubscribe] using hoperated

theorem unsubscribe (h : b.IsOperated) {handle : Handle} {removed : List (Key × Nat)}
    (hunsubscribe : b.unsubscribe handle = .ok (b', removed)) : b'.IsOperated := by
  have hoperated := h.operate (.unsubscribe handle)
  simpa only [Bus.operate, settled, hunsubscribe] using hoperated

theorem close (h : b.IsOperated) : b.close.IsOperated :=
  h.operate .close

theorem keysFor (h : b.IsOperated) {hierarchy : Hierarchy} {cls : Name} {keys : Resolution}
    (hkeys : b.keysFor hierarchy.declared cls = .ok (keys, b')) : b'.IsOperated := by
  have hoperated := h.operate (.keys hierarchy cls)
  obtain ⟨⟨known, matcher⟩, hknown, hkeys⟩ := bind_eq_ok_iff.1 hkeys
  cases hkeys
  simpa only [Bus.operate, Matcher.afterAsking_of_ok hknown] using hoperated

theorem publish (h : b.IsOperated) {hierarchy : Hierarchy} {depth : Nat} {e : Event} {d : Dispatch}
    (hd : b.publish hierarchy.declared depth e = .ok d) : ({ b with matcher := d.matcher } : Bus).IsOperated := by
  have hoperated := h.operate (.publish hierarchy depth e)
  simpa only [Bus.operate, remembered_of_publish hd] using hoperated

end IsOperated

end Bus

namespace Session

/-- All buses are what operations have made of them. -/
def Operated (s : Session) : Prop :=
  ∀ id b, s.buses.get? id = some b → b.IsOperated

theorem buses_conclude (s : Session) (id : Nat) (i : Invocation) (result : Except ListenerError (Option Value)) :
    (s.conclude id i result).buses = s.buses := by
  simp only [conclude]
  split
  · exact (finish_frame ..).2.2.1
  · split
    · exact (finish_frame ..).2.2.1
    · exact (finish_frame ..).2.2.1.trans (aside_report ..).buses

theorem buses_failed (s : Session) (id : Nat) (i : Invocation) (cause : ListenerError) :
    (s.failed id i cause).buses = s.buses :=
  (buses_conclude ..).trans (aside_leaveCall ..).buses

theorem buses_call (s : Session) (id : Nat) (i : Invocation) : (s.call id i).buses = s.buses := by
  simp only [call]
  split
  · exact buses_conclude ..
  · exact buses_conclude ..
  · rfl

theorem buses_park (s : Session) (id : Nat) (i : Invocation) : (s.park id i).buses = s.buses := by
  simp only [park]
  split
  · exact buses_watch ..
  · rfl
  · rfl

namespace Operated

variable {s s' : Session} {b : Bus}

theorem of_same (h : s.Operated) (hsame : s'.buses = s.buses) : s'.Operated := by
  simp only [Operated, hsame]
  exact h

theorem putBus (h : s.Operated) (hb : b.IsOperated) : (s.putBus b).Operated := by
  intro id b' hb'
  simp only [Session.putBus, Table.get?_put] at hb'
  split at hb'
  · obtain rfl := Option.some.inj hb'
    exact hb
  · exact h id b' hb'

theorem aside (h : s.Operated) (haside : s.Aside s') : s'.Operated :=
  h.of_same haside.buses

theorem provided {α : Type} {found : Option α} {act : α → Session × Answer} (h : s.Operated)
    (hact : ∀ a, found = some a → (act a).1.Operated) : (s.provided found act).1.Operated :=
  provided_cases (motive := fun r => r.1.Operated) h hact

section Closing

private theorem stop (h : s.Operated) (hb : b.IsOperated) : ((s.putBus b.close).stopWorkers b.id).Operated :=
  (h.putBus hb.close).of_same (buses_stopWorkers ..)

theorem closeBus (h : s.Operated) (hb : b.IsOperated) : (s.closeBus b).Operated := by
  simp only [Session.closeBus]
  split
  · exact (h.stop hb).aside (aside_report ..)
  · exact h

theorem dropUnkept (h : s.Operated) (hs : s.Proper) : s.dropUnkept.Operated := by
  have hbuses : ∀ b ∈ s.buses.values, b.IsOperated := by
    intro b hm
    obtain ⟨id, hb⟩ := (Table.mem_values_iff hs.buses b).1 hm
    exact h id b hb
  simp only [Session.dropUnkept]
  generalize s.buses.values = bs at hbuses
  clear hs
  induction bs generalizing s with
  | nil => exact h
  | cons b bs ih =>
    refine ih ?_ fun b' hm => hbuses b' (List.mem_cons_of_mem _ hm)
    simp only
    split
    · exact h.stop (hbuses b (List.mem_cons_self ..))
    · exact h

theorem hold (h : s.Operated) (hs : s.Proper) (name : String) (bus : Nat) : (s.hold name bus).Operated :=
  dropUnkept (h.of_same rfl) (hs.aside (.rest ..))

end Closing

section Commands

theorem openBus (h : s.Operated) {config : Config} (ho : s.openBus config = .ok (s', b)) : s'.Operated := by
  obtain ⟨b', hb, ho⟩ := bind_eq_ok_iff.1 ho
  obtain ⟨-, -, ho⟩ := bind_eq_ok_iff.1 ho
  cases ho
  have hissue : s.issue.1.Operated := h
  exact (hissue.putBus (.start (mapError_eq_ok_iff.1 hb))).aside (aside_report ..)

theorem initOwner (h : s.Operated) (name : String) (owner : Owner) : (s.initOwner name owner).1.Operated := by
  simp only [Session.initOwner]
  split
  · exact h
  · cases ho : s.openBus owner.config with
    | error answer => exact h
    | ok p =>
      obtain ⟨s₁, b⟩ := p
      exact ((h.openBus ho).aside (.rest ..)).aside (aside_report ..)

theorem destroyOwner (h : s.Operated) (hs : s.Proper) (name : String) (owner : Owner) :
    (s.destroyOwner name owner).Operated := by
  simp only [Session.destroyOwner]
  cases hb : owner.bus.bind s.buses.get? with
  | none => exact h
  | some b =>
    obtain ⟨id, -, hid⟩ := Option.bind_eq_some_iff.1 hb
    have hget : s.buses.get? b.id = some b := by rw [(hs.bus id b hid).1, hid]
    have hclosed := (hs.effects (effects_closeBus hs hget)).aside (aside_report _ [.destroyed])
    exact dropUnkept (((h.closeBus (h id b hid)).aside (aside_report ..)).of_same rfl) (hclosed.aside (.rest ..))

theorem keysOn (h : s.Operated) (hb : b.IsOperated) (cls : Name) : (s.keysOn b cls).1.Operated := by
  simp only [Session.keysOn]
  split
  · exact h
  · cases hk : b.keysFor s.hierarchy.declared cls with
    | error c => exact h
    | ok p => exact h.putBus (hb.keysFor hk)

theorem unsubscribe (h : s.Operated) (hb : b.IsOperated) (handle : Handle) :
    (s.unsubscribe b handle).1.Operated := by
  simp only [Session.unsubscribe]
  cases hu : b.unsubscribe handle with
  | error e => exact h
  | ok p => exact (h.putBus (hb.unsubscribe hu)).aside (aside_report ..)

private theorem subscribed (h : s.Operated) (handle : Option String) (table : Option (List Nat))
    {result : Except BusError (Bus × Handle)} (hresult : ∀ b' handle, result = .ok (b', handle) → b'.IsOperated) :
    (s.subscribed b handle table result).1.Operated := by
  cases result with
  | error e => exact h
  | ok p =>
    have hplaced : ((s.putBus p.1).placeAll b.id p.2.entries).Operated :=
      (h.putBus (hresult p.1 p.2 rfl)).of_same (buses_placeAll ..)
    have hput := hplaced.aside
      (aside_report _ (b.optional (p.2.entries.map fun e => .subscribed e.1 e.2)))
    cases handle with
    | none => exact hput
    | some name => exact hput.aside (.rest ..)

theorem subscribe (h : s.Operated) (hb : b.IsOperated) (o : Object) (route : Route) (handle : Option String) :
    (s.subscribe b o route handle).1.Operated := by
  unfold Session.subscribe
  split
  · exact h.subscribed _ _ fun _ _ => hb.subscribeHandlers
  · have hissue : s.issue.1.Operated := h
    simp only
    split
    · exact hissue
    · exact hissue.subscribed _ _ fun _ _ => hb.subscribe

theorem publishOn (h : s.Operated) (hb : b.IsOperated) (ctx : Context) (e : Event) :
    (s.publishOn ctx b e).1.Operated := by
  simp only [Session.publishOn]
  cases hd : b.publish s.hierarchy.declared ctx.depth e with
  | error c => exact h
  | ok d =>
    have hput := h.putBus (hb.publish hd)
    simp only
    split
    · exact hput
    · rename_i s₁ hs₁
      have hannounced := hput.aside (aside_announced hs₁)
      cases d.plan with
      | refused error => exact hannounced
      | scheduled event ts => exact hannounced.of_same (schedule_frame ..).1

theorem publish (h : s.Operated) (hs : s.Proper) {ctx : Context} {p : Publish} {result : Except Crash Nat}
    (hp : s.publish ctx p = some (s', result)) : s'.Operated := by
  simp only [Session.publish] at hp
  split at hp
  · cases hp
  · split at hp
    · have hget := get?_of_bus? hs ‹s.bus? p.bus = some _›
      have hmade := h.publishOn (h _ _ hget) ctx (s.make p.recipe)
      rw [Option.some.inj hp] at hmade
      exact hmade
    · cases hp
    · split at hp
      · cases hp
      · cases hp
        exact h

theorem publishMessage (h : s.Operated) (hs : s.Proper) (ctx : Context) (bus : String) (message : Message) :
    (s.publishMessage ctx bus message).1.Operated := by
  simp only [Session.publishMessage]
  cases hb : s.bus? bus with
  | none => cases message <;> exact h
  | some b =>
    have hget := h _ b (get?_of_bus? hs hb)
    cases message with
    | recipe r => exact h.publishOn hget ctx _
    | event e => exact h.publishOn hget ctx e

theorem startPublish (h : s.Operated) (hs : s.Proper) (ctx : Context) (name : String) (p : Publish) :
    (s.startPublish ctx name p).1.Operated := by
  simp only [Session.startPublish]
  split
  · exact h
  · exact h.publish hs ‹_›
  · rename_i hp
    exact (h.publish hs hp).of_same rfl

theorem perform (h : s.Operated) (hs : s.Proper) (ctx : Context) (command : Command) :
    (s.perform ctx command).1.Operated := by
  have hnamed {name : String} {b : Bus} (hb : s.bus? name = some b) : b.IsOperated := h _ b (get?_of_bus? hs hb)
  cases command with
  | openBus name base settings =>
    simp only [Session.perform]
    cases ho : s.openBus (settings.foldl Config.set base) with
    | error answer => exact h
    | ok p =>
      obtain ⟨s₁, b⟩ := p
      exact (h.openBus ho).hold (hs.effects (effects_openBus ho)) name b.id
  | clone name copy => exact h.provided fun b _ => h.hold hs copy b.id
  | drop name =>
    refine h.provided fun hold _ => ?_
    simp only [dropName]
    split
    · exact dropUnkept (h.of_same rfl) (hs.aside (.rest ..))
    · exact h
  | close name => exact h.provided fun b hb => h.closeBus (hnamed hb)
  | keys name cls => exact h.provided fun b hb => h.keysOn (hnamed hb) cls
  | subscribe name object route handle =>
    exact h.provided fun b hb => h.provided fun o _ => h.subscribe (hnamed hb) o route handle
  | unsubscribe name handle =>
    exact h.provided fun b hb => h.provided fun handle _ => h.unsubscribe (hnamed hb) handle
  | start name p => exact h.startPublish hs ctx name p
  | forget name =>
    refine h.provided fun publication _ => h.of_same ?_
    simp only [forget, unwatch]
    split <;> rfl
  | managed name config => exact dropUnkept (h.of_same rfl) (hs.aside (.rest ..))
  | init name => exact h.provided fun owner _ => h.initOwner name owner
  | destroy name => exact h.provided fun owner _ => h.destroyOwner hs name owner
  | managedBus name bus =>
    refine h.provided fun owner _ => ?_
    cases owner.bus with
    | none => exact h
    | some id => exact h.hold hs bus id
  | count name type => cases type <;> exact h
  | declare | object | release | alive | closed | debug | config | sameBus | handle | sameHandle | peak | calls =>
    exact h

end Commands

section Steps

variable {id : Nat} {i : Invocation}

private theorem advance (h : s.Operated) (hs : s.Proper) {p : Behaviour} (hadvance : s.advance id i p = some s') :
    s'.Operated := by
  cases p with
  | reply value =>
    obtain rfl := Option.some.inj hadvance
    exact h.of_same ((buses_conclude ..).trans (aside_leaveCall ..).buses)
  | fail fault =>
    obtain rfl := Option.some.inj hadvance
    exact h.of_same (buses_failed ..)
  | crash c =>
    obtain rfl := Option.some.inj hadvance
    exact h.of_same (buses_failed ..)
  | later rest =>
    obtain rfl := Option.some.inj hadvance
    exact h.of_same (aside_leaveCall s i).buses
  | request command next =>
    obtain rfl := Option.some.inj hadvance
    exact (h.perform hs i.context command).of_same rfl
  | pass gate next =>
    simp only [Session.advance] at hadvance
    split at hadvance
    · obtain rfl := Option.some.inj hadvance
      exact h
    · cases hadvance
  | publish bus message next =>
    have hmade := h.publishMessage hs i.context bus message
    simp only [Session.advance] at hadvance
    split at hadvance
    · rename_i s₁ c hs₁
      rw [hs₁] at hmade
      obtain rfl := Option.some.inj hadvance
      exact hmade.of_same (buses_failed ..)
    · rename_i s₁ publication hs₁
      rw [hs₁] at hmade
      obtain rfl := Option.some.inj hadvance
      exact hmade
  | await publication next =>
    simp only [Session.advance] at hadvance
    obtain ⟨p, -, hadvance⟩ := Option.bind_eq_some_iff.1 hadvance
    obtain ⟨result, -, hadvance⟩ := Option.bind_eq_some_iff.1 hadvance
    obtain rfl := Option.some.inj hadvance
    exact h.of_same (buses_watch ..)
  | record | arrive | forward | workerName =>
    obtain rfl := Option.some.inj hadvance
    exact h

theorem step (h : s.Operated) (hs : s.Proper) (hstep : s.step id = some s') : s'.Operated := by
  obtain ⟨i, -, htakes⟩ := takes_of_step hstep
  cases htakes with
  | called => exact h.of_same (buses_call ..)
  | advanced _ hadvance => exact h.advance hs hadvance
  | parked => exact h.of_same (buses_park ..)
  | interrupted => exact h.of_same ((interrupt_frame ..).1.trans (buses_park ..))

end Steps

end Operated

/-- Every bus that can be reached is what operations have made of it. -/
theorem Reachable.operated {s : Session} (h : s.Reachable) : s.Operated := by
  obtain ⟨tracing, h⟩ := h
  induction h with
  | refl =>
    intro id b hb
    cases hb
  | tail hprior ht ih =>
    have hs := Reachable.proper ⟨tracing, hprior⟩
    cases ht with
    | perform command => exact ih.perform hs _ command
    | publish hp => exact ih.publish hs hp
    | watch publication => exact ih.of_same (buses_watch ..)
    | define | take | gather | reallocate => exact ih
    | step hstep => exact ih.step hs hstep

end Session
end PubSub
