import PubSub.Proofs.Logging.Sessions

/-!
# Commands under the switch

A command does the same to two sessions that differ in the switch, and the answers differ at most in what they say
about the switch.
-/

namespace PubSub

theorem Script.twin_work {script : Script Command} (h : Script.isPrintable script) :
    Role.TwinWork (Script.logging true script).listener (Script.logging false script).listener :=
  fun role depth _ hsight => Script.twin_listener h role depth hsight

theorem Method.twin_handlers {methods : List (Method Command)} (h : Method.arePrintable methods) :
    List.Forall₂ Handler.Twin ((Method.loggingAll true methods).map Method.handler)
      ((Method.loggingAll false methods).map Method.handler) := by
  rw [Method.arePrintable_iff] at h
  simp only [Method.loggingAll_eq_map, List.map_map]
  refine List.forall₂_map_left_iff.2 (List.forall₂_map_right_iff.2 (List.forall₂_same.2 fun method hmethod => ?_))
  obtain ⟨name, type, kind, script⟩ := method
  exact .mk name type kind (Script.twin_work (h _ hmethod))

namespace Object.Twin

variable {o o' : Object} (h : o.Twin o')
include h

theorem identity : o.identity = o'.identity := by
  cases h
  rfl

theorem callback (identity : Nat) (label : String) (threadSafe patient : Bool) (lens : Lens) :
    (o.callback identity label threadSafe patient lens).Twin (o'.callback identity label threadSafe patient lens) := by
  obtain ⟨object, name, text, safe, hwork, hmethods⟩ := h
  exact .mk _ _ _ _ _ _ (hwork _)

theorem binding? (fresh : Nat) (route : Route) :
    Option.Rel Callback.KeyedTwin (o.binding? fresh route) (o'.binding? fresh route) := by
  have hidentity := h.identity
  have hlabel : o.label = o'.label := by
    cases h
    rfl
  have hsafe : o.threadSafe = o'.threadSafe := by
    cases h
    rfl
  have hcallback := h.callback
  cases route <;> simp only [Object.binding?, hidentity, hlabel, hsafe]
  case handlers => exact .none
  case viewed | viewedFunction | keyed => exact .some ⟨rfl, hcallback ..⟩
  all_goals
    split
    · exact .some ⟨rfl, hcallback ..⟩
    · exact .none

theorem length_methods : o.methods.length = o'.methods.length := by
  obtain ⟨_, _, _, _, _, hmethods⟩ := h
  exact hmethods.length_eq

theorem handlers : List.Forall₂ Callback.KeyedTwin o.handlers o'.handlers := by
  obtain ⟨_, _, _, _, _, hmethods⟩ := h
  refine List.forall₂_map_left_iff.2 (List.forall₂_map_right_iff.2 (hmethods.imp fun method method' hmethod => ?_))
  obtain ⟨name, type, kind, hwork⟩ := hmethod
  exact ⟨rfl, .mk _ _ _ _ _ _ (hwork _)⟩

end Object.Twin

namespace Session.Twin

variable {s s' : Session} (h : s.Twin s')
include h

section Subscribing

theorem subscribed {b b' : Bus} (hb : b.id = b'.id) (handle : Option String) (table : Option (List Nat))
    {result result' : Except BusError (Bus × Handle)}
    (hresult : Agree (fun x x' => x.1.Twin x'.1 ∧ x.2 = x'.2) result result') :
    TwinUpTo Answer.plain (s.subscribed b handle table result) (s'.subscribed b' handle table result') := by
  cases hresult with
  | error e => exact ⟨h, rfl⟩
  | @ok x x' hx =>
    obtain ⟨c, receipt⟩ := x
    obtain ⟨c', receipt'⟩ := x'
    obtain ⟨hc, rfl⟩ := hx
    simp only [Session.subscribed, hb]
    have hminor : ∀ n ∈ receipt.entries.map (fun e => Notice.subscribed e.1 e.2), n.isGrave = false :=
      List.forall_mem_map.2 fun e _ => rfl
    have hreported := ((h.putBus hc).placeAll b'.id receipt.entries).report_optional b b' hminor
    cases handle with
    | none => exact ⟨hreported, rfl⟩
    | some name =>
      have hhandles := congrArg (fun t : Table String Handle => t.put name receipt) hreported.handles
      exact ⟨{ hreported with handles := hhandles }, rfl⟩

theorem subscribe {b b' : Bus} (hb : b.Twin b') {o o' : Object} (ho : o.Twin o') (route : Route)
    (handle : Option String) :
    TwinUpTo Answer.plain (s.subscribe b o route handle) (s'.subscribe b' o' route handle) := by
  by_cases hroute : route = .handlers
  · subst hroute
    simp only [Session.subscribe, hb.isOpen, ho.length_methods]
    exact h.subscribed hb.id handle _ (hb.subscribeHandlers _ ho.handlers)
  · obtain ⟨hissued, hid⟩ := h.issue
    have hbinding := ho.binding? s'.issue.2 route
    simp only [Session.subscribe, hid]
    generalize o.binding? s'.issue.2 route = found at hbinding
    generalize o'.binding? s'.issue.2 route = found' at hbinding
    cases hbinding with
    | none => exact ⟨hissued, rfl⟩
    | some hbinding => exact hissued.subscribed hb.id handle none (hb.subscribe (.cons hbinding .nil))

theorem unsubscribe {b b' : Bus} (hb : b.Twin b') (handle : Handle) :
    TwinUpTo Answer.plain (s.unsubscribe b handle) (s'.unsubscribe b' handle) := by
  have hresult := hb.unsubscribe handle
  unfold Session.unsubscribe
  generalize b.unsubscribe handle = result at hresult
  generalize b'.unsubscribe handle = result' at hresult
  cases hresult with
  | error e => exact ⟨h, rfl⟩
  | @ok x x' hx =>
    obtain ⟨c, removed⟩ := x
    obtain ⟨c', removed'⟩ := x'
    obtain ⟨hc, rfl⟩ := hx
    exact ⟨(h.putBus hc).report_optional b b' (List.forall_mem_map.2 fun e _ => rfl), rfl⟩

end Subscribing

section Finding

variable {α β : Type} {R : α → β → Prop} {found : Option α} {found' : Option β}

theorem inspect (hfound : Option.Rel R found found') {answer : α → Answer} {answer' : β → Answer}
    (hanswer : ∀ a b, R a b → (answer a).plain = (answer' b).plain) :
    TwinUpTo Answer.plain (s.inspect found answer) (s'.inspect found' answer') := by
  cases hfound with
  | none => exact ⟨h, rfl⟩
  | some hab => exact ⟨h, hanswer _ _ hab⟩

theorem provided (hfound : Option.Rel R found found') {act : α → Session × Answer} {act' : β → Session × Answer}
    (hact : ∀ a b, R a b → TwinUpTo Answer.plain (act a) (act' b)) :
    TwinUpTo Answer.plain (s.provided found act) (s'.provided found' act') := by
  cases hfound with
  | none => exact ⟨h, rfl⟩
  | some hab => exact hact _ _ hab

end Finding

section Holding

theorem put_hold (name : String) (hold : Hold) :
    Session.Twin { s with holds := s.holds.put name hold } { s' with holds := s'.holds.put name hold } :=
  { h with holds := congrArg (fun t : Table String Hold => t.put name hold) h.holds }

theorem put_owner (name : String) {o o' : Owner} (ho : o.plain = o'.plain) :
    Session.Twin { s with owners := s.owners.put name o } { s' with owners := s'.owners.put name o' } :=
  { h with owners := h.owners.put name ho }

theorem hold (name : String) (bus : Nat) : (s.hold name bus).Twin (s'.hold name bus) :=
  (h.put_hold name _).dropUnkept

theorem openBus {c c' : Config} (hc : c.plain = c'.plain) :
    Agree (fun x x' => x.1.Twin x'.1 ∧ x.2.Twin x'.2) (s.openBus c) (s'.openBus c') := by
  obtain ⟨hissued, hid⟩ := h.issue
  have hstart := Bus.Twin.start s'.issue.2 hc
  have hworkers : c.startWorkers = c'.startWorkers := by
    rw [← c.startWorkers_plain, hc, c'.startWorkers_plain]
  simp only [Session.openBus, hid, hworkers]
  generalize Bus.start s'.issue.2 c = started at hstart
  generalize Bus.start s'.issue.2 c' = started' at hstart
  cases hstart with
  | error e => exact .error _
  | @ok b b' hb =>
    cases c'.startWorkers with
    | error e => exact .error _
    | ok u =>
      exact .ok ⟨(hissued.putBus hb).report_optional b b' (List.forall_mem_singleton.2 rfl), hb⟩

theorem initOwner (name : String) {o o' : Owner} (ho : o.plain = o'.plain) :
    TwinUpTo Answer.plain (s.initOwner name o) (s'.initOwner name o') := by
  have hbus : o.bus = o'.bus := (congrArg Owner.bus ho :)
  have hconfig : o.config.plain = o'.config.plain := (congrArg Owner.config ho :)
  have hopened := h.openBus hconfig
  unfold Session.initOwner
  rw [hbus]
  split
  · exact ⟨h, rfl⟩
  · generalize s.openBus o.config = result at hopened
    generalize s'.openBus o'.config = result' at hopened
    cases hopened with
    | error answer => exact ⟨h, rfl⟩
    | @ok x x' hx =>
      obtain ⟨hs, hb⟩ := hx
      refine ⟨(hs.put_owner name ?_).report rfl, rfl⟩
      simp only [Owner.plain, hconfig, hb.id]

theorem destroyOwner (name : String) {o o' : Owner} (ho : o.plain = o'.plain) :
    (s.destroyOwner name o).Twin (s'.destroyOwner name o') := by
  have hbus : o.bus = o'.bus := (congrArg Owner.bus ho :)
  have hconfig : o.config.plain = o'.config.plain := (congrArg Owner.config ho :)
  have hfound : Option.Rel Bus.Twin (o.bus.bind s.buses.get?) (o'.bus.bind s'.buses.get?) := by
    rw [hbus]
    cases o'.bus with
    | none => exact .none
    | some id => exact h.buses.get? id
  unfold Session.destroyOwner
  generalize o.bus.bind s.buses.get? = found at hfound
  generalize o'.bus.bind s'.buses.get? = found' at hfound
  cases hfound with
  | none => exact h
  | some hb =>
    have hclosed := (h.closeBus hb).report (rfl : List.filter Notice.isGrave [.destroyed] = _)
    have hplain : Owner.plain { o with bus := none } = Owner.plain { o' with bus := none } := by
      simp only [Owner.plain, hconfig]
    have howners := h.owners.put name hplain
    exact Session.Twin.dropUnkept { hclosed with owners := howners }

theorem dropName (name : String) (hold : Hold) :
    TwinUpTo Answer.plain (s.dropName name hold) (s'.dropName name hold) := by
  unfold Session.dropName
  split
  · exact ⟨(h.put_hold name _).dropUnkept, rfl⟩
  · exact ⟨h, rfl⟩

end Holding

theorem keysOn {b b' : Bus} (hb : b.Twin b') (cls : Name) :
    TwinUpTo Answer.plain (s.keysOn b cls) (s'.keysOn b' cls) := by
  have hkeys := hb.keysFor s.hierarchy.declared cls
  unfold Session.keysOn
  rw [← h.hierarchy]
  split
  · exact ⟨h, rfl⟩
  · generalize b.keysFor s.hierarchy.declared cls = result at hkeys
    generalize b'.keysFor s.hierarchy.declared cls = result' at hkeys
    cases hkeys with
    | error c => exact ⟨h, rfl⟩
    | @ok x x' hx =>
      obtain ⟨hresolution, hc⟩ := hx
      exact ⟨h.putBus hc, congrArg (fun r : Resolution => Answer.keys r.keys) hresolution⟩

theorem define (name label : String) (threadSafe : Bool) {work work' : Role → Listener}
    (hwork : Role.TwinWork work work') {methods methods' : List Handler}
    (hmethods : List.Forall₂ Handler.Twin methods methods') :
    TwinUpTo Answer.plain (s.define name label threadSafe work methods)
      (s'.define name label threadSafe work' methods') := by
  obtain ⟨hissued, hid⟩ := h.issue
  simp only [Session.define]
  rw [hid]
  have hobjects := hissued.objects.put name (.mk s'.issue.2 name label threadSafe hwork hmethods)
  exact ⟨{ hissued with objects := hobjects }, rfl⟩

theorem put_pending (name : String) (publication : Nat) :
    Session.Twin { s with pending := s.pending.put name publication }
      { s' with pending := s'.pending.put name publication } :=
  { h with pending := congrArg (fun t : Table String Nat => t.put name publication) h.pending }

theorem erase_pending (name : String) :
    Session.Twin { s with pending := s.pending.erase name } { s' with pending := s'.pending.erase name } :=
  { h with pending := congrArg (fun t : Table String Nat => t.erase name) h.pending }

theorem forget (name : String) (publication : Nat) :
    (s.forget name publication).Twin (s'.forget name publication) := by
  have hpending := congrArg (fun t : Table String Nat => t.erase name) h.pending
  exact { h.unwatch publication with pending := hpending }

theorem startPublish (ctx : Context) (name : String) {p : Publish} (hp : p.recipe.unprintable = false) :
    TwinUpTo Answer.plain (s.startPublish ctx name p) (s'.startPublish ctx name p) := by
  have hpublished := h.publish ctx hp
  unfold Session.startPublish
  generalize s.publish ctx p = result at hpublished
  generalize s'.publish ctx p = result' at hpublished
  cases hpublished with
  | none => exact ⟨h, rfl⟩
  | @some x x' hx =>
    obtain ⟨t, result⟩ := x
    obtain ⟨t', result'⟩ := x'
    obtain ⟨ht, rfl⟩ := hx
    cases result with
    | error c => exact ⟨ht, rfl⟩
    | ok publication => exact ⟨ht.put_pending name publication, rfl⟩

theorem perform_openBus (ctx : Context) (name : String) {base base' : Config} {settings settings' : List Setting}
    (hconfig : (settings.foldl Config.set base).plain = (settings'.foldl Config.set base').plain) :
    TwinUpTo Answer.plain (s.perform ctx (.openBus name base settings))
      (s'.perform ctx (.openBus name base' settings')) := by
  have hopened := h.openBus hconfig
  simp only [Session.perform]
  generalize s.openBus (settings.foldl Config.set base) = result at hopened
  generalize s'.openBus (settings'.foldl Config.set base') = result' at hopened
  cases hopened with
  | error answer => exact ⟨h, rfl⟩
  | @ok x x' hx =>
    obtain ⟨t, b⟩ := x
    obtain ⟨t', b'⟩ := x'
    obtain ⟨ht, hb⟩ := hx
    refine ⟨?_, rfl⟩
    show (t.hold name b.id).Twin (t'.hold name b'.id)
    rw [show b.id = b'.id from hb.id]
    exact ht.hold name b'.id

theorem perform (ctx : Context) {command : Command} (hcommand : command.isPrintable) :
    TwinUpTo Answer.plain (s.perform ctx (command.logging true)) (s'.perform ctx (command.logging false)) := by
  cases command with
  | declare later =>
    exact ⟨{ h with hierarchy := congrArg (fun t : Hierarchy => t.replace later) h.hierarchy }, rfl⟩
  | openBus name base settings =>
    refine h.perform_openBus ctx name ?_
    -- the switch is set last
    simp only [List.foldl_append]
    rfl
  | clone name copy =>
    refine h.provided (h.bus? name) fun b b' hb => ⟨?_, rfl⟩
    rw [hb.id]
    exact h.hold copy b'.id
  | drop name =>
    refine h.provided (Table.rel_get?_of_eq h.holds name) fun hold hold' hh => ?_
    subst hh
    exact h.dropName name hold
  | alive name =>
    refine h.inspect (Table.rel_get?_of_eq h.holds name) fun hold hold' hh => ?_
    rw [hh, h.isKept]
  | closed name => exact h.inspect (h.bus? name) fun b b' hb => by rw [hb.isOpen]
  | close name => exact h.provided (h.bus? name) fun b b' hb => ⟨h.closeBus hb, rfl⟩
  | count name type =>
    cases type with
    | none => exact h.inspect (h.bus? name) fun b b' hb => congrArg Answer.number hb.registry.size
    | some type => exact h.inspect (h.bus? name) fun b b' hb => congrArg Answer.number (hb.registry.count _)
  | keys name cls => exact h.provided (h.bus? name) fun b b' hb => h.keysOn hb cls
  | debug name => exact h.inspect (h.bus? name) fun b b' hb => by rw [hb.debug]
  | config name => exact h.inspect (h.bus? name) fun b b' hb => congrArg Answer.config hb.config
  | sameBus left right =>
    refine h.inspect (h.bus? left) fun l l' hl => ?_
    have hright := h.bus? right
    generalize s.bus? right = found at hright
    generalize s'.bus? right = found' at hright
    cases hright with
    | none => rfl
    | some hr => simp only [Option.elim_some, hl.id, hr.id]
  | object name label threadSafe script methods =>
    obtain ⟨hscript, hmethods⟩ := Bool.and_eq_true_iff.1 hcommand
    exact h.define name label threadSafe (Script.twin_work hscript) (Method.twin_handlers hmethods)
  | subscribe name object route handle =>
    exact h.provided (h.bus? name) fun b b' hb =>
      h.provided (h.objects.get? object) fun o o' ho => h.subscribe hb ho route handle
  | unsubscribe name handle =>
    refine h.provided (h.bus? name) fun b b' hb => ?_
    refine h.provided (Table.rel_get?_of_eq h.handles handle) fun receipt receipt' hr => ?_
    subst hr
    exact h.unsubscribe hb receipt
  | handle name => exact h.inspect (Table.rel_get?_of_eq h.handles name) fun receipt receipt' hr => by rw [hr]
  | sameHandle left right =>
    refine h.inspect (Table.rel_get?_of_eq h.handles left) fun l l' hl => ?_
    rw [hl, h.handles]
  | start name p => exact h.startPublish ctx name (by simpa [Command.isPrintable] using hcommand)
  | forget name =>
    refine h.provided (Table.rel_get?_of_eq h.pending name) fun publication publication' hp => ?_
    subst hp
    exact ⟨h.forget name publication, rfl⟩
  | release gate permits => exact ⟨h.changeGate gate (·.release permits), rfl⟩
  | peak object =>
    refine h.inspect (h.objects.get? object) fun o o' ho => ?_
    rw [h.activity, show o.identity = o'.identity from ho.identity]
  | calls object =>
    refine h.inspect (h.objects.get? object) fun o o' ho => ?_
    rw [h.activity, show o.identity = o'.identity from ho.identity]
  | managed name config =>
    have hplain : Owner.plain ⟨{ config with enableLogging := true }, none⟩ =
      Owner.plain ⟨{ config with enableLogging := false }, none⟩ := rfl
    exact ⟨(h.put_owner name hplain).dropUnkept, rfl⟩
  | init name => exact h.provided (h.owners.get? name) fun o o' ho => h.initOwner name ho
  | destroy name => exact h.provided (h.owners.get? name) fun o o' ho => ⟨h.destroyOwner name ho, rfl⟩
  | managedBus name bus =>
    refine h.provided (h.owners.get? name) fun o o' ho => ?_
    rw [show o.bus = o'.bus from (congrArg Owner.bus ho :)]
    split
    · exact ⟨h, rfl⟩
    · exact ⟨h.hold bus _, rfl⟩

end Session.Twin

end PubSub
