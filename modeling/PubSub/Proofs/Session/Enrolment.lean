import PubSub.Proofs.Registry.Bulk
import PubSub.Proofs.Session.Owners

/-!
# Enrolment

Where the callbacks of a bus come from. A callback with the identity of an object that is defined was offered by that
object itself: it is the object as a listener, or one of its handler methods. Whoever only acts for an object has an
identity of its own.
-/

namespace PubSub

/-- The object itself takes events under the key, as a listener or with one of its methods. -/
def Object.Offers (o : Object) (key : Key) (callback : Callback) : Prop :=
  (key, callback) ∈ o.handlers ∨ ∃ cls, o.binding? o.identity (.shared cls) = some (key, callback)

theorem Object.Offers.identity {o : Object} {key : Key} {callback : Callback} (h : o.Offers key callback) :
    callback.identity = o.identity := by
  rcases h with h | ⟨cls, h⟩
  · obtain ⟨m, -, hm⟩ := List.mem_map.1 h
    cases hm
    rfl
  · simp only [binding?] at h
    split at h
    · cases h
      rfl
    · cases h

theorem Object.offers_of_binding {o : Object} {fresh : Nat} {route : Route} {key : Key} {callback : Callback}
    (h : o.binding? fresh route = some (key, callback)) : o.Offers key callback ∨ callback.identity = fresh := by
  cases route with
  | shared cls =>
    refine Or.inl (Or.inr ⟨cls, ?_⟩)
    simpa only [binding?] using h
  | moved | anonymous | function =>
    simp only [binding?] at h
    split at h
    · cases h
      exact Or.inr rfl
    · cases h
  | viewed | viewedFunction | keyed =>
    cases h
    exact Or.inr rfl
  | handlers => cases h

namespace Session

variable {s s' : Session} {ctx : Context} {b : Bus} {id : Nat}

section Unenrolled

theorem Unenrolled.provided {α : Type} {found : Option α} {act : α → Session × Answer}
    (hact : ∀ a, found = some a → s.Unenrolled (act a).1) : s.Unenrolled (s.provided found act).1 :=
  provided_cases (motive := fun r => s.Unenrolled r.1) (refl s) hact

theorem Unenrolled.dropUnkept (h : s.Unenrolled s') : s.Unenrolled s'.dropUnkept :=
  h.trans (Quiet.dropUnkept s').toUnenrolled

private theorem unenrolled_openBus {config : Config} (h : s.openBus config = .ok (s', b)) : s.Unenrolled s' := by
  have hempty : b.registry = .empty := congrArg Bus.registry (opened_of_openBus h).2.1
  obtain ⟨b', -, h⟩ := bind_eq_ok_iff.1 h
  obtain ⟨-, -, h⟩ := bind_eq_ok_iff.1 h
  cases h
  have hissue : s.Unenrolled s.issue.1 := .of_same rfl rfl
  refine (hissue.trans (.putBus ?_)).trans (Quiet.report ..).toUnenrolled
  intro k u hu
  rw [hempty] at hu
  cases hu

private theorem unenrolled_hold (s : Session) (name : String) (bus : Nat) : s.Unenrolled (s.hold name bus) :=
  .dropUnkept (.of_same rfl rfl)

private theorem unenrolled_initOwner (name : String) (owner : Owner) : s.Unenrolled (s.initOwner name owner).1 := by
  simp only [initOwner]
  split
  · exact .refl s
  · cases ho : s.openBus owner.config with
    | error answer => exact .refl s
    | ok r =>
      refine (unenrolled_openBus (b := r.2) ho).trans (.trans ?_ (Quiet.report ..).toUnenrolled)
      exact .of_same rfl rfl

private theorem unenrolled_destroyOwner (name : String) (owner : Owner) : s.Unenrolled (s.destroyOwner name owner) := by
  simp only [destroyOwner]
  split
  · exact .refl s
  · rename_i b _
    have hclosed := ((Quiet.closeBus s b).trans (.report _ [.destroyed])).toUnenrolled
    exact .dropUnkept (hclosed.trans (.of_same rfl rfl))

theorem Unenrolled.perform (hs : s.Proper) (ctx : Context) {command : Command} (h : command.enrols = false) :
    s.Unenrolled (s.perform ctx command).1 := by
  by_cases hreassigns : command.reassigns
  swap
  · exact (Quiet.perform hs ctx (Bool.eq_false_iff.2 hreassigns) h).toUnenrolled
  cases command with
  | openBus name base settings =>
    simp only [Session.perform]
    cases ho : s.openBus (settings.foldl Config.set base) with
    | error answer => exact refl s
    | ok r => exact (unenrolled_openBus (b := r.2) ho).trans (unenrolled_hold ..)
  | clone name copy => exact provided fun b _ => unenrolled_hold s copy b.id
  | drop name =>
    refine provided fun hold _ => ?_
    simp only [dropName]
    split
    · exact dropUnkept (of_same rfl rfl)
    · exact refl s
  | managed name config => exact dropUnkept (of_same rfl rfl)
  | init name => exact provided fun owner _ => unenrolled_initOwner name owner
  | destroy name => exact provided fun owner _ => unenrolled_destroyOwner name owner
  | managedBus name bus =>
    refine provided fun owner _ => ?_
    cases owner.bus with
    | none => exact refl s
    | some id => exact unenrolled_hold s bus id
  | _ => cases hreassigns

end Unenrolled

/-- Objects differ in their identities, which were given out, and so were those of callbacks. A callback with the identity
of an object was offered by it. -/
structure Attributed (s : Session) : Prop where
  object : ∀ name o, s.objects.get? name = some o → o.identity ≤ s.issued
  unique : ∀ name name' o o', s.objects.get? name = some o → s.objects.get? name' = some o' →
    o.identity = o'.identity → o = o'
  issued : ∀ id b k u, s.buses.get? id = some b → u ∈ b.registry.row k → u.callback.identity ≤ s.issued
  offered : ∀ id b k u name o, s.buses.get? id = some b → u ∈ b.registry.row k → s.objects.get? name = some o →
    u.callback.identity = o.identity → o.Offers k u.callback

namespace Attributed

theorem unenrolled (h : s.Attributed) (hissued : s.issued ≤ s'.issued) (hsame : s.Unenrolled s') : s'.Attributed where
  object name o ho := Nat.le_trans (h.object name o (hsame.objects ▸ ho)) hissued
  unique name name' o o' ho ho' := h.unique name name' o o' (hsame.objects ▸ ho) (hsame.objects ▸ ho')
  issued id b' k u hb' hu := by
    obtain ⟨b, hb, hu⟩ := hsame.rows id b' k u hb' hu
    exact Nat.le_trans (h.issued id b k u hb hu) hissued
  offered id b' k u name o hb' hu ho := by
    obtain ⟨b, hb, hu⟩ := hsame.rows id b' k u hb' hu
    exact h.offered id b k u name o hb hu (hsame.objects ▸ ho)

theorem define (h : s.Attributed) (name label : String) (threadSafe : Bool) (work : Role → Listener)
    (methods : List Handler) : (s.define name label threadSafe work methods).1.Attributed := by
  have hcases {n : String} {o : Object}
      (ho : (s.define name label threadSafe work methods).1.objects.get? n = some o) :
      o = ⟨s.issued + 1, name, label, threadSafe, work, methods⟩ ∨ s.objects.get? n = some o := by
    simp only [Session.define, Table.get?_put] at ho
    split at ho
    · exact Or.inl (Option.some.inj ho).symm
    · exact Or.inr ho
  refine ⟨?_, ?_, ?_, ?_⟩
  · intro n o ho
    rcases hcases ho with rfl | ho
    · exact Nat.le_refl _
    · exact Nat.le_succ_of_le (h.object n o ho)
  · intro n n' o o' ho ho' hidentity
    rcases hcases ho with rfl | ho <;> rcases hcases ho' with rfl | ho'
    · rfl
    · have := h.object n' o' ho'
      simp only at hidentity
      omega
    · have := h.object n o ho
      simp only at hidentity
      omega
    · exact h.unique n n' o o' ho ho' hidentity
  · intro id b k u hb hu
    exact Nat.le_succ_of_le (h.issued id b k u hb hu)
  · intro id b k u n o hb hu ho hidentity
    rcases hcases ho with rfl | ho
    · have := h.issued id b k u hb hu
      simp only at hidentity
      omega
    · exact h.offered id b k u n o hb hu ho hidentity

/-- A bus gets callbacks that are offered by one object, or that are new. -/
theorem putBus (h : s.Attributed) (hb : s.buses.get? b.id = some b) {name : String} {o : Object}
    (ho : s.objects.get? name = some o) {b' : Bus} {issued : Nat} (hissued : s.issued ≤ issued)
    (hrow : ∀ k, ∀ u ∈ b'.registry.row k, u ∈ b.registry.row k ∨ o.Offers k u.callback ∨
      (s.issued < u.callback.identity ∧ u.callback.identity ≤ issued)) :
    ({ s with issued := issued }.putBus b').Attributed := by
  have hobject {n : String} {o' : Object} (ho' : s.objects.get? n = some o') := h.object n o' ho'
  have hcases {i : Nat} {b₁ : Bus} {k : Key} {u : Subscription}
      (hb₁ : (s.buses.put b'.id b').get? i = some b₁) (hu : u ∈ b₁.registry.row k) :
      (∃ i b₀, s.buses.get? i = some b₀ ∧ u ∈ b₀.registry.row k) ∨ o.Offers k u.callback ∨
        (s.issued < u.callback.identity ∧ u.callback.identity ≤ issued) := by
    rw [Table.get?_put] at hb₁
    split at hb₁
    · obtain rfl := Option.some.inj hb₁
      exact (hrow k u hu).imp_left fun hu => ⟨b.id, b, hb, hu⟩
    · exact Or.inl ⟨i, b₁, hb₁, hu⟩
  refine ⟨fun n o' ho' => Nat.le_trans (h.object n o' ho') hissued, h.unique, ?_, ?_⟩
  · intro i b₁ k u hb₁ hu
    rcases hcases hb₁ hu with ⟨i, b₀, hb₀, hu⟩ | hoffers | ⟨-, hnew⟩
    · exact Nat.le_trans (h.issued i b₀ k u hb₀ hu) hissued
    · rw [hoffers.identity]
      exact Nat.le_trans (hobject ho) hissued
    · exact hnew
  · intro i b₁ k u n o' hb₁ hu ho' hidentity
    rcases hcases hb₁ hu with ⟨i, b₀, hb₀, hu⟩ | hoffers | ⟨hnew, -⟩
    · exact h.offered i b₀ k u n o' hb₀ hu ho' hidentity
    · obtain rfl := h.unique name n o o' ho ho' (hoffers.identity.symm.trans hidentity)
      exact hoffers
    · have := hobject ho'
      omega

theorem subscribed (h : s.Attributed) (hb : s.buses.get? b.id = some b) {name : String} {o : Object}
    (ho : s.objects.get? name = some o) {issued : Nat} (hissued : s.issued ≤ issued) {bindings : List (Key × Callback)}
    (hbindings : ∀ e ∈ bindings, o.Offers e.1 e.2 ∨ (s.issued < e.2.identity ∧ e.2.identity ≤ issued))
    {result : Except BusError (Bus × Handle)} (hresult : ∀ r, result = .ok r → b.subscribe bindings = .ok r)
    (handle : Option String) (table : Option (List Nat)) :
    ({ s with issued := issued }.subscribed b handle table result).1.Attributed := by
  cases result with
  | error e => exact h.unenrolled hissued (.of_same rfl rfl)
  | ok r =>
    obtain ⟨-, hb', -⟩ := Bus.subscribe_eq_ok_iff.1 (hresult r rfl)
    have hput : ({ s with issued := issued }.putBus r.1).Attributed := by
      refine h.putBus hb ho hissued ?_
      intro k u hu
      rw [hb'] at hu
      exact (Registry.bound_of_mem_registerAll hu).imp_right (hbindings _)
    obtain ⟨addresses, hplaced⟩ := exists_placeAll ({ s with issued := issued }.putBus r.1) b.id r.2.entries
    have hplace : (({ s with issued := issued }.putBus r.1).placeAll b.id r.2.entries).Attributed := by
      rw [hplaced]
      exact hput.unenrolled (Nat.le_refl _) (.of_same rfl rfl)
    have hreported := Quiet.report (({ s with issued := issued }.putBus r.1).placeAll b.id r.2.entries)
      (b.optional (r.2.entries.map fun e => .subscribed e.1 e.2))
    have hissued' := (aside_report (({ s with issued := issued }.putBus r.1).placeAll b.id r.2.entries)
      (b.optional (r.2.entries.map fun e => .subscribed e.1 e.2))).issued
    cases handle with
    | none => exact hplace.unenrolled hissued' hreported.toUnenrolled
    | some stored => exact hplace.unenrolled hissued' (hreported.toUnenrolled.trans (.of_same rfl rfl))

theorem subscribe (h : s.Attributed) (hb : s.buses.get? b.id = some b) {name : String} {o : Object}
    (ho : s.objects.get? name = some o) (route : Route) (handle : Option String) :
    (s.subscribe b o route handle).1.Attributed := by
  unfold Session.subscribe
  split
  · have hoffers : ∀ e ∈ o.handlers, o.Offers e.1 e.2 ∨ (s.issued < e.2.identity ∧ e.2.identity ≤ s.issued) :=
      fun e he => Or.inl (Or.inl he)
    refine h.subscribed hb ho (Nat.le_refl _) hoffers ?_ _ _
    intro r hr
    simp only [Bus.subscribeHandlers] at hr
    split at hr
    · cases hr
    · exact hr
  · simp only
    split
    · exact h.unenrolled (Nat.le_succ _) (.of_same rfl rfl)
    · rename_i binding hbinding
      have hoffers : ∀ e ∈ [binding],
          o.Offers e.1 e.2 ∨ (s.issued < e.2.identity ∧ e.2.identity ≤ s.issued + 1) := by
        intro e he
        obtain rfl := List.mem_singleton.1 he
        refine (Object.offers_of_binding hbinding).imp_right fun hfresh => ?_
        rw [hfresh]
        exact ⟨Nat.lt_succ_self _, Nat.le_refl _⟩
      exact h.subscribed hb ho (Nat.le_succ _) hoffers (fun _ hr => hr) _ _

theorem perform (hs : s.Proper) (h : s.Attributed) (ctx : Context) (command : Command) :
    (s.perform ctx command).1.Attributed := by
  by_cases henrols : command.enrols
  swap
  · have hacts : s.Acts ctx (s.perform ctx command).1 := acts_perform hs command
    have hissued := (Extends.moves hs hacts.moves).issued
    exact h.unenrolled hissued (.perform hs ctx (Bool.eq_false_iff.2 henrols))
  cases command with
  | object name label threadSafe script methods => exact h.define name label threadSafe _ _
  | subscribe name object route handle =>
    simp only [Session.perform, Session.provided]
    cases hb : s.bus? name with
    | none => exact h
    | some b =>
      simp only [Option.elim_some]
      cases ho : s.objects.get? object with
      | none => exact h
      | some o => exact h.subscribe (get?_of_bus? hs hb) ho route handle
  | _ => cases henrols

theorem transition (hs : s.Proper) (h : s.Attributed) (ht : Transition s s') : s'.Attributed := by
  have hissued := (Extends.moves hs (moves_of_transition hs ht)).issued
  cases ht with
  | perform command => exact h.perform hs _ command
  | define name label threadSafe work methods => exact h.define name label threadSafe work methods
  | publish hp => exact h.unenrolled hissued (Quiet.publish hs hp).toUnenrolled
  | watch publication => exact h.unenrolled hissued (Quiet.watch s publication).toUnenrolled
  | take name => exact h.unenrolled hissued (.of_same rfl rfl)
  | gather => exact h.unenrolled hissued (.of_same rfl rfl)
  | reallocate => exact h.unenrolled hissued (.of_same rfl rfl)
  | step hstep =>
    rcases quiet_or_request_of_step hs hstep with hquiet | ⟨i, command, next, -, -, rfl⟩
    · exact h.unenrolled hissued hquiet.toUnenrolled
    · exact (h.perform hs i.context command).unenrolled (Nat.le_refl _) (.of_same rfl rfl)

end Attributed

theorem Reachable.attributed (h : s.Reachable) : s.Attributed := by
  obtain ⟨tracing, h⟩ := h
  induction h with
  | refl =>
    refine ⟨?_, ?_, ?_, ?_⟩
    · intro name o ho
      cases ho
    · intro name name' o o' ho
      cases ho
    · intro id b k u hb
      cases hb
    · intro id b k u name o hb
      cases hb
  | tail hprior ht ih => exact ih.transition (Reachable.proper ⟨tracing, hprior⟩) ht

end Session
end PubSub
