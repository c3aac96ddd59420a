import PubSub.Proofs.Buses
import PubSub.Proofs.Exceptions
import PubSub.Proofs.Session.Moves
import PubSub.Proofs.Session.Scheduling

/-!
# Proper sessions

Whatever is filed under an identity was given that identity, each invocation belongs to a publication, and it is parked
only where it may have to wait. Every move keeps a session proper.
-/

namespace PubSub

namespace Bus

theorem cases_of_changes {b b' : Bus} (h : b.Changes b') :
    (b.isOpen ∧ ((∃ bindings, b' = { b with registry := (b.registry.registerAll bindings).1 }) ∨
      ∃ entries, b' = { b with registry := (removeAll b.registry entries).1 })) ∨
    b' = b.close ∨ ∃ matcher, b' = { b with matcher } := by
  cases h with
  | @subscribed bindings _ _ h =>
    obtain ⟨hopen, rfl, -⟩ := subscribe_eq_ok_iff.1 h
    exact Or.inl ⟨hopen, Or.inl ⟨bindings, rfl⟩⟩
  | @unsubscribed handle _ _ h =>
    obtain ⟨-, hopen, rfl, -⟩ := unsubscribe_eq_ok_iff.1 h
    exact Or.inl ⟨hopen, Or.inr ⟨handle.entries, rfl⟩⟩
  | closed => exact Or.inr (Or.inl rfl)
  | looked h =>
    obtain ⟨⟨known, matcher⟩, -, h⟩ := bind_eq_ok_iff.1 h
    cases h
    exact Or.inr (Or.inr ⟨matcher, rfl⟩)
  | @published _ _ _ d _ => exact Or.inr (Or.inr ⟨d.matcher, rfl⟩)

theorem id_eq_of_changes {b b' : Bus} (h : b.Changes b') : b'.id = b.id := by
  rcases cases_of_changes h with ⟨-, ⟨bindings, rfl⟩ | ⟨entries, rfl⟩⟩ | rfl | ⟨matcher, rfl⟩ <;> rfl

theorem isOpen_of_changes {b b' : Bus} (h : b.Changes b') (hopen : b'.isOpen) : b.isOpen := by
  rcases cases_of_changes h with ⟨hopen', -⟩ | rfl | ⟨matcher, rfl⟩
  · exact hopen'
  · cases hopen
  · exact hopen

theorem registry_of_changes {b b' : Bus} (h : b.Changes b') : b.registry.issued ≤ b'.registry.issued ∧
    ∀ k, ∀ s ∈ b'.registry.row k, s ∈ b.registry.row k ∨ b.registry.issued < s.id := by
  rcases cases_of_changes h with ⟨-, ⟨bindings, rfl⟩ | ⟨entries, rfl⟩⟩ | rfl | ⟨matcher, rfl⟩
  · exact ⟨b.registry.issued_le_registerAll bindings, fun _ _ => Registry.mem_row_registerAll⟩
  · have hissued := issued_removeAll b.registry entries
    exact ⟨Nat.le_of_eq hissued.symm, fun _ _ hm => Or.inl (mem_row_removeAll hm)⟩
  · exact ⟨Nat.le_refl _, fun _ _ hm => by cases hm⟩
  · exact ⟨Nat.le_refl _, fun _ _ => Or.inl⟩

theorem registry_of_start {id : Nat} {config : Config} {b : Bus} (h : start id config = .ok b) :
    b.registry = .empty := by
  simp only [start] at h
  split at h
  · cases h
    rfl
  · cases h

theorem isRefusal_of_publish {b : Bus} {declared : Name → Except Crash Descriptor} {depth : Nat} {e : Event}
    {d : Dispatch} (h : b.publish declared depth e = .ok d) {error : PublishError} (hplan : d.plan = .refused error) :
    error.isRefusal := by
  cases decides_of_publish h with
  | closed | tooDeep =>
    cases hplan
    rfl
  | heard | unheard | carried | uncarried => cases hplan

theorem id_of_start {id : Nat} {config : Config} {b : Bus} (h : start id config = .ok b) : b.id = id := by
  simp only [start] at h
  split at h
  · cases h
    rfl
  · cases h

end Bus

namespace Invocation

@[simp]
theorem publication_goOn (i : Invocation) (p : Behaviour) : (i.goOn p).publication = i.publication := by
  simp only [goOn]
  split <;> rfl

@[simp]
theorem publication_park (i : Invocation) (ticket : Nat) : (i.park ticket).publication = i.publication := by
  simp only [park]
  split <;> rfl

@[simp]
theorem rest?_goOn (i : Invocation) (p : Behaviour) : (i.goOn p).rest? = some p := by
  cases hs : i.stage <;> simp [goOn, rest?, hs]

@[simp]
theorem subscription_goOn (i : Invocation) (p : Behaviour) : (i.goOn p).subscription = i.subscription := by
  simp only [goOn]
  split <;> rfl

@[simp]
theorem context_goOn (i : Invocation) (p : Behaviour) : (i.goOn p).context = i.context := by
  simp only [goOn]
  split <;> rfl

@[simp]
theorem context_park (i : Invocation) (ticket : Nat) : (i.park ticket).context = i.context := by
  simp only [park]
  split <;> rfl

@[simp]
theorem subscription_park (i : Invocation) (ticket : Nat) : (i.park ticket).subscription = i.subscription := by
  simp only [park]
  split <;> rfl

@[simp]
theorem rest?_park (i : Invocation) (ticket : Nat) : (i.park ticket).rest? = i.rest? := by
  cases hs : i.stage <;> simp [park, rest?, hs]

theorem sound_goOn (i : Invocation) (p : Behaviour) : (i.goOn p).Sound := by
  cases hs : i.stage <;> simp [goOn, Sound, hs]

end Invocation

namespace Session

structure Proper (s : Session) : Prop where
  buses : s.buses.Proper
  invocations : s.invocations.Proper
  publications : s.publications.Proper
  bus : ∀ id b, s.buses.get? id = some b → b.id = id ∧ id ≤ s.issued
  issued : s.InvocationsIssued
  publication : ∀ id p, s.publications.get? id = some p → id ≤ s.issued
  belongs : ∀ id i, s.invocations.get? id = some i → ∃ p, s.publications.get? i.publication = some p
  sound : ∀ id i, s.invocations.get? id = some i → i.Sound

theorem proper_start (tracing : Bool) : (start tracing).Proper where
  buses := Table.proper_empty
  invocations := Table.proper_empty
  publications := Table.proper_empty
  bus _ _ h := by cases h
  issued _ _ h := by cases h
  publication _ _ h := by cases h
  belongs _ _ h := by cases h
  sound _ _ h := by cases h

theorem Aside.rest (s : Session) (activities : Table Nat Activity) (gates : Table String Gate)
    (holds : Table String Hold) (objects : Table String Object) (handles : Table String Handle)
    (pending : Table String Nat) (owners : Table String Owner) (forwarded : List Nat) (log : List LogEntry)
    (notices : List Notice) (allocator : Allocator) :
    s.Aside { s with activities, gates, holds, objects, handles, pending, owners, forwarded, log, notices, allocator } :=
  ⟨rfl, rfl, Nat.le_refl _, rfl, rfl, rfl, rfl⟩

theorem aside_issue (s : Session) : s.Aside s.issue.1 :=
  ⟨rfl, rfl, Nat.le_succ _, rfl, rfl, rfl, rfl⟩

theorem aside_report (s : Session) (ns : List Notice) : s.Aside (s.report ns) := by
  simp only [report]
  split <;> exact .rest ..

theorem Progress.exists_invocation {id : Nat} {s s' : Session} (h : Progress id s s') :
    ∃ i, s.invocations.get? id = some i := by
  cases h <;> exact ⟨_, ‹s.invocations.get? id = some _›⟩

private theorem issued_report (s : Session) (ns : List Notice) : (s.report ns).issued = s.issued := by
  simp only [report]
  split <;> rfl

theorem finish_frame (s : Session) (id : Nat) (i : Invocation) (o : Outcome) :
    (s.finish id i o).hierarchy = s.hierarchy ∧ (s.finish id i o).issued = s.issued ∧
    (s.finish id i o).buses = s.buses ∧ (s.finish id i o).invocations = s.invocations.erase id ∧
    (s.finish id i o).publications = (s.publications.get? i.publication).elim s.publications
      fun p => s.publications.put i.publication (p.add id o) := by
  simp only [finish]
  cases hp : s.publications.get? i.publication with
  | none => exact ⟨rfl, rfl, rfl, rfl, rfl⟩
  | some p =>
    have haside := aside_report
      (({ s with invocations := s.invocations.erase id } : Session).putPublication i.publication (p.add id o))
      (if p.watched && o.hasCrashed then [.listenerCrashed] else [])
    exact ⟨haside.hierarchy, issued_report _ _, haside.buses, haside.invocations, haside.publications⟩

theorem finish_rest (s : Session) (id : Nat) (i : Invocation) (o : Outcome) :
    (s.finish id i o).tracing = s.tracing ∧ (s.finish id i o).addresses = s.addresses := by
  simp only [finish]
  cases s.publications.get? i.publication with
  | none => exact ⟨rfl, rfl⟩
  | some p => exact ⟨(aside_report _ _).tracing, (aside_report _ _).addresses⟩

theorem get?_finish (s : Session) (id : Nat) (i : Invocation) (o : Outcome) :
    (s.finish id i o).invocations.get? id = none := by
  rw [(finish_frame s id i o).2.2.2.1, Table.get?_erase, if_pos rfl]

namespace Proper

variable {s s' : Session}

theorem aside (hs : s.Proper) (h : s.Aside s') : s'.Proper where
  buses := h.buses ▸ hs.buses
  invocations := h.invocations ▸ hs.invocations
  publications := h.publications ▸ hs.publications
  bus id b hb := by
    have := hs.bus id b (h.buses ▸ hb)
    have := h.issued
    omega
  issued id i hi := Nat.le_trans (hs.issued id i (h.invocations ▸ hi)) h.issued
  publication id p hp := Nat.le_trans (hs.publication id p (h.publications ▸ hp)) h.issued
  belongs id i hi := h.publications ▸ hs.belongs id i (h.invocations ▸ hi)
  sound id i hi := hs.sound id i (h.invocations ▸ hi)

theorem issue (hs : s.Proper) : s.issue.1.Proper :=
  hs.aside (aside_issue s)

theorem putAddresses (hs : s.Proper) (addresses : Table Caller Nat) : { s with addresses }.Proper :=
  { hs with }

theorem putBus (hs : s.Proper) {b : Bus} (hb : b.id ≤ s.issued) : (s.putBus b).Proper where
  buses := Table.proper_put hs.buses _ _
  invocations := hs.invocations
  publications := hs.publications
  bus id b' hb' := by
    simp only [Session.putBus, Table.get?_put] at hb'
    split at hb'
    · cases hb'
      have : id = b.id := ‹_›
      exact ⟨this.symm, this ▸ hb⟩
    · exact hs.bus id b' hb'
  issued := hs.issued
  publication := hs.publication
  belongs := hs.belongs
  sound := hs.sound

theorem putPublication (hs : s.Proper) {id : Nat} (hid : id ≤ s.issued) (p : Publication) :
    (s.putPublication id p).Proper where
  buses := hs.buses
  invocations := hs.invocations
  publications := Table.proper_put hs.publications _ _
  bus := hs.bus
  issued := hs.issued
  publication id' p' hp' := by
    simp only [Session.putPublication, Table.get?_put] at hp'
    split at hp'
    · have : id' = id := ‹_›
      exact this ▸ hid
    · exact hs.publication id' p' hp'
  belongs id' i hi := by
    simp only [Session.putPublication, Table.get?_put]
    split
    · exact ⟨p, rfl⟩
    · exact hs.belongs id' i hi
  sound := hs.sound

theorem putInvocation (hs : s.Proper) {id : Nat} (hid : id ≤ s.issued) {i : Invocation}
    (hp : ∃ p, s.publications.get? i.publication = some p) (hi : i.Sound) : (s.putInvocation id i).Proper where
  buses := hs.buses
  invocations := Table.proper_put hs.invocations _ _
  publications := hs.publications
  bus := hs.bus
  issued id' i' hi' := by
    simp only [Session.putInvocation, Table.get?_put] at hi'
    split at hi'
    · have : id' = id := ‹_›
      exact this ▸ hid
    · exact hs.issued id' i' hi'
  publication := hs.publication
  belongs id' i' hi' := by
    simp only [Session.putInvocation, Table.get?_put] at hi'
    split at hi'
    · cases hi'
      exact hp
    · exact hs.belongs id' i' hi'
  sound id' i' hi' := by
    simp only [Session.putInvocation, Table.get?_put] at hi'
    split at hi'
    · cases hi'
      exact hi
    · exact hs.sound id' i' hi'

private theorem erase (hs : s.Proper) (id : Nat) : { s with invocations := s.invocations.erase id }.Proper where
  buses := hs.buses
  invocations := Table.proper_erase hs.invocations _
  publications := hs.publications
  bus := hs.bus
  issued id' i' hi' := by
    simp only [Table.get?_erase] at hi'
    split at hi'
    · cases hi'
    · exact hs.issued id' i' hi'
  publication := hs.publication
  belongs id' i' hi' := by
    simp only [Table.get?_erase] at hi'
    split at hi'
    · cases hi'
    · exact hs.belongs id' i' hi'
  sound id' i' hi' := by
    simp only [Table.get?_erase] at hi'
    split at hi'
    · cases hi'
    · exact hs.sound id' i' hi'

theorem finish (hs : s.Proper) (id : Nat) (i : Invocation) (o : Outcome) : (s.finish id i o).Proper := by
  have herased := hs.erase id
  simp only [Session.finish]
  cases hp : s.publications.get? i.publication with
  | none => exact herased
  | some p => exact (herased.putPublication (hs.publication _ _ hp) _).aside (aside_report _ _)

theorem refuse (hs : s.Proper) (error : PublishError) : (s.refuse error).1.Proper :=
  hs.issue.putPublication (Nat.le_refl _) _

private theorem invokeAll (hs : s.Proper) {publication : Nat} (hp : ∃ p, s.publications.get? publication = some p)
    (ctx : Context) (bus : Nat) (event : Event) (ts : List (Subscription × Option View)) :
    (s.invokeAll ctx bus publication event ts).Proper := by
  induction ts generalizing s with
  | nil => exact hs
  | cons t ts ih => exact ih (hs.issue.putInvocation (Nat.le_refl _) hp rfl) hp

theorem schedule (hs : s.Proper) (ctx : Context) (bus : Nat) (plan : Plan) : (s.schedule ctx bus plan).1.Proper := by
  cases plan with
  | refused error => exact hs.refuse error
  | scheduled event ts =>
    rw [schedule_scheduled]
    refine (hs.issue.putPublication (Nat.le_refl _) _).invokeAll ⟨.underWay ts.length, ?_⟩ ctx bus event ts
    exact (Table.get?_put ..).trans (if_pos rfl)

theorem publishes (hs : s.Proper) {ctx : Context} {publication : Nat} (h : s.Publishes ctx s' publication) :
    s'.Proper := by
  cases h with
  | refused => exact hs.refuse _
  | @planned b _ d _ hb _ haside =>
    have hbus := hs.putBus (b := { b with matcher := d.matcher }) (hs.bus _ _ hb).2
    exact (hbus.aside haside).schedule ..

theorem effect (hs : s.Proper) (h : Effect s s') : s'.Proper := by
  cases h with
  | aside h => exact hs.aside h
  | declared later => exact { hs with }
  | opened h => exact hs.issue.putBus (Nat.le_of_eq (Bus.id_of_start h))
  | changed hb h _ => exact (hs.putBus (Bus.id_eq_of_changes h ▸ (hs.bus _ _ hb).2)).putAddresses _
  | flagged hp _ => exact hs.putPublication (hs.publication _ _ hp) _
  | interrupted => exact hs.finish ..

theorem get?_of_publishes (hs : s.Proper) {ctx : Context} {publication : Nat} (h : s.Publishes ctx s' publication)
    {id : Nat} (hid : id ≤ s.issued) : s'.invocations.get? id = s.invocations.get? id := by
  cases h with
  | refused => rfl
  | @planned b _ d s₁ hb _ haside =>
    have hbus := hs.putBus (b := { b with matcher := d.matcher }) (hs.bus _ _ hb).2
    have hsame : s₁.invocations.get? id = s.invocations.get? id := by rw [haside.invocations]; rfl
    have hid₁ : id ≤ s₁.issued := Nat.le_trans hid haside.issued
    cases hplan : d.plan with
    | refused error => exact hsame
    | scheduled event ts =>
      have hissued := ((hbus.aside haside).issue.putPublication (Nat.le_refl _) (.underWay ts.length)).issued
      rw [schedule_scheduled]
      exact ((get?_invokeAll hissued ts id).trans (if_pos (Nat.le_succ_of_le hid₁))).trans hsame

theorem progress (hs : s.Proper) {id : Nat} (h : Progress id s s') : s'.Proper := by
  cases h with
  | @parked i hi h =>
    have hbelongs : ∃ p, s.issue.1.publications.get? (i.park s.issue.2).publication = some p := by
      rw [Invocation.publication_park]
      exact hs.belongs id i hi
    exact hs.issue.putInvocation (Nat.le_succ_of_le (hs.issued id i hi)) hbelongs h
  | @called i _ hi _ _ _ =>
    exact hs.putInvocation (hs.issued id i hi) (by simpa using hs.belongs id i hi) (i.sound_goOn _)
  | @wentOn i _ _ hi _ _ =>
    exact hs.putInvocation (hs.issued id i hi) (by simpa using hs.belongs id i hi) (i.sound_goOn _)
  | @left i _ hi _ =>
    exact hs.putInvocation (hs.issued id i hi) (hs.belongs id i hi) (by simp [Invocation.Sound])
  | @awaited i _ _ _ _ hi _ _ _ =>
    exact hs.putInvocation (hs.issued id i hi) (by simpa using hs.belongs id i hi) (i.sound_goOn _)
  | @published s₁ i _ _ _ _ hi _ h =>
    have hs₁ := hs.publishes h
    have hi₁ : s₁.invocations.get? id = some i := (hs.get?_of_publishes h (hs.issued id i hi)).trans hi
    exact hs₁.putInvocation (hs₁.issued id i hi₁) (by simpa using hs₁.belongs id i hi₁) (i.sound_goOn _)
  | finished => exact hs.finish ..

theorem effects (hs : s.Proper) (h : Effects s s') : s'.Proper := by
  induction h with
  | refl => exact hs
  | tail _ h ih => exact ih.effect h

theorem acts (hs : s.Proper) {ctx : Context} (h : s.Acts ctx s') : s'.Proper := by
  cases h with
  | calmly h => exact hs.effects h
  | publishing h haside => exact (hs.publishes h).aside haside

theorem move (hs : s.Proper) (h : Move s s') : s'.Proper := by
  cases h with
  | effect h => exact hs.effect h
  | publish h => exact hs.publishes h
  | progress id h => exact hs.progress h

theorem moves (hs : s.Proper) (h : Moves s s') : s'.Proper := by
  induction h with
  | refl => exact hs
  | tail _ h ih => exact ih.move h

end Proper

/-- Effects leave alone whom they do not interrupt. -/
theorem get?_of_effect (h : Effect s s') {id : Nat} {i : Invocation} (hi : s.invocations.get? id = some i)
    (hidle : i.isIdle = false) : s'.invocations.get? id = some i := by
  cases h with
  | aside h => rw [h.invocations, hi]
  | declared => exact hi
  | opened => exact hi
  | changed => exact hi
  | flagged => exact hi
  | @interrupted id' i' _ hi' hidle' _ _ =>
    rw [(finish_frame ..).2.2.2.1, Table.get?_erase, if_neg, hi]
    intro he
    subst he
    rw [hi] at hi'
    cases hi'
    rw [hidle] at hidle'
    cases hidle'

end Session
end PubSub
