import PubSub.Proofs.Session.Fates
import PubSub.Proofs.Session.Roster

/-!
# Addresses

Where subscriptions are. Whatever is subscribed has an address and keeps it, and its invocations know it. No two
subscriptions that are still there have the same one, but one that is gone leaves its address to others.
-/

namespace PubSub.Session

variable {s s' : Session} {tracing : Bool} {ctx : Context} {c c' : Caller} {id : Nat} {i : Invocation} {a : Nat}

theorem holdsOn_iff (h : Moves (start tracing) s) : s.holdsOn c ↔
    (∃ b k x, s.buses.get? c.bus = some b ∧ x ∈ b.registry.row k ∧ x.id = c.subscription) ∨
      ∃ id i, s.invocations.get? id = some i ∧ i.caller = c := by
  rw [holdsOn, Bool.or_eq_true]
  refine or_congr ?_ ?_
  · cases hb : s.buses.get? c.bus with
    | none => simp
    | some b =>
      obtain ⟨calls, hcalls⟩ := follows_of_moves h hb
      simp only [Option.any_some, List.any_eq_true, decide_eq_true_eq]
      constructor
      · rintro ⟨row, hrow, x, hx, hid⟩
        obtain ⟨k, hk⟩ := (Table.mem_values_iff hcalls.proper row).1 hrow
        exact ⟨b, k, x, rfl, by simp [Registry.row, hk, hx], hid⟩
      · rintro ⟨b', k, x, hb', hx, hid⟩
        obtain rfl := Option.some.inj hb'
        cases hk : b.registry.rows.get? k with
        | none => simp [Registry.row, hk] at hx
        | some row =>
          refine ⟨row, (Table.mem_values_iff hcalls.proper row).2 ⟨k, hk⟩, x, ?_, hid⟩
          simpa [Registry.row, hk] using hx
  · simp only [List.any_eq_true, decide_eq_true_eq,
      Table.mem_values_iff ((proper_start tracing).moves h).invocations]
    constructor
    · rintro ⟨i, ⟨id, hi⟩, hcaller⟩
      exact ⟨id, i, hi, hcaller⟩
    · rintro ⟨id, i, hi, hcaller⟩
      exact ⟨i, ⟨id, hi⟩, hcaller⟩

/-- The bus has given out that id. -/
def Knew (s : Session) (c : Caller) : Prop :=
  ∃ b, s.buses.get? c.bus = some b ∧ c.subscription ≤ b.registry.issued

private theorem holdsOn_of_carries (h : Moves (start tracing) s) (h' : Moves (start tracing) s')
    (hc : s.Carries ctx s') (hknew : s.Knew c) (hheld : s'.holdsOn c) : s.holdsOn c := by
  obtain ⟨b, hb, hid⟩ := hknew
  rw [holdsOn_iff h]
  rcases (holdsOn_iff h').1 hheld with ⟨b', k, x, hb', hx, hsame⟩ | ⟨id, i', hi', rfl⟩
  · rcases hc.bus c.bus b' hb' with hb' | ⟨b₀, hb₀, hchanges⟩ | ⟨-, config, hstart⟩
    · exact Or.inl ⟨b', k, x, hb', hx, hsame⟩
    · obtain rfl := Option.some.inj (hb.symm.trans hb₀)
      rcases (Bus.registry_of_changes hchanges).2 k x hx with hold | hnew
      · exact Or.inl ⟨b, k, x, hb, hold, hsame⟩
      · omega
    · rw [Bus.registry_of_start hstart] at hx
      cases hx
  · rcases hc.invocation id i' hi' with ⟨i, hi, hcontinues⟩ | ⟨-, -, -, -, b₀, k, hb₀, hx⟩
    · exact Or.inr ⟨id, i, hi, hcontinues.caller.symm⟩
    · exact Or.inl ⟨b₀, k, i'.subscription, hb₀, hx, rfl⟩

private theorem knew_of_has (hkept : ∀ id b, s.buses.get? id = some b → s'.Has id b) (hknew : s.Knew c) :
    s'.Knew c := by
  obtain ⟨b, hb, hid⟩ := hknew
  obtain ⟨b', hb', hbecomes⟩ := hkept _ b hb
  exact ⟨b', hb', Nat.le_trans hid hbecomes.registry.1⟩

/-- Nothing new is subscribed. -/
private structure Unmoved (s s' : Session) : Prop where
  addresses : s'.addresses = s.addresses
  row : ∀ id b', s'.buses.get? id = some b' → ∀ k, ∀ x ∈ b'.registry.row k,
    ∃ b, s.buses.get? id = some b ∧ x ∈ b.registry.row k

private theorem unmoved_of_same (haddresses : s'.addresses = s.addresses) (hbuses : s'.buses = s.buses) :
    s.Unmoved s' where
  addresses := haddresses
  row _ b' hb' _ _ hx := ⟨b', hbuses ▸ hb', hx⟩

private theorem unmoved_of_publishes {publication : Nat} (h : s.Publishes ctx s' publication) : s.Unmoved s' := by
  obtain ⟨-, haddresses⟩ := rest_of_publishes h
  cases h with
  | refused => exact unmoved_of_same haddresses rfl
  | @planned b e d s₁ hb _ haside =>
    refine ⟨haddresses, ?_⟩
    have hbuses : (s₁.schedule ctx b.id d.plan).1.buses = (s.putBus { b with matcher := d.matcher }).buses := by
      rw [← haside.buses]
      cases d.plan with
      | refused error => rfl
      | scheduled event ts => exact (schedule_frame ctx b.id event s₁ ts).1
    intro id b' hb' k x hx
    rw [hbuses] at hb'
    simp only [putBus, Table.get?_put] at hb'
    split at hb'
    · obtain rfl := Option.some.inj hb'
      exact ⟨b, ‹id = b.id› ▸ hb, hx⟩
    · exact ⟨b', hb', hx⟩

private theorem unmoved_of_progress (h : Progress id s s') : s.Unmoved s' := by
  obtain ⟨-, haddresses⟩ := rest_of_progress h
  cases h with
  | parked | called | wentOn | left | awaited => exact unmoved_of_same haddresses rfl
  | published _ _ h => exact ⟨haddresses, (unmoved_of_publishes h).row⟩
  | finished => exact unmoved_of_same haddresses (finish_frame ..).2.2.1

private theorem unmoved_of_effect (h : Effect s s') : s.Unmoved s' ∨ ∃ b b' addresses,
    s.buses.get? b.id = some b ∧ b.Changes b' ∧ s.Places b b' addresses ∧ s' = { s.putBus b' with addresses } := by
  cases h with
  | aside h => exact Or.inl (unmoved_of_same h.addresses h.buses)
  | declared | flagged => exact Or.inl (unmoved_of_same rfl rfl)
  | @opened config b h =>
    refine Or.inl ⟨rfl, ?_⟩
    intro id b' hb' k x hx
    simp only [putBus, Table.get?_put] at hb'
    split at hb'
    · obtain rfl := Option.some.inj hb'
      rw [Bus.registry_of_start h] at hx
      cases hx
    · exact ⟨b', hb', hx⟩
  | changed hb h hplaces => exact Or.inr ⟨_, _, _, hb, h, hplaces, rfl⟩
  | interrupted => exact Or.inl (unmoved_of_same (finish_rest ..).2 (finish_frame ..).2.2.1)

private theorem unmoved_of_move (h : Move s s') : s.Unmoved s' ∨ ∃ b b' addresses,
    s.buses.get? b.id = some b ∧ b.Changes b' ∧ s.Places b b' addresses ∧ s' = { s.putBus b' with addresses } := by
  cases h with
  | effect h => exact unmoved_of_effect h
  | publish h => exact Or.inl (unmoved_of_publishes h)
  | progress id h => exact Or.inl (unmoved_of_progress h)

theorem addresses_of_move (h : Move s s') (ha : s.addresses.get? c = some a) : s'.addresses.get? c = some a := by
  rcases unmoved_of_move h with hunmoved | ⟨b, b', addresses, -, -, hplaces, rfl⟩
  · rw [hunmoved.addresses, ha]
  · exact hplaces.kept c a ha

theorem addresses_of_moves (h : Moves s s') (ha : s.addresses.get? c = some a) : s'.addresses.get? c = some a := by
  induction h with
  | refl => exact ha
  | tail _ h ih => exact addresses_of_move h ih

private theorem addressed_of_move (hs : s.Proper) (h : Move s s') {i' : Invocation}
    (hi' : s'.invocations.get? id = some i') (hnew : s.issued < id) : i'.address = s.address i'.caller := by
  have hnobody {i : Invocation} (hi : s.invocations.get? id = some i) : False := by
    have := hs.issued id i hi
    omega
  cases h with
  | effect h => exact (hnobody (invocation_of_effect h hi')).elim
  | publish h => exact (publishing_of_publishes hs h).addressed id i' hi' hnew
  | progress id₀ h =>
    obtain ⟨i₀, hi₀⟩ := h.exists_invocation
    have hne : id ≠ id₀ := by
      rintro rfl
      exact hnobody hi₀
    have hother {s₁ : Session} {i₁ : Invocation} (hi' : (s₁.putInvocation id₀ i₁).invocations.get? id = some i') :
        s₁.invocations.get? id = some i' :=
      ((Table.get?_put ..).trans (if_neg hne)).symm.trans hi'
    cases h with
    | parked | called | wentOn | left | awaited => exact (hnobody (hother hi')).elim
    | published _ _ h => exact (publishing_of_publishes hs h).addressed id i' (hother hi') hnew
    | finished => exact (hnobody (invocation_of_finish hi')).elim

/-- Each subscription of a bus is somewhere, each invocation knows where its own one is, and those that are not gone are
at different places. -/
structure Housed (s : Session) : Prop where
  row : ∀ id b, s.buses.get? id = some b → ∀ k, ∀ x ∈ b.registry.row k, ∃ a, s.addresses.get? ⟨id, x.id⟩ = some a
  knew : ∀ c a, s.addresses.get? c = some a → s.Knew c
  invocation : ∀ id i, s.invocations.get? id = some i → s.addresses.get? i.caller = some i.address
  apart : ∀ c c' a, s.addresses.get? c = some a → s.addresses.get? c' = some a → s.holdsOn c → s.holdsOn c' → c = c'

namespace Housed

theorem start (tracing : Bool) : (Session.start tracing).Housed := by
  refine ⟨?_, ?_, ?_, ?_⟩
  · intro id b hb
    cases hb
  · intro c a ha
    cases ha
  · intro id i hi
    cases hi
  · intro c c' a ha
    cases ha

private theorem invocation_of_move (h : s.Housed) (hs : s.Proper) (hm : Move s s')
    (hi : s'.invocations.get? id = some i) : s'.addresses.get? i.caller = some i.address := by
  obtain ⟨ctx, hc⟩ := Carries.move hs hm
  rcases hc.invocation id i hi with ⟨i₀, hi₀, hcontinues⟩ | ⟨hnew, -, -, -, b, k, hb, hx⟩
  · obtain ⟨stage, parked, rfl⟩ := hcontinues
    exact addresses_of_move hm (h.invocation id i₀ hi₀)
  · obtain ⟨a, ha⟩ := h.row _ b hb k _ hx
    have haddress : i.address = a := by
      rw [addressed_of_move hs hm hi hnew, address, Invocation.caller, ha]
      rfl
    exact haddress ▸ addresses_of_move hm ha

section Moving

variable (h : s.Housed) (hknew : ∀ c, s.Knew c → s'.Knew c)
  (hstill : ∀ c a, s.addresses.get? c = some a → s'.holdsOn c → s.holdsOn c)
  (hinvocation : ∀ id i, s'.invocations.get? id = some i → s'.addresses.get? i.caller = some i.address)
include h hknew hstill hinvocation

private theorem of_unmoved (hunmoved : s.Unmoved s') : s'.Housed := by
  have hsame := hunmoved.addresses
  refine ⟨?_, ?_, hinvocation, ?_⟩
  · intro id b' hb' k x hx
    obtain ⟨b, hb, hx⟩ := hunmoved.row id b' hb' k x hx
    exact hsame ▸ h.row id b hb k x hx
  · intro c a ha
    exact hknew c (h.knew c a (hsame ▸ ha))
  · intro c c' a ha ha' hheld hheld'
    rw [hsame] at ha ha'
    exact h.apart c c' a ha ha' (hstill c a ha hheld) (hstill c' a ha' hheld')

private theorem of_places {b b' : Bus} {addresses : Table Caller Nat} (hb : s.buses.get? b.id = some b)
    (hchanges : b.Changes b') (hplaces : s.Places b b' addresses) (hs' : s' = { s.putBus b' with addresses })
    (hissued : ∀ k, ∀ x ∈ b'.registry.row k, x.id ≤ b'.registry.issued) : s'.Housed := by
  subst hs'
  refine ⟨?_, ?_, hinvocation, ?_⟩
  · intro id b₁ hb₁ k x hx
    simp only [putBus, Table.get?_put] at hb₁
    split at hb₁
    · obtain rfl : id = b'.id := ‹_›
      obtain rfl := Option.some.inj hb₁
      by_cases hold : x ∈ b.registry.row k
      · obtain ⟨a, ha⟩ := h.row b.id b hb k x hold
        exact ⟨a, hplaces.kept _ a (Bus.id_eq_of_changes hchanges ▸ ha)⟩
      · exact hplaces.placed k x hx hold
    · obtain ⟨a, ha⟩ := h.row id b₁ hb₁ k x hx
      exact ⟨a, hplaces.kept _ a ha⟩
  · intro c a ha
    cases hbefore : s.addresses.get? c with
    | some a₀ => exact hknew c (h.knew c a₀ hbefore)
    | none =>
      obtain ⟨hbus, k, x, hx, hid⟩ := hplaces.named c a hbefore ha
      exact ⟨b', hbus ▸ (Table.get?_put ..).trans (if_pos rfl), hid ▸ hissued k x hx⟩
  · intro c c' a ha ha' hheld hheld'
    cases hbefore : s.addresses.get? c with
    | none => exact hplaces.apart c c' a hbefore ha ha' hheld hheld'
    | some a₀ =>
      cases hbefore' : s.addresses.get? c' with
      | none => exact (hplaces.apart c' c a hbefore' ha' ha hheld' hheld).symm
      | some a₁ =>
        obtain rfl := Option.some.inj ((hplaces.kept c a₀ hbefore).symm.trans ha)
        obtain rfl := Option.some.inj ((hplaces.kept c' a₁ hbefore').symm.trans ha')
        exact h.apart c c' _ hbefore hbefore' (hstill c _ hbefore hheld) (hstill c' _ hbefore' hheld')

end Moving

theorem move (hprior : Moves (Session.start tracing) s) (h : s.Housed) (hm : Move s s') : s'.Housed := by
  have hs : s.Proper := (proper_start tracing).moves hprior
  have hlater : Moves (Session.start tracing) s' := hprior.tail hm
  obtain ⟨ctx, hc⟩ := Carries.move hs hm
  have hknew (c : Caller) : s.Knew c → s'.Knew c := knew_of_has fun _ _ => has_of_move hs hm
  have hstill (c : Caller) (a : Nat) (ha : s.addresses.get? c = some a) : s'.holdsOn c → s.holdsOn c :=
    holdsOn_of_carries hprior hlater hc (h.knew c a ha)
  have hinvocation (id : Nat) (i : Invocation) (hi : s'.invocations.get? id = some i) :
      s'.addresses.get? i.caller = some i.address := h.invocation_of_move hs hm hi
  rcases unmoved_of_move hm with hunmoved | ⟨b, b', addresses, hb, hchanges, hplaces, hs'⟩
  · exact h.of_unmoved hknew hstill hinvocation hunmoved
  · have hput : s'.buses.get? b'.id = some b' := by
      rw [hs']
      exact (Table.get?_put ..).trans (if_pos rfl)
    exact h.of_places hknew hstill hinvocation hb hchanges hplaces hs' (sound_of_moves hlater hput).registry.issued

/-- Invocations of one subscription know the same address. -/
theorem address_eq (h : s.Housed) {id' : Nat} {j : Invocation} (hi : s.invocations.get? id = some i)
    (hj : s.invocations.get? id' = some j) (hcaller : i.caller = j.caller) : i.address = j.address := by
  have hat := h.invocation id i hi
  rw [hcaller] at hat
  exact Option.some.inj (hat.symm.trans (h.invocation id' j hj))

end Housed

theorem Reachable.housed (h : s.Reachable) : s.Housed :=
  h.of_moves .start fun hprior hm hhoused => hhoused.move hprior hm

theorem Reachable.holdsOn_iff (h : s.Reachable) : s.holdsOn c ↔
    (∃ b k x, s.buses.get? c.bus = some b ∧ x ∈ b.registry.row k ∧ x.id = c.subscription) ∨
      ∃ id i, s.invocations.get? id = some i ∧ i.caller = c := by
  obtain ⟨tracing, h⟩ := h
  exact Session.holdsOn_iff (moves_of_transitions (proper_start tracing) h)

theorem Reachable.holdsOn_of_invocation (h : s.Reachable) (hi : s.invocations.get? id = some i) :
    s.holdsOn i.caller :=
  h.holdsOn_iff.2 (Or.inr ⟨id, i, hi, rfl⟩)

theorem Reachable.exists_address (h : s.Reachable) (hheld : s.holdsOn c) : ∃ a, s.addresses.get? c = some a := by
  obtain ⟨bus, subscription⟩ := c
  rcases h.holdsOn_iff.1 hheld with ⟨b, k, x, hb, hx, rfl⟩ | ⟨id, i, hi, hcaller⟩
  · exact h.housed.row bus b hb k x hx
  · exact ⟨_, hcaller ▸ h.housed.invocation id i hi⟩

end PubSub.Session
