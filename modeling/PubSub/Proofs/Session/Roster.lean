import PubSub.Proofs.Session.Transitions

/-!
# Roster

An id stands for one subscription of its bus, whatever is subscribed and unsubscribed later on. So a caller tells which
subscription it is.
-/

namespace PubSub.Session

variable {s s' : Session} {ctx : Context} {bus : Nat} {sub : Subscription}

/-- The bus has, and will have, no other subscription with that id; nor do its invocations come from another one. -/
structure Knows (s : Session) (bus : Nat) (sub : Subscription) : Prop where
  issued : bus ≤ s.issued
  row : ∀ b, s.buses.get? bus = some b → sub.id ≤ b.registry.issued ∧
    ∀ k, ∀ other ∈ b.registry.row k, other.id = sub.id → other = sub
  invocation : ∀ id i, s.invocations.get? id = some i → i.caller = ⟨bus, sub.id⟩ → i.subscription = sub

theorem Knows.carries (h : s.Knows bus sub) (hc : s.Carries ctx s') : s'.Knows bus sub where
  issued := Nat.le_trans h.issued hc.issued
  row b' hb' := by
    rcases hc.bus bus b' hb' with hb | ⟨b, hb, hchanges⟩ | ⟨hnew, -⟩
    · exact h.row b' hb
    · obtain ⟨hid, hrow⟩ := h.row b hb
      obtain ⟨hissued, hrow'⟩ := Bus.registry_of_changes hchanges
      refine ⟨Nat.le_trans hid hissued, ?_⟩
      intro k other hother hsame
      rcases hrow' k other hother with hold | hnew
      · exact hrow k other hold hsame
      · omega
    · have := h.issued
      omega
  invocation id i' hi' hcaller := by
    rcases hc.invocation id i' hi' with ⟨i, hi, stage, parked, rfl⟩ | ⟨-, -, -, -, b, k, hb, hrow⟩
    · exact h.invocation id i hi hcaller
    · obtain ⟨hbus, hid⟩ := Caller.mk.inj hcaller
      exact (h.row b (hbus ▸ hb)).2 k i'.subscription hrow hid

theorem Knows.moves (hs : s.Proper) (h : s.Knows bus sub) (hm : Moves s s') : s'.Knows bus sub := by
  induction hm with
  | refl => exact h
  | tail hprior hm ih =>
    obtain ⟨ctx, hcarries⟩ := Carries.move (hs.moves hprior) hm
    exact ih.carries hcarries

/-- All subscriptions are known, those of invocations too. -/
structure Roster (s : Session) : Prop where
  row : ∀ id b k sub, s.buses.get? id = some b → sub ∈ b.registry.row k → s.Knows id sub
  invocation : ∀ id i, s.invocations.get? id = some i → s.Knows i.bus i.subscription

namespace Roster

private theorem knows_new (hs : s.Proper) (h : s.Roster) (hc : s.Carries ctx s') {b b' : Bus} {k : Key}
    (hb : s.buses.get? bus = some b) (hb' : s'.buses.get? bus = some b') (hsound : b'.Sound)
    (hrow : sub ∈ b'.registry.row k) (hnew : b.registry.issued < sub.id) : s'.Knows bus sub where
  issued := Nat.le_trans (hs.bus bus b hb).2 hc.issued
  row b'' hb'' := by
    obtain rfl := Option.some.inj (hb'.symm.trans hb'')
    refine ⟨hsound.registry.issued k sub hrow, ?_⟩
    intro k' other hother hsame
    exact hsound.registry.eq_of_id hother hrow hsame
  invocation id i' hi' hcaller := by
    obtain ⟨hbus, hid⟩ := Caller.mk.inj hcaller
    have hold : i'.subscription.id ≤ b.registry.issued := by
      rcases hc.invocation id i' hi' with ⟨i, hi, stage, parked, rfl⟩ | ⟨-, -, -, -, b₀, k₀, hb₀, hrow₀⟩
      · exact ((h.invocation id i hi).row b (hbus ▸ hb)).1
      · exact ((h.row _ b₀ k₀ _ hb₀ hrow₀).row b (hbus ▸ hb)).1
    omega

theorem carries (hs : s.Proper) (h : s.Roster) (hc : s.Carries ctx s')
    (hsound : ∀ {id b}, s'.buses.get? id = some b → b.Sound) : s'.Roster where
  row id b' k sub hb' hrow := by
    rcases hc.bus id b' hb' with hb | ⟨b, hb, hchanges⟩ | ⟨-, config, hstart⟩
    · exact (h.row id b' k sub hb hrow).carries hc
    · rcases (Bus.registry_of_changes hchanges).2 k sub hrow with hold | hnew
      · exact (h.row id b k sub hb hold).carries hc
      · exact knows_new hs h hc hb hb' (hsound hb') hrow hnew
    · rw [Bus.registry_of_start hstart] at hrow
      cases hrow
  invocation id i' hi' := by
    rcases hc.invocation id i' hi' with ⟨i, hi, stage, parked, rfl⟩ | ⟨-, -, -, -, b, k, hb, hrow⟩
    · exact (h.invocation id i hi).carries hc
    · exact (h.row _ b k _ hb hrow).carries hc

end Roster

theorem Reachable.roster (h : s.Reachable) : s.Roster := by
  refine h.of_moves ?_ ?_
  · intro tracing
    refine ⟨?_, ?_⟩
    · intro id b k sub hb
      cases hb
    · intro id i hi
      cases hi
  · intro tracing s s' hprior hm hroster
    have hs := (proper_start tracing).moves hprior
    obtain ⟨ctx, hcarries⟩ := Carries.move hs hm
    exact hroster.carries hs hcarries (sound_of_moves (hprior.tail hm))

end PubSub.Session
