import PubSub.Proofs.Session.Depth
import PubSub.Proofs.Session.Provenance

/-!
# Events that nobody hears

Dispatch goes by rounds. If nobody hears an event, a bus that republishes has another event carry it, and dispatches that
one in a round of its own. What counts is whether an event is a carrier, whatever it declares itself to be, so there are
at most two rounds. Everybody who listens to the root hears every event, so who hears the carrier of an unheard
event listens to carriers.
-/

namespace PubSub

namespace Matcher

/-- What is remembered of a class is the answer that it gave under some hierarchy. -/
def Recalls (m : Matcher) : Prop :=
  ∀ cls r, m.entries.lookup cls = some r → ∃ h : Hierarchy, resolveFresh h.declared cls = .ok r

variable {m m' : Matcher} {h : Hierarchy} {cls : Name} {r : Resolution}

theorem Recalls.keysFor (hm : m.Recalls) (hk : m.keysFor h.declared cls = .ok (r, m')) :
    (∃ h : Hierarchy, resolveFresh h.declared cls = .ok r) ∧ m'.Recalls := by
  simp only [Matcher.keysFor] at hk
  cases hl : m.entries.lookup cls with
  | some known =>
    obtain ⟨rfl, rfl⟩ : known = r ∧ m = m' := by simpa [hl] using hk
    exact ⟨hm cls known hl, hm⟩
  | none =>
    simp only [hl] at hk
    obtain ⟨_, hfresh, hk⟩ := bind_eq_ok_iff.1 hk
    cases hk
    refine ⟨⟨h, hfresh⟩, ?_⟩
    intro cls' r' hl'
    rw [Table.lookup_cons_eq_ite] at hl'
    split at hl'
    · obtain rfl := Option.some.inj hl'
      obtain rfl : cls' = cls := ‹_›
      exact ⟨h, hfresh⟩
    · exact hm cls' r' hl'

theorem Recalls.afterAsking (hm : m.Recalls) : (m.afterAsking h.declared cls).Recalls := by
  simp only [Matcher.afterAsking]
  split
  · exact (hm.keysFor ‹_›).2
  · exact hm

theorem root_mem_keys {declared : Name → Except Crash Descriptor} (hfresh : resolveFresh declared cls = .ok r) :
    Key.root ∈ r.keys := by
  obtain ⟨q, -, hr⟩ := bind_eq_ok_iff.1 hfresh
  cases hr
  apply (mem_keys_freshEntries ..).2
  simp [Descriptor.candidates]

/-- How a carrier resolves. -/
def carrierKeys : Resolution :=
  [(.named .dead, some (.own .dead)), (.root, some .root)]

theorem resolveFresh_dead (h : Hierarchy) : resolveFresh h.declared .dead = .ok carrierKeys :=
  rfl

theorem keysFor_dead (hm : m.Recalls) (h : Hierarchy) :
    ∃ m', m.keysFor h.declared .dead = .ok (carrierKeys, m') ∧ m'.Recalls := by
  cases hk : m.keysFor h.declared .dead with
  | error c => exact absurd (keysFor_eq_error_iff.1 hk).2 (h.declared_dead_ne_error c)
  | ok p =>
    obtain ⟨r, m'⟩ := p
    obtain ⟨⟨h', hfresh⟩, hm'⟩ := hm.keysFor hk
    obtain rfl := Except.ok.inj ((resolveFresh_dead h').symm.trans hfresh)
    exact ⟨m', rfl, hm'⟩

end Matcher

namespace Bus

theorem IsOperated.recalls {b : Bus} (hb : b.IsOperated) : b.matcher.Recalls := by
  refine hb.induction (P := fun b => b.matcher.Recalls) ?_ ?_
  · intro id config b hstart cls r hl
    simp only [Bus.start] at hstart
    split at hstart
    · cases hstart
      cases hl
    · cases hstart
  · intro b op hm
    have hsettled {α : Type} (reply : α → Reply) {result : Except BusError (Bus × α)}
        (hsame : ∀ b' a, result = .ok (b', a) → b'.matcher = b.matcher) : (b.settled reply result).1.matcher.Recalls := by
      cases result with
      | error e => exact hm
      | ok p =>
        show p.1.matcher.Recalls
        rw [hsame p.1 p.2 rfl]
        exact hm
    cases op with
    | subscribe bindings =>
      refine hsettled .subscribed fun b' handle h => ?_
      obtain ⟨-, rfl, -⟩ := subscribe_eq_ok_iff.1 h
      rfl
    | subscribeHandlers target handlers =>
      refine hsettled .subscribed fun b' handle h => ?_
      simp only [Bus.subscribeHandlers] at h
      split at h
      · cases h
      · obtain ⟨-, rfl, -⟩ := subscribe_eq_ok_iff.1 h
        rfl
    | unsubscribe handle =>
      refine hsettled .unsubscribed fun b' removed h => ?_
      obtain ⟨-, -, rfl, -⟩ := unsubscribe_eq_ok_iff.1 h
      rfl
    | publish hierarchy depth e =>
      simp only [Bus.operate, Bus.remembered]
      split
      · exact hm
      · split
        · exact hm
        · have hnext := (hm.keysFor ‹_›).2
          split
          · exact hnext.afterAsking
          · exact hnext
    | keys hierarchy cls => exact hm.afterAsking
    | close => exact hm

section Rounds

/-- One round of dispatch: it ends, or another event goes through a round in place of this one. -/
inductive Round where
  | decided (result : Except Crash Dispatch)
  | again (b : Bus) (carrier : Event)

/-- A bus that is closed or too deep refuses. Else who hears the event gets it, and if nobody does, the bus may try once
more with a carrier. -/
def round (b : Bus) (declared : Name → Except Crash Descriptor) (depth : Nat) (e : Event) : Round :=
  if !b.isOpen then .decided (.ok ⟨b.matcher, none, .refused .closed⟩)
  else match b.exceeded? depth with
    | some limit =>
      .decided (.ok ⟨b.matcher, some (.depthReached e depth limit), .refused (.depthExceeded depth limit)⟩)
    | none =>
      match b.matcher.keysFor declared e.cls with
      | .error c => .decided (.error c)
      | .ok (keys, matcher) =>
        if b.registry.lookup keys ≠ [] then .decided (.ok (b.deliver depth e keys matcher (b.registry.lookup keys)))
        else if b.config.deadEvents = .republish ∧ e.isDead = false then .again { b with matcher } (.dead e)
        else
          .decided (.ok ⟨matcher, if b.config.deadEvents = .log then some (.unheard e) else none, .scheduled e []⟩)

/-- Dispatch comes to that result after so many rounds. -/
inductive Dispatches (declared : Name → Except Crash Descriptor) (depth : Nat) :
    Nat → Bus → Event → Except Crash Dispatch → Prop
  | decided {b : Bus} {e : Event} {result : Except Crash Dispatch} (h : b.round declared depth e = .decided result) :
    Dispatches declared depth 1 b e result
  | again {rounds : Nat} {b b' : Bus} {e carrier : Event} {result : Except Crash Dispatch}
      (h : b.round declared depth e = .again b' carrier) (hrest : Dispatches declared depth rounds b' carrier result) :
    Dispatches declared depth (rounds + 1) b e result

variable {b b' : Bus} {declared : Name → Except Crash Descriptor} {depth : Nat} {e carrier : Event}

theorem round_eq_again_iff : b.round declared depth e = .again b' carrier ↔
    b.isOpen ∧ b.exceeded? depth = none ∧ (∃ r m, b.matcher.keysFor declared e.cls = .ok (r, m) ∧
      b.registry.lookup r = [] ∧ b' = { b with matcher := m }) ∧
      b.config.deadEvents = .republish ∧ e.isDead = false ∧ carrier = .dead e := by
  simp only [round]
  constructor
  · intro h
    split at h
    · cases h
    split at h
    · cases h
    split at h
    · cases h
    split at h
    · cases h
    split at h
    · cases h
      refine ⟨by simpa using ‹¬ (!b.isOpen) = true›, ‹_›, ⟨_, _, ‹_›, ?_, rfl⟩, ?_⟩
      · simpa using ‹¬ _ ≠ _›
      · exact ⟨(‹_ ∧ _› : _ ∧ _).1, (‹_ ∧ _› : _ ∧ _).2, rfl⟩
    · cases h
  · rintro ⟨hopen, hlimit, ⟨r, m, hkeys, hnone, rfl⟩, hpolicy, halive, rfl⟩
    simp [hopen, hlimit, hkeys, hnone, hpolicy, halive]

theorem publish_of_crash (hopen : b.isOpen) (hlimit : b.exceeded? depth = none) {c : Crash}
    (hkeys : b.matcher.keysFor declared e.cls = .error c) : b.publish declared depth e = .error c := by
  simp [publish, hopen, hlimit, hkeys, bind, Except.bind]

theorem publish_of_unheard (hopen : b.isOpen) (hlimit : b.exceeded? depth = none) {r : Resolution} {m : Matcher}
    (hkeys : b.matcher.keysFor declared e.cls = .ok (r, m)) (hnone : b.registry.lookup r = []) :
    b.publish declared depth e = b.deliverUnheard declared depth e m := by
  simp [publish, hopen, hlimit, hkeys, bind, Except.bind, hnone]

theorem deliverUnheard_of_decided (h : b.config.deadEvents = .republish → e.isDead) (m : Matcher) :
    b.deliverUnheard declared depth e m =
      .ok ⟨m, if b.config.deadEvents = .log then some (.unheard e) else none, .scheduled e []⟩ := by
  cases hpolicy : b.config.deadEvents with
  | ignore => simp [deliverUnheard, hpolicy]
  | log => simp [deliverUnheard, hpolicy]
  | republish =>
    cases e with
    | dead carried => simp [deliverUnheard, hpolicy]
    | value payload => cases h hpolicy

theorem publish_of_again (h : b.round declared depth e = .again b' carrier) :
    b.publish declared depth e = b'.publish declared depth carrier := by
  obtain ⟨hopen, hlimit, ⟨r, m, hkeys, hnone, rfl⟩, hpolicy, halive, rfl⟩ := round_eq_again_iff.1 h
  have hlimit' : ({ b with matcher := m } : Bus).exceeded? depth = none := hlimit
  have hopen' : ({ b with matcher := m } : Bus).isOpen := hopen
  obtain ⟨payload, rfl⟩ : ∃ payload, e = .value payload := by
    cases e with
    | value payload => exact ⟨payload, rfl⟩
    | dead carried => cases halive
  rw [publish_of_unheard hopen hlimit hkeys hnone]
  simp only [deliverUnheard, hpolicy]
  cases hcarrier : m.keysFor declared (Event.dead (.value payload)).cls with
  | error c => exact (publish_of_crash hopen' hlimit' hcarrier).symm
  | ok p =>
    obtain ⟨r', m'⟩ := p
    simp only [bind, Except.bind]
    cases hheard : b.registry.lookup r' with
    | nil =>
      rw [publish_of_unheard hopen' hlimit' hcarrier hheard, deliverUnheard_of_decided fun _ => rfl]
      simp [hpolicy, pure, Except.pure]
    | cons target targets =>
      rw [publish_of_heard hopen' hlimit' hcarrier (by simp [hheard])]
      simp only [hheard]
      rfl

theorem publish_of_decided {result : Except Crash Dispatch} (h : b.round declared depth e = .decided result) :
    b.publish declared depth e = result := by
  simp only [round] at h
  split at h
  · have hclosed : b.isOpen = false := by simpa using ‹(!b.isOpen) = true›
    obtain rfl := Round.decided.inj h
    simp [publish, hclosed]
  have hopen : b.isOpen := by simpa using ‹¬ (!b.isOpen) = true›
  split at h
  · obtain rfl := Round.decided.inj h
    exact publish_of_tooDeep hopen ‹_› declared e
  split at h
  · obtain rfl := Round.decided.inj h
    exact publish_of_crash hopen ‹_› ‹_›
  split at h
  · obtain rfl := Round.decided.inj h
    exact publish_of_heard hopen ‹_› ‹_› ‹_›
  have hnone : b.registry.lookup _ = [] := not_ne_iff.1 ‹_›
  split at h
  · cases h
  · obtain rfl := Round.decided.inj h
    rw [publish_of_unheard hopen ‹_› ‹_› hnone]
    apply deliverUnheard_of_decided
    intro hpolicy
    by_contra halive
    exact ‹¬ (_ ∧ _)› ⟨hpolicy, by simpa using halive⟩

theorem round_of_dead (carried : Event) (b' : Bus) (carrier : Event) :
    b.round declared depth (.dead carried) ≠ .again b' carrier := by
  intro hagain
  obtain ⟨-, -, -, -, halive, -⟩ := round_eq_again_iff.1 hagain
  cases halive

/-- Whatever is published, dispatch ends after one round or two, and comes to what the publish comes to. A carrier goes
through one round only. -/
theorem exists_rounds (declared : Name → Except Crash Descriptor) (depth : Nat) (b : Bus) (e : Event) :
    ∃ rounds ≤ 2, (e.isDead → rounds = 1) ∧
      ∀ n result, Dispatches declared depth n b e result ↔ n = rounds ∧ result = b.publish declared depth e := by
  cases hround : b.round declared depth e with
  | decided decision =>
    refine ⟨1, by omega, fun _ => rfl, fun n result => ?_⟩
    rw [publish_of_decided hround]
    constructor
    · intro hdispatches
      cases hdispatches with
      | decided h => exact ⟨rfl, (Round.decided.inj (hround.symm.trans h)).symm⟩
      | again h _ => cases hround.symm.trans h
    · rintro ⟨rfl, rfl⟩
      exact .decided hround
  | again b' carrier =>
    obtain ⟨-, -, -, -, halive, rfl⟩ := round_eq_again_iff.1 hround
    -- the second round is about a carrier, so it is decided
    obtain ⟨decision, hsecond⟩ : ∃ decision, b'.round declared depth (.dead e) = .decided decision := by
      cases hsecond : b'.round declared depth (.dead e) with
      | decided decision => exact ⟨decision, rfl⟩
      | again b'' carrier => exact absurd hsecond (round_of_dead e b'' carrier)
    refine ⟨2, by omega, fun hdead => by simp [hdead] at halive, fun n result => ?_⟩
    rw [publish_of_again hround, publish_of_decided hsecond]
    constructor
    · intro hdispatches
      cases hdispatches with
      | decided h => cases hround.symm.trans h
      | again h hrest =>
        obtain ⟨rfl, rfl⟩ := Round.again.inj (hround.symm.trans h)
        cases hrest with
        | decided h' => exact ⟨rfl, (Round.decided.inj (hsecond.symm.trans h')).symm⟩
        | again h' _ => cases hsecond.symm.trans h'
    · rintro ⟨rfl, rfl⟩
      exact .again hround (.decided hsecond)

end Rounds

end Bus
end PubSub
