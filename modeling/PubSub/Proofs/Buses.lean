import PubSub.Bus
import PubSub.Proofs.Exceptions
import PubSub.Proofs.Registry.Rows
import PubSub.Proofs.Resolution.Entries

/-!
# Buses

What holds of a bus at all times: its subscriptions are filed properly, and the keys that it remembers for a class
differ from each other. So a publish that is scheduled is scheduled for each subscription at most once.
-/

namespace PubSub

namespace Matcher

/-- The keys of each class differ. -/
def Sound (m : Matcher) : Prop :=
  ∀ cls r, m.entries.lookup cls = some r → r.keys.Nodup

theorem keysFor_sound {m m' : Matcher} (hm : m.Sound) {declared : Name → Except Crash Descriptor} {cls : Name}
    {r : Resolution} (h : m.keysFor declared cls = .ok (r, m')) : r.keys.Nodup ∧ m'.Sound := by
  simp only [keysFor] at h
  cases hl : m.entries.lookup cls with
  | some known =>
    obtain ⟨rfl, rfl⟩ : known = r ∧ m = m' := by simpa [hl] using h
    exact ⟨hm cls known hl, hm⟩
  | none =>
    simp only [hl] at h
    obtain ⟨_, hfresh, h⟩ := bind_eq_ok_iff.1 h
    cases h
    have hknown : r.keys.Nodup := by
      obtain ⟨d, -, hd⟩ := bind_eq_ok_iff.1 hfresh
      cases hd
      exact nodup_keys_freshEntries _ _
    refine ⟨hknown, ?_⟩
    intro cls' r' hl'
    rw [Table.lookup_cons_eq_ite] at hl'
    split at hl'
    · obtain rfl := Option.some.inj hl'
      exact hknown
    · exact hm cls' r' hl'

end Matcher

namespace Bus

structure Sound (b : Bus) : Prop where
  registry : b.registry.Sound
  matcher : b.matcher.Sound

theorem subscribe_eq_ok_iff {b b' : Bus} {bindings : List (Key × Callback)} {handle : Handle} :
    b.subscribe bindings = .ok (b', handle) ↔ b.isOpen ∧
      b' = { b with registry := (b.registry.registerAll bindings).1 } ∧
      handle = ⟨b.id, (b.registry.registerAll bindings).2⟩ := by
  simp only [subscribe]
  split
  · rename_i hopen
    simp only [hopen, true_and, Except.ok.injEq, Prod.mk.injEq, @eq_comm _ b', @eq_comm _ handle]
  · rename_i hclosed
    simp [hclosed]

theorem unsubscribe_eq_ok_iff {b b' : Bus} {handle : Handle} {removed : List (Key × Nat)} :
    b.unsubscribe handle = .ok (b', removed) ↔ handle.bus = b.id ∧ b.isOpen ∧
      b' = { b with registry := (removeAll b.registry handle.entries).1 } ∧
      removed = (removeAll b.registry handle.entries).2 := by
  simp only [unsubscribe]
  split
  · rename_i hforeign
    simp [hforeign]
  · rename_i hown
    split
    · rename_i hopen
      simp only [Decidable.not_not.1 hown, hopen, true_and, Except.ok.injEq, Prod.mk.injEq, @eq_comm _ b',
        @eq_comm _ removed]
    · rename_i hclosed
      simp [hclosed]

theorem sound_start {id : Nat} {config : Config} {b : Bus} (h : start id config = .ok b) : b.Sound := by
  simp only [start] at h
  split at h
  · cases h
    refine ⟨Registry.sound_empty, ?_⟩
    intro cls r hl
    cases hl
  · cases h

theorem mem_row_removeAll {r : Registry} {entries : List (Key × Nat)} {k : Key} {s : Subscription}
    (h : s ∈ (removeAll r entries).1.row k) : s ∈ r.row k := by
  induction entries generalizing r with
  | nil => exact h
  | cons e entries ih =>
    have hrest := ih h
    rw [Registry.row_unregister] at hrest
    split at hrest
    · exact List.mem_of_mem_filter hrest
    · exact hrest

theorem issued_removeAll (r : Registry) (entries : List (Key × Nat)) : (removeAll r entries).1.issued = r.issued := by
  induction entries generalizing r with
  | nil => rfl
  | cons e entries ih => exact (ih (r.unregister e.1 e.2)).trans (r.issued_unregister e.1 e.2)

private theorem sound_removeAll {r : Registry} (hr : r.Sound) (entries : List (Key × Nat)) :
    (removeAll r entries).1.Sound := by
  induction entries generalizing r with
  | nil => exact hr
  | cons e entries ih => exact ih (hr.unregister e.1 e.2)

namespace Sound

variable {b b' : Bus}

theorem subscribe (hb : b.Sound) {bindings : List (Key × Callback)} {handle : Handle}
    (h : b.subscribe bindings = .ok (b', handle)) : b'.Sound := by
  obtain ⟨-, rfl, -⟩ := subscribe_eq_ok_iff.1 h
  exact ⟨hb.registry.registerAll bindings, hb.matcher⟩

theorem unsubscribe (hb : b.Sound) {handle : Handle} {removed : List (Key × Nat)}
    (h : b.unsubscribe handle = .ok (b', removed)) : b'.Sound := by
  obtain ⟨-, -, rfl, -⟩ := unsubscribe_eq_ok_iff.1 h
  exact ⟨sound_removeAll hb.registry handle.entries, hb.matcher⟩

theorem close (hb : b.Sound) : b.close.Sound :=
  ⟨Registry.sound_clear _, hb.matcher⟩

theorem keysFor (hb : b.Sound) {declared : Name → Except Crash Descriptor} {cls : Name} {r : Resolution}
    (h : b.keysFor declared cls = .ok (r, b')) : r.keys.Nodup ∧ b'.Sound := by
  obtain ⟨⟨known, m⟩, hm, h⟩ := bind_eq_ok_iff.1 h
  cases h
  obtain ⟨hkeys, hsound⟩ := Matcher.keysFor_sound hb.matcher hm
  exact ⟨hkeys, hb.registry, hsound⟩

end Sound

theorem publish_of_heard {b : Bus} (hopen : b.isOpen) {depth : Nat} (hlimit : b.exceeded? depth = none)
    {declared : Name → Except Crash Descriptor} {e : Event} {r : Resolution} {m : Matcher}
    (hk : b.matcher.keysFor declared e.cls = .ok (r, m)) (hheard : b.registry.lookup r ≠ []) :
    b.publish declared depth e = .ok (b.deliver depth e r m (b.registry.lookup r)) := by
  simp only [publish]
  rw [hopen, hlimit, hk]
  simp only [Bool.not_true, Bool.false_eq_true, if_false, bind, Except.bind]
  rfl

section Publishing

variable {b : Bus} {declared : Name → Except Crash Descriptor} {depth : Nat} {e : Event} {d : Dispatch}

/-- What a bus decides about a publish. -/
inductive Decides (b : Bus) (declared : Name → Except Crash Descriptor) (depth : Nat) (e : Event) : Dispatch → Prop
  | closed (h : b.isOpen = false) : Decides b declared depth e ⟨b.matcher, none, .refused .closed⟩
  | tooDeep {limit : Nat} (hopen : b.isOpen) (h : b.exceeded? depth = some limit) :
    Decides b declared depth e ⟨b.matcher, some (.depthReached e depth limit), .refused (.depthExceeded depth limit)⟩
  | heard {r : Resolution} {m : Matcher} (hopen : b.isOpen) (hlimit : b.exceeded? depth = none)
    (hkeys : b.matcher.keysFor declared e.cls = .ok (r, m)) (hheard : b.registry.lookup r ≠ []) :
    Decides b declared depth e (b.deliver depth e r m (b.registry.lookup r))
  | unheard {r : Resolution} {m : Matcher} (hopen : b.isOpen) (hlimit : b.exceeded? depth = none)
    (hkeys : b.matcher.keysFor declared e.cls = .ok (r, m)) (hnone : b.registry.lookup r = [])
    (hpolicy : b.config.deadEvents = .republish → e.isDead) :
    Decides b declared depth e
      ⟨m, if b.config.deadEvents = .log then some (.unheard e) else none, .scheduled e []⟩
  | carried {r r' : Resolution} {m m' : Matcher} (hopen : b.isOpen) (hlimit : b.exceeded? depth = none)
    (hkeys : b.matcher.keysFor declared e.cls = .ok (r, m)) (hnone : b.registry.lookup r = [])
    (hpolicy : b.config.deadEvents = .republish) (halive : e.isDead = false)
    (hcarrier : m.keysFor declared .dead = .ok (r', m')) (hheard : b.registry.lookup r' ≠ []) :
    Decides b declared depth e (b.deliver depth (.dead e) r' m' (b.registry.lookup r'))
  | uncarried {r r' : Resolution} {m m' : Matcher} (hopen : b.isOpen) (hlimit : b.exceeded? depth = none)
    (hkeys : b.matcher.keysFor declared e.cls = .ok (r, m)) (hnone : b.registry.lookup r = [])
    (hpolicy : b.config.deadEvents = .republish) (halive : e.isDead = false)
    (hcarrier : m.keysFor declared .dead = .ok (r', m')) (hnobody : b.registry.lookup r' = []) :
    Decides b declared depth e ⟨m', none, .scheduled (.dead e) []⟩

private theorem decides_of_deliverUnheard {r : Resolution} {m : Matcher} (hopen : b.isOpen)
    (hlimit : b.exceeded? depth = none) (hkeys : b.matcher.keysFor declared e.cls = .ok (r, m))
    (hnone : b.registry.lookup r = []) (h : b.deliverUnheard declared depth e m = .ok d) :
    b.Decides declared depth e d := by
  have hunheard := Decides.unheard hopen hlimit hkeys hnone
  cases hpolicy : b.config.deadEvents with
  | ignore =>
    simp only [deliverUnheard, hpolicy] at h
    cases h
    simpa [hpolicy] using hunheard
  | log =>
    simp only [deliverUnheard, hpolicy] at h
    cases h
    simpa [hpolicy] using hunheard
  | republish =>
    cases e with
    | dead carried =>
      simp only [deliverUnheard, hpolicy] at h
      cases h
      simpa [hpolicy] using hunheard fun _ => rfl
    | value payload =>
      simp only [deliverUnheard, hpolicy] at h
      obtain ⟨⟨r', m'⟩, hcarrier, h⟩ := bind_eq_ok_iff.1 h
      simp only at h
      split at h
      · cases h
        exact .uncarried hopen hlimit hkeys hnone hpolicy rfl hcarrier ‹_›
      · cases h
        exact .carried hopen hlimit hkeys hnone hpolicy rfl hcarrier ‹_›

theorem decides_of_publish (h : b.publish declared depth e = .ok d) : b.Decides declared depth e d := by
  simp only [publish] at h
  split at h
  · cases h
    exact .closed (by simpa using ‹(!b.isOpen) = true›)
  have hopen : b.isOpen := by simpa using ‹¬ (!b.isOpen) = true›
  split at h
  · cases h
    exact .tooDeep hopen ‹_›
  have hlimit : b.exceeded? depth = none := ‹_›
  obtain ⟨⟨r, m⟩, hkeys, h⟩ := bind_eq_ok_iff.1 h
  simp only at h
  split at h
  · exact decides_of_deliverUnheard hopen hlimit hkeys ‹_› h
  · cases h
    exact .heard hopen hlimit hkeys ‹_›

theorem Sound.publish (hb : b.Sound) (h : b.publish declared depth e = .ok d) :
    ({ b with matcher := d.matcher } : Bus).Sound := by
  refine ⟨hb.registry, ?_⟩
  have hfound {m m' : Matcher} (hm : m.Sound) {cls : Name} {r : Resolution}
      (hkeys : m.keysFor declared cls = .ok (r, m')) : m'.Sound :=
    (Matcher.keysFor_sound hm hkeys).2
  cases decides_of_publish h with
  | closed | tooDeep => exact hb.matcher
  | heard _ _ hkeys => exact hfound hb.matcher hkeys
  | unheard _ _ hkeys => exact hfound hb.matcher hkeys
  | carried _ _ hkeys _ _ _ hcarrier => exact hfound (hfound hb.matcher hkeys) hcarrier
  | uncarried _ _ hkeys _ _ _ hcarrier => exact hfound (hfound hb.matcher hkeys) hcarrier

/-- Only subscriptions of the bus are scheduled. -/
theorem mem_row_of_publish (h : b.publish declared depth e = .ok d) {event : Event}
    {ts : List (Subscription × Option View)} (hplan : d.plan = .scheduled event ts) :
    ∀ t ∈ ts, ∃ k, t.1 ∈ b.registry.row k := by
  have hlookup (r : Resolution) : ∀ t ∈ b.registry.lookup r, ∃ k, t.1 ∈ b.registry.row k := by
    intro t ht
    obtain ⟨k, -, hk⟩ := (Registry.mem_lookup ..).1 (show (t.1, t.2) ∈ _ from ht)
    exact ⟨k, hk⟩
  cases decides_of_publish h with
  | closed | tooDeep => cases hplan
  | heard | carried =>
    cases hplan
    exact hlookup _
  | unheard | uncarried =>
    cases hplan
    simp

end Publishing

end Bus
end PubSub
