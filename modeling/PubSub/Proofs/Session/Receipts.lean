import PubSub.Proofs.Registry.Removal
import PubSub.Proofs.Session.Fates

/-!
# Receipts

The handle that a subscription gives out names what was subscribed for as long as the session lasts, and nothing else.
So it removes these subscriptions and no others, whenever and however often it is used.
-/

namespace PubSub

namespace Bus

variable {b b' : Bus} {handle : Handle} {entries : List (Key × Nat)}

theorem Becomes.names (h : b.Becomes b') (hnames : b.registry.Names entries) : b'.registry.Names entries :=
  hnames.later h.registry.1 h.registry.2

theorem Becomes.follows (h : b.Becomes b') {calls : List (Key × Callback)} (hr : b.registry.Follows calls) :
    ∃ calls', b'.registry.Follows calls' := by
  induction h with
  | refl => exact ⟨calls, hr⟩
  | tail _ h ih =>
    obtain ⟨calls', hr'⟩ := ih
    exact follows_of_changes hr' h

def without (b : Bus) (entries : List (Key × Nat)) : Bus :=
  { b with registry := (removeAll b.registry entries).1 }

theorem unsubscribe_own (hopen : b.isOpen) (hown : handle.bus = b.id) :
    b.unsubscribe handle = .ok (b.without handle.entries, (removeAll b.registry handle.entries).2) :=
  unsubscribe_eq_ok_iff.2 ⟨hown, hopen, rfl, rfl⟩

theorem names_without (hnames : b.registry.Names entries) (others : List (Key × Nat)) :
    (b.without others).registry.Names entries :=
  hnames.later (Nat.le_of_eq (issued_removeAll ..).symm) fun _ _ hs => Or.inl (mem_row_removeAll hs)

theorem row_without (hnames : b.registry.Names entries) (k : Key) :
    (b.without entries).registry.row k = (b.registry.row k).filter fun s => s.id ∉ entries.map Prod.snd :=
  hnames.row_removeAll k

theorem Becomes.gone (h : (b.without entries).Becomes b') (hnames : b.registry.Names entries) (k : Key) :
    ∀ s ∈ b'.registry.row k, s.id ∉ entries.map Prod.snd := by
  intro s hs hid
  rcases h.registry.2 k s hs with hold | hnew
  · rw [row_without hnames, List.mem_filter] at hold
    exact of_decide_eq_true hold.2 hid
  · obtain ⟨e, he, hid⟩ := List.mem_map.1 hid
    have hissued := (names_without hnames entries e he).1
    omega

theorem unsubscribe_of_gone {calls : List (Key × Callback)} (hr : b.registry.Follows calls) (hopen : b.isOpen)
    (hown : handle.bus = b.id) (hgone : ∀ k, ∀ s ∈ b.registry.row k, s.id ∉ handle.entries.map Prod.snd) :
    b.unsubscribe handle = .ok (b, []) := by
  have habsent : ∀ e ∈ handle.entries, ∀ s ∈ b.registry.row e.1, s.id ≠ e.2 := by
    intro e he s hs hid
    exact hgone e.1 s hs (List.mem_map.2 ⟨e, he, hid.symm⟩)
  rw [unsubscribe_own hopen hown, without, hr.removeAll_of_absent habsent]

theorem row_without_comm {others : List (Key × Nat)} (hnames : b.registry.Names entries)
    (hothers : b.registry.Names others) (k : Key) :
    ((b.without entries).without others).registry.row k = ((b.without others).without entries).registry.row k := by
  rw [row_without (names_without hothers entries), row_without hnames, row_without (names_without hnames others),
    row_without hothers, List.filter_filter, List.filter_filter]
  apply List.filter_congr
  intro s _
  exact Bool.and_comm ..

end Bus

namespace Session

variable {s s' : Session} {b : Bus} {handle : Handle}

/-- The handle was given out by a subscription at some time. -/
def HandedOut (s : Session) (handle : Handle) : Prop :=
  ∃ (s₀ : Session) (b₀ b₁ : Bus) (bindings : List (Key × Callback)), s₀.Reachable ∧
    s₀.buses.get? b₀.id = some b₀ ∧ b₀.subscribe bindings = .ok (b₁, handle) ∧
      Moves ((s₀.putBus b₁).placeAll b₀.id handle.entries) s

/-- Who is answered with a handle has subscribed something, and nothing else has happened to buses. -/
theorem subscribed_of_answer {o : Object} {route : Route} {name : Option String} {table : Option (List Nat)}
    (h : (s.subscribe b o route name).2 = .subscribed handle table) :
    ∃ bindings b', b.subscribe bindings = .ok (b', handle) ∧
      ((s.putBus b').placeAll b.id handle.entries).Aside (s.subscribe b o route name).1 := by
  have hsubscribed {issued : Nat} (hissued : s.issued ≤ issued) {t : Option (List Nat)}
      {result : Except BusError (Bus × Handle)} (bindings : List (Key × Callback))
      (hresult : ∀ r, result = .ok r → b.subscribe bindings = .ok r)
      (h : (subscribed { s with issued } b name t result).2 = .subscribed handle table) :
      ∃ bindings b', b.subscribe bindings = .ok (b', handle) ∧
        ((s.putBus b').placeAll b.id handle.entries).Aside (subscribed { s with issued } b name t result).1 := by
    cases result with
    | error e => cases h
    | ok r =>
      obtain ⟨b', handle'⟩ := r
      cases h
      refine ⟨bindings, b', hresult _ rfl, ?_⟩
      have hlater : ((s.putBus b').placeAll b.id handle.entries).Aside
          (placeAll { s.putBus b' with issued } b.id handle.entries) := by
        rw [placeAll_issued (s.putBus b') issued]
        obtain ⟨addresses, heq⟩ := exists_placeAll (s.putBus b') b.id handle.entries
        rw [heq]
        exact ⟨rfl, rfl, hissued, rfl, rfl, rfl, rfl⟩
      have hreport := hlater.trans (aside_report _ (b.optional (handle.entries.map fun e => .subscribed e.1 e.2)))
      cases name with
      | none => exact hreport
      | some name => exact hreport.trans (.rest ..)
  unfold subscribe at h ⊢
  split at h
  · refine hsubscribed (Nat.le_refl _) o.handlers ?_ h
    intro r hr
    simp only [Bus.subscribeHandlers] at hr
    split at hr
    · cases hr
    · exact hr
  · simp only at h ⊢
    split at h
    · cases h
    · exact hsubscribed (Nat.le_succ _) _ (fun _ hr => hr) h

theorem handedOut_of_subscribe (hs : s.Reachable) (hb : s.buses.get? b.id = some b) {o : Object} {route : Route}
    {name : Option String} {table : Option (List Nat)}
    (h : (s.subscribe b o route name).2 = .subscribed handle table) :
    (s.subscribe b o route name).1.HandedOut handle := by
  obtain ⟨bindings, b', hsubscribe, haside⟩ := subscribed_of_answer h
  exact ⟨s, b, b', bindings, hs, hb, hsubscribe, .single (.effect (.aside haside))⟩

theorem HandedOut.names (h : s.HandedOut handle) (hb : s.buses.get? handle.bus = some b) :
    b.registry.Names handle.entries := by
  obtain ⟨s₀, b₀, b₁, bindings, hs₀, hb₀, hsubscribe, hm⟩ := h
  obtain ⟨calls, hcalls⟩ := hs₀.follows hb₀
  have hs₁ := hs₀.proper.effect (effect_placeAll hb₀ hsubscribe)
  obtain ⟨-, rfl, rfl⟩ := Bus.subscribe_eq_ok_iff.1 hsubscribe
  obtain ⟨b', hb', hbecomes⟩ := has_of_moves hs₁ hm (by
    rw [buses_placeAll]
    exact (Table.get?_put ..).trans (if_pos rfl))
  obtain rfl := Option.some.inj (hb.symm.trans hb')
  exact hbecomes.names (hcalls.names_registerAll bindings)

private theorem invocation_of_gone (hs : s.Proper) {bus : Nat} {ids : List Nat} (hm : Moves s s')
    (hgone : ∀ s₁, Moves s s₁ → ∀ b, s₁.buses.get? bus = some b → ∀ k, ∀ u ∈ b.registry.row k, u.id ∉ ids) {id : Nat}
    {i : Invocation} (hi : s'.invocations.get? id = some i) (hbus : i.bus = bus) (hid : i.subscription.id ∈ ids) :
    ∃ i₀, s.invocations.get? id = some i₀ ∧ i₀.Continues i := by
  induction hm generalizing i with
  | refl => exact ⟨i, hi, .refl i⟩
  | tail hprior h ih =>
    obtain ⟨ctx, hcarries⟩ := Carries.move (hs.moves hprior) h
    rcases hcarries.invocation id i hi with ⟨i₁, hi₁, stage, parked, rfl⟩ | ⟨-, -, -, -, b, k, hb, hrow⟩
    · obtain ⟨i₀, hi₀, hc⟩ := ih hi₁ hbus hid
      exact ⟨i₀, hi₀, hc.trans ⟨stage, parked, rfl⟩⟩
    · exact absurd hid (hgone _ hprior b (hbus ▸ hb) k _ hrow)

private theorem after_unsubscribe (hs : s.Proper) (hb : s.buses.get? b.id = some b) (hopen : b.isOpen)
    (hown : handle.bus = b.id) : (s.unsubscribe b handle).1.Proper ∧
      (s.unsubscribe b handle).1.buses.get? b.id = some (b.without handle.entries) ∧
      (s.unsubscribe b handle).1.invocations = s.invocations := by
  simp only [unsubscribe, Bus.unsubscribe_own hopen hown]
  have haside := aside_report (s.putBus (b.without handle.entries)) (b.optional
    ((Bus.removeAll b.registry handle.entries).2.map fun e => .unsubscribed e.1 e.2))
  refine ⟨?_, ?_, haside.invocations⟩
  · exact (hs.putBus (b := b.without handle.entries) (hs.bus _ _ hb).2).aside haside
  · rw [haside.buses]
    exact (Table.get?_put ..).trans (if_pos rfl)

/-- A handle that some subscription of an open bus gave out, used already or not: it removes what has one of its ids
and leaves all else in its place. Used again at once it removes nothing, and it does not matter whether another handle
is used before or after. From then on, whatever happens, the bus has none of these subscriptions, the handle removes
nothing, and no invocation is made for one of them. Subscribing callbacks that are not there and removing them again
restores each row. -/
theorem unsubscribed_for_good (hs : s.Reachable) (hb : s.buses.get? b.id = some b) (hopen : b.isOpen)
    (hhandle : s.HandedOut handle) (hown : handle.bus = b.id) :
    ∃ b' removed, b.unsubscribe handle = .ok (b', removed) ∧ (s.unsubscribe b handle).1.buses.get? b.id = some b' ∧
      (∀ k, b'.registry.row k = (b.registry.row k).filter fun u => u.id ∉ handle.entries.map Prod.snd) ∧
      b'.unsubscribe handle = .ok (b', []) ∧
      (∀ other, s.HandedOut other → other.bus = b.id → ∃ b₁ removed₁ b₂ removed₂ b₃ removed₃,
        b.unsubscribe other = .ok (b₁, removed₁) ∧ b₁.unsubscribe handle = .ok (b₂, removed₂) ∧
        b'.unsubscribe other = .ok (b₃, removed₃) ∧ b₃.subscriptionCount = b₂.subscriptionCount ∧
        ∀ k, b₃.registry.row k = b₂.registry.row k) ∧
      (∀ s', Moves (s.unsubscribe b handle).1 s' →
        (∃ b'', s'.buses.get? b.id = some b'' ∧
          (∀ k, ∀ u ∈ b''.registry.row k, u.id ∉ handle.entries.map Prod.snd) ∧
          (b''.isOpen → b''.unsubscribe handle = .ok (b'', []))) ∧
        ∀ id i, s'.invocations.get? id = some i → i.bus = b.id → i.subscription.id ∈ handle.entries.map Prod.snd →
          ∃ i₀, s.invocations.get? id = some i₀ ∧ i₀.Continues i) ∧
      ∀ bindings, (∀ e ∈ bindings, ∀ u ∈ b.registry.row e.1,
          ¬ (u.callback.identity = e.2.identity ∧ u.callback.name = e.2.name)) →
        ∃ b₁ fresh b₂ removed₂, b.subscribe bindings = .ok (b₁, fresh) ∧ b₁.unsubscribe fresh = .ok (b₂, removed₂) ∧
          b₂.subscriptionCount = b.subscriptionCount ∧ ∀ k, b₂.registry.row k = b.registry.row k := by
  obtain ⟨calls, hcalls⟩ := hs.follows hb
  have hnames : b.registry.Names handle.entries := hhandle.names (hown ▸ hb)
  have hgone {b' : Bus} (h : (b.without handle.entries).Becomes b') := h.gone hnames
  have hwithout (entries : List (Key × Nat)) : (b.without entries).registry.Follows calls :=
    Bus.follows_removeAll hcalls entries
  obtain ⟨hs', hb', hinvocations⟩ := after_unsubscribe hs.proper hb hopen hown
  -- at any later time the bus is one that this one has become
  have hlater {s' : Session} (hm : Moves (s.unsubscribe b handle).1 s') : ∃ b'', s'.buses.get? b.id = some b'' ∧
      (b.without handle.entries).Becomes b'' := has_of_moves hs' hm hb'
  refine ⟨_, _, Bus.unsubscribe_own hopen hown, hb', Bus.row_without hnames, ?_, ?_, ?_, ?_⟩
  · exact Bus.unsubscribe_of_gone (hwithout _) hopen hown (hgone .refl)
  · intro other hother hownother
    have hnames' : b.registry.Names other.entries := hother.names (hownother ▸ hb)
    have hrow := Bus.row_without_comm hnames hnames'
    refine ⟨_, _, _, _, _, _, Bus.unsubscribe_own hopen hownother, Bus.unsubscribe_own hopen hown,
      Bus.unsubscribe_own hopen hownother, ?_, hrow⟩
    exact (Bus.follows_removeAll (hwithout _) _).size_congr (Bus.follows_removeAll (hwithout _) _) hrow
  · intro s' hm
    refine ⟨?_, ?_⟩
    · obtain ⟨b'', hb'', hbecomes⟩ := hlater hm
      obtain ⟨calls'', hcalls''⟩ := hbecomes.follows (hwithout _)
      exact ⟨b'', hb'', hgone hbecomes,
        fun hopen' => Bus.unsubscribe_of_gone hcalls'' hopen' (hown.trans hbecomes.id.symm) (hgone hbecomes)⟩
    · intro id i hi hbus hid
      rw [← hinvocations]
      refine invocation_of_gone hs' hm ?_ hi hbus hid
      intro s₁ hm₁ b₁ hb₁
      obtain ⟨b'', hb'', hbecomes⟩ := hlater hm₁
      obtain rfl := Option.some.inj (hb₁.symm.trans hb'')
      exact hgone hbecomes
  · intro bindings hnew
    simp only [← Callback.isSame_iff] at hnew
    have hrow := hcalls.row_of_undone hnew
    refine ⟨_, _, _, _, Bus.subscribe_eq_ok_iff.2 ⟨hopen, rfl, rfl⟩, Bus.unsubscribe_own hopen rfl, ?_, hrow⟩
    exact hcalls.size_congr (Bus.follows_removeAll (hcalls.registerAll bindings) _) hrow

private def unlisted : Session :=
  let s := ((start false).perform .outermost (.openBus "bus" .default [])).1
  (s.perform .outermost (.object "listener" "Listener" true .idle [])).1

private def unlistedBus : Bus :=
  (unlisted.buses.get? 1).getD ⟨0, .default, false, .empty, .empty⟩

private def listing : Object :=
  (unlisted.objects.get? "listener").getD ⟨0, "", "", false, Script.listener .idle, []⟩

private def listed : Session :=
  (unlisted.subscribe unlistedBus listing (.shared (.simple 0)) none).1

private def listedBus : Bus :=
  (listed.buses.get? 1).getD ⟨0, .default, false, .empty, .empty⟩

private def receipt : Handle :=
  ⟨1, [(.named (.simple 0), 1)]⟩

theorem listed_is_removed : listedBus.registry.count (.named (.simple 0)) = 1 ∧ ∃ b' removed,
    listedBus.unsubscribe receipt = .ok (b', removed) ∧ b'.registry.row (.named (.simple 0)) = [] ∧
      b'.unsubscribe receipt = .ok (b', []) := by
  have hbefore : unlisted.Reachable := ⟨false, .tail (.single (.perform ..)) (.perform ..)⟩
  have hreceipt : listed.HandedOut receipt := handedOut_of_subscribe hbefore rfl rfl
  have hreachable : listed.Reachable := hbefore.trans
    (.single (.perform unlisted (.subscribe "bus" "listener" (.shared (.simple 0)) none)))
  obtain ⟨b', removed, hremoved, -, hrow, hagain, -⟩ := unsubscribed_for_good hreachable (b := listedBus) rfl rfl
    hreceipt rfl
  exact ⟨rfl, b', removed, hremoved, (hrow _).trans rfl, hagain⟩

end Session
end PubSub
