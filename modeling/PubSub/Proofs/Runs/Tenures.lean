import PubSub.Proofs.Runs.Basic
import PubSub.Proofs.Session.Owners
import PubSub.Proofs.Session.Receipts

/-!
# Tenures of owners

From the moment an owner is made until another one takes its place it starts and ends buses, one after the other, while
everybody else does with these buses what they like. At no time more than one of them is open, and none is open that
the owner does not have in its slot.
-/

namespace PubSub

namespace Session

variable {s s' : Session} {name : String} {owner : Owner}

/-- A transition that does not put a new owner in the place of that name. -/
inductive LeavesInPlace (name : String) : Session → Session → Prop
  | perform (s : Session) {command : Command} (h : command.replaces name = false) :
    LeavesInPlace name s (s.perform .outermost command).1
  | publish {s s' : Session} {p : Publish} {result : Except Crash Nat}
      (h : s.publish .outermost p = some (s', result)) : LeavesInPlace name s s'
  | watch (s : Session) (publication : Nat) : LeavesInPlace name s (s.watch publication)
  | take (s : Session) (pending : String) : LeavesInPlace name s { s with pending := s.pending.erase pending }
  | gather (s : Session) : LeavesInPlace name s { s with forwarded := [], log := [], notices := [] }
  | step {s s' : Session} {id : Nat} (h : s.step id = some s')
      (hrequest : ∀ i command next, s.invocations.get? id = some i → i.rest? = some (.request command next) →
        command.replaces name = false) : LeavesInPlace name s s'

theorem LeavesInPlace.retains (hs : s.Proper) (h : LeavesInPlace name s s')
    (howner : s.owners.get? name = some owner) : s.Retains s' name owner := by
  have hcalm {s₁ : Session} (h : s.Calm s₁) : s.Retains s₁ name owner :=
    retains_of_same howner (by rw [h.owners])
  cases h with
  | perform h => exact retains_perform hs howner _ h
  | publish h => exact hcalm (Quiet.publish hs h).toCalm
  | watch publication => exact hcalm (Quiet.watch s publication).toCalm
  | take pending => exact hcalm (.of_same rfl rfl rfl)
  | gather => exact hcalm (.of_same rfl rfl rfl)
  | step h hrequest =>
    rcases quiet_or_request_of_step hs h with h | ⟨i, command, next, hi, hrest, rfl⟩
    · exact hcalm h.toCalm
    · obtain ⟨owner', howner', htends⟩ := retains_perform hs howner i.context (hrequest i command next hi hrest)
      refine ⟨owner', howner', ?_⟩
      cases htends with
      | left => exact .left
      | filled hempty hvalid hnew hb => exact .filled hempty hvalid hnew hb
      | emptied hclosed => exact .emptied hclosed

end Session

namespace Run

variable {r : Run} {name : String} {config : Config} {t₀ t : Nat}

def owner? (r : Run) (t : Nat) (name : String) : Option Owner :=
  (r.session t).owners.get? name

def slot? (r : Run) (t : Nat) (name : String) : Option Nat :=
  (r.owner? t name).bind Owner.bus

def Closed (r : Run) (t id : Nat) : Prop :=
  ∃ b, (r.session t).buses.get? id = some b ∧ b.isOpen = false

/-- An owner that has no bus at some moment, and stays in its place until a later one. -/
structure Tenure (r : Run) (name : String) (config : Config) (t₀ t : Nat) : Prop where
  made : r.owner? t₀ name = some ⟨config, none⟩
  le : t₀ ≤ t
  kept : ∀ u, t₀ ≤ u → u < t →
    r.session (u + 1) = r.session u ∨ Session.LeavesInPlace name (r.session u) (r.session (u + 1))

/-- How the owner and its buses stand. -/
structure Tended (r : Run) (name : String) (config : Config) (t₀ t : Nat) (slot : Option Nat) : Prop where
  owner : r.owner? t name = some ⟨config, slot⟩
  valid : slot ≠ none → config.validate = .ok ()
  fresh : ∀ id, slot = some id → (r.session t₀).issued < id
  present : ∀ id, slot = some id → ∃ b, (r.session t).buses.get? id = some b
  closed : ∀ u, t₀ ≤ u → u ≤ t → ∀ id, r.slot? u name = some id → slot = some id ∨ r.Closed t id

section Steps

theorem Closed.next {id : Nat} (h : r.Closed t id) : r.Closed (t + 1) id := by
  obtain ⟨b, hb, hclosed⟩ := h
  obtain ⟨b', hb', hbecomes⟩ := Session.has_of_moves (r.proper t) (moves_of_le (Nat.le_succ t)) hb
  have hshut := ((r.reachable t).shut hb hclosed).becomes hbecomes
  exact ⟨b', hb', hshut.1.1⟩

theorem tended_start (h : r.owner? t₀ name = some ⟨config, none⟩) : r.Tended name config t₀ t₀ none := by
  refine ⟨h, fun hslot => absurd rfl hslot, fun _ hslot => (by cases hslot), fun _ hslot => (by cases hslot), ?_⟩
  intro u hfrom hto id hslot
  obtain rfl := Nat.le_antisymm hto hfrom
  rw [slot?, h] at hslot
  cases hslot

theorem Tended.next {slot : Option Nat} (h : r.Tended name config t₀ t slot) (hle : t₀ ≤ t)
    (hretains : (r.session t).Retains (r.session (t + 1)) name ⟨config, slot⟩) :
    ∃ slot', r.Tended name config t₀ (t + 1) slot' := by
  have hlater (id : Nat) (b : Bus) (hb : (r.session t).buses.get? id = some b) :
      ∃ b', (r.session (t + 1)).buses.get? id = some b' := by
    obtain ⟨b', hb', -⟩ := Session.has_of_moves (r.proper t) (moves_of_le (Nat.le_succ t)) hb
    exact ⟨b', hb'⟩
  obtain ⟨owner', howner', htends⟩ := hretains
  have hslot' : r.slot? (t + 1) name = owner'.bus := by
    rw [slot?, owner?, howner']
    rfl
  -- it is enough to look at the bus that was in the slot before
  have hclosed (slot' : Option Nat) (howner : owner'.bus = slot')
      (hbefore : ∀ id, slot = some id → slot' = some id ∨ r.Closed (t + 1) id) (u : Nat) (hfrom : t₀ ≤ u)
      (hto : u ≤ t + 1) (id : Nat) (hid : r.slot? u name = some id) : slot' = some id ∨ r.Closed (t + 1) id := by
    rcases Nat.le_or_eq_of_le_succ hto with hto | rfl
    · rcases h.closed u hfrom hto id hid with hslot | hclosed
      · exact hbefore id hslot
      · exact Or.inr hclosed.next
    · exact Or.inl (howner.symm.trans (hslot'.symm.trans hid))
  cases htends with
  | left =>
    refine ⟨slot, howner', h.valid, h.fresh, ?_, hclosed slot rfl fun _ => Or.inl⟩
    intro id hslot
    obtain ⟨b, hb⟩ := h.present id hslot
    exact hlater id b hb
  | @filled b hempty hvalid hnew hb =>
    have hissued : (r.session t₀).issued ≤ (r.session t).issued := (extends_of_le hle).issued
    refine ⟨some b.id, howner', fun _ => hvalid, ?_, ?_, hclosed _ rfl ?_⟩
    · intro id hslot
      obtain rfl := Option.some.inj hslot
      omega
    · intro id hslot
      obtain rfl := Option.some.inj hslot
      exact ⟨b, hb⟩
    · intro id hslot
      cases hempty.symm.trans hslot
  | emptied hstopped =>
    refine ⟨none, howner', fun hslot => absurd rfl hslot, fun _ hslot => (by cases hslot),
      fun _ hslot => (by cases hslot), hclosed none rfl ?_⟩
    intro id hslot
    obtain ⟨b, hb⟩ := h.present id hslot
    obtain ⟨b', hb'⟩ := hlater id b hb
    refine Or.inr ⟨b', hb', Bool.eq_false_iff.2 fun hopen => ?_⟩
    cases (hstopped id hslot).symm.trans (Session.isRunning_eq_true_iff.2 ⟨b', hb', hopen⟩)

theorem Tenure.tended (h : r.Tenure name config t₀ t) : ∃ slot, r.Tended name config t₀ t slot := by
  obtain ⟨hmade, hle, hkept⟩ := h
  induction hle with
  | refl => exact ⟨none, tended_start hmade⟩
  | @step t hle ih =>
    obtain ⟨slot, htended⟩ := ih fun u hfrom hlt => hkept u hfrom (Nat.lt_succ_of_lt hlt)
    refine htended.next hle ?_
    rcases hkept t hle (Nat.lt_succ_self t) with hsame | hnext
    · rw [hsame]
      exact Session.retains_of_same htended.owner rfl
    · exact hnext.retains (r.proper t) htended.owner

end Steps

theorem Tenure.upto (h : r.Tenure name config t₀ t) {u : Nat} (hfrom : t₀ ≤ u) (hto : u ≤ t) :
    r.Tenure name config t₀ u :=
  ⟨h.made, hfrom, fun v hv hlt => h.kept v hv (Nat.lt_of_lt_of_le hlt hto)⟩

theorem Tenure.after (h : r.Tenure name config t₀ t) {u : Nat} (hfrom : t₀ ≤ u) (hto : u ≤ t)
    (hempty : r.slot? u name = none) : r.Tenure name config u t := by
  obtain ⟨slot, htended⟩ := (h.upto hfrom hto).tended
  have hslot : slot = none := by
    rw [slot?, htended.owner] at hempty
    exact hempty
  exact ⟨hslot ▸ htended.owner, hto, fun v hv hlt => h.kept v (Nat.le_trans hfrom hv) hlt⟩

private theorem refused_as_foreign {m : Nat} {ctx : Context} {bus object : String} {route : Route}
    {stored : Option String} {b b' : Bus} {handle : Handle} {table : Option (List Nat)}
    (hb : (r.session m).bus? bus = some b) (hne : b.id ≠ b'.id)
    (h : ((r.session m).perform ctx (.subscribe bus object route stored)).2 = .subscribed handle table) (s : Session) :
    s.unsubscribe b' handle = (s, .refused .foreignHandle none) := by
  have hbus : handle.bus = b.id := by
    simp only [Session.perform, Session.provided, hb, Option.elim_some] at h
    cases ho : (r.session m).objects.get? object with
    | none =>
      rw [ho] at h
      cases h
    | some o =>
      simp only [ho, Option.elim_some] at h
      obtain ⟨bindings, b₁, hsubscribe, -⟩ := Session.subscribed_of_answer h
      rw [(Bus.subscribe_eq_ok_iff.1 hsubscribe).2.2]
  simp only [Session.unsubscribe, Bus.unsubscribe, hbus, if_pos hne]

/-- An owner at any moment of its tenure, whatever everybody has done with its buses. It opens a bus only if its slot is
empty, and to end always works. Of all buses that it ever had in its slot only the one that is there now may be open, so
two that are open are the same. After its slot was empty it has another bus than before, and this refuses the
handles that were given out for the earlier one. -/
theorem only_the_kept_bus_runs (h : r.Tenure name config t₀ t) :
    ∃ slot, r.owner? t name = some ⟨config, slot⟩ ∧ (r.session t).Serves name ⟨config, slot⟩ ∧
      (∀ u, t₀ ≤ u → u ≤ t → ∀ id, r.slot? u name = some id → slot = some id ∨ r.Closed t id) ∧
      (∀ u u' id id', t₀ ≤ u → u ≤ t → t₀ ≤ u' → u' ≤ t → r.slot? u name = some id → r.slot? u' name = some id' →
        (r.session t).isRunning id → (r.session t).isRunning id' → id = id') ∧
      ∀ u v, t₀ ≤ u → u ≤ v → v ≤ t → ∀ id id', r.slot? u name = some id → r.slot? v name = none →
        slot = some id' → id ≠ id' ∧
          ∀ m ctx bus object route stored b handle table, (r.session m).bus? bus = some b → b.id = id →
            ((r.session m).perform ctx (.subscribe bus object route stored)).2 = .subscribed handle table →
            ∀ b', (r.session t).buses.get? id' = some b' →
              (r.session t).unsubscribe b' handle = (r.session t, .refused .foreignHandle none) := by
  obtain ⟨slot, htended⟩ := h.tended
  have hserves : (r.session t).Serves name ⟨config, slot⟩ :=
    Session.serves (r.proper t) htended.owner htended.valid htended.present
  refine ⟨slot, htended.owner, hserves, htended.closed, ?_, ?_⟩
  · intro u u' id id' hu hut hu' hut' hid hid' hrunning hrunning'
    have hkept (v : Nat) (hv : t₀ ≤ v) (hvt : v ≤ t) (k : Nat) (hk : r.slot? v name = some k)
        (hrunning : (r.session t).isRunning k) : slot = some k := by
      refine (htended.closed v hv hvt k hk).resolve_right fun ⟨b, hb, hclosed⟩ => ?_
      obtain ⟨b', hb', hopen⟩ := Session.isRunning_eq_true_iff.1 hrunning
      obtain rfl := Option.some.inj (hb.symm.trans hb')
      cases hopen.symm.trans hclosed
    exact Option.some.inj ((hkept u hu hut id hid hrunning).symm.trans (hkept u' hu' hut' id' hid' hrunning'))
  · intro u v hu huv hvt id id' hid hempty hid'
    have hne : id ≠ id' := by
      -- the earlier bus was there when the slot was empty, and the later one was opened after that
      obtain ⟨slot₁, htended₁⟩ := (h.after (Nat.le_trans hu huv) hvt hempty).tended
      have hslot : slot₁ = slot := by
        have hsame := htended₁.owner.symm.trans htended.owner
        exact congrArg Owner.bus (Option.some.inj hsame)
      have hafter := htended₁.fresh id' (hslot.trans hid')
      obtain ⟨slot₀, htended₀⟩ := (h.upto (Nat.le_trans hu huv) hvt).tended
      have hempty₀ : slot₀ = none := by
        rw [slot?, htended₀.owner] at hempty
        exact hempty
      obtain hslot | ⟨b, hb, -⟩ := htended₀.closed u hu huv id hid
      · cases hempty₀.symm.trans hslot
      · have hbefore := ((r.proper v).bus id b hb).2
        omega
    refine ⟨hne, ?_⟩
    intro m ctx bus object route stored b handle table hb hbid hanswer b' hb'
    refine refused_as_foreign hb ?_ hanswer _
    rw [hbid, ((r.proper t).bus id' b' hb').1]
    exact hne

private theorem leavesInPlace_scripted {tracing : Bool} {cues : List Cue} {u : Nat} {command : Command}
    (hcue : cues[u]? = some (.perform command)) (h : command.replaces name = false) :
    Session.LeavesInPlace name ((scripted tracing cues).session u) ((scripted tracing cues).session (u + 1)) := by
  have hnext : (scripted tracing cues).session (u + 1)
      = (((scripted tracing cues).session u).perform .outermost command).1 := by
    simp only [scripted, List.take_add_one, List.foldl_append, hcue]
    rfl
  rw [hnext]
  exact .perform _ h

/-- Two buses, one after the other, and a handle for the first. -/
private def restarted : Run :=
  .scripted false [.perform (.managed "owner" .default), .perform (.init "owner"),
    .perform (.managedBus "owner" "first"), .perform (.object "listener" "Listener" true .idle []),
    .perform (.destroy "owner"), .perform (.init "owner")]

private def firstHandle : Handle :=
  ⟨1, [(.named (.simple 0), 1)]⟩

private def firstBus : Bus :=
  ((restarted.session 4).bus? "first").getD ⟨0, .default, false, .empty, .empty⟩

private def secondBus : Bus :=
  ((restarted.session 6).buses.get? 3).getD ⟨0, .default, false, .empty, .empty⟩

theorem restarted_owner_runs_second : restarted.Closed 6 1 ∧ (restarted.session 6).isRunning 3 ∧
    (restarted.session 6).unsubscribe secondBus firstHandle = (restarted.session 6, .refused .foreignHandle none) := by
  have htenure : restarted.Tenure "owner" .default 1 6 := by
    refine ⟨rfl, by decide, fun u hu hlt => Or.inr ?_⟩
    obtain rfl | rfl | rfl | rfl | rfl : u = 1 ∨ u = 2 ∨ u = 3 ∨ u = 4 ∨ u = 5 := by omega
    all_goals exact leavesInPlace_scripted rfl rfl
  obtain ⟨slot, howner, -, hclosed, -, hforeign⟩ := only_the_kept_bus_runs htenure
  obtain rfl : some 3 = slot := congrArg Owner.bus (Option.some.inj howner)
  refine ⟨?_, rfl, ?_⟩
  · rcases hclosed 2 (by decide) (by decide) 1 rfl with hslot | hclosed
    · cases hslot
    · exact hclosed
  · exact (hforeign 2 5 (by decide) (by decide) (by decide) 1 3 rfl rfl rfl).2 4 .outermost "first" "listener"
      (.shared (.simple 0)) none firstBus firstHandle none rfl rfl rfl secondBus rfl

end Run
end PubSub
