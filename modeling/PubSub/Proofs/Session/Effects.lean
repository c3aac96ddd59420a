import PubSub.Proofs.Session.Proper

/-!
# Effects of commands

What a command does to a proper session is a publish or a sequence of effects. None of them reaches an invocation that
is at work, so a listener that makes a request goes on from where it was.
-/

namespace PubSub

theorem Bus.subscribe_of_subscribeHandlers {b b' : Bus} {target : String} {handlers : List (Key × Callback)}
    {handle : Handle} (h : b.subscribeHandlers target handlers = .ok (b', handle)) :
    ∃ bindings, b.subscribe bindings = .ok (b', handle) := by
  simp only [subscribeHandlers] at h
  split at h
  · cases h
  · exact ⟨handlers, h⟩

theorem Bus.changes_of_subscribeHandlers {b b' : Bus} {target : String} {handlers : List (Key × Callback)}
    {handle : Handle} (h : b.subscribeHandlers target handlers = .ok (b', handle)) : b.Changes b' := by
  obtain ⟨bindings, h⟩ := subscribe_of_subscribeHandlers h
  exact .subscribed h

theorem Bus.row_of_looked {b b' : Bus} {declared : Name → Except Crash Descriptor} {cls : Name} {r : Resolution}
    (h : b.keysFor declared cls = .ok (r, b')) : ∀ k, ∀ x ∈ b'.registry.row k, x ∈ b.registry.row k := by
  obtain ⟨known, -, h⟩ := bind_eq_ok_iff.1 h
  cases h
  exact fun _ _ hx => hx

def Plan.refusal? : Plan → Option PublishError
  | refused error => some error
  | scheduled _ _ => none

namespace Session

variable {ctx : Context} {s s' : Session}

theorem get?_of_effects (h : Effects s s') {id : Nat} {i : Invocation}
    (hi : s.invocations.get? id = some i) (hidle : i.isIdle = false) : s'.invocations.get? id = some i := by
  induction h with
  | refl => exact hi
  | tail _ h ih => exact get?_of_effect h ih hidle

theorem Proper.get?_of_acts (hs : s.Proper) (h : s.Acts ctx s') {id : Nat} {i : Invocation}
    (hi : s.invocations.get? id = some i) (hidle : i.isIdle = false) : s'.invocations.get? id = some i := by
  cases h with
  | calmly h => exact get?_of_effects h hi hidle
  | publishing h haside => rw [haside.invocations, hs.get?_of_publishes h (hs.issued id i hi), hi]

theorem Aside.effects (h : s.Aside s') : Effects s s' :=
  .single (.aside h)

theorem Aside.trans {s'' : Session} (h : s.Aside s') (h' : s'.Aside s'') : s.Aside s'' where
  hierarchy := h'.hierarchy.trans h.hierarchy
  tracing := h'.tracing.trans h.tracing
  addresses := h'.addresses.trans h.addresses
  issued := Nat.le_trans h.issued h'.issued
  buses := h'.buses.trans h.buses
  invocations := h'.invocations.trans h.invocations
  publications := h'.publications.trans h.publications

section Placing

theorem Effect.unplaced {b b' : Bus} (hb : s.buses.get? b.id = some b) (h : b.Changes b')
    (hold : ∀ k, ∀ x ∈ b'.registry.row k, x ∈ b.registry.row k) : Effect s (s.putBus b') := by
  show Effect s { s.putBus b' with addresses := s.addresses }
  refine .changed hb h ⟨fun _ _ => id, ?_, ?_, ?_⟩
  · intro k x hx hnew
    exact absurd (hold k x hx) hnew
  · intro c a hnone hsome
    cases hnone.symm.trans hsome
  · intro c c' a hnone hsome
    cases hnone.symm.trans hsome

private theorem mem_used {c : Caller} {a : Nat} (ha : s.addresses.get? c = some a) (hc : s.holdsOn c) : a ∈ s.used := by
  refine List.mem_filterMap.2 ⟨(c, a), Table.mem_entries_of_get? ha, ?_⟩
  simp [hc]

/-- The callers in question, and no others, get addresses, and nothing else that is not gone has the same. -/
private structure Lodges (s : Session) (new : Caller → Prop) (addresses : Table Caller Nat) : Prop where
  kept : ∀ c a, s.addresses.get? c = some a → addresses.get? c = some a
  placed : ∀ c, new c → ∃ a, addresses.get? c = some a
  named : ∀ c a, s.addresses.get? c = none → addresses.get? c = some a → new c
  apart : ∀ c c' a, s.addresses.get? c = none → addresses.get? c = some a → addresses.get? c' = some a →
    s.holdsOn c → s.holdsOn c' → c = c'

private theorem lodges_nobody {new : Caller → Prop} (s : Session)
    (hplaced : ∀ c, new c → ∃ a, s.addresses.get? c = some a) : s.Lodges new s.addresses where
  kept _ _ := id
  placed := hplaced
  named c a hnone hsome := by cases hnone.symm.trans hsome
  apart c c' a hnone hsome := by cases hnone.symm.trans hsome

private theorem Lodges.trans {new new' : Caller → Prop} {addresses addresses' : Table Caller Nat}
    (h : s.Lodges new addresses) (h' : Lodges { s with addresses } new' addresses') :
    s.Lodges (fun c => new c ∨ new' c) addresses' := by
  refine ⟨fun c a ha => h'.kept c a (h.kept c a ha), ?_, ?_, ?_⟩
  · intro c hc
    rcases hc with hc | hc
    · obtain ⟨a, ha⟩ := h.placed c hc
      exact ⟨a, h'.kept c a ha⟩
    · exact h'.placed c hc
  · intro c a hnone hsome
    cases hbetween : addresses.get? c with
    | none => exact Or.inr (h'.named c a hbetween hsome)
    | some a₁ => exact Or.inl (h.named c a₁ hnone hbetween)
  · intro c c' a hnone hsome hsome' hheld hheld'
    cases hbetween : addresses.get? c with
    | none => exact h'.apart c c' a hbetween hsome hsome' hheld hheld'
    | some a₁ =>
      cases hbetween' : addresses.get? c' with
      | none => exact (h'.apart c' c a hbetween' hsome' hsome hheld' hheld).symm
      | some a₂ =>
        obtain rfl := Option.some.inj ((h'.kept c a₁ hbetween).symm.trans hsome)
        obtain rfl := Option.some.inj ((h'.kept c' a₂ hbetween').symm.trans hsome')
        exact h.apart c c' _ hnone hbetween hbetween' hheld hheld'

private theorem lodges_place (s : Session) (c : Caller) :
    ∃ addresses, s.place c = { s with addresses } ∧ s.Lodges (· = c) addresses := by
  by_cases hplaced : (s.addresses.get? c).isSome
  · refine ⟨s.addresses, if_pos hplaced, lodges_nobody s ?_⟩
    rintro _ rfl
    exact Option.isSome_iff_exists.1 hplaced
  · have hnone : s.addresses.get? c = none := by simpa using hplaced
    have hother (c' : Caller) (hne : c' ≠ c) :
        (s.addresses.put c (s.allocator.choose s.used)).get? c' = s.addresses.get? c' :=
      (Table.get?_put ..).trans (if_neg hne)
    have hhere : (s.addresses.put c (s.allocator.choose s.used)).get? c = some (s.allocator.choose s.used) :=
      (Table.get?_put ..).trans (if_pos rfl)
    have hnamed (c' : Caller) (a : Nat) (hnone' : s.addresses.get? c' = none)
        (hsome : (s.addresses.put c (s.allocator.choose s.used)).get? c' = some a) : c' = c := by
      by_contra hne
      cases hnone'.symm.trans ((hother c' hne).symm.trans hsome)
    refine ⟨_, if_neg hplaced, ?_, ?_, hnamed, ?_⟩
    · intro c' a ha
      refine (hother c' ?_).trans ha
      rintro rfl
      cases hnone.symm.trans ha
    · rintro _ rfl
      exact ⟨_, hhere⟩
    · intro c' c'' a hnone' hsome hsome' hheld hheld'
      obtain rfl := hnamed c' a hnone' hsome
      obtain rfl := Option.some.inj (hhere.symm.trans hsome)
      -- what has that address already is gone, or else it would not have been given
      by_contra hne
      exact s.allocator.fresh s.used (mem_used ((hother c'' (Ne.symm hne)).symm.trans hsome') hheld')

private theorem lodges_placeAll (s : Session) (bus : Nat) (entries : List (Key × Nat)) :
    ∃ addresses, s.placeAll bus entries = { s with addresses } ∧
      s.Lodges (fun c => ∃ e ∈ entries, c = ⟨bus, e.2⟩) addresses := by
  induction entries generalizing s with
  | nil => exact ⟨s.addresses, rfl, lodges_nobody s (by simp)⟩
  | cons e rest ih =>
    obtain ⟨addresses, hplace, hlodges⟩ := lodges_place s ⟨bus, e.2⟩
    obtain ⟨addresses', hrest, hlodges'⟩ := ih { s with addresses }
    refine ⟨addresses', ?_, by simpa using hlodges.trans hlodges'⟩
    calc s.placeAll bus (e :: rest)
        = (s.place ⟨bus, e.2⟩).placeAll bus rest := rfl
      _ = { s with addresses := addresses' } := by rw [hplace, hrest]

theorem exists_placeAll (s : Session) (bus : Nat) (entries : List (Key × Nat)) :
    ∃ addresses, s.placeAll bus entries = { s with addresses } := by
  obtain ⟨addresses, heq, -⟩ := lodges_placeAll s bus entries
  exact ⟨addresses, heq⟩

@[simp]
theorem buses_placeAll (s : Session) (bus : Nat) (entries : List (Key × Nat)) :
    (s.placeAll bus entries).buses = s.buses := by
  obtain ⟨addresses, heq⟩ := exists_placeAll s bus entries
  rw [heq]

theorem placeAll_issued (s : Session) (issued bus : Nat) (entries : List (Key × Nat)) :
    placeAll { s with issued } bus entries = { s.placeAll bus entries with issued } := by
  induction entries generalizing s with
  | nil => rfl
  | cons e rest ih =>
    have hplace : place { s with issued } ⟨bus, e.2⟩ = { s.place ⟨bus, e.2⟩ with issued } := by
      unfold place
      split <;> rfl
    calc placeAll { s with issued } bus (e :: rest)
        = (place { s with issued } ⟨bus, e.2⟩).placeAll bus rest := rfl
      _ = { (s.place ⟨bus, e.2⟩).placeAll bus rest with issued } := by rw [hplace, ih]

theorem effect_placeAll {b b' : Bus} {bindings : List (Key × Callback)} {handle : Handle}
    (hb : s.buses.get? b.id = some b) (h : b.subscribe bindings = .ok (b', handle)) :
    Effect s ((s.putBus b').placeAll b.id handle.entries) := by
  have hchanges : b.Changes b' := .subscribed h
  obtain ⟨-, rfl, rfl⟩ := Bus.subscribe_eq_ok_iff.1 h
  obtain ⟨addresses, heq, hlodges⟩ := lodges_placeAll (s.putBus
    { b with registry := (b.registry.registerAll bindings).1 }) b.id (b.registry.registerAll bindings).2
  rw [heq]
  refine .changed hb hchanges ⟨hlodges.kept, ?_, ?_, hlodges.apart⟩
  · intro k x hx hnew
    exact hlodges.placed _ ⟨_, Registry.mem_receipt_of_new hx hnew, rfl⟩
  · intro c a hnone hsome
    obtain ⟨e, he, rfl⟩ := hlodges.named c a hnone hsome
    obtain ⟨x, hx, hid⟩ := Registry.exists_of_mem_registerAll he
    exact ⟨rfl, e.1, x, hx, hid⟩

end Placing

section Ending

theorem effects_report (s : Session) (ns : List Notice) : Effects s (s.report ns) :=
  (aside_report s ns).effects

theorem buses_watch (s : Session) (publication : Nat) : (s.watch publication).buses = s.buses := by
  simp only [watch]
  split
  · rfl
  · split
    · rfl
    · exact (aside_report _ _).buses

theorem effects_watch (s : Session) (publication : Nat) : Effects s (s.watch publication) := by
  simp only [watch]
  cases hp : s.publications.get? publication with
  | none => exact .refl
  | some p =>
    simp only
    split
    · exact .refl
    · exact .head (.flagged hp (Or.inl rfl)) (effects_report _ _)

theorem effects_unwatch (s : Session) (publication : Nat) : Effects s (s.unwatch publication) := by
  simp only [unwatch]
  cases hp : s.publications.get? publication with
  | none => exact .refl
  | some p => exact .single (.flagged hp (Or.inr rfl))

theorem aside_leaveCall (s : Session) (i : Invocation) : s.Aside (s.leaveCall i) := by
  simp only [leaveCall]
  split <;> exact .rest ..

theorem effects_abandonWait (s : Session) (id : Nat) (i : Invocation) : Effects s (s.abandonWait id i) := by
  simp only [abandonWait]
  split
  · exact effects_unwatch s _
  · exact Aside.effects (.rest ..)
  · exact .refl

theorem abandonWait_frame (s : Session) (id : Nat) (i : Invocation) :
    (s.abandonWait id i).buses = s.buses ∧ (s.abandonWait id i).invocations = s.invocations := by
  simp only [abandonWait, unwatch]
  split
  · split <;> exact ⟨rfl, rfl⟩
  · exact ⟨rfl, rfl⟩
  · exact ⟨rfl, rfl⟩

theorem interrupt_frame (s : Session) (id : Nat) (i : Invocation) :
    (s.interrupt id i).buses = s.buses ∧ (s.interrupt id i).invocations = s.invocations.erase id := by
  obtain ⟨-, -, hb, hi, -⟩ := finish_frame ((s.leaveCall i).abandonWait id i) id i (.lost false)
  obtain ⟨hb', hi'⟩ := abandonWait_frame (s.leaveCall i) id i
  have haside := aside_leaveCall s i
  simp only [interrupt]
  rw [hb, hi, hb', hi', haside.buses, haside.invocations]
  exact ⟨rfl, rfl⟩

theorem isRunning_congr {bus : Nat} (h : s'.buses = s.buses) : s'.isRunning bus = s.isRunning bus := by
  simp only [isRunning, h]

theorem effects_interrupt {id : Nat} {i : Invocation} {b : Bus} (hi : s.invocations.get? id = some i) (hidle : i.isIdle)
    (hb : s.buses.get? i.bus = some b) (hclosed : b.isOpen = false) : Effects s (s.interrupt id i) := by
  obtain ⟨hbuses, hinvocations⟩ := abandonWait_frame (s.leaveCall i) id i
  have haside := aside_leaveCall s i
  have hi' : ((s.leaveCall i).abandonWait id i).invocations.get? id = some i := by
    rw [hinvocations, haside.invocations, hi]
  have hb' : ((s.leaveCall i).abandonWait id i).buses.get? i.bus = some b := by
    rw [hbuses, haside.buses, hb]
  exact .tail (haside.effects.trans (effects_abandonWait _ id i)) (.interrupted hi' hidle hb' hclosed)

private theorem effects_interruptAll (es : List (Nat × Invocation)) (hes : (es.map Prod.fst).Nodup)
    (hin : ∀ e ∈ es, s.invocations.get? e.1 = some e.2) {bus : Nat} {b : Bus} (hb : s.buses.get? bus = some b)
    (hclosed : b.isOpen = false) :
    Effects s (es.foldl (fun s e => if e.2.bus = bus && e.2.isIdle then s.interrupt e.1 e.2 else s) s) := by
  induction es generalizing s with
  | nil => exact .refl
  | cons e es ih =>
    rw [List.map_cons, List.nodup_cons] at hes
    rw [List.foldl_cons]
    have hrest : ∀ e' ∈ es, s.invocations.get? e'.1 = some e'.2 := fun e' hm => hin e' (List.mem_cons_of_mem _ hm)
    by_cases hstop : e.2.bus = bus && e.2.isIdle
    · rw [if_pos hstop]
      rw [Bool.and_eq_true, decide_eq_true_eq] at hstop
      obtain ⟨hbus, hidle⟩ := hstop
      have hb' : (s.interrupt e.1 e.2).buses.get? bus = some b := by
        rw [(interrupt_frame s e.1 e.2).1, hb]
      refine (effects_interrupt (hin e (List.mem_cons_self ..)) hidle (hbus ▸ hb) hclosed).trans (ih hes.2 ?_ hb')
      intro e' hm
      have hne : ¬ e'.1 = e.1 := fun he => hes.1 (he ▸ List.mem_map_of_mem hm)
      rw [(interrupt_frame s e.1 e.2).2, Table.get?_erase, if_neg hne]
      exact hrest e' hm
    · rw [if_neg hstop]
      exact ih hes.2 hrest hb

theorem effects_stopWorkers (hs : s.Proper) {bus : Nat} {b : Bus} (hb : s.buses.get? bus = some b)
    (hclosed : b.isOpen = false) : Effects s (s.stopWorkers bus) :=
  effects_interruptAll _ hs.invocations (fun e hm => (Table.mem_entries_iff hs.invocations e.1 e.2).1 hm) hb hclosed

theorem buses_stopWorkers (s : Session) (bus : Nat) : (s.stopWorkers bus).buses = s.buses := by
  have hall (es : List (Nat × Invocation)) (s : Session) :
      (es.foldl (fun s e => if e.2.bus = bus && e.2.isIdle then s.interrupt e.1 e.2 else s) s).buses = s.buses := by
    induction es generalizing s with
    | nil => rfl
    | cons e es ih =>
      rw [List.foldl_cons, ih]
      split
      · exact (interrupt_frame s e.1 e.2).1
      · rfl
  exact hall _ s

private theorem effects_stop (hs : s.Proper) {b : Bus} (hb : s.buses.get? b.id = some b) :
    Effects s ((s.putBus b.close).stopWorkers b.id) := by
  have hcloses : Effect s (s.putBus b.close) := .unplaced hb .closed fun _ _ hx => by cases hx
  have hclosed : (s.putBus b.close).buses.get? b.id = some b.close :=
    (Table.get?_put ..).trans (if_pos rfl)
  exact .head hcloses (effects_stopWorkers (hs.effect hcloses) hclosed rfl)

theorem effects_closeBus (hs : s.Proper) {b : Bus} (hb : s.buses.get? b.id = some b) :
    Effects s (s.closeBus b) := by
  simp only [closeBus]
  split
  · exact (effects_stop hs hb).trans (effects_report _ _)
  · exact .refl

private theorem effects_stopAll (unkept : Session → Bus → Bool) (bs : List Bus) (hs : s.Proper)
    (hbs : (bs.map Bus.id).Nodup) (hin : ∀ b ∈ bs, s.buses.get? b.id = some b) :
    Effects s (bs.foldl (fun s b => if unkept s b then (s.putBus b.close).stopWorkers b.id else s) s) := by
  induction bs generalizing s with
  | nil => exact .refl
  | cons b bs ih =>
    rw [List.map_cons, List.nodup_cons] at hbs
    rw [List.foldl_cons]
    have hrest : ∀ b' ∈ bs, s.buses.get? b'.id = some b' := fun b' hm => hin b' (List.mem_cons_of_mem _ hm)
    split
    · have hstop : Effects s ((s.putBus b.close).stopWorkers b.id) :=
        effects_stop hs (hin b (List.mem_cons_self ..))
      refine hstop.trans (ih (hs.effects hstop) hbs.2 ?_)
      intro b' hm
      have hne : ¬ b'.id = b.id := fun he => hbs.1 (he ▸ List.mem_map_of_mem hm)
      rw [buses_stopWorkers]
      exact ((Table.get?_put ..).trans (if_neg hne)).trans (hrest b' hm)
    · exact ih hs hbs.2 hrest

theorem effects_dropUnkept (hs : s.Proper) : Effects s s.dropUnkept := by
  have hids : s.buses.values.map Bus.id = s.buses.entries.map Prod.fst := by
    simp only [Table.values]
    rw [List.map_map]
    apply List.map_congr_left
    intro e hm
    exact (hs.bus e.1 e.2 ((Table.mem_entries_iff hs.buses e.1 e.2).1 hm)).1
  refine effects_stopAll (fun s b => b.isOpen && !s.isKept b.id) _ hs (hids ▸ hs.buses) ?_
  intro b hm
  obtain ⟨id, hb⟩ := (Table.mem_values_iff hs.buses b).1 hm
  rw [(hs.bus id b hb).1, hb]

end Ending

section Publishing

theorem aside_announce {n : Notice} (h : s.announce n = .ok s') : s.Aside s' := by
  simp only [announce] at h
  split at h
  · obtain ⟨line, -, rfl⟩ := map_eq_ok_iff.1 h
    exact aside_report s [n]
  · obtain rfl := Except.ok.inj h
    exact .rest ..

theorem aside_announced {notice : Option Notice} (h : notice.elim (.ok s) s.announce = .ok s') : s.Aside s' := by
  cases notice with
  | none =>
    obtain rfl := Except.ok.inj h
    exact .rest ..
  | some n => exact aside_announce h

theorem publishOn_cases (ctx : Context) {b : Bus} (hb : s.buses.get? b.id = some b) (e : Event) :
    (∃ c, (s.publishOn ctx b e).2 = .error c ∧ Effects s (s.publishOn ctx b e).1) ∨
      ∃ publication, (s.publishOn ctx b e).2 = .ok publication ∧
        s.Publishes ctx (s.publishOn ctx b e).1 publication := by
  cases hd : b.publish s.hierarchy.declared ctx.depth e with
  | error c =>
    refine Or.inl ⟨c, ?_, ?_⟩
    · simp only [publishOn, hd]
    · simp only [publishOn, hd]
      exact .refl
  | ok d =>
    cases ha : d.notice.elim (.ok (s.putBus { b with matcher := d.matcher }))
        (s.putBus { b with matcher := d.matcher }).announce with
    | error c =>
      refine Or.inl ⟨c, ?_, ?_⟩
      · simp only [publishOn, hd, ha]
      · simp only [publishOn, hd, ha]
        exact .single (.unplaced hb (.published hd) fun _ _ => id)
    | ok s₁ =>
      refine Or.inr ⟨(s₁.schedule ctx b.id d.plan).2, ?_, ?_⟩
      · simp only [publishOn, hd, ha]
      · simp only [publishOn, hd, ha]
        exact .planned hb hd (aside_announced ha)

theorem refusal_of_publishOn {b : Bus} {e : Event} {publication : Nat}
    (h : s.publishOn ctx b e = (s', .ok publication)) : ∃ d q, b.publish s.hierarchy.declared ctx.depth e = .ok d ∧
      s'.publications.get? publication = some q ∧ q.refusal = d.plan.refusal? := by
  simp only [publishOn] at h
  split at h
  · cases h
  · rename_i d hd
    split at h
    · cases h
    · cases hplan : d.plan with
      | refused error =>
        rw [hplan] at h
        cases h
        exact ⟨d, _, hd, (Table.get?_put ..).trans (if_pos rfl), by rw [hplan]; rfl⟩
      | scheduled event targets =>
        rw [hplan] at h
        cases h
        exact ⟨d, _, hd, (get?_publications_schedule ..).trans (if_pos rfl), by rw [hplan]; rfl⟩

theorem acts_publishOn (ctx : Context) {b : Bus} (hb : s.buses.get? b.id = some b) (e : Event) :
    s.Acts ctx (s.publishOn ctx b e).1 := by
  rcases publishOn_cases ctx hb e with ⟨c, -, h⟩ | ⟨publication, -, h⟩
  · exact .calmly h
  · exact .publishing h (.rest ..)

theorem get?_of_bus? (hs : s.Proper) {name : String} {b : Bus} (h : s.bus? name = some b) :
    s.buses.get? b.id = some b := by
  simp only [bus?] at h
  cases hh : s.holds.get? name with
  | none => simp [hh] at h
  | some hold =>
    simp only [hh, Option.bind_eq_bind, Option.bind_some] at h
    split at h
    · rw [(hs.bus _ _ h).1, h]
    · cases h

theorem acts_publish (hs : s.Proper) {p : Publish} {result : Except Crash Nat}
    (h : s.publish ctx p = some (s', result)) : s.Acts ctx s' := by
  simp only [publish] at h
  split at h
  · cases h
  · split at h
    · obtain ⟨rfl, -⟩ := Prod.mk.inj (Option.some.inj h)
      exact acts_publishOn ctx (get?_of_bus? hs ‹_›) _
    · cases h
    · split at h
      · cases h
      · obtain ⟨rfl, -⟩ := Prod.mk.inj (Option.some.inj h)
        exact .publishing (.refused rfl) (.rest ..)

theorem publishMessage_cases (hs : s.Proper) (ctx : Context) (bus : String) (message : Message) :
    (∃ c, (s.publishMessage ctx bus message).2 = .error c ∧ Effects s (s.publishMessage ctx bus message).1) ∨
      s.publishMessage ctx bus message = (s, .ok none) ∨
      ∃ publication, (s.publishMessage ctx bus message).2 = .ok (some publication) ∧
        s.Publishes ctx (s.publishMessage ctx bus message).1 publication := by
  cases hb : s.bus? bus with
  | none =>
    cases message with
    | recipe r =>
      refine Or.inr (Or.inr ⟨(s.refuse .closed).2, ?_, ?_⟩)
      · simp only [publishMessage, hb]
      · simp only [publishMessage, hb]
        exact .refused rfl
    | event e => exact Or.inr (Or.inl (by simp only [publishMessage, hb]))
  | some b =>
    have hcases (e : Event) (he : s.publishMessage ctx bus message
        = ((s.publishOn ctx b e).1, (s.publishOn ctx b e).2.map some)) :
        (∃ c, (s.publishMessage ctx bus message).2 = .error c ∧ Effects s (s.publishMessage ctx bus message).1) ∨
          s.publishMessage ctx bus message = (s, .ok none) ∨
          ∃ publication, (s.publishMessage ctx bus message).2 = .ok (some publication) ∧
            s.Publishes ctx (s.publishMessage ctx bus message).1 publication := by
      rw [he]
      rcases publishOn_cases ctx (get?_of_bus? hs hb) e with ⟨c, hc, h⟩ | ⟨publication, hp, h⟩
      · exact Or.inl ⟨c, by rw [hc]; rfl, h⟩
      · exact Or.inr (Or.inr ⟨publication, by rw [hp]; rfl, h⟩)
    cases message with
    | recipe r => exact hcases (s.make r) (by simp only [publishMessage, hb])
    | event e => exact hcases e (by simp only [publishMessage, hb])

end Publishing

section Commands

theorem aside_define (s : Session) (name label : String) (threadSafe : Bool) (work : Role → Listener)
    (methods : List Handler) : s.Aside (s.define name label threadSafe work methods).1 :=
  (aside_issue s).trans (.rest ..)

theorem provided_cases {α : Type} {motive : Session × Answer → Prop} {found : Option α} {act : α → Session × Answer}
    (hnone : motive (s, .misfit)) (hsome : ∀ a, found = some a → motive (act a)) : motive (s.provided found act) := by
  simp only [provided]
  cases hf : found with
  | none => exact hnone
  | some a => exact hsome a hf

theorem effects_provided {α : Type} {found : Option α} {act : α → Session × Answer}
    (h : ∀ a, found = some a → Effects s (act a).1) : Effects s (s.provided found act).1 :=
  provided_cases (motive := fun r => Effects s r.1) .refl h

theorem effects_hold (hs : s.Proper) (name : String) (bus : Nat) : Effects s (s.hold name bus) := by
  have haside : Effects s { s with holds := s.holds.put name ⟨bus, true⟩ } :=
    Aside.effects (.rest ..)
  exact haside.trans (effects_dropUnkept (hs.effects haside))

theorem mapError_eq_ok_iff {ε ε' α : Type} {f : ε → ε'} {x : Except ε α} {a : α} :
    x.mapError f = .ok a ↔ x = .ok a := by
  cases x <;> simp [Except.mapError]

theorem effects_openBus {config : Config} {b : Bus} (h : s.openBus config = .ok (s', b)) : Effects s s' := by
  obtain ⟨b', hb, h⟩ := bind_eq_ok_iff.1 h
  obtain ⟨-, -, h⟩ := bind_eq_ok_iff.1 h
  cases h
  exact .head (.opened (mapError_eq_ok_iff.1 hb)) (effects_report _ _)

private theorem effects_dropName (hs : s.Proper) (name : String) (hold : Hold) :
    Effects s (s.dropName name hold).1 := by
  simp only [dropName]
  split
  · have haside : Effects s { s with holds := s.holds.put name { hold with keeps := false } } :=
      Aside.effects (.rest ..)
    exact haside.trans (effects_dropUnkept (hs.effects haside))
  · exact .refl

private theorem effects_keysOn {b : Bus} (hb : s.buses.get? b.id = some b) (cls : Name) :
    Effects s (s.keysOn b cls).1 := by
  simp only [keysOn]
  split
  · exact .refl
  · cases hk : b.keysFor s.hierarchy.declared cls with
    | error c => exact .refl
    | ok p => exact .single (.unplaced hb (.looked hk) (Bus.row_of_looked hk))

private theorem effects_subscribed {b : Bus} (hb : s.buses.get? b.id = some b) (handle : Option String)
    (table : Option (List Nat)) {result : Except BusError (Bus × Handle)}
    (h : ∀ b' handle, result = .ok (b', handle) → ∃ bindings, b.subscribe bindings = .ok (b', handle)) :
    Effects s (s.subscribed b handle table result).1 := by
  cases result with
  | error e => exact .refl
  | ok p =>
    obtain ⟨bindings, h⟩ := h p.1 p.2 rfl
    have hput : Effects s (((s.putBus p.1).placeAll b.id p.2.entries).report
        (b.optional (p.2.entries.map fun e => .subscribed e.1 e.2))) :=
      .head (effect_placeAll hb h) (effects_report _ _)
    cases handle with
    | none => exact hput
    | some name => exact hput.trans (Aside.effects (.rest ..))

private theorem effects_subscribe {b : Bus} (hb : s.buses.get? b.id = some b) (o : Object)
    (route : Route) (handle : Option String) : Effects s (s.subscribe b o route handle).1 := by
  have hissue : Effects s s.issue.1 := (aside_issue s).effects
  unfold subscribe
  split
  · exact effects_subscribed hb _ _ fun _ _ => Bus.subscribe_of_subscribeHandlers
  · simp only
    split
    · exact hissue
    · exact hissue.trans (effects_subscribed (s := s.issue.1) hb _ _ fun _ _ h => ⟨_, h⟩)

private theorem effects_unsubscribe {b : Bus} (hb : s.buses.get? b.id = some b) (handle : Handle) :
    Effects s (s.unsubscribe b handle).1 := by
  simp only [unsubscribe]
  cases hu : b.unsubscribe handle with
  | error e => exact .refl
  | ok p =>
    have hold : ∀ k, ∀ x ∈ p.1.registry.row k, x ∈ b.registry.row k := by
      obtain ⟨-, -, heq, -⟩ := Bus.unsubscribe_eq_ok_iff.1 hu
      intro k x hx
      rw [heq] at hx
      exact Bus.mem_row_removeAll hx
    exact .head (.unplaced hb (.unsubscribed hu) hold) (effects_report _ _)

private theorem acts_startPublish (hs : s.Proper) (name : String) (p : Publish) :
    s.Acts ctx (s.startPublish ctx name p).1 := by
  simp only [startPublish]
  cases hp : s.publish ctx p with
  | none => exact .calmly .refl
  | some r =>
    obtain ⟨s₁, result⟩ := r
    cases result with
    | error c => exact acts_publish hs hp
    | ok publication =>
      have haside : s₁.Aside { s₁ with pending := s₁.pending.put name publication } := .rest ..
      cases acts_publish hs hp with
      | calmly h => exact .calmly (h.trans haside.effects)
      | publishing h haside' => exact .publishing h (haside'.trans haside)

private theorem effects_initOwner (name : String) (owner : Owner) : Effects s (s.initOwner name owner).1 := by
  simp only [initOwner]
  split
  · exact .refl
  · cases ho : s.openBus owner.config with
    | error answer => exact .refl
    | ok p =>
      obtain ⟨s₁, b⟩ := p
      have hnamed : Effects s₁ { s₁ with owners := s₁.owners.put name { owner with bus := some b.id } } :=
        Aside.effects (.rest ..)
      exact ((effects_openBus ho).trans hnamed).trans (effects_report _ _)

private theorem effects_destroyOwner (hs : s.Proper) (name : String) (owner : Owner) :
    Effects s (s.destroyOwner name owner) := by
  simp only [destroyOwner]
  cases hb : owner.bus.bind s.buses.get? with
  | none => exact .refl
  | some b =>
    obtain ⟨id, -, hid⟩ := Option.bind_eq_some_iff.1 hb
    have hget : s.buses.get? b.id = some b := by rw [(hs.bus id b hid).1, hid]
    have hclosed : Effects s { (s.closeBus b).report [.destroyed] with
        owners := s.owners.put name { owner with bus := none } } :=
      ((effects_closeBus hs hget).trans (effects_report _ _)).trans (Aside.effects (.rest ..))
    exact hclosed.trans (effects_dropUnkept (hs.effects hclosed))

/-- There is just one command that publishes. -/
theorem effects_perform (hs : s.Proper) {command : Command} (hcalm : ∀ name p, command ≠ .start name p) :
    Effects s (s.perform ctx command).1 := by
  cases command with
  | declare later => exact .single (.declared s later)
  | openBus name base settings =>
    simp only [perform]
    cases ho : s.openBus (settings.foldl Config.set base) with
    | error answer => exact .refl
    | ok p =>
      have hopen : Effects s p.1 := effects_openBus (b := p.2) ho
      exact hopen.trans (effects_hold (hs.effects hopen) _ _)
  | clone name copy => exact effects_provided fun b _ => effects_hold hs copy b.id
  | drop name => exact effects_provided fun hold _ => effects_dropName hs name hold
  | alive name => exact .refl
  | closed name => exact .refl
  | close name => exact effects_provided fun b hb => effects_closeBus hs (get?_of_bus? hs hb)
  | count name type => cases type <;> exact .refl
  | keys name cls => exact effects_provided fun b hb => effects_keysOn (get?_of_bus? hs hb) cls
  | debug name => exact .refl
  | config name => exact .refl
  | sameBus left right => exact .refl
  | object name label threadSafe script methods => exact (aside_define ..).effects
  | subscribe name object route handle =>
    exact effects_provided fun b hb => effects_provided fun o _ =>
      effects_subscribe (get?_of_bus? hs hb) o route handle
  | unsubscribe name handle =>
    exact effects_provided fun b hb => effects_provided fun h _ => effects_unsubscribe (get?_of_bus? hs hb) h
  | handle name => exact .refl
  | sameHandle left right => exact .refl
  | start name p => exact absurd rfl (hcalm name p)
  | forget name =>
    refine effects_provided fun publication _ => ?_
    exact (effects_unwatch s publication).trans (Aside.effects (.rest ..))
  | release gate permits => exact Aside.effects (.rest ..)
  | peak object => exact .refl
  | calls object => exact .refl
  | managed name config =>
    have haside : Effects s { s with owners := s.owners.put name ⟨config, none⟩ } :=
      Aside.effects (.rest ..)
    exact haside.trans (effects_dropUnkept (hs.effects haside))
  | init name => exact effects_provided fun owner _ => effects_initOwner name owner
  | destroy name => exact effects_provided fun owner _ => effects_destroyOwner hs name owner
  | managedBus name bus =>
    refine effects_provided fun owner _ => ?_
    cases owner.bus with
    | none => exact .refl
    | some id => exact effects_hold hs bus id

theorem acts_perform (hs : s.Proper) (command : Command) : s.Acts ctx (s.perform ctx command).1 := by
  by_cases hstarts : ∃ name p, command = .start name p
  · obtain ⟨name, p, rfl⟩ := hstarts
    exact acts_startPublish hs name p
  · refine .calmly (effects_perform hs ?_)
    intro name p hstart
    exact hstarts ⟨name, p, hstart⟩

end Commands

end Session
end PubSub
