import PubSub.Proofs.Registry.Requests

/-!
# Look-ups amid requests

A look-up reads the row of one key after the other, and between two rows the registry may be asked for anything. What
is there all the time is found once. Nothing is found twice, also if it is removed and registered again meanwhile.
-/

namespace PubSub.Registry

/-- What comes next while a look-up is under way. -/
inductive Turn where
  /-- The look-up reads the row of its next key. -/
  | read
  | request (q : Request)

def Turn.request? : Turn → Option Request
  | read => none
  | request q => some q

def asked (turns : List Turn) : List Request :=
  turns.filterMap Turn.request?

/-- A look-up under way, and the registry at the moment. -/
structure Scan where
  registry : Registry
  /-- The entries whose rows are still to be read. -/
  left : Resolution
  found : List (Subscription × Option View)

def Scan.take (c : Scan) : Turn → Scan
  | .request q => { c with registry := c.registry.request q }
  | .read =>
    match c.left with
    | [] => c
    | (key, view) :: left =>
      { c with left := left, found := c.found ++ (c.registry.row key).map fun s => (s, view) }

def scan (r : Registry) (resolution : Resolution) (turns : List Turn) : Scan :=
  turns.foldl Scan.take ⟨r, resolution, []⟩

/-- The subscription is gone once the request is met. -/
def Request.Removes (s : Subscription) : Request → Prop
  | unregister key id => key = s.key ∧ id = s.id
  | clear => True
  | register _ _ | registerAll _ => False

section Turns

private theorem split_after {before turns first second : List Turn} (hbefore : .read ∉ before)
    (h : before ++ turns = first ++ .read :: second) :
    ∃ first', first = before ++ first' ∧ turns = first' ++ .read :: second := by
  rcases List.append_eq_append_iff.1 h with ⟨first', hfirst, hturns⟩ | ⟨between, rfl, hturns⟩
  · exact ⟨first', hfirst, hturns⟩
  · cases between with
    | nil => exact ⟨[], by simp, hturns.symm⟩
    | cons t between =>
      obtain ⟨rfl, -⟩ := List.cons.inj hturns
      exact absurd (by simp) hbefore

private theorem split_before {turns rest first second : List Turn} (hrest : .read ∉ rest)
    (h : turns ++ rest = first ++ .read :: second) : ∃ second', turns = first ++ .read :: second' := by
  rcases List.append_eq_append_iff.1 h with ⟨between, -, rfl⟩ | ⟨between, hturns, hrest'⟩
  · exact absurd (by simp) hrest
  · cases between with
    | nil =>
      obtain rfl : .read :: second = rest := hrest'
      exact absurd (List.mem_cons_self ..) hrest
    | cons t between =>
      obtain ⟨rfl, -⟩ := List.cons.inj hrest'
      exact ⟨between, hturns⟩

theorem asked_append (turns later : List Turn) : asked (turns ++ later) = asked turns ++ asked later :=
  List.filterMap_append ..

theorem scan_append (r : Registry) (resolution : Resolution) (turns : List Turn) (t : Turn) :
    scan r resolution (turns ++ [t]) = (scan r resolution turns).take t := by
  simp [scan]

end Turns

section Staying

theorem mem_row_request_of_kept {r : Registry} {q : Request} {s : Subscription} (hs : s ∈ r.row s.key)
    (hkept : ¬ q.Removes s) : s ∈ (r.request q).row s.key := by
  cases q with
  | register key callback => exact mem_row_register_of_mem hs
  | registerAll bindings => exact mem_row_registerAll_of_mem hs
  | unregister key id =>
    simp only [request, row_unregister]
    split
    · refine List.mem_filter.2 ⟨hs, decide_eq_true ?_⟩
      intro hid
      exact hkept ⟨‹s.key = key›.symm, hid.symm⟩
    · exact hs
  | clear => exact absurd trivial hkept

theorem mem_row_of_kept (requests later : List Request) {s : Subscription} (hs : s ∈ (after requests).row s.key)
    (hkept : ∀ q ∈ later, ¬ q.Removes s) : s ∈ (after (requests ++ later)).row s.key := by
  induction later using List.reverseRecOn with
  | nil => simpa using hs
  | append_singleton later q ih =>
    rw [← List.append_assoc, after_append]
    refine mem_row_request_of_kept ?_ (hkept q (by simp))
    exact ih fun q' hq' => hkept q' (List.mem_append_left _ hq')

end Staying

section Scanning

variable {prior : List Request} {resolution : Resolution} {turns : List Turn} {c : Scan}

/-- What holds of a look-up after these turns, where the registry was asked for something before. -/
structure Amid (prior : List Request) (resolution : Resolution) (turns : List Turn) (c : Scan) : Prop where
  registry : c.registry = after (prior ++ asked turns)
  entries : ∃ done, resolution = done ++ c.left ∧ ∀ e ∈ c.found, (e.1.key, e.2) ∈ done
  seen : ∀ e ∈ c.found, ∃ first second, turns = first ++ .read :: second ∧
    e.1 ∈ (after (prior ++ asked first)).row e.1.key
  taken : ∀ e ∈ resolution, e ∈ c.left ∨ ∃ first second, turns = first ++ .read :: second ∧
    ∀ s ∈ (after (prior ++ asked first)).row e.1, (s, e.2) ∈ c.found
  apart : c.found.Pairwise fun e e' => e.1.key = e'.1.key →
    e.1.id < e'.1.id ∧ e.1.callback.isSame e'.1.callback = false

private theorem amid_start (prior : List Request) (resolution : Resolution) :
    Amid prior resolution [] ⟨after prior, resolution, []⟩ where
  registry := by simp [asked]
  entries := ⟨[], rfl, by simp⟩
  seen _ he := by cases he
  taken _ he := Or.inl he
  apart := .nil

namespace Amid

private theorem idle (h : Amid prior resolution turns c) (t : Turn) {r : Registry}
    (hregistry : r = after (prior ++ asked (turns ++ [t]))) :
    Amid prior resolution (turns ++ [t]) { c with registry := r } where
  registry := hregistry
  entries := h.entries
  seen e he := by
    obtain ⟨first, second, rfl, hs⟩ := h.seen e he
    exact ⟨first, second ++ [t], by simp, hs⟩
  taken e he := by
    rcases h.taken e he with hleft | ⟨first, second, rfl, hs⟩
    · exact Or.inl hleft
    · exact Or.inr ⟨first, second ++ [t], by simp, hs⟩
  apart := h.apart

private theorem request (h : Amid prior resolution turns c) (q : Request) :
    Amid prior resolution (turns ++ [.request q]) (c.take (.request q)) := by
  refine h.idle (.request q) ?_
  rw [asked_append, ← List.append_assoc, after_append, ← h.registry]
  rfl

private theorem read (hkeys : resolution.keys.Nodup) (h : Amid prior resolution turns c) :
    Amid prior resolution (turns ++ [.read]) (c.take .read) := by
  have hregistry : c.registry = after (prior ++ asked (turns ++ [.read])) := by
    have hread : asked [.read] = [] := rfl
    rw [h.registry, asked_append, hread, List.append_nil]
  obtain ⟨r, left, found⟩ := c
  cases left with
  | nil => exact h.idle .read hregistry
  | cons next left =>
    obtain ⟨key, view⟩ := next
    obtain ⟨done, hdone, hentries⟩ := h.entries
    have hidle := h.idle .read hregistry
    have hrow := follows_after (prior ++ asked turns)
    rw [← h.registry] at hrow
    have hnew : key ∉ done.map Prod.fst := by
      rw [hdone] at hkeys
      intro hkey
      refine List.disjoint_of_nodup_append (by simpa [Resolution.keys] using hkeys) hkey ?_
      exact List.mem_cons_self ..
    refine ⟨hregistry, ⟨done ++ [(key, view)], hdone.trans (List.append_cons ..), ?_⟩, ?_, ?_, ?_⟩
    · intro e he
      rcases List.mem_append.1 he with he | he
      · exact List.mem_append_left _ (hentries e he)
      · obtain ⟨s, hs, rfl⟩ := List.mem_map.1 he
        rw [← (hrow.made key s hs).1]
        exact List.mem_append_right _ (List.mem_singleton_self _)
    · intro e he
      rcases List.mem_append.1 he with he | he
      · exact hidle.seen e he
      · obtain ⟨s, hs, rfl⟩ := List.mem_map.1 he
        refine ⟨turns, [], rfl, ?_⟩
        rw [(hrow.made key s hs).1, ← h.registry]
        exact hs
    · intro e he
      rcases hidle.taken e he with hleft | ⟨first, second, hturns, hs⟩
      · rcases List.mem_cons.1 hleft with rfl | hleft
        · refine Or.inr ⟨turns, [], rfl, ?_⟩
          intro s hs
          rw [← h.registry] at hs
          exact List.mem_append_right _ (List.mem_map.2 ⟨s, hs, rfl⟩)
        · exact Or.inl hleft
      · exact Or.inr ⟨first, second, hturns, fun s hs' => List.mem_append_left _ (hs s hs')⟩
    · refine List.pairwise_append.2 ⟨h.apart, ?_, ?_⟩
      · rw [List.pairwise_map]
        refine ((hrow.increasing key).and (hrow.unlike key)).imp ?_
        intro s s' hs _
        exact hs
      · intro e he e' he' hkey
        obtain ⟨s, hs, rfl⟩ := List.mem_map.1 he'
        rw [(hrow.made key s hs).1] at hkey
        exact absurd (List.mem_map.2 ⟨_, hentries e he, hkey⟩) hnew

end Amid

theorem amid_scan (prior : List Request) (hkeys : resolution.keys.Nodup) (turns : List Turn) :
    Amid prior resolution turns (scan (after prior) resolution turns) := by
  induction turns using List.reverseRecOn with
  | nil => exact amid_start prior resolution
  | append_singleton turns t ih =>
    rw [scan_append]
    cases t with
    | read => exact ih.read hkeys
    | request q => exact ih.request q

theorem Amid.unlike (h : Amid prior resolution turns c) : c.found.Pairwise fun e e' => e.1.id ≠ e'.1.id ∧
    ¬ (e.1.key = e'.1.key ∧ e.1.callback.isSame e'.1.callback) := by
  have hmade (e) (he : e ∈ c.found) :
      (registrations (prior ++ asked turns))[e.1.id - 1]? = some (e.1.key, e.1.callback) := by
    obtain ⟨first, second, rfl, hs⟩ := h.seen e he
    obtain ⟨-, -, hmade⟩ := (follows_after _).made e.1.key e.1 hs
    have hlt := (List.getElem?_eq_some_iff.1 hmade).1
    rw [asked_append, ← List.append_assoc, registrations_append, List.getElem?_append_left hlt]
    exact hmade
  refine h.apart.imp_of_mem ?_
  intro e e' he he' hapart
  refine ⟨?_, ?_⟩
  · intro hid
    have hsame := (hid ▸ hmade e he).symm.trans (hmade e' he')
    have hlt := (hapart (congrArg Prod.fst (Option.some.inj hsame))).1
    exact Nat.ne_of_lt hlt hid
  · rintro ⟨hkey, hsame⟩
    rw [(hapart hkey).2] at hsame
    cases hsame

/-- The rows of `resolution` are read one after the other, from the first turn of `amid` on, and the last of them in
`amid`. The registry is asked for anything before, in between and after. A subscription that is there at first and that
no request in between removes is found exactly once, with the view of its key. What is found was there when some row
was read, so a subscription that was there at no moment in between is not found. All that is found has the view of its
own key and an id of its own, and no callback is found twice under one key, whatever was registered again meanwhile. -/
theorem found_once_amid_churn (prior : List Request) (resolution : Resolution) (hkeys : resolution.keys.Nodup)
    (before amid rest : List Turn) (hbefore : .read ∉ before) (hrest : .read ∉ rest)
    (hdone : (scan (after prior) resolution (before ++ amid ++ rest)).left = []) :
    (∀ s view, (s.key, view) ∈ resolution → s ∈ (after (prior ++ asked before)).row s.key →
      (∀ q ∈ asked amid, ¬ q.Removes s) →
      (scan (after prior) resolution (before ++ amid ++ rest)).found.filter (·.1.id = s.id) = [(s, view)]) ∧
    (∀ s, (∀ first second, amid = first ++ second →
        s ∉ (after (prior ++ asked (before ++ first))).row s.key) →
      ∀ view, (s, view) ∉ (scan (after prior) resolution (before ++ amid ++ rest)).found) ∧
    (∀ e ∈ (scan (after prior) resolution (before ++ amid ++ rest)).found, (e.1.key, e.2) ∈ resolution) ∧
    (scan (after prior) resolution (before ++ amid ++ rest)).found.Pairwise fun e e' => e.1.id ≠ e'.1.id ∧
      ¬ (e.1.key = e'.1.key ∧ e.1.callback.identity = e'.1.callback.identity ∧
        e.1.callback.name = e'.1.callback.name) := by
  have h := amid_scan prior hkeys (before ++ amid ++ rest)
  have hunlike := h.unlike
  -- a row is read neither before `amid` nor after it
  have hwithin {first second : List Turn} (hturns : before ++ amid ++ rest = first ++ .read :: second) :
      ∃ first' second', first = before ++ first' ∧ amid = first' ++ .read :: second' := by
    rw [List.append_assoc] at hturns
    obtain ⟨first', rfl, hlater⟩ := split_after hbefore hturns
    obtain ⟨second', hamid⟩ := split_before hrest hlater
    exact ⟨first', second', rfl, hamid⟩
  refine ⟨?_, ?_, ?_, ?_⟩
  · intro s view hview hs hkept
    have hmem : (s, view) ∈ (scan (after prior) resolution (before ++ amid ++ rest)).found := by
      rcases h.taken _ hview with hleft | ⟨first, second, hturns, htaken⟩
      · rw [hdone] at hleft
        cases hleft
      · obtain ⟨first', second', rfl, hamid⟩ := hwithin hturns
        refine htaken s ?_
        rw [asked_append, ← List.append_assoc]
        refine mem_row_of_kept _ _ hs ?_
        intro q hq
        refine hkept q ?_
        rw [hamid, asked_append]
        exact List.mem_append_left _ hq
    obtain ⟨front, back, hfound⟩ := List.append_of_mem hmem
    rw [hfound, List.pairwise_append, List.pairwise_cons] at hunlike
    obtain ⟨-, ⟨hback, -⟩, hfront⟩ := hunlike
    have hnone {l : List (Subscription × Option View)} (hl : ∀ e ∈ l, e.1.id ≠ s.id) :
        l.filter (·.1.id = s.id) = [] := by
      simpa [List.filter_eq_nil_iff] using hl
    rw [hfound, List.filter_append, List.filter_cons_of_pos (by simp)]
    rw [hnone fun e he => (hfront e he _ (List.mem_cons_self ..)).1, hnone fun e he => (hback e he).1.symm]
    rfl
  · intro s hnever view hfound
    obtain ⟨first, second, hturns, hs⟩ := h.seen _ hfound
    obtain ⟨first', second', rfl, hamid⟩ := hwithin hturns
    exact hnever first' (.read :: second') hamid hs
  · intro e he
    obtain ⟨done, hdone, hentries⟩ := h.entries
    rw [hdone]
    exact List.mem_append_left _ (hentries e he)
  · simpa only [Callback.isSame_iff] using hunlike

end Scanning

private def movedKey : Key :=
  .named (.simple 0)

private def steadyKey : Key :=
  .named (.simple 1)

private def moved : Callback :=
  ⟨1, "Listener@", "on_event", true, .whole, 1, fun _ _ => .reply none⟩

private def steady : Callback :=
  ⟨2, "Listener@", "on_event", true, .whole, 2, fun _ _ => .reply none⟩

/-- One callback is removed and registered twice again between two rows, the other stays. -/
private def moving : List Turn :=
  [.read, .request (.unregister movedKey 1), .request (.register movedKey moved), .request (.register steadyKey moved),
    .read]

theorem steady_found_once :
    (scan (after [.register movedKey moved, .register steadyKey steady]) [(movedKey, none), (steadyKey, none)]
      ([] ++ moving ++ [.request .clear])).left = [] ∧
    (scan (after [.register movedKey moved, .register steadyKey steady]) [(movedKey, none), (steadyKey, none)]
      ([] ++ moving ++ [.request .clear])).found.filter (·.1.id = 2) = [(⟨2, steadyKey, steady⟩, none)] := by
  have hfound := found_once_amid_churn [.register movedKey moved, .register steadyKey steady]
    [(movedKey, none), (steadyKey, none)] (by decide) [] moving [.request .clear] (by simp) (by simp) rfl
  refine ⟨rfl, hfound.1 ⟨2, steadyKey, steady⟩ none (by simp) (List.mem_singleton.2 rfl) ?_⟩
  intro q hq
  have hasked : q ∈ [.unregister movedKey 1, .register movedKey moved, .register steadyKey moved] := hq
  simp only [List.mem_cons, List.not_mem_nil, or_false] at hasked
  rcases hasked with rfl | rfl | rfl
  · exact fun hremoves => absurd hremoves.2 (by decide)
  · exact id
  · exact id

end PubSub.Registry
