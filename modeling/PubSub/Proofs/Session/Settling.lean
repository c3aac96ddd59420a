import PubSub.Proofs.Session.Steps

/-!
# Settling

A publication is made without outcomes. It gets them from its own invocations, one from each, in the order of their
ends. An invocation ends by its own step, or it is abandoned by a bus that has no workers any more.
-/

namespace PubSub.Session

variable {s s' s'' : Session} {q id : Nat} {i : Invocation} {es es' : List (Nat × Outcome)}

/-- From one session to the other, just these invocations of the publication end, with these outcomes in this order. -/
structure Settles (s : Session) (q : Nat) (s' : Session) (es : List (Nat × Outcome)) : Prop where
  ends : ∀ p, s.publications.get? q = some p → ∃ p', s'.publications.get? q = some p' ∧ p'.ends = p.ends ++ es
  once : (es.map Prod.fst).Nodup
  ended : ∀ a, a ∈ es.map Prod.fst ↔
    (∃ i, s.invocations.get? a = some i ∧ i.publication = q) ∧ s'.invocations.get? a = none

namespace Settles

private theorem none
    (hends : ∀ p, s.publications.get? q = some p → ∃ p', s'.publications.get? q = some p' ∧ p'.ends = p.ends)
    (hthere : ∀ a i, s.invocations.get? a = some i → i.publication = q → ∃ i', s'.invocations.get? a = some i') :
    s.Settles q s' [] where
  ends p hp := by
    obtain ⟨p', hp', hsame⟩ := hends p hp
    exact ⟨p', hp', by simp [hsame]⟩
  once := List.nodup_nil
  ended a := by
    simp only [List.map_nil, List.not_mem_nil, false_iff]
    intro hended
    rcases hended with ⟨⟨i, hi, hpub⟩, hgone⟩
    obtain ⟨i', hi'⟩ := hthere a i hi hpub
    cases hgone.symm.trans hi'

private theorem of_same (hpublications : s'.publications = s.publications)
    (hinvocations : s'.invocations = s.invocations) : s.Settles q s' [] := by
  refine none (fun p hp => ⟨p, hpublications ▸ hp, rfl⟩) ?_
  intro a i hi _
  exact ⟨i, hinvocations ▸ hi⟩

theorem refl (s : Session) : s.Settles q s [] :=
  of_same rfl rfl

theorem trans (hs : s.Proper) (hq : q ≤ s.issued) {places places' : Context → Prop} (hext : s.Extends places s')
    (hext' : s'.Extends places' s'') (h : s.Settles q s' es) (h' : s'.Settles q s'' es') :
    s.Settles q s'' (es ++ es') where
  ends p hp := by
    obtain ⟨p', hp', hends⟩ := h.ends p hp
    obtain ⟨p'', hp'', hends'⟩ := h'.ends p' hp'
    refine ⟨p'', hp'', ?_⟩
    rw [hends', hends, List.append_assoc]
  once := by
    rw [List.map_append, List.nodup_append]
    refine ⟨h.once, h'.once, ?_⟩
    intro a ha a' ha' hsame
    subst hsame
    obtain ⟨-, hgone⟩ := (h.ended a).1 ha
    obtain ⟨⟨i, hi, -⟩, -⟩ := (h'.ended a).1 ha'
    cases hgone.symm.trans hi
  ended a := by
    rw [List.map_append, List.mem_append, h.ended, h'.ended]
    constructor
    · intro hended
      rcases hended with ⟨⟨i, hi, hpub⟩, hgone⟩ | ⟨⟨i', hi', hpub⟩, hgone⟩
      · refine ⟨⟨i, hi, hpub⟩, ?_⟩
        have hissued := hext.issued
        have ha := hs.issued a i hi
        cases hi'' : s''.invocations.get? a with
        | none => rfl
        | some i'' =>
          rcases hext'.invocation a i'' hi'' with ⟨i', hi', -⟩ | ⟨hnew, -⟩
          · cases hgone.symm.trans hi'
          · omega
      · rcases hext.invocation a i' hi' with ⟨i, hi, hc⟩ | ⟨-, hnew, -⟩
        · exact ⟨⟨i, hi, hc.publication ▸ hpub⟩, hgone⟩
        · omega
    · intro hended
      rcases hended with ⟨⟨i, hi, hpub⟩, hgone⟩
      cases hi' : s'.invocations.get? a with
      | none => exact Or.inl ⟨⟨i, hi, hpub⟩, rfl⟩
      | some i' =>
        refine Or.inr ⟨⟨i', rfl, ?_⟩, hgone⟩
        rcases hext.invocation a i' hi' with ⟨i₀, hi₀, hc⟩ | ⟨hnew, -⟩
        · obtain rfl := Option.some.inj (hi.symm.trans hi₀)
          exact hc.publication.trans hpub
        · have := hs.issued a i hi
          omega

private theorem putInvocation (h : s.Settles q s' []) (hi : s'.invocations.get? id = some i) (i' : Invocation) :
    s.Settles q (s'.putInvocation id i') [] where
  ends := h.ends
  once := h.once
  ended a := by
    rw [h.ended, Session.putInvocation, Table.get?_put]
    split
    · have ha : a = id := ‹_›
      subst ha
      simp [hi]
    · exact Iff.rfl

theorem finish (hs : s.Proper) (hi : s.invocations.get? id = some i) (o : Outcome) :
    s.Settles q (s.finish id i o) (if i.publication = q then [(id, o)] else []) := by
  obtain ⟨p₀, hp₀⟩ := hs.belongs id i hi
  obtain ⟨-, -, -, hinvocations, hpublications⟩ := finish_frame s id i o
  rw [hp₀, Option.elim_some] at hpublications
  by_cases hown : i.publication = q
  · subst hown
    rw [if_pos rfl]
    refine ⟨?_, List.nodup_singleton _, ?_⟩
    · intro p hp
      obtain rfl := Option.some.inj (hp₀.symm.trans hp)
      exact ⟨p₀.add id o, by rw [hpublications]; exact (Table.get?_put ..).trans (if_pos rfl), rfl⟩
    · intro a
      rw [hinvocations, Table.get?_erase, List.map_singleton, List.mem_singleton]
      constructor
      · intro ha
        subst ha
        exact ⟨⟨i, hi, rfl⟩, if_pos rfl⟩
      · intro hended
        rcases hended with ⟨⟨i', hi', -⟩, hgone⟩
        by_contra ha
        rw [if_neg ha, hi'] at hgone
        cases hgone
  · rw [if_neg hown]
    refine none ?_ ?_
    · intro p hp
      refine ⟨p, ?_, rfl⟩
      rw [hpublications, Table.get?_put, if_neg (Ne.symm hown), hp]
    · intro a i' hi' hpub
      refine ⟨i', ?_⟩
      rw [hinvocations, Table.get?_erase, if_neg, hi']
      intro ha
      subst ha
      obtain rfl := Option.some.inj (hi.symm.trans hi')
      exact hown hpub

private theorem publishes (hs : s.Proper) (hq : q ≤ s.issued) {ctx : Context} {publication : Nat}
    (h : s.Publishes ctx s' publication) : s.Settles q s' [] := by
  have hpublishing := publishing_of_publishes hs h
  refine none ?_ ?_
  · intro p hp
    have hne : q ≠ publication := by
      have := hpublishing.fresh
      omega
    exact ⟨p, (hpublishing.publications q hne).trans hp, rfl⟩
  · intro a i hi _
    exact ⟨i, (hpublishing.kept a (hs.issued a i hi)).trans hi⟩

end Settles

/-- The invocation is lost, as its bus has no workers any more. -/
def Abandons (s s' : Session) (e : Nat × Outcome) : Prop :=
  ∃ i, s.invocations.get? e.1 = some i ∧ e.2 = .lost false ∧ s'.isRunning i.bus = false

def Concludes (s s' : Session) (e : Nat × Outcome) : Prop :=
  ∃ i, s.invocations.get? e.1 = some i ∧ s.proceed e.1 i = some s' ∧ s.Ends i e.2

/-- Whatever happens, no invocation of the publication ends unless it is abandoned. -/
structure Spares (s : Session) (q : Nat) (s' : Session) : Prop where
  later : s.Extends (fun _ => True) s'
  settles : ∃ es, s.Settles q s' es ∧ ∀ e ∈ es, s.Abandons s' e

section Sparing

variable (hs : s.Proper) (hbus : ∀ a i, s.invocations.get? a = some i → i.bus ≤ s.issued) (hq : q ≤ s.issued)

include hbus in
private theorem Abandons.mono {e : Nat × Outcome} {places places' : Context → Prop} (hext : s.Extends places s')
    (hext' : s'.Extends places' s'') (h : s.Abandons s' e) : s.Abandons s'' e := by
  obtain ⟨i, hi, ho, hstopped⟩ := h
  refine ⟨i, hi, ho, ?_⟩
  by_contra hrunning
  have hissued := Nat.le_trans (hbus e.1 i hi) hext.issued
  cases hstopped.symm.trans (hext'.running i.bus hissued (by simpa using hrunning))

include hs in
private theorem Abandons.earlier {e : Nat × Outcome} {places : Context → Prop} (hext : s.Extends places s')
    (hthere : ∃ i, s.invocations.get? e.1 = some i) (h : s'.Abandons s'' e) : s.Abandons s'' e := by
  obtain ⟨i, hi⟩ := hthere
  obtain ⟨i', hi', ho, hstopped⟩ := h
  rcases hext.invocation e.1 i' hi' with ⟨i₀, hi₀, hc⟩ | ⟨hnew, -⟩
  · exact ⟨i₀, hi₀, ho, hc.bus ▸ hstopped⟩
  · have := hs.issued e.1 i hi
    omega

private theorem Spares.refl (s : Session) : s.Spares q s :=
  ⟨.refl s, [], .refl s, fun e he => by cases he⟩

private theorem Spares.of_settles {places : Context → Prop} (hext : s.Extends places s') (h : s.Settles q s' []) :
    s.Spares q s' :=
  ⟨hext.mono fun _ _ => trivial, [], h, fun e he => by cases he⟩

include hs hbus hq in
private theorem Spares.trans (h : s.Spares q s') (h' : s'.Spares q s'') : s.Spares q s'' := by
  obtain ⟨es, hes, habandons⟩ := h.settles
  obtain ⟨es', hes', habandons'⟩ := h'.settles
  have hall := hes.trans hs hq h.later h'.later hes'
  refine ⟨h.later.trans h'.later, es ++ es', hall, ?_⟩
  intro e he
  rcases List.mem_append.1 he with hold | hnew
  · exact (habandons e hold).mono hbus h.later h'.later
  · obtain ⟨⟨i, hi, -⟩, -⟩ := (hall.ended e.1).1 (List.mem_map_of_mem he)
    exact (habandons' e hnew).earlier hs h.later ⟨i, hi⟩

include hs in
private theorem spares_finish (hi : s.invocations.get? id = some i) (hstopped : s.isRunning i.bus = false) :
    s.Spares q (s.finish id i (.lost false)) := by
  have hext := Extends.progress hs hi (.finished hi (.lost false))
  refine ⟨hext.mono fun _ _ => trivial, _, .finish hs hi (.lost false), ?_⟩
  intro e he
  split at he
  · obtain rfl := List.mem_singleton.1 he
    exact ⟨i, hi, rfl, (isRunning_congr (finish_frame ..).2.2.1).trans hstopped⟩
  · cases he

include hs in
private theorem spares_effect (h : Effect s s') : s.Spares q s' := by
  have hext : s.Extends (· = .outermost) s' := .effects (.single h)
  cases h with
  | aside h => exact .of_settles hext (.of_same h.publications h.invocations)
  | declared | opened | changed => exact .of_settles hext (.of_same rfl rfl)
  | @flagged id p p' hp hp' =>
    refine .of_settles hext (.none ?_ fun a i hi _ => ⟨i, hi⟩)
    intro p₀ hp₀
    by_cases hown : q = id
    · subst hown
      obtain rfl := Option.some.inj (hp.symm.trans hp₀)
      refine ⟨p', (Table.get?_put ..).trans (if_pos rfl), ?_⟩
      rcases hp' with rfl | rfl <;> rfl
    · exact ⟨p₀, (Table.get?_put ..).trans ((if_neg hown).trans hp₀), rfl⟩
  | interrupted hi _ hb hclosed => exact spares_finish hs hi (by simp [isRunning, hb, hclosed])

include hs hq in
private theorem spares_progress {i' : Invocation} (h : Progress id s s') (hi' : s'.invocations.get? id = some i') :
    s.Spares q s' := by
  obtain ⟨i, hi⟩ := h.exists_invocation
  have hext := Extends.progress hs hi h
  cases h with
  | parked hi _ =>
    have hissue : s.Settles q s.issue.1 [] := .of_same rfl rfl
    exact .of_settles hext (hissue.putInvocation hi _)
  | called hi _ _ _ | wentOn hi _ _ | left hi _ | awaited hi _ _ _ =>
    exact .of_settles hext (.putInvocation (.refl s) hi _)
  | published hi _ h =>
    have hi₁ := (hs.get?_of_publishes h (hs.issued id _ hi)).trans hi
    exact .of_settles hext (.putInvocation (.publishes hs hq h) hi₁ _)
  | finished hi o =>
    rw [get?_finish] at hi'
    cases hi'

include hs hbus hq in
private theorem Spares.effects (h : s.Spares q s') (hs' : s'.Proper) (he : Effects s' s'') :
    s.Spares q s'' := by
  induction he with
  | refl => exact h
  | tail hprior he ih => exact ih.trans hs hbus hq (spares_effect (hs'.effects hprior) he)

include hs hbus hq in
private theorem spares_effects (h : Effects s s') : s.Spares q s' :=
  Spares.effects hs hbus hq (.refl s) hs h

include hs hbus hq in
theorem spares_acts {ctx : Context} (h : s.Acts ctx s') : s.Spares q s' := by
  cases h with
  | calmly h => exact spares_effects hs hbus hq h
  | @publishing s₁ _ _ h haside =>
    have hext : s.Extends (fun _ => True) s₁ := .carries (.publishes hs h) trivial
    have hmade : s.Spares q s₁ := .of_settles hext (.publishes hs hq h)
    exact hmade.trans hs hbus hq (spares_effect (hs.publishes h) (.aside haside))

include hs hbus hq in
theorem settles_stepsTo (hi : s.invocations.get? id = some i) (h : s.StepsTo id i s') :
    ∃ es, s.Settles q s' es ∧ ∀ e ∈ es, s.Abandons s' e ∨ s.Concludes s' e := by
  have hspared {s' : Session} (h : s.Spares q s') :
      ∃ es, s.Settles q s' es ∧ ∀ e ∈ es, s.Abandons s' e ∨ s.Concludes s' e := by
    obtain ⟨es, hes, habandons⟩ := h.settles
    exact ⟨es, hes, fun e he => Or.inl (habandons e he)⟩
  cases h with
  | wentOn hacts hi₁ hp hi' =>
    have hspares := spares_acts hs hbus hq hacts
    have hq₁ := Nat.le_trans hq hspares.later.issued
    exact hspared (hspares.trans hs hbus hq (spares_progress (hs.acts hacts) hq₁ hp hi'))
  | @ended s₁ o hproceeds ho heffects hi₁ =>
    have hs₁ := hs.effects heffects
    have hspares := spares_effects hs hbus hq heffects
    have hends := Extends.progress hs₁ hi₁ (.finished hi₁ o)
    obtain ⟨es, hes, habandons⟩ := hspares.settles
    refine ⟨_, hes.trans hs hq hspares.later hends (.finish hs₁ hi₁ o), ?_⟩
    intro e he
    rcases List.mem_append.1 he with hold | hnew
    · exact Or.inl ((habandons e hold).mono hbus hspares.later hends)
    · split at hnew
      · obtain rfl := List.mem_singleton.1 hnew
        exact Or.inr ⟨i, hi, hproceeds, ho⟩
      · cases hnew
  | @interrupted s₁ s₂ s₃ i' hstopped heffects hi₁ hp _ hleave hi₃ hsame =>
    have hs₁ := hs.effects heffects
    have hs₂ := hs₁.progress hp
    have hspares := spares_effects hs hbus hq heffects
    have hq₁ := Nat.le_trans hq hspares.later.issued
    have hid₂ := Nat.le_trans (hs₁.issued id i hi₁) (Extends.progress hs₁ hi₁ hp).issued
    obtain ⟨i₂, hi₂⟩ : ∃ i₂, s₂.invocations.get? id = some i₂ := by
      have hext : s₂.Extends (· = .outermost) s₃ := .effects hleave
      rcases hext.invocation id i' hi₃ with ⟨i₂, hi₂, -⟩ | ⟨hnew, -⟩
      · exact ⟨i₂, hi₂⟩
      · omega
    have hparked := hspares.trans hs hbus hq (spares_progress hs₁ hq₁ hp hi₂)
    have hleft := hparked.effects hs hbus hq hs₂ hleave
    have hstopped' : s₃.isRunning i'.bus = false := by
      by_contra hrunning
      rw [hsame.bus] at hrunning
      cases hstopped.symm.trans (hleft.later.running i.bus (hbus id i hi) (by simpa using hrunning))
    exact hspared (hleft.trans hs hbus hq (spares_finish (hs₂.effects hleave) hi₃ hstopped'))

end Sparing

section Opening

variable {p' : Publication}

private theorem publication_of_finish {o : Outcome} (hp' : (s.finish id i o).publications.get? q = some p') :
    ∃ p, s.publications.get? q = some p := by
  rw [(finish_frame s id i o).2.2.2.2] at hp'
  cases hown : s.publications.get? i.publication with
  | none =>
    rw [hown] at hp'
    exact ⟨p', hp'⟩
  | some p =>
    rw [hown, Option.elim_some, Table.get?_put] at hp'
    split at hp'
    · exact ⟨p, ‹q = i.publication› ▸ hown⟩
    · exact ⟨p', hp'⟩

private theorem publication_of_effects (h : Effects s s') (hp' : s'.publications.get? q = some p') :
    ∃ p, s.publications.get? q = some p := by
  induction h generalizing p' with
  | refl => exact ⟨p', hp'⟩
  | tail _ h ih =>
    cases h with
    | aside h => exact ih (h.publications ▸ hp')
    | declared | opened | changed => exact ih hp'
    | flagged hp _ =>
      simp only [putPublication, Table.get?_put] at hp'
      split at hp'
      · rename_i hq
        exact ih (hq ▸ hp)
      · exact ih hp'
    | interrupted =>
      obtain ⟨p, hp⟩ := publication_of_finish hp'
      exact ih hp

variable (hs : s.Proper)
include hs

private theorem opened_of_publishes {ctx : Context} {publication : Nat} (h : s.Publishes ctx s' publication)
    (hp' : s'.publications.get? q = some p') : s.publications.get? q = some p' ∨ p'.ends = [] := by
  have hpublishing := publishing_of_publishes hs h
  by_cases hq : q = publication
  · subst hq
    obtain ⟨p, hp, hends, -⟩ := hpublishing.opened
    obtain rfl := Option.some.inj (hp.symm.trans hp')
    exact Or.inr hends
  · exact Or.inl ((hpublishing.publications q hq).symm.trans hp')

theorem opened_of_acts {ctx : Context} (h : s.Acts ctx s') (hp' : s'.publications.get? q = some p') :
    (∃ p, s.publications.get? q = some p) ∨ p'.ends = [] := by
  cases h with
  | calmly h => exact Or.inl (publication_of_effects h hp')
  | publishing h haside =>
    have hopened := opened_of_publishes hs h (haside.publications ▸ hp')
    exact hopened.imp_left fun hp => ⟨p', hp⟩

/-- A publication that is there after a step was there before, or has no outcomes. -/
theorem opened_of_stepsTo (h : s.StepsTo id i s') (hp' : s'.publications.get? q = some p') :
    (∃ p, s.publications.get? q = some p) ∨ p'.ends = [] := by
  cases h with
  | wentOn hacts hi₁ hp hi' =>
    cases hp with
    | parked | called | wentOn | left | awaited => exact opened_of_acts hs hacts hp'
    | published _ _ h =>
      rcases opened_of_publishes (hs.acts hacts) h hp' with hp₁ | hnone
      · exact opened_of_acts hs hacts hp₁
      · exact Or.inr hnone
    | finished _ o =>
      rw [get?_finish] at hi'
      cases hi'
  | ended _ _ heffects _ =>
    obtain ⟨p₁, hp₁⟩ := publication_of_finish hp'
    exact Or.inl (publication_of_effects heffects hp₁)
  | interrupted _ heffects _ _ hkept hleave _ _ =>
    obtain ⟨p₃, hp₃⟩ := publication_of_finish hp'
    obtain ⟨p₂, hp₂⟩ := publication_of_effects hleave hp₃
    exact Or.inl (publication_of_effects heffects (hkept ▸ hp₂))

end Opening

end PubSub.Session
