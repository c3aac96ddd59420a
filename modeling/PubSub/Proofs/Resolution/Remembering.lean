import Mathlib.Data.Finset.Card
import PubSub.Proofs.Operations
import PubSub.Proofs.Resolution.Closure

/-!
# Remembered resolutions

A matcher that has answered any number of inquiries, about any classes, remembers of each class the first declaration
that did not crash, and nothing else. So as long as classes do not change what they declare, nobody can tell that it
remembers anything.
-/

namespace PubSub.Matcher

/-- A question for the keys of a class, and what the classes declare at that moment. -/
structure Inquiry where
  declared : Name → Except Crash Descriptor
  cls : Name

namespace Inquiry

/-- What the declaration of the class resolves to at that moment. -/
def fresh (q : Inquiry) : Except Crash Resolution :=
  resolveFresh q.declared q.cls

/-- The first of the inquiries about the class in which its declaration did not crash resolves to `r`. -/
def Settles (history : List Inquiry) (cls : Name) (r : Resolution) : Prop :=
  ∃ before q after, history = before ++ q :: after ∧ q.cls = cls ∧ q.fresh = .ok r ∧
    ∀ p ∈ before, p.cls = cls → ∃ c, p.fresh = .error c

def settled (history : List Inquiry) : List Name :=
  (history.filter (·.fresh.isOk)).map cls

end Inquiry

variable {m : Matcher} {history : List Inquiry} {q : Inquiry} {cls : Name} {r : Resolution} {c : Crash}

def answer (m : Matcher) (q : Inquiry) : Except Crash Resolution :=
  Prod.fst <$> m.keysFor q.declared q.cls

def after (m : Matcher) (q : Inquiry) : Matcher :=
  m.afterAsking q.declared q.cls

def afterAll (m : Matcher) (history : List Inquiry) : Matcher :=
  history.foldl after m

section Step

theorem answer_of_remembered (h : m.entries.lookup q.cls = some r) : m.answer q = .ok r := by
  simp only [answer, keysFor, h]
  rfl

theorem answer_of_new (h : m.entries.lookup q.cls = none) : m.answer q = q.fresh := by
  simp only [answer, keysFor, h, Inquiry.fresh]
  cases resolveFresh q.declared q.cls <;> rfl

theorem after_of_remembered (h : m.entries.lookup q.cls = some r) : m.after q = m := by
  simp only [after, afterAsking, keysFor, h]

theorem after_of_new (h : m.entries.lookup q.cls = none) :
    m.after q = match q.fresh with
      | .ok r => ⟨(q.cls, r) :: m.entries⟩
      | .error _ => m := by
  simp only [after, afterAsking, keysFor, h, Inquiry.fresh]
  cases resolveFresh q.declared q.cls <;> rfl

theorem lookup_after (m : Matcher) (q : Inquiry) (cls : Name) : (m.after q).entries.lookup cls =
    (m.entries.lookup cls).or (if q.cls = cls then q.fresh.toOption else none) := by
  cases hknown : m.entries.lookup q.cls with
  | some r =>
    rw [after_of_remembered hknown]
    by_cases hcls : q.cls = cls
    · rw [← hcls, hknown, Option.some_or]
    · rw [if_neg hcls, Option.or_none]
  | none =>
    rw [after_of_new hknown]
    by_cases hcls : q.cls = cls
    · rw [← hcls, hknown, if_pos rfl, Option.none_or]
      cases q.fresh with
      | ok r => simp [Except.toOption]
      | error c => exact hknown
    · rw [if_neg hcls, Option.or_none]
      cases q.fresh with
      | ok r => rw [Table.lookup_cons_eq_ite, if_neg (Ne.symm hcls)]
      | error c => rfl

end Step

section History

theorem lookup_afterAll (m : Matcher) (history : List Inquiry) (cls : Name) :
    (m.afterAll history).entries.lookup cls = (m.entries.lookup cls).or
      (history.findSome? fun q => if q.cls = cls then q.fresh.toOption else none) := by
  induction history generalizing m with
  | nil => simp [afterAll]
  | cons q history ih =>
    have hrest : m.afterAll (q :: history) = (m.after q).afterAll history := rfl
    rw [hrest, ih, lookup_after, Option.or_assoc, List.findSome?_cons]
    cases if q.cls = cls then q.fresh.toOption else none <;> rfl

theorem settles_iff : Inquiry.Settles history cls r ↔ (empty.afterAll history).entries.lookup cls = some r := by
  have hgives (q : Inquiry) : (if q.cls = cls then q.fresh.toOption else none) = some r ↔
      q.cls = cls ∧ q.fresh = .ok r := by
    by_cases hcls : q.cls = cls <;> cases hf : q.fresh <;> simp [hcls, Except.toOption]
  have hgivesNot (q : Inquiry) : (if q.cls = cls then q.fresh.toOption else none) = none ↔
      (q.cls = cls → ∃ c, q.fresh = .error c) := by
    by_cases hcls : q.cls = cls <;> cases hf : q.fresh <;> simp [hcls, Except.toOption]
  rw [lookup_afterAll, show empty.entries.lookup cls = none from rfl, Option.none_or, List.findSome?_eq_some_iff]
  simp only [Inquiry.Settles, hgives, hgivesNot]
  constructor
  · rintro ⟨before, q, after, rfl, hcls, hfresh, hbefore⟩
    exact ⟨before, q, after, rfl, ⟨hcls, hfresh⟩, hbefore⟩
  · rintro ⟨before, q, after, rfl, ⟨hcls, hfresh⟩, hbefore⟩
    exact ⟨before, q, after, rfl, hcls, hfresh, hbefore⟩

/-- No class is remembered twice. -/
theorem nodup_after (h : (m.entries.map Prod.fst).Nodup) (q : Inquiry) : ((m.after q).entries.map Prod.fst).Nodup := by
  cases hknown : m.entries.lookup q.cls with
  | some r => rwa [after_of_remembered hknown]
  | none =>
    rw [after_of_new hknown]
    cases q.fresh with
    | error c => exact h
    | ok r =>
      refine List.nodup_cons.2 ⟨fun hm => ?_, h⟩
      obtain ⟨r', hr'⟩ := (mem_keys_iff_lookup ..).1 hm
      cases hknown.symm.trans hr'

theorem nodup_afterAll (h : (m.entries.map Prod.fst).Nodup) (history : List Inquiry) :
    ((m.afterAll history).entries.map Prod.fst).Nodup := by
  induction history generalizing m with
  | nil => exact h
  | cons q history ih => exact ih (nodup_after h q)

theorem mem_keys_afterAll (history : List Inquiry) (cls : Name) :
    cls ∈ (empty.afterAll history).entries.map Prod.fst ↔ cls ∈ Inquiry.settled history := by
  rw [mem_keys_iff_lookup, lookup_afterAll, show empty.entries.lookup cls = none from rfl, Option.none_or,
    ← Option.isSome_iff_exists, List.findSome?_isSome_iff]
  simp only [Inquiry.settled, List.mem_map, List.mem_filter]
  refine exists_congr fun q => ?_
  by_cases hcls : q.cls = cls <;> cases q.fresh <;> simp [hcls, Except.toOption, Except.isOk, Except.toBool]

theorem size_afterAll (history : List Inquiry) :
    (empty.afterAll history).size = (Inquiry.settled history).toFinset.card := by
  have hnodup := nodup_afterAll (m := empty) List.nodup_nil history
  have hsame : ((empty.afterAll history).entries.map Prod.fst).toFinset = (Inquiry.settled history).toFinset := by
    ext cls
    rw [List.mem_toFinset, List.mem_toFinset, mem_keys_afterAll]
  rw [← hsame, List.toFinset_card_of_nodup hnodup, List.length_map, size]

end History

section Answers

theorem answer_eq_ok_iff : m.answer q = .ok r ↔ (m.after q).entries.lookup q.cls = some r := by
  rw [lookup_after, if_pos rfl]
  cases hknown : m.entries.lookup q.cls with
  | some r' => simp [answer_of_remembered hknown]
  | none =>
    rw [answer_of_new hknown, Option.none_or]
    cases q.fresh <;> simp [Except.toOption]

theorem fresh_of_declared {d : Descriptor} (hd : q.declared q.cls = .ok d) :
    q.fresh = .ok (d.completed q.cls).resolve := by
  simp only [Inquiry.fresh, resolveFresh, hd]
  rfl

theorem fresh_eq_error_iff : q.fresh = .error c ↔ q.declared q.cls = .error c := by
  simp only [Inquiry.fresh, resolveFresh]
  cases q.declared q.cls <;> simp [bind, Except.bind, pure, Except.pure]

theorem fresh_congr {p : Inquiry} (hcls : p.cls = q.cls) (h : p.declared p.cls = q.declared q.cls) :
    p.fresh = q.fresh := by
  rw [Inquiry.fresh, Inquiry.fresh, resolveFresh, resolveFresh, h, hcls]

theorem lookup_eq_none_iff : (empty.afterAll history).entries.lookup cls = none ↔
    ∀ p ∈ history, p.cls = cls → ∃ c, p.fresh = .error c := by
  rw [lookup_afterAll, show empty.entries.lookup cls = none from rfl, Option.none_or, List.findSome?_eq_none_iff]
  refine forall₂_congr fun p _ => ?_
  by_cases hcls : p.cls = cls <;> cases p.fresh <;> simp [hcls, Except.toOption]

/-- An inquiry after any history is answered with the first resolution of its class that did not crash, if need be its
own, and crashes only if its own declaration does and there was none before. Then nothing changes, and whoever asks
next for the class gets what it declares then. While the class keeps to its declaration, the answer is what the
declaration resolves to, with all views, and its keys are those of the declared type. As many classes are remembered as
were resolved without a crash. -/
theorem cache_is_transparent (history : List Inquiry) (q : Inquiry) :
    (∀ r, (empty.afterAll history).answer q = .ok r ↔ Inquiry.Settles (history ++ [q]) q.cls r) ∧
    (∀ c, (empty.afterAll history).answer q = .error c ↔
      (∀ p ∈ history, p.cls = q.cls → ∃ c, p.fresh = .error c) ∧ q.declared q.cls = .error c) ∧
    (∀ c, (empty.afterAll history).answer q = .error c → (empty.afterAll history).after q = empty.afterAll history ∧
      ∀ q', q'.cls = q.cls → (empty.afterAll (history ++ [q])).answer q' = q'.fresh) ∧
    ((∀ p ∈ history, p.cls = q.cls → p.declared p.cls = q.declared q.cls) →
      (empty.afterAll history).answer q = q.fresh ∧
      ∀ d, q.declared q.cls = .ok d → ∃ r, (empty.afterAll history).answer q = .ok r ∧
        r = (d.completed q.cls).resolve ∧ r.keys = d.keys) ∧
    (empty.afterAll history).size = (Inquiry.settled history).toFinset.card := by
  have happend : empty.afterAll (history ++ [q]) = (empty.afterAll history).after q := by
    simp only [afterAll, List.foldl_append, List.foldl_cons, List.foldl_nil]
  have herror (c : Crash) : (empty.afterAll history).answer q = .error c ↔
      (∀ p ∈ history, p.cls = q.cls → ∃ c, p.fresh = .error c) ∧ q.declared q.cls = .error c := by
    rw [← lookup_eq_none_iff, answer, map_eq_error_iff, keysFor_eq_error_iff]
  refine ⟨?_, herror, ?_, ?_, size_afterAll history⟩
  · intro r
    rw [settles_iff, happend, answer_eq_ok_iff]
  · intro c hc
    obtain ⟨hcrashed, hdeclared⟩ := (herror c).1 hc
    have hnew := lookup_eq_none_iff.2 hcrashed
    have hsame : (empty.afterAll history).after q = empty.afterAll history := by
      rw [after_of_new hnew, fresh_eq_error_iff.2 hdeclared]
    refine ⟨hsame, fun q' hcls => ?_⟩
    rw [happend, hsame]
    exact answer_of_new (hcls ▸ hnew)
  · intro hsame
    have hanswer : (empty.afterAll history).answer q = q.fresh := by
      cases hknown : (empty.afterAll history).entries.lookup q.cls with
      | none => exact answer_of_new hknown
      | some r =>
        obtain ⟨before, p, later, rfl, hcls, hfresh, -⟩ := settles_iff.2 hknown
        have hp := hsame p (List.mem_append_right _ (List.mem_cons_self ..)) hcls
        rw [answer_of_remembered hknown, ← hfresh, fresh_congr hcls hp]
    refine ⟨hanswer, fun d hd => ⟨_, hanswer.trans (fresh_of_declared hd), rfl, ?_⟩⟩
    exact d.keys_completed q.cls

/-- A class whose declaration crashes. -/
private def crashing : Inquiry :=
  ⟨fun _ => .error (.castMismatch .root), .composite 0⟩

private def plain : Inquiry :=
  ⟨fun cls => .ok (Draft.concrete cls).build, .composite 0⟩

/-- And with a supertype that it declares only later. -/
private def extended : Inquiry :=
  ⟨fun cls => .ok { (Draft.concrete cls).build with ancestors := [(.named (.interface 0), none)] }, .composite 0⟩

/-- After a crash the class is asked again, and what it declares then is what counts. -/
theorem wavering_class_is_settled :
    (empty.afterAll [crashing]).answer plain = plain.fresh ∧
    (empty.afterAll [crashing, plain, extended]).answer crashing = plain.fresh ∧
    (empty.afterAll [plain, plain]).answer plain = plain.fresh ∧
    (empty.afterAll [crashing, plain, extended]).size = 1 := by
  obtain ⟨-, -, hcrash, -⟩ := cache_is_transparent [] crashing
  obtain ⟨hfirst, -, -, -, hsize⟩ := cache_is_transparent [crashing, plain, extended] crashing
  obtain ⟨-, -, -, hsteady, -⟩ := cache_is_transparent [plain, plain] plain
  have hsettles : Inquiry.Settles [crashing, plain, extended, crashing] (.composite 0)
      ((Draft.concrete (.composite 0)).build.completed (.composite 0)).resolve := by
    refine ⟨[crashing], plain, [extended, crashing], rfl, rfl, rfl, fun p hp _ => ?_⟩
    obtain rfl := List.mem_singleton.1 hp
    exact ⟨_, rfl⟩
  exact ⟨(hcrash _ rfl).2 plain rfl, (hfirst _).2 hsettles, (hsteady (by simp)).1, hsize.trans rfl⟩

end Answers

end PubSub.Matcher
