import PubSub.Proofs.Config.RoundTrip

/-!
# Spelling

A document means its settings and nothing else. The order of its members, those that are not known, blanks, escapes in
names, and whether the settings are named or stand in their order, make no difference to the configuration, nor to whether
there is one.
-/

namespace PubSub
namespace Document

open Json (IsValue IsBlanks)

section Writing

variable {ms : List Member}

theorem exists_isObject (h : ∀ m ∈ ms, IsValue m.2) : ∃ text : String, IsObject ms text.toList := by
  have hmore {ms : List Member} (h : ∀ m ∈ ms, IsValue m.2) : ∃ t, MoreMembers ms t := by
    induction ms with
    | nil => exact ⟨[], .none⟩
    | cons m ms ih =>
      obtain ⟨hv, hms⟩ := List.forall_mem_cons.1 h
      obtain ⟨text, htext⟩ := ih hms
      exact ⟨_, .some hv (Json.isMember_escape ..) htext⟩
  suffices hchars : ∃ s, IsObject ms s by
    obtain ⟨s, hs⟩ := hchars
    exact ⟨String.ofList s, by rwa [String.toList_ofList]⟩
  cases ms with
  | nil => exact ⟨_, .empty Json.isBlanks_nil Json.isBlanks_nil Json.isBlanks_nil⟩
  | cons m ms =>
    obtain ⟨hv, hms⟩ := List.forall_mem_cons.1 h
    obtain ⟨text, htext⟩ := hmore hms
    exact ⟨_, .some Json.isBlanks_nil Json.isBlanks_nil hv (Json.isMember_escape ..) htext⟩

theorem IsObject.isValue {s : List Char} (h : IsObject ms s) : ∀ m ∈ ms, IsValue m.2 := by
  have hmore {ms : List Member} {t : List Char} (h : MoreMembers ms t) : ∀ m ∈ ms, IsValue m.2 := by
    induction h with
    | none => exact fun m hm => absurd hm List.not_mem_nil
    | some hv _ _ ih => exact List.forall_mem_cons.2 ⟨hv, ih⟩
  cases h with
  | empty => exact fun m hm => absurd hm List.not_mem_nil
  | some _ _ hv _ h => exact List.forall_mem_cons.2 ⟨hv, hmore h⟩

end Writing

section Rearranging

variable {ms ms' us : List Member} {c c' : Config}

theorem nodup_named (h : (ms.map Prod.fst).Nodup) : (named ms).Nodup := by
  have hsame : named ms = (ms.map Prod.fst).filterMap Field.ofName? := by
    rw [List.filterMap_map]
    rfl
  rw [hsame]
  refine h.filterMap fun name name' f hf hf' => ?_
  rw [Field.ofName?_eq_some_iff.1 hf, Field.ofName?_eq_some_iff.1 hf']

theorem named_of_perm (hperm : ms'.Perm (ms ++ us)) (hunknown : ∀ u ∈ us, Field.ofName? u.1 = none) :
    (named ms').Perm (named ms) := by
  have hnone : named us = [] := List.filterMap_eq_nil_iff.2 hunknown
  have happend : named (ms ++ us) = named ms ++ named us := List.filterMap_append
  rw [← List.append_nil (named ms), ← hnone, ← happend]
  exact hperm.filterMap _

theorem describes_iff : Describes ms c c' ↔ (∀ m ∈ ms, ∀ f : Field, f.name = m.1 → Gives m.2 f (c'.get f)) ∧
    ∀ f : Field, f.name ∉ ms.map Prod.fst → c'.get f = c.get f := by
  have hnamed (f : Field) : f ∈ named ms ↔ f.name ∈ ms.map Prod.fst := by
    rw [mem_named, List.mem_map]
    constructor
    · rintro ⟨v, hv⟩
      exact ⟨_, hv, rfl⟩
    · rintro ⟨⟨name, v⟩, hm, rfl⟩
      exact ⟨v, hm⟩
  simp only [Describes, hnamed, forall_and]
  refine and_congr_left' ⟨?_, ?_⟩
  · rintro h ⟨_, v⟩ hm f rfl
    exact h f v hm
  · intro h f v hm
    exact h _ hm f rfl

theorem describes_of_perm (hperm : ms'.Perm (ms ++ us)) (hunknown : ∀ u ∈ us, Field.ofName? u.1 = none) :
    Describes ms' c c' ↔ Describes ms c c' := by
  have hmem (f : Field) (v : List Char) : (f.name, v) ∈ ms' ↔ (f.name, v) ∈ ms := by
    rw [hperm.mem_iff, List.mem_append, or_iff_left]
    intro hu
    cases (Field.ofName?_eq_some_iff.2 rfl).symm.trans (hunknown _ hu)
  simp only [Describes, mem_named, hmem]

end Rearranging
end Document

namespace Config

open Document
open Json (IsBlanks IsMember)

variable {ms : List Member} {vs : List (List Char)} {text : String} {c : Config}

theorem ofJson_eq_ok_iff : ofJson text = .ok c ↔ Document.read text.toList = .ok c ∧ c.validate = .ok () := by
  rw [ofJson]
  constructor
  · intro h
    split at h
    · cases h
    · obtain ⟨hvalid, rfl⟩ := validated_eq_ok_iff.1 h
      exact ⟨‹_›, hvalid⟩
  · rintro ⟨hread, hvalid⟩
    rw [hread]
    exact validated_eq_ok_iff.2 ⟨hvalid, rfl⟩

theorem ofJson_object_iff (h : IsObject ms text.toList) (hnodup : (named ms).Nodup) :
    ofJson text = .ok c ↔ Describes ms .default c ∧ c.validate = .ok () := by
  rw [ofJson_eq_ok_iff, Document.read_object_iff h hnodup]

theorem ofJson_array_iff (h : IsArray vs text.toList) (hle : vs.length ≤ Field.all.length) :
    ofJson text = .ok c ↔ Describes (placed Field.all vs) .default c ∧ c.validate = .ok () := by
  rw [ofJson_eq_ok_iff, Document.read_array_iff h hle]

/-- An object with members of distinct names is accepted as the configuration that has what the values give, and the
defaults for all else, provided that there is one and that it is valid. Any object with the same members in any order,
and with unknown ones among them, fails if this one does, and is the same configuration otherwise. An array of the first
few settings is as good as the object that names them. -/
theorem documents_mean_their_settings (ms : List Member) (hdistinct : (ms.map Prod.fst).Nodup) (text : String)
    (h : IsObject ms text.toList) :
    (∀ c, ofJson text = .ok c ↔ (∀ m ∈ ms, ∀ f : Field, f.name = m.1 → Gives m.2 f (c.get f)) ∧
      (∀ f : Field, f.name ∉ ms.map Prod.fst → c.get f = default.get f) ∧ c.validate = .ok ()) ∧
    (∀ us ms' : List Member, (∀ u ∈ us, Field.ofName? u.1 = none ∧ Json.IsValue u.2) → ms'.Perm (ms ++ us) →
      (∃ text' : String, IsObject ms' text'.toList) ∧ ∀ text' : String, IsObject ms' text'.toList →
        ((∃ e, ofJson text = .error e) ∧ ∃ e, ofJson text' = .error e) ∨
          ∃ c, ofJson text = .ok c ∧ ofJson text' = .ok c) ∧
    ∀ vs : List (List Char), vs.length ≤ 6 → ∀ array object : String, IsArray vs array.toList →
      IsObject ((Field.all.map Field.name).zip vs) object.toList → ∀ c, ofJson array = .ok c ↔ ofJson object = .ok c := by
  have hread := fun c => ofJson_object_iff (c := c) h (nodup_named hdistinct)
  refine ⟨?_, ?_, ?_⟩
  · intro c
    rw [hread, describes_iff, and_assoc]
  · intro us ms' hus hperm
    have hunknown : ∀ u ∈ us, Field.ofName? u.1 = none := fun u hu => (hus u hu).1
    constructor
    · apply exists_isObject
      intro m hm
      exact (List.mem_append.1 (hperm.mem_iff.1 hm)).elim (h.isValue m) fun hu => (hus m hu).2
    · intro text' h'
      have hnodup : (named ms').Nodup := (named_of_perm hperm hunknown).nodup_iff.2 (nodup_named hdistinct)
      have hsame (c : Config) : ofJson text' = .ok c ↔ ofJson text = .ok c := by
        rw [ofJson_object_iff h' hnodup, hread, describes_of_perm hperm hunknown]
      cases hok : ofJson text with
      | ok c => exact Or.inr ⟨c, rfl, (hsame c).2 hok⟩
      | error e =>
        refine Or.inl ⟨⟨e, rfl⟩, ?_⟩
        cases hok' : ofJson text' with
        | ok c => cases hok.symm.trans ((hsame c).1 hok')
        | error e' => exact ⟨e', rfl⟩
  · intro vs hle array object harray hobject c
    have hplaced : (Field.all.map Field.name).zip vs = placed Field.all vs := by
      rw [placed, List.zip, List.zipWith_map_left]
    rw [hplaced] at hobject
    have hnodup : (named (placed Field.all vs)).Nodup := by
      rw [Document.named_placed]
      exact List.Nodup.sublist (List.take_sublist ..) (by decide)
    rw [ofJson_array_iff harray hle, ofJson_object_iff hobject hnodup]

private def few : List Member :=
  [("dead_events", ['"', 'l', 'o', 'g', '"']), ("max_worker_threads", ['2'])]

/-- The same settings the other way around, one of them in another spelling, with a nested value between them. -/
private def muddled : String :=
  "\n\x7b\"max_worker\\u005fthreads\":2 ,\"note\":[1, \x7b\x7d], \"dead_events\" : \"log\"\x7d"

private theorem isNatural_two : Json.IsNatural ['2'] 2 :=
  Json.isNatural_toDigits 2

private theorem gives_log : GivesPolicy ['"', 'l', 'o', 'g', '"'] .log :=
  .name (.mk (t := ['l', 'o', 'g']) (s := "log") (Json.spells_iff.2 rfl))

private theorem isObject_few : IsObject few "\x7b \"dead_events\": \"log\", \"max_worker_threads\": 2 \x7d".toList := by
  have hnone := Json.isBlanks_nil
  have hspace : IsBlanks [' '] := by decide
  have hlog := isValue_of_gives (f := .deadEvents) gives_log
  have htwo := isValue_of_gives (f := .maxWorkerThreads) isNatural_two
  have hevents := IsMember.mk (v := few[0].2) hspace (Json.spells_escape few[0].1.toList) hnone hspace hnone
  have hthreads := IsMember.mk (v := few[1].2) hspace (Json.spells_escape few[1].1.toList) hnone hspace hspace
  exact IsObject.some hnone hnone hlog hevents (.some htwo hthreads .none)

private theorem isObject_muddled :
    IsObject [few[1], ("note", ['[', '1', ',', ' ', '\x7b', '\x7d', ']']), few[0]] muddled.toList := by
  have hnone := Json.isBlanks_nil
  have hspace : IsBlanks [' '] := by decide
  have hlog := isValue_of_gives (f := .deadEvents) gives_log
  have htwo := isValue_of_gives (f := .maxWorkerThreads) isNatural_two
  have hone := isValue_of_gives (f := .maxWorkerThreads) (Json.isNatural_toDigits 1)
  have hnote := Json.IsPart.array (.elements hnone hone hnone (.element hspace (.emptyObject hnone) hnone))
  have hthreads : Json.Spells "max_worker\\u005fthreads".toList few[1].1.toList := Json.spells_iff.2 rfl
  have hfirst := IsMember.mk (v := few[1].2) hnone hthreads hnone hnone hspace
  have hsecond := IsMember.mk (v := ['[', '1', ',', ' ', '\x7b', '\x7d', ']']) hnone
    (Json.spells_escape "note".toList) hnone hnone hnone
  have hthird := IsMember.mk (v := few[0].2) hspace (Json.spells_escape few[0].1.toList) hspace hspace hnone
  have hline : IsBlanks ['\n'] := by decide
  exact IsObject.some hline hnone htwo hfirst (.some hnote hsecond (.some hlog hthird .none))

theorem muddled_is_read : ofJson muddled = .ok { default with maxWorkerThreads := 2, deadEvents := .log } := by
  obtain ⟨hmeans, hsame, -⟩ := documents_mean_their_settings few (by decide) _ isObject_few
  have hfew := (hmeans { default with maxWorkerThreads := 2, deadEvents := .log }).2 ⟨?_, ?_, rfl⟩
  · have hnote : Json.IsValue ['[', '1', ',', ' ', '\x7b', '\x7d', ']'] :=
      isObject_muddled.isValue ("note", _) (by decide)
    have hperm : [few[1], ("note", ['[', '1', ',', ' ', '\x7b', '\x7d', ']']), few[0]].Perm
        (few ++ [("note", ['[', '1', ',', ' ', '\x7b', '\x7d', ']'])]) := by decide
    obtain ⟨-, hmuddled⟩ := hsame [("note", _)] _ (List.forall_mem_singleton.2 ⟨rfl, hnote⟩) hperm
    rcases hmuddled muddled isObject_muddled with ⟨⟨e, he⟩, -⟩ | ⟨c, hc, hc'⟩
    · cases hfew.symm.trans he
    · obtain rfl := Except.ok.inj (hfew.symm.trans hc)
      exact hc'
  · refine List.forall_mem_cons.2 ⟨?_, List.forall_mem_singleton.2 ?_⟩
    · intro f hf
      obtain rfl : f = .deadEvents := Field.name_injective hf
      exact gives_log
    · intro f hf
      obtain rfl : f = .maxWorkerThreads := Field.name_injective hf
      exact isNatural_two
  · intro f hf
    cases f <;> first | rfl | exact absurd (by decide) hf

end Config
end PubSub
