import PubSub.Proofs.Config.Loading

/-!
# What is reported of a variable

A variable whose text says nothing is the last one that is asked for, and its text is reported as it is. All fields but
one report it under the full name of the variable. A text that is no policy is reported under the name of the setting,
which is never the name of a variable, so the stem is lost.
-/

namespace PubSub

theorem Config.invalid_of_validate {c : Config} {e : ConfigError} (h : c.validate = .error e) :
    ∃ (f : Field) (value : String), f ≠ .deadEvents ∧ e = .invalid f.name value := by
  simp only [validate] at h
  split at h
  · exact ⟨.workerThreads, _, by decide, (Except.error.inj h).symm⟩
  split at h
  · exact ⟨.maxWorkerThreads, _, by decide, (Except.error.inj h).symm⟩
  split at h
  · exact ⟨.threadName, _, by decide, (Except.error.inj h).symm⟩
  split at h
  · exact ⟨.maxPublishDepth, _, by decide, (Except.error.inj h).symm⟩
  · cases h

namespace Variables

variable {lookup : String → Lookup} {stem : String} {f g : Field} {text value : String} {e : ConfigError}

/-- Loading gets as far as this variable, and its text says nothing. -/
structure Trips (lookup : String → Lookup) (stem : String) (f : Field) (text : String) : Prop where
  reached : ∃ before after, Field.all = before ++ f :: after ∧ ∀ g ∈ before, Usable lookup stem g
  found : lookup (key stem f) = .text text
  malformed : ∀ s, ¬ Says f text s

theorem key_ne_name (stem : String) (f g : Field) : key stem f ≠ g.name := by
  have hcapital : ∃ c ∈ (key stem f).toList.getLast?, c.isUpper := by
    cases f <;> exact ⟨_, by rw [key, String.toList_append, List.getLast?_append]; rfl, by decide⟩
  have hsmall : ∀ c ∈ g.name.toList.getLast?, ¬ c.isUpper := by
    intro c hc
    cases g <;> (obtain rfl := Option.some.inj hc; decide)
  intro h
  obtain ⟨c, hc, hupper⟩ := hcapital
  exact hsmall c (h ▸ hc) hupper

theorem blamed_of_ne (h : f ≠ .deadEvents) (stem : String) : blamed stem f = key stem f :=
  if_neg h

theorem blamed_injective (h : blamed stem f = blamed stem g) : f = g := by
  by_cases hf : f = .deadEvents
  · by_cases hg : g = .deadEvents
    · exact hf.trans hg.symm
    · rw [blamed, if_pos hf, blamed_of_ne hg] at h
      exact absurd h.symm (key_ne_name stem g .deadEvents)
  · by_cases hg : g = .deadEvents
    · rw [blamed_of_ne hf, blamed, if_pos hg] at h
      exact absurd h (key_ne_name stem f .deadEvents)
    · rw [blamed_of_ne hf, blamed_of_ne hg] at h
      exact key_injective h

/-- No setting that is checked is reported under a name that a variable is reported under. -/
theorem blamed_ne_name (hg : g ≠ .deadEvents) (stem : String) (f : Field) : blamed stem f ≠ g.name := by
  by_cases hf : f = .deadEvents
  · rw [blamed, if_pos hf]
    cases g <;> first | exact absurd rfl hg | decide
  · rw [blamed_of_ne hf]
    exact key_ne_name stem f g

theorem load_of_usable (h : ∀ f, Usable lookup stem f) :
    load lookup stem = ⟨Field.all.map (key stem), (overlay lookup stem .default Field.all).validated⟩ :=
  loadFields_of_usable (fun f _ => h f) .default

theorem load_of_trips (h : Trips lookup stem f text) : ∃ before after, Field.all = before ++ f :: after ∧
    load lookup stem = ⟨(before ++ [f]).map (key stem), .error (.invalid (blamed stem f) text)⟩ := by
  obtain ⟨before, after, hall, hbefore⟩ := h.reached
  refine ⟨before, after, hall, ?_⟩
  rw [load, hall]
  exact loadFields_append_of_stops hbefore (.malformed h.found h.malformed) .default

theorem cases_of_error (h : (load lookup stem).result = .error e) :
    (∃ (f : Field) (value : String), f ≠ .deadEvents ∧ e = .invalid f.name value) ∨ (∃ raw, e = .undecodable raw) ∨
      ∃ f text, Trips lookup stem f text ∧ e = .invalid (blamed stem f) text := by
  by_cases husable : ∀ f, Usable lookup stem f
  · rw [load_of_usable husable] at h
    exact Or.inl (Config.invalid_of_validate (Config.validated_eq_error_iff.1 h))
  · obtain ⟨f, hf⟩ := not_forall.1 husable
    obtain ⟨before, g, after, hall, hg, hbefore⟩ :=
      exists_first (fun f => ¬ Usable lookup stem f) ⟨f, mem_all f, hf⟩
    obtain ⟨e', hstops⟩ := exists_stops hg
    have hreached : ∀ f ∈ before, Usable lookup stem f := fun f hf => not_not.1 (hbefore f hf)
    rw [load, hall, loadFields_append_of_stops hreached hstops] at h
    obtain rfl := Except.error.inj h
    cases hstops with
    | undecodable _ => exact Or.inr (Or.inl ⟨_, rfl⟩)
    | malformed hfound hsays => exact Or.inr (Or.inr ⟨g, _, ⟨⟨before, after, hall, hreached⟩, hfound, hsays⟩, rfl⟩)

theorem error_iff_trips (f : Field) (text : String) :
    (load lookup stem).result = .error (.invalid (blamed stem f) text) ↔ Trips lookup stem f text := by
  constructor
  · intro h
    rcases cases_of_error h with ⟨g, value, hg, herror⟩ | ⟨raw, herror⟩ | ⟨g, text', htrips, herror⟩
    · exact absurd (ConfigError.invalid.inj herror).1 (blamed_ne_name hg stem f)
    · cases herror
    · obtain ⟨hname, rfl⟩ := ConfigError.invalid.inj herror
      obtain rfl := blamed_injective hname
      exact htrips
  · intro h
    obtain ⟨before, after, -, hload⟩ := load_of_trips h
    rw [hload]

/-- Whatever the stem and whatever the variables hold: a variable whose text stops the loading is the last one that is
asked for, and it is reported with its text as it is. The report names the variable in full, and nothing else is reported
under that name, unless the text is to be a policy. Then the report names the setting `dead_events`, as nothing else
does, and that is not the name of the variable. -/
theorem malformed_text_is_reported (lookup : String → Lookup) (stem : String) :
    (∀ f text, Trips lookup stem f text → (load lookup stem).asked.getLast? = some (key stem f) ∧
      ((load lookup stem).result = .error (.invalid (key stem f) text) ↔ f ≠ .deadEvents)) ∧
    (∀ f, f ≠ .deadEvents → ∀ text,
      ((load lookup stem).result = .error (.invalid (key stem f) text) ↔ Trips lookup stem f text)) ∧
    ∀ text, (load lookup stem).result = .error (.invalid "dead_events" text) ↔ Trips lookup stem .deadEvents text := by
  refine ⟨?_, ?_, ?_⟩
  · intro f text htrips
    obtain ⟨before, after, -, hload⟩ := load_of_trips htrips
    rw [hload]
    refine ⟨by simp, ?_, ?_⟩
    · rintro hresult rfl
      obtain ⟨hname, -⟩ := ConfigError.invalid.inj (Except.error.inj hresult)
      exact key_ne_name stem .deadEvents .deadEvents hname.symm
    · intro hf
      rw [blamed_of_ne hf]
  · intro f hf text
    rw [← blamed_of_ne hf stem]
    exact error_iff_trips f text
  · exact error_iff_trips .deadEvents

/-- A number that is none, after a variable that is fine. -/
private def uncountable : String → Lookup
  | "APP_WORKER_THREADS" => .text "2"
  | "APP_MAX_WORKER_THREADS" => .text " many "
  | _ => .absent

/-- A policy that there is not. -/
private def unheardOf : String → Lookup
  | "APP_DEAD_EVENTS" => .text "shout"
  | _ => .absent

private theorem trips_unheardOf : Trips unheardOf "APP" .deadEvents "shout" := by
  refine ⟨⟨[.workerThreads, .maxWorkerThreads, .threadName], [.maxPublishDepth, .enableLogging], rfl, ?_⟩, rfl, ?_⟩
  · intro g hg
    simp only [List.mem_cons, List.not_mem_nil, or_false] at hg
    rcases hg with rfl | rfl | rfl <;> exact Or.inl rfl
  · intro s hs
    cases (says_iff.1 hs).symm.trans (by decide : setting? .deadEvents "shout" = none)

theorem uncountable_is_reported : Trips uncountable "APP" .maxWorkerThreads " many " ∧
    Trips unheardOf "APP" .deadEvents "shout" ∧
    (load uncountable "APP").asked.getLast? = some "APP_MAX_WORKER_THREADS" ∧
    (load uncountable "APP").result = .error (.invalid "APP_MAX_WORKER_THREADS" " many ") ∧
    (load unheardOf "APP").result = .error (.invalid "dead_events" "shout") := by
  have htrips : Trips uncountable "APP" .maxWorkerThreads " many " := by
    refine ⟨⟨[.workerThreads], _, rfl, ?_⟩, rfl, ?_⟩
    · intro g hg
      obtain rfl := List.mem_singleton.1 hg
      exact Or.inr ⟨_, .workerThreads 2, rfl, says_iff.2 (by decide)⟩
    · intro s hs
      cases (says_iff.1 hs).symm.trans (by decide : setting? .maxWorkerThreads " many " = none)
  obtain ⟨hlast, hnamed⟩ := (malformed_text_is_reported uncountable "APP").1 _ _ htrips
  have hpolicy := ((malformed_text_is_reported unheardOf "APP").2.2 "shout").2 trips_unheardOf
  exact ⟨htrips, trips_unheardOf, hlast, hnamed.2 (by decide), hpolicy⟩

/-- The variable that holds no policy is not named. -/
theorem unheardOf_policy_is_misnamed : ¬ ∀ (lookup : String → Lookup) (stem : String) (f : Field) (text : String),
    Trips lookup stem f text → (load lookup stem).result = .error (.invalid (key stem f) text) := by
  intro hnamed
  have hresult : (load unheardOf "APP").result = .error (.invalid "dead_events" "shout") :=
    (error_iff_trips .deadEvents "shout").2 trips_unheardOf
  have hfull := hnamed unheardOf "APP" .deadEvents "shout" trips_unheardOf
  rw [hresult] at hfull
  exact absurd (ConfigError.invalid.inj (Except.error.inj hfull)).1 (by decide)

end Variables
end PubSub
