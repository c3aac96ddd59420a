import PubSub.Proofs.Config.RoundTrip
import PubSub.Proofs.Lookup
import PubSub.Proofs.Text.Words

/-!
# Configurations loaded from variables

What a variable says is a relation between its text and a setting. Loading asks for the six variables one after the
other and stops at the first that says nothing. If there is none, the result is the one configuration that has what
the variables say, and the defaults for those that are absent; only then is it checked.
-/

namespace PubSub

open Text (Trims Denotes Spells)

/-- One setting as the other configuration has it. -/
def Document.adopt (c c' : Config) : Field → Config
  | .workerThreads => { c' with workerThreads := c.workerThreads }
  | .maxWorkerThreads => { c' with maxWorkerThreads := c.maxWorkerThreads }
  | .threadName => { c' with threadName := c.threadName }
  | .deadEvents => { c' with deadEvents := c.deadEvents }
  | .maxPublishDepth => { c' with maxPublishDepth := c.maxPublishDepth }
  | .enableLogging => { c' with enableLogging := c.enableLogging }

def Setting.field : Setting → Field
  | .workerThreads _ => .workerThreads
  | .maxWorkerThreads _ => .maxWorkerThreads
  | .threadName _ => .threadName
  | .deadEvents _ => .deadEvents
  | .maxPublishDepth _ => .maxPublishDepth
  | .enableLogging _ => .enableLogging

namespace Variables

/-- The words that switch something on or off. -/
def flagWords : Bool → List String
  | true => ["true", "1", "yes", "on"]
  | false => ["false", "0", "no", "off"]

def words : List String :=
  Policy.all.map Policy.text ++ flagWords true ++ flagWords false

/-- What the text of a variable means for a field. -/
inductive Says : Field → String → Setting → Prop
  | workerThreads {text : String} {core : List Char} {n : UInt64} (ht : Trims text.toList core)
    (hn : Denotes core n.toNat) : Says .workerThreads text (.workerThreads n)
  | maxWorkerThreads {text : String} {core : List Char} {n : UInt64} (ht : Trims text.toList core)
    (hn : Denotes core n.toNat) : Says .maxWorkerThreads text (.maxWorkerThreads n)
  | threadName (text : String) : Says .threadName text (.threadName text)
  | deadEvents {text : String} {core : List Char} {p : Policy} (ht : Trims text.toList core)
    (hw : Spells core p.text) : Says .deadEvents text (.deadEvents p)
  | unlimited {text : String} {core : List Char} (ht : Trims text.toList core) (hw : Spells core "none") :
    Says .maxPublishDepth text (.maxPublishDepth none)
  | limit {text : String} {core : List Char} {n : UInt64} (ht : Trims text.toList core)
    (hn : Denotes core n.toNat) : Says .maxPublishDepth text (.maxPublishDepth (some n))
  | enableLogging {text word : String} {core : List Char} {b : Bool} (ht : Trims text.toList core)
    (hb : word ∈ flagWords b) (hw : Spells core word) : Says .enableLogging text (.enableLogging b)

def setting? : Field → String → Option Setting
  | .workerThreads, text => (Text.natural? text).map .workerThreads
  | .maxWorkerThreads, text => (Text.natural? text).map .maxWorkerThreads
  | .threadName, text => some (.threadName text)
  | .deadEvents, text => (Policy.ofText? text).map .deadEvents
  | .maxPublishDepth, text =>
    if Text.isWord "none" text then some (.maxPublishDepth none)
    else (Text.natural? text).map (.maxPublishDepth ∘ some)
  | .enableLogging, text => (flag? text).map .enableLogging

/-- The name that an unusable text is reported under. -/
def blamed (stem : String) (f : Field) : String :=
  if f = .deadEvents then Field.deadEvents.name else key stem f

section Reading

variable {f : Field} {text : String} {s : Setting}

theorem ofText?_eq_some_iff {p : Policy} : Policy.ofText? text = some p ↔ Text.isWord p.text text := by
  have hsound {p : Policy} (h : Policy.ofText? text = some p) : Text.isWord p.text text := by
    simpa using List.find?_some h
  refine ⟨hsound, fun hp => ?_⟩
  have hfound : (Policy.ofText? text).isSome := by
    rw [Policy.ofText?, List.find?_isSome]
    exact ⟨p, by cases p <;> decide, hp⟩
  obtain ⟨p', hp'⟩ := Option.isSome_iff_exists.1 hfound
  have htext : p'.text = p.text := Text.isWord_unique (hsound hp') hp
  have hsame : p' = p := by
    cases p <;> cases p' <;> first | rfl | exact absurd htext (by decide)
  rw [hp', hsame]

theorem flag?_eq_some_iff {b : Bool} : flag? text = some b ↔ ∃ word ∈ flagWords b, Text.isWord word text := by
  have hflag : flag? text = if (flagWords true).any (Text.isWord · text) then some true
      else if (flagWords false).any (Text.isWord · text) then some false else none := rfl
  have hapart (h : ∃ word ∈ flagWords true, Text.isWord word text) :
      ¬ ∃ word ∈ flagWords false, Text.isWord word text := by
    rintro ⟨word', hword', hw'⟩
    obtain ⟨word, hword, hw⟩ := h
    obtain rfl := Text.isWord_unique hw hw'
    exact absurd hword' ((by decide : ∀ word ∈ flagWords true, word ∉ flagWords false) word hword)
  rw [hflag]
  simp only [List.any_eq_true]
  by_cases htrue : ∃ word ∈ flagWords true, Text.isWord word text
  · rw [if_pos htrue]
    cases b with
    | true => exact iff_of_true rfl htrue
    | false => exact iff_of_false (by simp) (hapart htrue)
  · rw [if_neg htrue]
    by_cases hfalse : ∃ word ∈ flagWords false, Text.isWord word text
    · rw [if_pos hfalse]
      cases b with
      | true => exact iff_of_false (by simp) htrue
      | false => exact iff_of_true rfl hfalse
    · rw [if_neg hfalse]
      cases b with
      | true => exact iff_of_false (by simp) htrue
      | false => exact iff_of_false (by simp) hfalse

theorem says_iff : Says f text s ↔ setting? f text = some s := by
  constructor
  · intro h
    cases h with
    | workerThreads ht hn | maxWorkerThreads ht hn =>
      rw [setting?, Text.natural?_eq_some_iff.2 ⟨_, ht, hn⟩]
      rfl
    | threadName => rfl
    | deadEvents ht hw =>
      rw [setting?, ofText?_eq_some_iff.2 (Text.isWord_iff.2 ⟨_, ht, hw⟩)]
      rfl
    | unlimited ht hw => rw [setting?, if_pos (Text.isWord_iff.2 ⟨_, ht, hw⟩)]
    | limit ht hn =>
      have hnot : ¬ Text.isWord "none" text := by
        rintro hw
        obtain ⟨core, ht', hw⟩ := Text.isWord_iff.1 hw
        obtain rfl := (Text.trims_iff.1 ht').symm.trans (Text.trims_iff.1 ht)
        refine hn.not_spells (fun w hw => ?_) hw
        obtain rfl : 'n' = w := Option.some.inj hw
        decide
      rw [setting?, if_neg hnot, Text.natural?_eq_some_iff.2 ⟨_, ht, hn⟩]
      rfl
    | enableLogging ht hb hw =>
      rw [setting?, flag?_eq_some_iff.2 ⟨_, hb, Text.isWord_iff.2 ⟨_, ht, hw⟩⟩]
      rfl
  · intro h
    cases f with
    | workerThreads =>
      obtain ⟨n, hn, rfl⟩ := Option.map_eq_some_iff.1 h
      obtain ⟨core, ht, hn⟩ := Text.natural?_eq_some_iff.1 hn
      exact .workerThreads ht hn
    | maxWorkerThreads =>
      obtain ⟨n, hn, rfl⟩ := Option.map_eq_some_iff.1 h
      obtain ⟨core, ht, hn⟩ := Text.natural?_eq_some_iff.1 hn
      exact .maxWorkerThreads ht hn
    | threadName =>
      obtain rfl := Option.some.inj h
      exact .threadName text
    | deadEvents =>
      obtain ⟨p, hp, rfl⟩ := Option.map_eq_some_iff.1 h
      obtain ⟨core, ht, hw⟩ := Text.isWord_iff.1 (ofText?_eq_some_iff.1 hp)
      exact .deadEvents ht hw
    | maxPublishDepth =>
      rw [setting?] at h
      by_cases hnone : Text.isWord "none" text
      · rw [if_pos hnone] at h
        obtain rfl := Option.some.inj h
        obtain ⟨core, ht, hw⟩ := Text.isWord_iff.1 hnone
        exact .unlimited ht hw
      · rw [if_neg hnone] at h
        obtain ⟨n, hn, rfl⟩ := Option.map_eq_some_iff.1 h
        obtain ⟨core, ht, hn⟩ := Text.natural?_eq_some_iff.1 hn
        exact .limit ht hn
    | enableLogging =>
      obtain ⟨b, hb, rfl⟩ := Option.map_eq_some_iff.1 h
      obtain ⟨word, hword, hw⟩ := flag?_eq_some_iff.1 hb
      obtain ⟨core, ht, hw⟩ := Text.isWord_iff.1 hw
      exact .enableLogging ht hword hw

theorem field_of_says (h : Says f text s) : s.field = f := by
  cases h <;> rfl

theorem store_eq (stem : String) (c : Config) :
    store (key stem f) text c f = match setting? f text with
      | some s => .ok (c.set s)
      | none => .error (.invalid (blamed stem f) text) := by
  cases f with
  | workerThreads =>
    rw [store, setting?]
    cases Text.natural? text <;> rfl
  | maxWorkerThreads =>
    rw [store, setting?]
    cases Text.natural? text <;> rfl
  | threadName => rfl
  | deadEvents =>
    rw [store, Policy.read, setting?]
    cases Policy.ofText? text <;> rfl
  | maxPublishDepth =>
    rw [store, setting?]
    by_cases hnone : Text.isWord "none" text
    · rw [if_pos hnone, if_pos hnone]
      rfl
    · rw [if_neg hnone, if_neg hnone]
      cases Text.natural? text <;> rfl
  | enableLogging =>
    rw [store, setting?]
    cases flag? text <;> rfl

end Reading

section Settings

open Document (adopt)

variable {f : Field} {c c' : Config} {s s' : Setting}

theorem set_comm (h : s.field ≠ s'.field) (c : Config) : (c.set s).set s' = (c.set s').set s := by
  cases s <;> cases s' <;> first | rfl | exact absurd rfl h

theorem set_set_self (c : Config) (s : Setting) : (c.set s).set s = c.set s := by
  cases s <;> rfl

theorem adopt_set (h : s.field ≠ f) (c c' : Config) : adopt c' (c.set s) f = (adopt c' c f).set s := by
  cases s <;> cases f <;> first | rfl | exact absurd rfl h

theorem adopt_set_self (c c' : Config) (s : Setting) : adopt (c'.set s) c s.field = c.set s := by
  cases s <;> rfl

theorem adopt_adopt (d c c' : Config) (f : Field) : adopt (adopt d c' f) c f = adopt d c f := by
  cases f <;> rfl

theorem eq_of_adopt (h : ∀ f, adopt c' c f = c) : c' = c := by
  have hfields := And.intro (h .workerThreads) (And.intro (h .maxWorkerThreads) (And.intro (h .threadName)
    (And.intro (h .deadEvents) (And.intro (h .maxPublishDepth) (h .enableLogging)))))
  cases c
  cases c'
  simpa [adopt] using hfields

end Settings

section Fields

variable (lookup : String → Lookup) (stem : String)

/-- The variable is absent, or it says something. -/
def Usable (f : Field) : Prop :=
  lookup (key stem f) = .absent ∨ ∃ text s, lookup (key stem f) = .text text ∧ Says f text s

/-- What is wrong with a variable. -/
inductive Stops (f : Field) : ConfigError → Prop
  | undecodable {raw : String} (h : lookup (key stem f) = .undecodable raw) : Stops f (.undecodable raw)
  | malformed {text : String} (h : lookup (key stem f) = .text text) (hs : ∀ s, ¬ Says f text s) :
    Stops f (.invalid (blamed stem f) text)

/-- The configuration has what the variables say, and the defaults for absent ones. -/
structure Overlays (c : Config) : Prop where
  absent : ∀ f, lookup (key stem f) = .absent → Document.adopt .default c f = c
  present : ∀ f text, lookup (key stem f) = .text text → ∃ s, Says f text s ∧ c.set s = c

def held? (f : Field) : Option Setting :=
  match lookup (key stem f) with
  | .text text => setting? f text
  | .absent | .undecodable _ => none

/-- One field after the other with the setting that its variable holds. -/
def overlay (c : Config) (fs : List Field) : Config :=
  fs.foldl (fun c f => (held? lookup stem f).elim c c.set) c

end Fields

section Loading

variable {lookup : String → Lookup} {stem : String} {f : Field} {fs : List Field} {c : Config} {s : Setting}

theorem mem_all (f : Field) : f ∈ Field.all := by
  cases f <;> decide

theorem key_injective {g : Field} (h : key stem f = key stem g) : f = g := by
  cases f <;> cases g <;> first | rfl | exact absurd h (by simp [key])

theorem held?_of_says {text : String} (ht : lookup (key stem f) = .text text) (hs : Says f text s) :
    held? lookup stem f = some s := by
  simp only [held?, ht]
  exact says_iff.1 hs

theorem field_of_held? (h : held? lookup stem f = some s) : s.field = f := by
  rw [held?] at h
  split at h
  · exact field_of_says (says_iff.2 h)
  · cases h
  · cases h

theorem loadFields_cons (h : Usable lookup stem f) (c : Config) (fs : List Field) :
    loadFields lookup stem c (f :: fs) =
      ⟨key stem f :: (loadFields lookup stem ((held? lookup stem f).elim c c.set) fs).asked,
        (loadFields lookup stem ((held? lookup stem f).elim c c.set) fs).result⟩ := by
  rw [loadFields]
  rcases h with habsent | ⟨text, s, ht, hs⟩
  · simp only [held?, habsent]
    rfl
  · have hread := says_iff.1 hs
    simp only [held?, ht, store_eq, hread]
    rfl

theorem loadFields_of_usable (h : ∀ f ∈ fs, Usable lookup stem f) (c : Config) :
    loadFields lookup stem c fs = ⟨fs.map (key stem), (overlay lookup stem c fs).validated⟩ := by
  induction fs generalizing c with
  | nil => rfl
  | cons f fs ih =>
    obtain ⟨hf, hfs⟩ := List.forall_mem_cons.1 h
    rw [loadFields_cons hf, ih hfs]
    rfl

theorem loadFields_of_stops {e : ConfigError} (h : Stops lookup stem f e) (c : Config) (fs : List Field) :
    loadFields lookup stem c (f :: fs) = ⟨[key stem f], .error e⟩ := by
  rw [loadFields]
  cases h with
  | undecodable hraw =>
    simp only [hraw]
  | @malformed text ht hs =>
    have hread : setting? f text = none := by
      rw [Option.eq_none_iff_forall_ne_some]
      exact fun s hread => hs s (says_iff.2 hread)
    simp only [ht, store_eq, hread]

theorem loadFields_append_of_stops {before after : List Field} (h : ∀ g ∈ before, Usable lookup stem g)
    (hf : Stops lookup stem f e) (c : Config) :
    loadFields lookup stem c (before ++ f :: after) = ⟨(before ++ [f]).map (key stem), .error e⟩ := by
  induction before generalizing c with
  | nil => exact loadFields_of_stops hf c after
  | cons g before ih =>
    obtain ⟨hg, hbefore⟩ := List.forall_mem_cons.1 h
    rw [List.cons_append, loadFields_cons hg, ih hbefore]
    rfl

theorem exists_stops (h : ¬ Usable lookup stem f) : ∃ e, Stops lookup stem f e := by
  cases hl : lookup (key stem f) with
  | absent => exact absurd (Or.inl hl) h
  | undecodable raw => exact ⟨_, .undecodable hl⟩
  | text text => exact ⟨_, .malformed hl fun s hs => h (Or.inr ⟨text, s, hl, hs⟩)⟩

theorem loadFields_congr {lookup' : String → Lookup}
    (h : ∀ k ∈ (loadFields lookup stem c fs).asked, lookup' k = lookup k) :
    loadFields lookup' stem c fs = loadFields lookup stem c fs := by
  induction fs generalizing c with
  | nil => rfl
  | cons f fs ih =>
    by_cases husable : Usable lookup stem f
    · rw [loadFields_cons husable] at h
      obtain ⟨hfirst, hrest⟩ := List.forall_mem_cons.1 h
      have husable' : Usable lookup' stem f := by simpa only [Usable, hfirst] using husable
      have hheld : held? lookup' stem f = held? lookup stem f := by simp only [held?, hfirst]
      rw [loadFields_cons husable, loadFields_cons husable', hheld, ih hrest]
    · obtain ⟨e, hstops⟩ := exists_stops husable
      rw [loadFields_of_stops hstops] at h
      have hfirst : lookup' (key stem f) = lookup (key stem f) := h _ (List.mem_singleton.2 rfl)
      have hstops' : Stops lookup' stem f e := by
        cases hstops with
        | undecodable hraw => exact .undecodable (hfirst.trans hraw)
        | malformed ht hs => exact .malformed (hfirst.trans ht) hs
      rw [loadFields_of_stops hstops', loadFields_of_stops hstops]

section Overlay

/-- A setting stays while others are set. -/
theorem set_overlay (hset : c.set s = c) (h : ∀ g ∈ fs, ∀ s', held? lookup stem g = some s' → s'.field ≠ s.field) :
    (overlay lookup stem c fs).set s = overlay lookup stem c fs := by
  induction fs generalizing c with
  | nil => exact hset
  | cons g fs ih =>
    obtain ⟨hg, hfs⟩ := List.forall_mem_cons.1 h
    refine ih ?_ hfs
    cases hheld : held? lookup stem g with
    | none => simpa only [hheld, Option.elim_none] using hset
    | some s' =>
      simp only [hheld, Option.elim_some]
      rw [set_comm (hg s' hheld), hset]

theorem adopt_overlay {d : Config} (hadopt : Document.adopt d c f = c)
    (h : ∀ g ∈ fs, ∀ s, held? lookup stem g = some s → s.field ≠ f) :
    Document.adopt d (overlay lookup stem c fs) f = overlay lookup stem c fs := by
  induction fs generalizing c with
  | nil => exact hadopt
  | cons g fs ih =>
    obtain ⟨hg, hfs⟩ := List.forall_mem_cons.1 h
    refine ih ?_ hfs
    cases hheld : held? lookup stem g with
    | none => simpa only [hheld, Option.elim_none] using hadopt
    | some s =>
      simp only [hheld, Option.elim_some]
      rw [adopt_set (hg s hheld), hadopt]

theorem overlays_overlay (h : ∀ f, Usable lookup stem f) :
    Overlays lookup stem (overlay lookup stem .default Field.all) := by
  constructor
  · intro f habsent
    refine adopt_overlay (by cases f <;> rfl) fun g _ s hs hfield => ?_
    obtain rfl := (field_of_held? hs).symm.trans hfield
    simp [held?, habsent] at hs
  · intro f text ht
    obtain ⟨s, hs⟩ : ∃ s, Says f text s := by
      rcases h f with habsent | ⟨text', s, ht', hs⟩
      · cases ht.symm.trans habsent
      · cases ht.symm.trans ht'
        exact ⟨s, hs⟩
    obtain ⟨before, after, hall⟩ := List.append_of_mem (mem_all f)
    have hnodup : (before ++ f :: after).Nodup := hall ▸ by decide
    have hlater : f ∉ after := (List.nodup_cons.1 (List.nodup_append.1 hnodup).2.1).1
    refine ⟨s, hs, ?_⟩
    have hsplit : overlay lookup stem .default Field.all
        = overlay lookup stem ((overlay lookup stem .default before).set s) after := by
      simp only [overlay]
      rw [hall, List.foldl_append, List.foldl_cons, held?_of_says ht hs]
      rfl
    rw [hsplit]
    refine set_overlay (set_set_self ..) fun g hg s' hs' hfield => ?_
    rw [field_of_held? hs', field_of_says hs] at hfield
    exact hlater (hfield ▸ hg)

theorem Overlays.unique {c' : Config} (h : ∀ f, Usable lookup stem f) (hc : Overlays lookup stem c)
    (hc' : Overlays lookup stem c') : c = c' := by
  refine (eq_of_adopt fun f => ?_).symm
  rcases h f with habsent | ⟨text, s, ht, hs⟩
  · rw [← hc'.absent f habsent, adopt_adopt, hc.absent f habsent]
  · obtain ⟨s₁, hs₁, hset⟩ := hc.present f text ht
    obtain ⟨s₂, hs₂, hset'⟩ := hc'.present f text ht
    obtain rfl : s₁ = s₂ := Option.some.inj ((says_iff.1 hs₁).symm.trans (says_iff.1 hs₂))
    rw [← hset', ← field_of_says hs₁, adopt_set_self, hset]

end Overlay

/-- The variables that a configuration is written to: numbers in decimal digits, policies and flags in their first word,
none for no limit, and no variable for unset workers. -/
def written (c : Config) : Field → Lookup
  | .workerThreads => c.workerThreads.elim .absent fun n => .text (toString n.toNat)
  | .maxWorkerThreads => .text (toString c.maxWorkerThreads.toNat)
  | .threadName => .text c.threadName
  | .deadEvents => .text c.deadEvents.text
  | .maxPublishDepth => .text (c.maxPublishDepth.elim "none" fun n => toString n.toNat)
  | .enableLogging => .text (if c.enableLogging then "true" else "false")

section Writing

theorem exists_lookup_written (c : Config) (stem : String) :
    ∃ lookup : String → Lookup, ∀ f, lookup (key stem f) = written c f := by
  refine ⟨fun k => (Field.all.find? (key stem · = k)).elim .absent (written c), fun f => ?_⟩
  have hfound : (Field.all.find? (key stem · = key stem f)).isSome := by
    rw [List.find?_isSome]
    exact ⟨f, mem_all f, by simp⟩
  obtain ⟨g, hg⟩ := Option.isSome_iff_exists.1 hfound
  obtain rfl : g = f := key_injective (by simpa using List.find?_some hg)
  simp only [hg, Option.elim_some]

theorem overlays_of_says (h : ∀ f, lookup (key stem f) = .absent ∧ Document.adopt .default c f = c ∨
      ∃ text s, lookup (key stem f) = .text text ∧ Says f text s ∧ c.set s = c) :
    (∀ f, Usable lookup stem f) ∧ Overlays lookup stem c := by
  refine ⟨fun f => ?_, fun f habsent => ?_, fun f text ht => ?_⟩
  · rcases h f with ⟨habsent, -⟩ | ⟨text, s, ht, hs, -⟩
    · exact Or.inl habsent
    · exact Or.inr ⟨text, s, ht, hs⟩
  · rcases h f with ⟨-, hdefault⟩ | ⟨text, s, ht, -⟩
    · exact hdefault
    · cases ht.symm.trans habsent
  · rcases h f with ⟨habsent, -⟩ | ⟨text', s, ht', hs, hset⟩
    · cases habsent.symm.trans ht
    · cases ht'.symm.trans ht
      exact ⟨s, hs, hset⟩

theorem overlays_written (h : ∀ f, lookup (key stem f) = written c f) :
    (∀ f, Usable lookup stem f) ∧ Overlays lookup stem c := by
  apply overlays_of_says
  intro f
  rw [h f]
  obtain ⟨w, m, t, p, d, l⟩ := c
  cases f with
  | workerThreads =>
    cases w with
    | none => exact Or.inl ⟨rfl, rfl⟩
    | some n =>
      exact Or.inr ⟨_, .workerThreads n, rfl, says_iff.2 (by rw [setting?, Text.natural?_toString]; rfl), rfl⟩
  | maxWorkerThreads =>
    exact Or.inr ⟨_, .maxWorkerThreads m, rfl, says_iff.2 (by rw [setting?, Text.natural?_toString]; rfl), rfl⟩
  | threadName => exact Or.inr ⟨_, _, rfl, .threadName _, rfl⟩
  | deadEvents =>
    have hp : Policy.ofText? p.text = some p := by
      cases p <;> rfl
    exact Or.inr ⟨_, .deadEvents p, rfl, says_iff.2 (by rw [setting?, hp]; rfl), rfl⟩
  | maxPublishDepth =>
    cases d with
    | none => exact Or.inr ⟨"none", .maxPublishDepth none, rfl, says_iff.2 (by decide), rfl⟩
    | some n =>
      obtain ⟨core, ht, hn⟩ := Text.natural?_eq_some_iff.1 (Text.natural?_toString n)
      exact Or.inr ⟨_, .maxPublishDepth (some n), rfl, .limit ht hn, rfl⟩
  | enableLogging =>
    cases l with
    | true => exact Or.inr ⟨"true", .enableLogging true, rfl, says_iff.2 (by decide), rfl⟩
    | false => exact Or.inr ⟨"false", .enableLogging false, rfl, says_iff.2 (by decide), rfl⟩

end Writing

end Loading

private theorem letters_of_words {word : String} (h : word ∈ words) : ∀ w ∈ word.toList, w.toNat < 128 ∧ w ≠ 'k' := by
  have hall : ∀ word ∈ words, word.toList.all fun w => decide (w.toNat < 128 ∧ w ≠ 'k') := by decide
  intro w hw
  exact of_decide_eq_true (List.all_eq_true.1 (hall word h) w hw)

/-- Loading from variables. The six names are asked for in this order, none of them twice, and nothing else matters.
Either all variables can be used, and then the one configuration that has what they say, and else the defaults, is
what is loaded if it is accepted; or the first that cannot be used is the last one asked for, and what is wrong with
it is the answer. The words are met as well if case is told apart by all rules beyond ASCII. Each configuration that
is accepted can be written to variables that it is loaded from. -/
theorem loading_overlays_defaults (lookup : String → Lookup) (stem : String) :
    Field.all.map (key stem) = ["_WORKER_THREADS", "_MAX_WORKER_THREADS", "_THREAD_NAME", "_DEAD_EVENTS",
      "_MAX_PUBLISH_DEPTH", "_ENABLE_LOGGING"].map (stem ++ ·) ∧ (Field.all.map (key stem)).Nodup ∧
    (∀ lookup', (∀ k ∈ (load lookup stem).asked, lookup' k = lookup k) → load lookup' stem = load lookup stem) ∧
    ((∀ f, Usable lookup stem f) ∨
      ∃ before f after e, Field.all = before ++ f :: after ∧ (∀ g ∈ before, Usable lookup stem g) ∧
        Stops lookup stem f e) ∧
    ((∀ f, Usable lookup stem f) → ∃ c, Overlays lookup stem c ∧ (∀ c', Overlays lookup stem c' → c' = c) ∧
      load lookup stem = ⟨Field.all.map (key stem), c.validated⟩) ∧
    (∀ before f after e, Field.all = before ++ f :: after → (∀ g ∈ before, Usable lookup stem g) →
      Stops lookup stem f e → load lookup stem = ⟨(before ++ [f]).map (key stem), .error e⟩) ∧
    (∀ l : Text.Lowering, ∀ word ∈ words, ∀ core, l.lowered [] core = word.toList ↔ Spells core word) ∧
    ∀ c : Config, c.validate = .ok () → ∃ lookup', (∀ f, lookup' (key stem f) = written c f) ∧
      load lookup' stem = ⟨Field.all.map (key stem), .ok c⟩ := by
  have hloaded {lookup : String → Lookup} (h : ∀ f, Usable lookup stem f) :
      load lookup stem = ⟨Field.all.map (key stem), (overlay lookup stem .default Field.all).validated⟩ :=
    loadFields_of_usable (fun f _ => h f) .default
  refine ⟨rfl, ?_, fun lookup' => loadFields_congr, ?_, ?_, ?_, ?_, ?_⟩
  · exact List.Nodup.map (fun f g => key_injective) (by decide)
  · by_cases husable : ∀ f, Usable lookup stem f
    · exact Or.inl husable
    · obtain ⟨f, hf⟩ := not_forall.1 husable
      obtain ⟨before, g, after, hall, hg, hbefore⟩ :=
        exists_first (fun f => ¬ Usable lookup stem f) ⟨f, mem_all f, hf⟩
      obtain ⟨e, hstops⟩ := exists_stops hg
      exact Or.inr ⟨before, g, after, e, hall, fun f hf => not_not.1 (hbefore f hf), hstops⟩
  · intro husable
    have hoverlays := overlays_overlay husable
    exact ⟨_, hoverlays, fun c hc => hc.unique husable hoverlays, hloaded husable⟩
  · intro before f after e hall hbefore hstops
    rw [load, hall]
    exact loadFields_append_of_stops hbefore hstops .default
  · intro l word hword core
    exact l.lowered_eq_iff (letters_of_words hword) [] core
  · intro c hvalid
    obtain ⟨lookup', hwritten⟩ := exists_lookup_written c stem
    obtain ⟨husable, hoverlays⟩ := overlays_written hwritten
    refine ⟨lookup', hwritten, ?_⟩
    rw [hloaded husable, (overlays_overlay husable).unique husable hoverlays]
    exact congrArg _ (Config.validated_eq_ok_iff.2 ⟨hvalid, rfl⟩)

/-- Numbers with a sign, zeros in front and blanks around, and words in any case. -/
private def sloppy : String → Lookup
  | "APP_WORKER_THREADS" => .text "\u3000+08\n"
  | "APP_DEAD_EVENTS" => .text "RePublish"
  | "APP_MAX_PUBLISH_DEPTH" => .text " NONE "
  | "APP_ENABLE_LOGGING" => .text "oFF"
  | _ => .absent

/-- A number of more than 64 bits, and after it what is no text at all. -/
private def excessive : String → Lookup
  | "APP_MAX_WORKER_THREADS" => .text "18446744073709551616"
  | "APP_THREAD_NAME" => .undecodable "x"
  | _ => .absent

theorem sloppy_is_loaded :
    load sloppy "APP" = ⟨Field.all.map (key "APP"), .ok ⟨some 8, 8, "fanout-worker", .republish, none, false⟩⟩ ∧
    load excessive "APP" = ⟨["APP_WORKER_THREADS", "APP_MAX_WORKER_THREADS"],
      .error (.invalid "APP_MAX_WORKER_THREADS" "18446744073709551616")⟩ := by
  obtain ⟨-, -, -, -, hloads, -⟩ := loading_overlays_defaults sloppy "APP"
  obtain ⟨-, -, -, -, -, hstops, -⟩ := loading_overlays_defaults excessive "APP"
  obtain ⟨husable, hoverlays⟩ : (∀ f, Usable sloppy "APP" f) ∧
      Overlays sloppy "APP" ⟨some 8, 8, "fanout-worker", .republish, none, false⟩ := by
    apply overlays_of_says
    intro f
    cases f with
    | workerThreads => exact Or.inr ⟨_, .workerThreads 8, rfl, says_iff.2 (by decide), rfl⟩
    | deadEvents => exact Or.inr ⟨_, .deadEvents .republish, rfl, says_iff.2 (by decide), rfl⟩
    | maxPublishDepth => exact Or.inr ⟨_, .maxPublishDepth none, rfl, says_iff.2 (by decide), rfl⟩
    | enableLogging => exact Or.inr ⟨_, .enableLogging false, rfl, says_iff.2 (by decide), rfl⟩
    | maxWorkerThreads | threadName => exact Or.inl ⟨rfl, rfl⟩
  obtain ⟨c, -, hunique, hload⟩ := hloads husable
  obtain rfl := hunique _ hoverlays
  refine ⟨hload.trans ?_, ?_⟩
  · exact congrArg _ (Config.validated_eq_ok_iff.2 ⟨rfl, rfl⟩)
  · have hfirst : ∀ f ∈ [Field.workerThreads], Usable excessive "APP" f :=
      List.forall_mem_singleton.2 (Or.inl rfl)
    refine hstops [.workerThreads] .maxWorkerThreads _ _ rfl hfirst (.malformed rfl fun s hs => ?_)
    cases (says_iff.1 hs).symm.trans (by decide : setting? .maxWorkerThreads "18446744073709551616" = none)

end Variables
end PubSub
