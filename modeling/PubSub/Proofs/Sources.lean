import PubSub.Delivery

/-!
# Sources of errors

The errors below an error, each the source of the one before it. A publish that failed because another one did has
below it what that has, so the error that all began with comes last.
-/

namespace PubSub

/-- What stands in a chain of sources. -/
inductive Source where
  | failure (failure : ListenerFailure)
  | error (error : ListenerError)
  /-- What a listener failed with. -/
  | fault (fault : Fault)
  /-- What a listener's own error has for its source. -/
  | own (text : String)

def Source.text : Source → String
  | failure f => f.text
  | error e => e.text
  | fault f => f.text
  | own text => text

section Chains

variable (own : String → List String)

mutual

/-- The errors below this one; `own` tells what is below the listeners' own errors. -/
def PublishError.chain : PublishError → List Source
  | .listenersFailed first _ => .failure first :: first.chain
  | .closed | .depthExceeded _ _ | .interrupted _ => []

def ListenerFailure.chain : ListenerFailure → List Source
  | .mk _ _ _ _ cause => .error cause :: cause.chain

def ListenerError.chain : ListenerError → List Source
  | .failed fault | .deferred fault => .fault fault :: fault.chain
  | .crashed _ | .typeMismatch _ => []

def Fault.chain : Fault → List Source
  | .message text => (own text).map .own
  | .publish error => error.chain

end

end Chains

section Texts

mutual

theorem PublishError.text_chain (error : PublishError) :
    (error.chain fun _ => []).map Source.text = error.sources := by
  cases error with
  | listenersFailed first rest =>
    simp [PublishError.chain, PublishError.sources, Source.text, ListenerFailure.text_chain first]
  | closed | depthExceeded | interrupted => simp [PublishError.chain, PublishError.sources]

private theorem ListenerFailure.text_chain (failure : ListenerFailure) :
    (failure.chain fun _ => []).map Source.text = failure.sources := by
  cases failure with
  | mk event key target callback cause =>
    simp [ListenerFailure.chain, ListenerFailure.sources, Source.text, ListenerError.text_chain cause]

private theorem ListenerError.text_chain (error : ListenerError) :
    (error.chain fun _ => []).map Source.text = error.sources := by
  cases error with
  | failed fault | deferred fault =>
    simp [ListenerError.chain, ListenerError.sources, Source.text, Fault.text_chain fault]
  | crashed | typeMismatch => simp [ListenerError.chain, ListenerError.sources]

private theorem Fault.text_chain (fault : Fault) :
    (fault.chain fun _ => []).map Source.text = fault.sources := by
  cases fault with
  | message text => simp [Fault.chain, Fault.sources]
  | publish error => simp [Fault.chain, Fault.sources, PublishError.text_chain error]

end

end Texts

/-- What the listener failed with, unless it gave up or could not see the event. -/
def ListenerError.fault? : ListenerError → Option Fault
  | .failed fault | .deferred fault => some fault
  | .crashed _ | .typeMismatch _ => none

/-- No listener has failed below it. -/
def Fault.isLeaf : Fault → Bool
  | .message _ | .publish .closed | .publish (.depthExceeded _ _) | .publish (.interrupted _) => true
  | .publish (.listenersFailed _ _) => false

/-- What one level of nested publishes adds to a chain. -/
def ListenerFailure.entries (failure : ListenerFailure) : List Source :=
  .failure failure :: .error failure.cause :: (failure.cause.fault?.map .fault).toList

/-- The first failures of publishes, each of which failed for the next one, and what the last one failed with: nothing
if its listener gave up or could not see the event. -/
inductive Fault.Nests : Fault → List ListenerFailure → Option Fault → Prop
  | leaf {fault : Fault} (h : fault.isLeaf) : Nests fault [] (some fault)
  | ended {first : ListenerFailure} {rest : List ListenerFailure} (hnone : first.cause.fault? = none) :
    Nests (.publish (.listenersFailed first rest)) [first] none
  | level {first : ListenerFailure} {rest levels : List ListenerFailure} {fault : Fault} {leaf : Option Fault}
    (hfault : first.cause.fault? = some fault) (h : fault.Nests levels leaf) :
    Nests (.publish (.listenersFailed first rest)) (first :: levels) leaf

section Nesting

variable (own : String → List String)

theorem ListenerError.chain_eq (error : ListenerError) :
    error.chain own = error.fault?.elim [] fun fault => .fault fault :: fault.chain own := by
  cases error <;> simp [ListenerError.chain, fault?]

theorem PublishError.chain_of_listenersFailed (first : ListenerFailure) (rest : List ListenerFailure) :
    (listenersFailed first rest).chain own = .failure first :: .error first.cause :: first.cause.chain own := by
  cases first
  simp [PublishError.chain, ListenerFailure.chain, ListenerFailure.cause]

end Nesting

section Existence

mutual

theorem PublishError.exists_nests (error : PublishError) : ∃ levels leaf, (Fault.publish error).Nests levels leaf := by
  cases error with
  | listenersFailed first rest => exact ListenerFailure.exists_nests first rest
  | closed | depthExceeded | interrupted => exact ⟨[], _, .leaf rfl⟩

private theorem ListenerFailure.exists_nests (first : ListenerFailure) (rest : List ListenerFailure) :
    ∃ levels leaf, (Fault.publish (.listenersFailed first rest)).Nests levels leaf := by
  cases first with
  | mk event key target callback cause =>
    cases hfault : cause.fault? with
    | none => exact ⟨_, none, .ended hfault⟩
    | some fault =>
      obtain ⟨levels, leaf, h⟩ := ListenerError.exists_nests cause hfault
      exact ⟨_, leaf, .level hfault h⟩

private theorem ListenerError.exists_nests (error : ListenerError) {fault : Fault}
    (hfault : error.fault? = some fault) : ∃ levels leaf, fault.Nests levels leaf := by
  cases error with
  | failed fault' | deferred fault' =>
    obtain rfl := Option.some.inj hfault
    exact Fault.exists_nests fault'
  | crashed | typeMismatch => cases hfault

private theorem Fault.exists_nests (fault : Fault) : ∃ levels leaf, fault.Nests levels leaf := by
  cases fault with
  | message text => exact ⟨[], _, .leaf rfl⟩
  | publish error => exact PublishError.exists_nests error

end

end Existence

namespace Fault.Nests

variable {fault leaf : Fault} {levels : List ListenerFailure}

theorem chain_eq {leaf? : Option Fault} (h : fault.Nests levels leaf?) (own : String → List String) :
    fault.chain own = levels.flatMap ListenerFailure.entries ++ leaf?.elim [] (Fault.chain own) := by
  induction h with
  | leaf => simp
  | ended hnone =>
    simp [Fault.chain, PublishError.chain_of_listenersFailed, ListenerError.chain_eq, ListenerFailure.entries, hnone]
  | level hfault _ ih =>
    simp [Fault.chain, PublishError.chain_of_listenersFailed, ListenerError.chain_eq, ListenerFailure.entries, hfault,
      ih]

theorem length_chain (h : fault.Nests levels (some leaf)) (own : String → List String) :
    (fault.chain own).length = 3 * levels.length + (leaf.chain own).length := by
  generalize hleaf : some leaf = leaf? at h
  induction h with
  | leaf =>
    cases hleaf
    simp
  | ended => cases hleaf
  | level hfault h ih =>
    have hbelow := ih hleaf
    simp only [Fault.chain, PublishError.chain_of_listenersFailed, ListenerError.chain_eq, hfault, Option.elim_some,
      List.length_cons]
    omega

theorem getLast?_chain {own : String → List String} (h : fault.Nests levels (some leaf)) (hsome : levels ≠ [])
    (hend : leaf.chain own = []) : (fault.chain own).getLast? = some (.fault leaf) := by
  generalize hleaf : some leaf = leaf? at h
  induction h with
  | leaf => exact absurd rfl hsome
  | ended => cases hleaf
  | @level first rest levels below leaf? hfault h ih =>
    have hlast : (Source.fault below :: below.chain own).getLast? = some (.fault leaf) := by
      cases h with
      | leaf =>
        cases hleaf
        simp [hend]
      | ended => cases hleaf
      | level => rw [List.getLast?_cons, ih (by simp) hleaf, Option.getD_some]
    simp only [Fault.chain, PublishError.chain_of_listenersFailed, ListenerError.chain_eq, hfault, Option.elim_some]
    rw [List.getLast?_cons_cons, List.getLast?_cons_cons, hlast]

theorem isPrintable (h : fault.Nests levels (some leaf)) (hleaf : leaf.isPrintable) : fault.isPrintable := by
  generalize hsome : some leaf = leaf? at h
  induction h with
  | leaf =>
    cases hsome
    exact hleaf
  | ended => cases hsome
  | @level first rest levels below leaf? hfault _ ih =>
    have hbelow := ih hsome
    obtain ⟨event, key, target, callback, cause⟩ := first
    have hcause : cause.fault? = some below := hfault
    have hprintable : cause.isPrintable := by
      cases cause with
      | failed fault | deferred fault =>
        obtain rfl := Option.some.inj hcause
        rwa [ListenerError.isPrintable]
      | crashed | typeMismatch => cases hcause
    rwa [Fault.isPrintable, PublishError.isPrintable, ListenerFailure.isPrintable]

/-- If the last listener gave up or could not see the event, nothing is below that. -/
theorem chain_of_ended (h : fault.Nests levels none) : ∃ outer last, levels = outer ++ [last] ∧
    last.cause.fault? = none ∧ ∀ own, (fault.chain own).length = 3 * outer.length + 2 ∧
      fault.chain own = outer.flatMap ListenerFailure.entries ++ [.failure last, .error last.cause] := by
  generalize hleaf : (none : Option Fault) = leaf? at h
  induction h with
  | leaf => cases hleaf
  | @ended last rest hnone =>
    refine ⟨[], last, rfl, hnone, fun own => ?_⟩
    simp [Fault.chain, PublishError.chain_of_listenersFailed, ListenerError.chain_eq, hnone]
  | @level first rest levels fault leaf? hfault _ ih =>
    obtain ⟨outer, last, rfl, hnone, hbelow⟩ := ih hleaf
    refine ⟨first :: outer, last, rfl, hnone, fun own => ?_⟩
    obtain ⟨hlength, hchain⟩ := hbelow own
    simp only [Fault.chain, PublishError.chain_of_listenersFailed, ListenerError.chain_eq, hfault, Option.elim_some]
    constructor
    · simp only [List.length_cons, hlength]
      omega
    · simp [hchain, ListenerFailure.entries, hfault]

end Fault.Nests

end PubSub
