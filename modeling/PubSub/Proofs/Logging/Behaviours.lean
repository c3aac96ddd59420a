import PubSub.Proofs.Exceptions
import PubSub.Proofs.Logging.Switch

/-!
# Listeners under the switch

A scripted listener goes on in the same way whether the switch is on or off in the commands that it gives, as long as
the answers are the same but for the switch. All events that it makes or comes to see can be rendered.
-/

namespace PubSub

section Rendering

inductive Payload.Printable : Payload → Prop
  | mk {p : Payload} (h : p.unprintable = false) (hbases : ∀ b ∈ p.bases, b.Printable) : p.Printable

/-- The event can be rendered, and so can all that a listener gets to see of it. -/
def Event.Printable : Event → Prop
  | value p => p.Printable
  | dead e => e.Printable

def Sight.Printable : Sight → Prop
  | event e _ => e.Printable
  | wrapper _ => True

def Message.Printable : Message → Prop
  | recipe r => r.unprintable = false
  | event e => e.Printable

theorem Event.Printable.debug {e : Event} (h : e.Printable) : ∃ text, e.debug = .ok text := by
  induction e with
  | value p =>
    obtain ⟨hp, -⟩ := h
    exact ⟨p.text, by simp [Event.debug, hp]⟩
  | dead e ih =>
    obtain ⟨text, htext⟩ := ih h
    exact ⟨_, by simp only [Event.debug, htext]; rfl⟩

theorem Hierarchy.printable_embed (h : Hierarchy) (note : String) (rounds : Nat) (cls : Name) (number : Int64) :
    (h.embed note false rounds cls number).Printable := by
  induction rounds generalizing cls number with
  | zero => exact ⟨rfl, by simp [embed]⟩
  | succ rounds ih =>
    cases cls with
    | composite i =>
      refine ⟨rfl, ?_⟩
      intro b hb
      obtain ⟨s, -, rfl⟩ := List.mem_map.1 hb
      exact ih s.name _
    | _ => exact ⟨rfl, by simp [embed]⟩

theorem Event.Printable.base? {e : Event} (h : e.Printable) {cls : Name} {p : Payload} (hp : e.base? cls = some p) :
    p.Printable := by
  cases e with
  | value q =>
    obtain ⟨-, hbases⟩ := h
    exact hbases p (List.mem_of_find?_eq_some hp)
  | dead e => cases hp

theorem Cast.printable_apply {c : Cast} {sight sight' : Sight} (h : c.apply sight = .ok sight')
    (hsight : sight.Printable) : sight'.Printable := by
  cases sight with
  | wrapper i =>
    cases h
    trivial
  | event e as =>
    simp only [apply] at h
    split at h
    · cases h
      exact hsight
    · cases h
      exact hsight
    · cases h
      trivial
    -- a class: what is embedded can be rendered, too
    all_goals
      split at h
      · rename_i p hp
        cases h
        exact Event.Printable.base? hsight hp
      · cases h

theorem View.printable_look {v : View} {e : Event} {sight : Sight} (he : e.Printable)
    (h : v.look e = .ok (some sight)) : sight.Printable := by
  induction v generalizing sight with
  | root =>
    cases h
    exact he
  | own cls =>
    simp only [look] at h
    split at h <;> cases h
    exact he
  | through v c ih =>
    obtain ⟨seen, hseen, h⟩ := bind_eq_ok_iff.1 h
    cases seen with
    | none => cases h
    | some seen =>
      obtain ⟨sight', hsight', h⟩ := bind_eq_ok_iff.1 h
      cases h
      exact Cast.printable_apply hsight' (ih hseen)

theorem Lens.printable_extract {lens : Lens} {view : Option View} {e : Event} {sight : Sight} (he : e.Printable)
    (h : lens.extract view e = .ok (some sight)) : sight.Printable := by
  have hview {wanted : Name} {sight : Sight} (h : throughView view wanted e = .ok (some sight)) : sight.Printable := by
    cases view with
    | none => cases h
    | some v =>
      simp only [throughView, View.cast] at h
      split at h
      · exact View.printable_look he h
      · cases h
  cases lens with
  | concrete cls =>
    obtain ⟨seen, hseen, h⟩ := bind_eq_ok_iff.1 h
    cases seen with
    | some seen =>
      cases h
      exact hview hseen
    | none =>
      simp only [pure_eq_ok_iff] at h
      split at h <;> cases h
      exact he
  | supertype name => exact hview h
  | whole =>
    cases h
    exact he

end Rendering

/-- They go on in the same way with the switch on and off, as long as all errors can be printed. Whatever they publish
can be rendered, and whatever they fail with can be printed. -/
inductive Behaviour.Twin : Behaviour → Behaviour → Prop
  | reply (value : Option Value) : Twin (.reply value) (.reply value)
  | fail {fault : Fault} (hfault : fault.isPrintable) : Twin (.fail fault) (.fail fault)
  | crash (c : Crash) : Twin (.crash c) (.crash c)
  | later {p p' : Behaviour} (h : Twin p p') : Twin (.later p) (.later p')
  | request (command : Command) (hcommand : command.isPrintable) {next next' : Answer → Behaviour}
      (h : ∀ a a' : Answer, a.plain = a'.plain → Twin (next a) (next' a')) :
    Twin (.request (command.logging true) next) (.request (command.logging false) next')
  | record {entry entry' : LogEntry} (hentry : entry.plain = entry'.plain) {p p' : Behaviour} (h : Twin p p') :
    Twin (.record entry p) (.record entry' p')
  | arrive (gate : String) {p p' : Behaviour} (h : Twin p p') : Twin (.arrive gate p) (.arrive gate p')
  | pass (gate : String) {p p' : Behaviour} (h : Twin p p') : Twin (.pass gate p) (.pass gate p')
  | publish (bus : String) {message : Message} (hmessage : message.Printable) {next next' : Option Nat → Behaviour}
      (h : ∀ publication, Twin (next publication) (next' publication)) :
    Twin (.publish bus message next) (.publish bus message next')
  | await (publication : Nat) {next next' : Except PublishError Delivery → Behaviour}
      (h : ∀ result, (∀ e, result = .error e → e.isPrintable) → Twin (next result) (next' result)) :
    Twin (.await publication next) (.await publication next')
  | forward (publication : Nat) {p p' : Behaviour} (h : Twin p p') :
    Twin (.forward publication p) (.forward publication p')
  | workerName {next next' : String → Behaviour} (h : ∀ name, Twin (next name) (next' name)) :
    Twin (.workerName next) (.workerName next')

namespace Behaviour

theorem Twin.throughGate (gate : Option String) {p p' : Behaviour} (h : p.Twin p') :
    (throughGate gate p).Twin (throughGate gate p') := by
  cases gate with
  | none => exact h
  | some g => exact .arrive g (.pass g h)

theorem twin_ofEnding (ending : Ending) : (ofEnding ending).Twin (ofEnding ending) := by
  cases ending with
  | done => exact .reply none
  | value v => exact .reply (some v)
  | fail message => exact .fail rfl
  | crash message => exact .crash _

theorem twin_awaiting (publication : Nat) : (awaiting publication).Twin (awaiting publication) := by
  refine .await publication fun result hresult => ?_
  cases result with
  | ok delivery => exact .reply _
  | error e => exact .fail (hresult e rfl)

theorem twin_requesting {next next' : List Answer → Behaviour} {commands : List Command}
    (hcommands : Command.arePrintable commands)
    (h : ∀ answers answers' : List Answer, answers.map Answer.plain = answers'.map Answer.plain →
      (next answers).Twin (next' answers'))
    {answers answers' : List Answer} (hanswers : answers.map Answer.plain = answers'.map Answer.plain) :
    (requesting next answers (Command.loggingAll true commands)).Twin
      (requesting next' answers' (Command.loggingAll false commands)) := by
  induction commands generalizing answers answers' with
  | nil => exact h answers answers' hanswers
  | cons command rest ih =>
    obtain ⟨hcommand, hrest⟩ := Bool.and_eq_true_iff.1 hcommands
    refine .request command hcommand fun a a' ha => ih hrest ?_
    simp only [List.map_append, hanswers, List.map_cons, ha]

end Behaviour

theorem Follow.twin_behaviour (follow : Follow) (patient : Bool) (publication : Nat) :
    (follow.behaviour patient publication).Twin (follow.behaviour patient publication) := by
  have hawaiting := Behaviour.twin_awaiting publication
  cases follow with
  | await =>
    cases patient with
    | true => exact hawaiting
    | false => exact .later hawaiting
  | defer => exact .later hawaiting
  | forward => exact .forward publication (.reply none)

theorem Subject.printable_message {subject : Subject} (h : subject.isPrintable) {sight : Sight}
    (hsight : sight.Printable) {message : Message} (hm : subject.message? sight = some message) :
    message.Printable := by
  cases subject with
  | fresh cls amount note unprintable =>
    cases hm
    show unprintable = false
    simpa [Subject.isPrintable] using h
  | seen =>
    cases sight with
    | event e as =>
      cases hm
      exact hsight
    | wrapper i => cases hm
  | inner =>
    obtain ⟨e, he, rfl⟩ := Option.map_eq_some_iff.1 hm
    cases sight with
    | event seen as =>
      cases seen with
      | value p => cases he
      | dead unheard =>
        cases he
        exact hsight
    | wrapper i => cases he

theorem Deed.twin_behaviour {deed : Deed} (h : deed.isPrintable) (patient : Bool) {sight : Sight}
    (hsight : sight.Printable) : (deed.behaviour patient sight).Twin (deed.behaviour patient sight) := by
  cases deed with
  | finish ending => exact Behaviour.twin_ofEnding ending
  | workerName => exact .workerName fun name => .reply _
  | defer gate ending => exact .later ((Behaviour.twin_ofEnding ending).throughGate _)
  | publish bus follow subject =>
    simp only [Deed.behaviour]
    split
    · exact .fail rfl
    · refine .publish bus (Subject.printable_message h hsight ‹_›) fun publication => ?_
      cases publication with
      | none => exact .fail rfl
      | some publication => exact follow.twin_behaviour patient publication

theorem Leaf.twin_behaviour {leaf : Leaf Command} (h : Leaf.isPrintable leaf) (role : Role) (depth : Nat)
    {sight : Sight} (hsight : sight.Printable) :
    ((Leaf.logging true leaf).behaviour role depth sight).Twin
      ((Leaf.logging false leaf).behaviour role depth sight) := by
  obtain ⟨requests, gate, deed⟩ := leaf
  obtain ⟨hrequests, hdeed⟩ := Bool.and_eq_true_iff.1 h
  refine Behaviour.twin_requesting hrequests (fun answers answers' hanswers => ?_) rfl
  refine .record ?_ ((Deed.twin_behaviour hdeed role.patient hsight).throughGate _)
  simp only [LogEntry.plain, hanswers]

/-- A listener that follows a script does the same with the switch on and off. -/
theorem Script.twin_listener {script : Script Command} (h : Script.isPrintable script) (role : Role) (depth : Nat)
    {sight : Sight} (hsight : sight.Printable) :
    ((Script.logging true script).listener role depth sight).Twin
      ((Script.logging false script).listener role depth sight) := by
  simp only [Script.listener, Script.pick_logging]
  exact Leaf.twin_behaviour (Script.isPrintable_pick h depth _) role depth hsight

end PubSub
