import PubSub.Program
import PubSub.Proofs.Exceptions

/-!
# The logging switch

Programs with the switch set the same way on every bus that they open, and on every bus that a listener opens. What is
read from a configuration shows the switch; `plain` puts it out of sight.
-/

namespace PubSub

mutual

/-- The command with the switch set on every bus that comes of it. -/
def Command.logging (on : Bool) : Command → Command
  | .openBus bus base settings => .openBus bus base (settings ++ [.enableLogging on])
  | .managed owner config => .managed owner { config with enableLogging := on }
  | .object name label threadSafe script methods =>
    .object name label threadSafe (Script.logging on script) (Method.loggingAll on methods)
  | command => command

def Command.loggingAll (on : Bool) : List Command → List Command
  | [] => []
  | command :: rest => command.logging on :: Command.loggingAll on rest

def Leaf.logging (on : Bool) : Leaf Command → Leaf Command
  | ⟨requests, gate, deed⟩ => ⟨Command.loggingAll on requests, gate, deed⟩

def Script.logging (on : Bool) : Script Command → Script Command
  | .leaf leaf => .leaf (Leaf.logging on leaf)
  | .branch measure comparison bound yes no =>
    .branch measure comparison bound (Script.logging on yes) (Script.logging on no)

def Method.logging (on : Bool) : Method Command → Method Command
  | ⟨name, type, kind, script⟩ => ⟨name, type, kind, Script.logging on script⟩

def Method.loggingAll (on : Bool) : List (Method Command) → List (Method Command)
  | [] => []
  | method :: rest => Method.logging on method :: Method.loggingAll on rest

end

def Subject.isPrintable : Subject → Bool
  | .fresh _ _ _ unprintable => !unprintable
  | .seen | .inner => true

def Deed.isPrintable : Deed → Bool
  | .publish _ _ subject => subject.isPrintable
  | .finish _ | .workerName | .defer _ _ => true

mutual

/-- All events that the command makes, and those that listeners make because of it, can be rendered for diagnostics. -/
def Command.isPrintable : Command → Bool
  | .start _ publish => !publish.recipe.unprintable
  | .object _ _ _ script methods => Script.isPrintable script && Method.arePrintable methods
  | _ => true

def Command.arePrintable : List Command → Bool
  | [] => true
  | command :: rest => command.isPrintable && Command.arePrintable rest

def Leaf.isPrintable : Leaf Command → Bool
  | ⟨requests, _, deed⟩ => Command.arePrintable requests && deed.isPrintable

def Script.isPrintable : Script Command → Bool
  | .leaf leaf => Leaf.isPrintable leaf
  | .branch _ _ _ yes no => Script.isPrintable yes && Script.isPrintable no

def Method.isPrintable : Method Command → Bool
  | ⟨_, _, _, script⟩ => Script.isPrintable script

def Method.arePrintable : List (Method Command) → Bool
  | [] => true
  | method :: rest => Method.isPrintable method && Method.arePrintable rest

end

theorem Method.loggingAll_eq_map (on : Bool) (methods : List (Method Command)) :
    Method.loggingAll on methods = methods.map (Method.logging on) := by
  induction methods with
  | nil => rfl
  | cons method rest ih => rw [Method.loggingAll, ih, List.map_cons]

theorem Method.arePrintable_iff (methods : List (Method Command)) :
    Method.arePrintable methods ↔ ∀ method ∈ methods, Method.isPrintable method := by
  induction methods with
  | nil => simp [Method.arePrintable]
  | cons method rest ih => simp [Method.arePrintable, ih]

theorem Script.pick_logging (on : Bool) (script : Script Command) (depth : Nat) (number : Int64) :
    (Script.logging on script).pick depth number = Leaf.logging on (script.pick depth number) := by
  induction script with
  | leaf leaf => rfl
  | branch measure comparison bound yes no hyes hno =>
    simp only [Script.logging, Script.pick, hyes, hno, apply_ite (Leaf.logging on)]

theorem Script.isPrintable_pick {script : Script Command} (h : Script.isPrintable script) (depth : Nat)
    (number : Int64) : Leaf.isPrintable (script.pick depth number) := by
  induction script with
  | leaf leaf => exact h
  | branch measure comparison bound yes no hyes hno =>
    obtain ⟨hyes', hno'⟩ := Bool.and_eq_true_iff.1 h
    exact iteInduction (motive := fun leaf => Leaf.isPrintable leaf) (fun _ => hyes hyes') (fun _ => hno hno')

def Step.logging (on : Bool) : Step → Step
  | .perform command => .perform (command.logging on)
  | s => s

def Step.isPrintable : Step → Bool
  | .perform command => command.isPrintable
  | .publish p => !p.recipe.unprintable
  | .await _ | .waitArrivals _ _ | .waitCalls _ _ | .probe _ => true

def Config.plain (c : Config) : Config :=
  { c with enableLogging := false }

def Answer.plain : Answer → Answer
  | .config c => .config c.plain
  | a => a

def LogEntry.plain (e : LogEntry) : LogEntry :=
  { e with answers := e.answers.map Answer.plain }

/-- A warning, or the report of a failure. -/
def Notice.isGrave (n : Notice) : Bool :=
  n.level = .warn || n.level = .error

def isGraveLine (line : String) : Bool :=
  [Level.warn, Level.error].any fun level => level.text.toList.isPrefixOf line.toList

def Result.plain : Result → Result
  | .answer a => .answer a.plain
  | r => r

/-- What is left of a report without the switch in configurations, and without the lines that are not grave. -/
def Report.plain (r : Report) : Report where
  result := r.result.plain
  forwarded := r.forwarded
  log := r.log.map LogEntry.plain
  lines := r.lines.filter isGraveLine

theorem Notice.isGraveLine_of_line {n : Notice} {line : String} (h : n.line = .ok line) :
    isGraveLine line = n.isGrave := by
  obtain ⟨fields, -, hline⟩ := bind_eq_ok_iff.1 h
  obtain rfl := pure_eq_ok_iff.1 hline
  -- the first word of a line is its level
  simp only [isGraveLine, isGrave, String.intercalate_cons_cons, String.toList_append, List.append_assoc]
  cases n.level <;> rfl

/-- The grave lines are the lines of the grave notices. -/
theorem filter_lines (ns : List Notice) : (ns.filterMap (·.line.toOption)).filter isGraveLine =
    (ns.filter Notice.isGrave).filterMap (·.line.toOption) := by
  induction ns with
  | nil => rfl
  | cons n ns ih =>
    cases hline : n.line with
    | error c =>
      have hnone : n.line.toOption = none := by
        rw [hline]
        rfl
      simp only [List.filterMap_cons, hnone, ih, List.filter_cons]
      split
      · simp only [List.filterMap_cons, hnone]
      · rfl
    | ok line =>
      have hsome : n.line.toOption = some line := by
        rw [hline]
        rfl
      simp only [List.filterMap_cons, hsome, List.filter_cons, Notice.isGraveLine_of_line hline, ih]
      split
      · simp only [List.filterMap_cons, hsome]
      · rfl

end PubSub
