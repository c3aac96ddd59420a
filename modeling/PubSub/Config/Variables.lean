import PubSub.Config

/-!
# Configuration from variables

Each setting has a variable, named by a common stem and the setting. The variables are looked up one by one, in
the order of the settings, up to the first that cannot be used; a missing one leaves the default.
-/

namespace PubSub

/-- What is found under the name of a variable. -/
inductive Lookup where
  | absent
  | text (value : String)
  /-- Something that is not text. -/
  | undecodable (raw : String)
  deriving DecidableEq

def Policy.ofText? (text : String) : Option Policy :=
  all.find? fun p => Text.isWord p.text text

/-- Reads a policy; the error names the setting, whatever variable held the text. -/
def Policy.read (text : String) : Except ConfigError Policy :=
  match ofText? text with
  | some p => .ok p
  | none => .error (.invalid Field.deadEvents.name text)

namespace Variables

/-- The stem used when none is given. -/
def defaultStem : String :=
  "FANOUT_BUS"

def key (stem : String) : Field → String
  | .workerThreads => stem ++ "_WORKER_THREADS"
  | .maxWorkerThreads => stem ++ "_MAX_WORKER_THREADS"
  | .threadName => stem ++ "_THREAD_NAME"
  | .deadEvents => stem ++ "_DEAD_EVENTS"
  | .maxPublishDepth => stem ++ "_MAX_PUBLISH_DEPTH"
  | .enableLogging => stem ++ "_ENABLE_LOGGING"

def flag? (text : String) : Option Bool :=
  if ["true", "1", "yes", "on"].any (Text.isWord · text) then some true
  else if ["false", "0", "no", "off"].any (Text.isWord · text) then some false
  else none

private def require {α : Type} (key text : String) : Option α → Except ConfigError α
  | some a => .ok a
  | none => .error (.invalid key text)

/-- Sets one field from the text of its variable. -/
def store (key text : String) (c : Config) : Field → Except ConfigError Config
  | .workerThreads => do return { c with workerThreads := some (← require key text (Text.natural? text)) }
  | .maxWorkerThreads => do return { c with maxWorkerThreads := ← require key text (Text.natural? text) }
  | .threadName => .ok { c with threadName := text }
  | .deadEvents => do return { c with deadEvents := ← Policy.read text }
  | .maxPublishDepth =>
    if Text.isWord "none" text then .ok { c with maxPublishDepth := none }
    else do return { c with maxPublishDepth := some (← require key text (Text.natural? text)) }
  | .enableLogging => do return { c with enableLogging := ← require key text (flag? text) }

/-- The names asked for, and the configuration or what was wrong. -/
structure Loaded where
  asked : List String
  result : Except ConfigError Config

private def Loaded.after (key : String) (l : Loaded) : Loaded :=
  { l with asked := key :: l.asked }

def loadFields (lookup : String → Lookup) (stem : String) (c : Config) : List Field → Loaded
  | [] => ⟨[], c.validated⟩
  | f :: fs =>
    let k := key stem f
    match lookup k with
    | .absent => (loadFields lookup stem c fs).after k
    | .undecodable raw => ⟨[k], .error (.undecodable raw)⟩
    | .text t =>
      match store k t c f with
      | .error e => ⟨[k], .error e⟩
      | .ok c' => (loadFields lookup stem c' fs).after k

/-- Starts from the default configuration. -/
def load (lookup : String → Lookup) (stem : String) : Loaded :=
  loadFields lookup stem .default Field.all

end Variables
end PubSub
