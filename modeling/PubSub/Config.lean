import PubSub.Json.Flaw
import PubSub.Text.Quoted
import PubSub.Text.Word

/-!
# Configuration

What a bus can be told, the defaults, and which configurations are accepted.
-/

namespace PubSub

/-- What becomes of an event that nobody listens to. -/
inductive Policy where
  | ignore
  | log
  /-- The event is carried by another one, which is published in its place. -/
  | republish
  deriving DecidableEq

namespace Policy

def text : Policy → String
  | ignore => "ignore"
  | log => "log"
  | republish => "republish"

def debug : Policy → String
  | ignore => "Ignore"
  | log => "Log"
  | republish => "Republish"

def all : List Policy :=
  [ignore, log, republish]

def default : Policy :=
  ignore

end Policy

inductive ConfigError where
  /-- The value is not acceptable under this key. -/
  | invalid (key value : String)
  /-- A variable holds something that is not text. -/
  | undecodable (raw : String)
  | document (flaw : Json.Flaw)
  deriving DecidableEq

/-- The text of an error, for all but flaws of documents. -/
def ConfigError.message : ConfigError → String
  | invalid key value => "Invalid value for " ++ key ++ ": " ++ value
  | undecodable raw =>
    "Environment variable error: environment variable was not valid unicode: " ++ Text.diagnostic raw
  | document _ => "Failed to parse configuration"

structure Config where
  /-- The number of workers; without one, as many as there are processors, up to `maxWorkerThreads`. -/
  workerThreads : Option UInt64
  maxWorkerThreads : UInt64
  threadName : String
  deadEvents : Policy
  /-- How deep publishes may nest; without one, they may nest without end. -/
  maxPublishDepth : Option UInt64
  /-- Reports what the bus does. Failures and warnings are reported in any case. -/
  enableLogging : Bool
  deriving DecidableEq

/-- The settings of a configuration, in their order. -/
inductive Field where
  | workerThreads
  | maxWorkerThreads
  | threadName
  | deadEvents
  | maxPublishDepth
  | enableLogging
  deriving DecidableEq

namespace Field

def all : List Field :=
  [workerThreads, maxWorkerThreads, threadName, deadEvents, maxPublishDepth, enableLogging]

def name : Field → String
  | workerThreads => "worker_threads"
  | maxWorkerThreads => "max_worker_threads"
  | threadName => "thread_name"
  | deadEvents => "dead_events"
  | maxPublishDepth => "max_publish_depth"
  | enableLogging => "enable_logging"

def ofName? (name : String) : Option Field :=
  all.find? (·.name = name)

end Field

namespace Config

def default : Config where
  workerThreads := none
  maxWorkerThreads := 8
  threadName := "fanout-worker"
  deadEvents := .default
  maxPublishDepth := some 64
  enableLogging := true

/-- The number of workers to start on a machine with this many processors. -/
def effectiveWorkerThreads (c : Config) (processors : UInt64) : UInt64 :=
  max 1 (c.workerThreads.getD (min processors c.maxWorkerThreads))

/-- The first setting that cannot be used, with its value. -/
def validate (c : Config) : Except ConfigError Unit :=
  if c.workerThreads = some 0 then .error (.invalid Field.workerThreads.name "0")
  else if c.maxWorkerThreads = 0 then .error (.invalid Field.maxWorkerThreads.name "0")
  else if Text.trim c.threadName.toList = [] then .error (.invalid Field.threadName.name c.threadName)
  else if c.maxPublishDepth = some 0 then .error (.invalid Field.maxPublishDepth.name "0")
  else .ok ()

/-- The configuration itself, if it is accepted. -/
def validated (c : Config) : Except ConfigError Config := do
  c.validate
  return c

end Config

/-- One change to a configuration in the making. -/
inductive Setting where
  | workerThreads (count : UInt64)
  | maxWorkerThreads (count : UInt64)
  | threadName (name : String)
  | deadEvents (policy : Policy)
  | maxPublishDepth (limit : Option UInt64)
  | enableLogging (enabled : Bool)
  deriving DecidableEq

def Config.set (c : Config) : Setting → Config
  | .workerThreads n => { c with workerThreads := some n }
  | .maxWorkerThreads n => { c with maxWorkerThreads := n }
  | .threadName s => { c with threadName := s }
  | .deadEvents p => { c with deadEvents := p }
  | .maxPublishDepth d => { c with maxPublishDepth := d }
  | .enableLogging b => { c with enableLogging := b }

end PubSub
