import PubSub.Handle

/-!
# Answers

What a session answers to a command, and the record of one run of a scripted listener.
-/

namespace PubSub

inductive Answer where
  | ok
  | flag (value : Bool)
  | number (value : Nat)
  | keys (keys : List Key)
  | texts (texts : List String)
  | config (config : Config)
  /-- The handle, and how long the table of handlers was after each entry, if the table was asked for. -/
  | subscribed (handle : Handle) (table : Option (List Nat))
  | refused (error : BusError) (table : Option (List Nat))
  | handle (handle : Handle)
  | started
  /-- The command refers to something that is not there. -/
  | misfit
  | crashed (crash : Crash)

structure LogEntry where
  object : String
  method : String
  sight : String
  depth : Nat
  /-- The answers to the requests that the listener made. -/
  answers : List Answer

end PubSub
