import PubSub.Config
import PubSub.Crash

/-!
# Workers

A bus starts its workers as it opens. A configuration that is accepted may still ask for workers that cannot be
started.
-/

namespace PubSub.Config

/-- The most workers that can be counted, with 512 spare ones beside them. -/
def maxCountedWorkers : UInt64 :=
  0xFFFFFFFFFFFFFDFF

/-- The most workers that can be listed, in entries of eight bytes. -/
def maxListedWorkers : UInt64 :=
  0x0FFFFFFFFFFFFFFF

/-- What starting the workers runs into. -/
def startWorkers (c : Config) : Except Crash Unit :=
  if c.workerThreads.any (maxCountedWorkers < ·) then .error .workersUncountable
  else if c.workerThreads.any (maxListedWorkers < ·) then .error .workersUnlistable
  else if c.threadName.toList.contains '\x00' then .error (.unnameable c.threadName)
  else .ok ()

end PubSub.Config
