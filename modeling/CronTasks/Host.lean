import CronTasks.Calendar.Instant
import CronTasks.Outcome

namespace CronTasks

/-- What the surroundings give to a call: what the clock shows, and whether there is a runtime that
can run work. -/
structure Host where
  clock : Calendar.Instant
  runtime : Bool

/-- Reads the clock, which panics outside the instants from 1970 on that can be represented. -/
def Host.now (host : Host) : Except Payload Calendar.Instant :=
  if host.clock < 0 then .error .early
  else if Calendar.Instant.latest < host.clock then .error .overflow
  else .ok host.clock

end CronTasks
