import CronTasks.Proofs.Runner.Firing
import CronTasks.Proofs.Trigger.Firing

namespace CronTasks

end CronTasks
