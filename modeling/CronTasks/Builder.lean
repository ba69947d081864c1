import CronTasks.Config.Customizer
import CronTasks.Config.Settings
import CronTasks.Repository

namespace CronTasks

/-- The trigger engine's repository, once customizers have reshaped its properties. -/
def TriggerConfig.build (c : TriggerConfig) (registry : Registry) (cs : List Customizer) :
    Except (Raised ConfigError) Trigger.Repository := do
  let settings ← (TriggerSettings.ofConfig (c.customize cs)).mapError .error
  let engine ← (Trigger.Engine.new settings.schedulerName settings.threadCount).mapError .panic
  return .attach engine registry settings.zone

def RunnerConfig.build (c : RunnerConfig) (registry : Option Registry) :
    Except ConfigError Runner.Repository := do
  let settings ← RunnerSettings.ofConfig c
  return .attach (.new settings.zone) registry

def Config.build (c : Config) (registry : Registry) (cs : List Customizer) :
    Except (Raised ConfigError) Repository :=
  match c.client with
  | .trigger => (c.trigger.build registry cs).map .trigger
  | .runner => ((c.runner.build (some registry)).mapError .error).map .runner

end CronTasks
