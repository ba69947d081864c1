import CronTasks.Config.Schema

namespace CronTasks

structure Customizer where
  order : Int
  apply : Properties → Properties

namespace Customizer

/-- Removes keys, then gives keys values, then adds to values at their ends; a key without a
value is taken to be empty. -/
def edit (order : Int) (removed : List String) (given added : List (String × String)) :
    Customizer where
  order
  apply ps :=
    let ps := removed.foldl (·.erase) ps
    let ps := given.foldl (fun ps e => ps.set e.1 e.2) ps
    added.foldl (fun ps e => ps.set e.1 ((ps.get? e.1).getD "" ++ e.2)) ps

def sorted (cs : List Customizer) : List Customizer := cs.mergeSort fun a b => a.order ≤ b.order

end Customizer

def TriggerConfig.customize (c : TriggerConfig) (cs : List Customizer) : TriggerConfig :=
  { c with properties := (Customizer.sorted cs).foldl (fun ps f => f.apply ps) c.properties }

end CronTasks
