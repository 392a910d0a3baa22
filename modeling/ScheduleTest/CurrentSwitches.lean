import ScheduleTest.Job
import ScheduleTest.Lib.Execution

/-!
# The power state switches that are under way

What `pstate.cpp` keeps of the requests to switch machines to a power state (`CurrentSwitches`), and what changes it: a request that
the reader of the scheduler's messages lets through, and a machine that has been switched. The scheduler is answered once the last
machine of its request has.
-/

namespace ScheduleTest

/-- `CurrentSwitches::Switch`. -/
structure Switch where
  targetPstate : ℤ
  allMachines : IntervalSet
  switchingMachines : IntervalSet
  deriving DecidableEq

/-- The map `_switches`. -/
abbrev CurrentSwitches := ℤ → Option (List Switch)

/-- What Batsim aborts with. -/
inductive SwitchAbort where
  /-- `the number of allocated resources should be strictly positive`. -/
  | noResources
  /-- `switch count inconsistency`. -/
  | switchCountInconsistency
  /-- `machine %d was not switching to pstate %d`. -/
  | notSwitching (machine : ℕ) (pstate : ℤ)
  deriving DecidableEq

namespace CurrentSwitches

/-- `add_switch`. -/
def addSwitch (switches : CurrentSwitches) (machines : IntervalSet) (targetPstate : ℤ) : CurrentSwitches :=
  let s : Switch := { allMachines := machines, switchingMachines := machines, targetPstate := targetPstate }
  match switches targetPstate with
  | some list => Function.update switches targetPstate (some (list ++ [s]))
  | none => Function.update switches targetPstate (some [s])

/-- The loop of `mark_switch_as_done`: what it leaves of the list, and the machines of the request whose last one this is. -/
def markInList (machine : ℕ) : List Switch → Option (List Switch × Option IntervalSet)
  | [] => none
  | s :: list =>
    if machine ∈ s.switchingMachines then
      let marked := { s with switchingMachines := s.switchingMachines.erase machine }
      if marked.switchingMachines.card = 0 then some (list, some s.allMachines) else some (marked :: list, none)
    else (markInList machine list).map fun marked => (s :: marked.1, marked.2)

/-- `mark_switch_as_done`. A list that gets empty is taken out of the map. -/
def markSwitchAsDone (switches : CurrentSwitches) (machine : ℕ) (targetPstate : ℤ) :
    Except SwitchAbort (CurrentSwitches × Option IntervalSet) :=
  match switches targetPstate with
  | none => .error .switchCountInconsistency
  | some list =>
    match markInList machine list with
    | none => .error (.notSwitching machine targetPstate)
    | some (list, none) => .ok (Function.update switches targetPstate (some list), none)
    | some (list, some allMachines) =>
      .ok (Function.update switches targetPstate (if list.length = 0 then none else some list), some allMachines)

end CurrentSwitches

/-- What happens to the switches. -/
inductive SwitchEvent where
  /-- The scheduler wants machines to be switched. -/
  | request (machines : IntervalSet) (targetPstate : ℤ)
  /-- A machine has been switched. -/
  | switched (machine : ℕ) (targetPstate : ℤ)
  deriving DecidableEq

/-- The switches, and what has been told to the scheduler: for each event, the machines whose state has changed, if it was told
any. -/
structure SwitchServer where
  switches : CurrentSwitches := fun _ => none
  replies : List (Option IntervalSet) := []

namespace SwitchServer

/-- `handle_set_resource_state` and `server_on_pstate_modification`, as far as the request goes, and what the server does when a
machine has been switched, at once or by a process. -/
def step (s : SwitchServer) : SwitchEvent → Except SwitchAbort SwitchServer
  | .request machines targetPstate =>
    if 0 < machines.card then .ok { switches := s.switches.addSwitch machines targetPstate, replies := s.replies ++ [none] }
    else .error .noResources
  | .switched machine targetPstate => (s.switches.markSwitchAsDone machine targetPstate).map fun marked =>
      { switches := marked.1, replies := s.replies ++ [marked.2] }

end SwitchServer

end ScheduleTest
