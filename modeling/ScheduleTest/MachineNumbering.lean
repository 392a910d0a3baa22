import ScheduleTest.Machines
import ScheduleTest.MachineNames

/-!
# The numbers of the machines

How `create_machines` (`machines.cpp`) gives the machines their numbers: the compute machines first, which are sorted by their names
and may be limited in number, and then the storage machines. A machine is known by its name, since no two hosts have the same.
-/

namespace ScheduleTest

/-- A host of the platform, with its name. -/
structure NamedHost extends Host where
  name : List Int8

/-- A machine that is created for a host. -/
structure NumberedMachine extends NamedHost where
  id : ℤ := -1

/-- The machines by their roles. -/
structure NumberedMachines where
  computeNodes : List NumberedMachine
  storageNodes : List NumberedMachine

/-- What Batsim aborts with. -/
inductive NumberingAbort where
  | machines (abort : SimAbort)
  /-- An assertion of `string_numeric_comparator`. -/
  | comparator

/-- `std::sort` with `machine_comparator_name`. It asks for a strict order, which the comparator is not, so nothing is known of the
order that the machines get; it aborts where an assertion of the comparator does. -/
structure MachineSort where
  sort : List (List Int8) → Option (List (List Int8))
  perm : ∀ names sorted, sort names = some sorted → sorted.Perm names

namespace NumberedMachines

/-- The machines, in the order in which they are numbered. -/
def machines (ms : NumberedMachines) : List NumberedMachine := ms.computeNodes ++ ms.storageNodes

/-- `sort_machines_by_ascending_name`. The vector is passed by value: the copy is sorted, and the machines that its pointers point
to get numbers, but the vector of the caller stays as it is. -/
def sortMachinesByAscendingName (s : MachineSort) (machinesVect : List NumberedMachine) : Option (List NumberedMachine) :=
  (s.sort (machinesVect.map (·.name))).map fun sorted =>
    machinesVect.map fun machine => { machine with id := sorted.idxOf machine.name }

/-- The compute machines that are left when their number is limited. -/
def limitMachines (computeNodes : List NumberedMachine) (limitMachineCount : ℤ) : Except NumberingAbort (List NumberedMachine) :=
  if 0 < limitMachineCount then
    if limitMachineCount ≤ computeNodes.length then .ok (computeNodes.take limitMachineCount.toNat)
    else .error (.machines (.notEnoughMachines limitMachineCount computeNodes.length))
  else .ok computeNodes

/-- The loops that give the numbers, from a number on. -/
def number (id : ℕ) (machines : List NumberedMachine) : List NumberedMachine :=
  machines.mapIdx fun i machine => { machine with id := id + i }

/-- The machines of a role, before they get numbers. -/
def ofRole (hosts : List NamedHost) (permissions : Permissions) : List NumberedMachine :=
  (hosts.filter (·.permissions = permissions)).map fun host => { toNamedHost := host }

/-- `create_machines`, for the hosts in the order of `get_all_hosts`. -/
def createMachines (s : MachineSort) (hosts : List NamedHost) (limitMachineCount : ℤ) : Except NumberingAbort NumberedMachines :=
  if ¬(limitMachineCount = -1 ∨ 0 < limitMachineCount) then .error (.machines (.badMachineLimit limitMachineCount))
  else if 1 < hosts.countP (·.permissions = .master) then .error (.machines .severalMasters)
  else
    match sortMachinesByAscendingName s (ofRole hosts .computeNode) with
    | none => .error .comparator
    | some sorted =>
      match limitMachines sorted limitMachineCount with
      | .error e => .error e
      | .ok computeNodes =>
        if hosts.countP (·.permissions = .master) = 0 then .error (.machines .noMaster)
        else .ok {
          computeNodes := number 0 computeNodes
          storageNodes := number computeNodes.length (ofRole hosts .storage) }

end NumberedMachines

end ScheduleTest
