import ScheduleTest.FirstFit
import ScheduleTest.Platform
import ScheduleTest.Protocol
import ScheduleTest.Queue

/-!
# The filler

What `filler.cpp` does. The jobs that wait are looked at in the order of the queue, and each is executed where it fits on machines
that no job holds and that are not said to be unavailable, on a fraction of the machines that it requests. A machine may become
unavailable while a job runs on it.
-/

namespace ScheduleTest

/-- The product of a fraction and a number of machines, as `double` rounds it: a number that is in the format stays as it is, and the
rounding is monotone. -/
structure RoundedProduct where
  mul : ℚ → ℕ → ℚ
  pos : ∀ fraction n, 0 < fraction → 0 < n → 0 < mul fraction n
  le : ∀ fraction n, 0 < fraction → fraction ≤ 1 → mul fraction n ≤ n

/-- The product that is not rounded. -/
def RoundedProduct.exact : RoundedProduct where
  mul := fun fraction n => fraction * n
  pos := fun _ _ hfraction hn => mul_pos hfraction (Nat.cast_pos.2 hn)
  le := fun _ _ _ hle => mul_le_of_le_one_left (Nat.cast_nonneg _) hle

/-- What the filler is made with. -/
structure FillerOptions where
  nbMachines : ℕ
  selector : ResourceSelector := .basic
  order : SortableJobOrder := FCFSOrder
  product : RoundedProduct := .exact
  fractionOfMachinesToUse : ℚ := 1
  setJobMetadata : Bool := false
  customMapping : Bool := true
  inRange : 0 < fractionOfMachinesToUse ∧ fractionOfMachinesToUse ≤ 1 := by norm_num

/-- Why the filler aborts. -/
inductive FillerAbort where
  | invalidOptions (message : String)
  /-- `'fraction_of_machines_to_use' should be in ]0,1] but got value=%g`. -/
  | fractionOutside (fraction : ℚ)
  /-- `nb_machines_to_allocate > 0 && nb_machines_to_allocate <= job->nb_requested_resources`. -/
  | nbMachinesToAllocate (id : String)
  | job (reason : Abort)
  deriving DecidableEq

structure FillerState where
  availableMachines : IntervalSet
  unavailableMachines : IntervalSet := ∅
  currentAllocations : KeyedMap (fun id : String => id) IntervalSet := KeyedMap.empty
  queue : Queue := []
  workload : String → Option Job := fun _ => none
  jobsReleasedRecently : List Job := []
  jobsEndedRecently : List String := []
  machinesThatBecameAvailableRecently : IntervalSet := ∅
  machinesThatBecameUnavailableRecently : IntervalSet := ∅
  decision : List ProtocolEvent := []

/-- What the simulator tells the filler. -/
inductive FillerEvent where
  | jobSubmitted (job : Job)
  | jobCompleted (id : String)
  | machinesAvailable (machines : IntervalSet)
  | machinesUnavailable (machines : IntervalSet)
  | makeDecisions (date currentDate : ℚ)

namespace Filler

/-- An option that is a boolean, if it is there. -/
def readBool (key : String) (default : Bool) (variantOptions : JsonValue) : Except FillerAbort Bool :=
  match variantOptions.member? key with
  | none => .ok default
  | some (.bool value) => .ok value
  | some _ => .error (.invalidOptions ("Invalid options: '" ++ key ++ "' should be a boolean"))

/-- The constructor. -/
def readOptions (nbMachines : ℕ) (selector : ResourceSelector) (order : SortableJobOrder) (product : RoundedProduct)
    (variantOptions : JsonValue) : Except FillerAbort FillerOptions := do
  let fraction ← match variantOptions.member? "fraction_of_machines_to_use" with
    | none => .ok 1
    | some (.int fraction) => .ok (Double.nearest fraction.val)
    | some (.double fraction) => .ok fraction
    | some _ => .error (.invalidOptions "Invalid options: 'fraction_of_machines_to_use' should be a number")
  if inRange : 0 < fraction ∧ fraction ≤ 1 then do
    let customMapping ← readBool "custom_mapping" true variantOptions
    let setJobMetadata ← readBool "set_job_metadata" false variantOptions
    .ok { nbMachines, selector, order, product, fractionOfMachinesToUse := fraction, setJobMetadata, customMapping, inRange }
  else .error (.fractionOutside fraction)

/-- `on_simulation_start`. -/
def new (o : FillerOptions) : FillerState where
  availableMachines := Finset.range o.nbMachines

variable (o : FillerOptions)

/-- A job has ended, and gives its machines back. -/
def finishJob (s : FillerState) (id : String) : FillerState :=
  { s with
    availableMachines := s.availableMachines ∪ (s.currentAllocations.find? id).getD ∅
    currentAllocations := s.currentAllocations.erase id }

/-- The machines said to be available are no more said to be unavailable; then the others are. -/
def updateUnavailable (s : FillerState) : FillerState :=
  { s with unavailableMachines :=
    (s.unavailableMachines \ s.machinesThatBecameAvailableRecently) ∪ s.machinesThatBecameUnavailableRecently }

/-- A job has been released. -/
def releaseJob (currentDate : ℚ) (s : FillerState) (job : Job) : FillerState :=
  if o.nbMachines < job.nbRequestedResources then { s with decision := s.decision ++ [.rejectJob job.id] }
  else { s with queue := s.queue.appendJob job currentDate }

/-- How many machines a job is executed on. -/
def nbMachinesToAllocate (job : Job) : ℤ := ⌈o.product.mul o.fractionOfMachinesToUse job.nbRequestedResources⌉

/-- A number as an `int`. -/
def intOf (z : ℤ) : CInt := ⟨z.bmod (2 ^ 32), by
  have hle := Int.le_bmod (x := z) (m := 2 ^ 32) (by norm_num)
  have hlt := Int.bmod_lt (x := z) (m := 2 ^ 32) (by norm_num)
  unfold Text.IsInt
  omega⟩

/-- The mapping of a job: the executors take the machines in turn. -/
def mappingOf (nbRequestedResources nbMachines : ℕ) : List CInt :=
  (List.range nbRequestedResources).map fun i : ℕ => intOf (i % nbMachines : ℕ)

/-- What is decided about a job that fits. -/
def decisionsOf (job : Job) (machines : IntervalSet) : List ProtocolEvent :=
  .executeJob job.id machines (if o.customMapping then mappingOf job.nbRequestedResources (nbMachinesToAllocate o job).toNat else []) ::
    if o.setJobMetadata then [.setJobMetadata job.id ("just some metadata for job " ++ job.id)] else []

/-- A job is executed on machines, and leaves the queue. -/
def execute (s : FillerState) (job : Job) (machines : IntervalSet) : Except FillerAbort FillerState :=
  match s.queue.removeJob job with
  | .ok queue => .ok { s with
      decision := s.decision ++ decisionsOf o job machines
      currentAllocations := s.currentAllocations.insert job.id machines
      availableMachines := s.availableMachines \ machines
      queue := queue }
  | .error reason => .error (.job reason)

/-- The loop of `fill`, over the jobs that have not been looked at. -/
def fillFrom (s : FillerState) (usableMachines : IntervalSet) (nbUsable : ℤ) : List SortableJob → Except FillerAbort FillerState
  | [] => .ok s
  | sjob :: rest =>
    if 0 < nbUsable then
      match o.selector.fit sjob.job usableMachines with
      | some fitting =>
        if 0 < nbMachinesToAllocate o sjob.job ∧ nbMachinesToAllocate o sjob.job ≤ sjob.job.nbRequestedResources then
          let machines := fitting.leftmost (nbMachinesToAllocate o sjob.job).toNat
          match execute o s sjob.job machines with
          | .ok s' => fillFrom s' (usableMachines \ machines) (nbUsable - machines.card) rest
          | .error reason => .error reason
        else .error (.nbMachinesToAllocate sjob.job.id)
      | none => fillFrom s usableMachines nbUsable rest
    else .ok s

/-- `fill`. -/
def fill (s : FillerState) : Except FillerAbort FillerState :=
  let usableMachines := s.availableMachines \ s.unavailableMachines
  fillFrom o s usableMachines usableMachines.card s.queue

/-- `make_decisions` until the queue is sorted. -/
def prepare (currentDate : ℚ) (s : FillerState) : FillerState :=
  let s₁ := updateUnavailable (s.jobsEndedRecently.foldl finishJob s)
  let s₂ := s₁.jobsReleasedRecently.foldl (releaseJob o currentDate) s₁
  { s₂ with queue := s₂.queue.sortQueue o.order currentDate }

/-- `make_decisions`. -/
def makeDecisions (currentDate : ℚ) (s : FillerState) : Except FillerAbort FillerState := fill o (prepare o currentDate s)

/-- `clear_recent_data_structures`. -/
def clearRecentDataStructures (s : FillerState) : FillerState :=
  { s with
    jobsReleasedRecently := []
    jobsEndedRecently := []
    machinesThatBecameAvailableRecently := ∅
    machinesThatBecameUnavailableRecently := ∅ }

/-- What the filler does on a message. -/
def step (s : FillerState) : FillerEvent → Except FillerAbort FillerState
  | .jobSubmitted job =>
    match s.workload job.id with
    | some _ => .error (.job (.alreadyInWorkload job.id))
    | none => .ok { s with
        workload := Function.update s.workload job.id (some job)
        jobsReleasedRecently := s.jobsReleasedRecently ++ [job] }
  | .jobCompleted id =>
    match s.workload id with
    | some _ => .ok { s with jobsEndedRecently := s.jobsEndedRecently ++ [id] }
    | none => .error (.job (.unknownJob id))
  | .machinesAvailable machines =>
    .ok { s with machinesThatBecameAvailableRecently := s.machinesThatBecameAvailableRecently ∪ machines }
  | .machinesUnavailable machines =>
    .ok { s with machinesThatBecameUnavailableRecently := s.machinesThatBecameUnavailableRecently ∪ machines }
  | .makeDecisions _ currentDate => (makeDecisions o currentDate { s with decision := [] }).map clearRecentDataStructures

/-- What an event tells about the jobs. -/
def notice : FillerEvent → Notice
  | .jobSubmitted job => .submitted job
  | .jobCompleted id => .completed id
  | .makeDecisions date _ => .decided date
  | _ => .other

/-- A decision that says what becomes of a job. -/
def decision? : ProtocolEvent → Option Decision
  | .executeJob id machines _ => some (.executeJob id machines)
  | .rejectJob id => some (.rejectJob id)
  | _ => none

def decisions (s : FillerState) : List Decision := s.decision.filterMap decision?

/-- The filler and its platform. -/
def run (t : FillerState × Platform) (event : FillerEvent) : Except FillerAbort (FillerState × Platform) :=
  match t.2.receive (notice event) with
  | .ok p => (step o t.1 event).map fun s => (s, match notice event with
    | .decided _ => p.send (decisions s)
    | _ => p)
  | .error reason => .error (.job reason)

end Filler

end ScheduleTest
