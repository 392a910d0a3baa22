import ScheduleTest.BackfillRepair
import ScheduleTest.JobParts
import ScheduleTest.Queue

/-!
# Conservative backfilling

`conservative_bf.cpp` without checkpoints. Every job that waits is planned in the schedule where it fits first. Jobs are planned
anew when machines become free or fail and when a reservation takes their place. A job that a failure or a reservation stops is
killed, and its resubmission is planned when it has been released; until then nothing else is planned.
-/

namespace ScheduleTest

/-- `Schedule::RESCHEDULE_POLICY`: which jobs are planned anew when machines are lost. -/
inductive ReschedulePolicy where
  | affected
  | all
  deriving DecidableEq

/-- The constants of a run. -/
structure ConservativeConfig extends BackfillConfig where
  order : SortableJobOrder := FCFSOrder
  reschedulePolicy : ReschedulePolicy := .affected
  /-- How many jobs are planned at most, `-1` where there is no limit. -/
  queueDepth : ℤ := -1
  /-- `submission_times[0]`, which a resubmission takes over. -/
  originalSubmit : Job → ℚ := fun _ => 0
  /-- The sort of the running jobs in `find_least_impactful_fit`. -/
  sorter : Sorter LargestFirst := .stable LargestFirst
  /-- A `std::map` whose keys are pointers lists them in an order that is not specified. -/
  pointerOrder : Sorter (fun _ _ : Job => True) := ⟨id, .refl, fun _ => List.pairwise_of_forall fun _ _ => trivial⟩

/-- What is noted of an execute decision: the machines of the job, and those under repair when it is taken. -/
structure JobExecution where
  job : Job
  machines : IntervalSet
  repairMachines : IntervalSet
  deriving DecidableEq

structure ConservativeState where
  schedule : Schedule
  queue : Queue := []
  reservationQueue : Queue := []
  workload : String → Option Job := fun _ => none
  jobsReleasedRecently : List Job := []
  jobsEndedRecently : List Job := []
  jobsKilledRecently : List String := []
  noMoreStaticJobToSubmitReceived : Bool := false
  needToSendFinishedSubmittingJobs : Bool := true
  savedReservations : List ReservedTimeSlice := []
  killedJobs : Bool := false
  savedRecentlyQueuedJobs : List Job := []
  recentlyUnderRepairMachines : IntervalSet := ∅
  needToCompress : Bool := false
  startAReservation : Bool := false
  /-- The keys of `_resubmitted_jobs`. -/
  resubmittedJobs : Finset String := ∅
  resubmittedJobsReleased : List Job := []
  /-- How many failures are to take a machine down and up at once, and down for repair. -/
  onMachineInstantDownUps : ℕ := 0
  onMachineDownForRepairs : ℕ := 0
  decision : SchedulingDecision := {}
  /-- The execute decisions of the step under way. The source keeps no record of them. -/
  executions : List JobExecution := []

/-! ## Job ids -/

/-- Whether an id is that of a resubmission. -/
def isResubmission (id : String) : Bool := id.toList.contains '#'

namespace Schedule

/-- `get_number_of_running_jobs`. -/
def numberOfRunningJobs (s : Schedule) : ℕ := (s.profile.head?.map fun first => first.allocatedJobs.entries.length).getD 0

/-- `get_jobs_affected_on_machines`: the jobs behind the first slice on some machines, unless they run on them now. -/
def jobsAffectedOnMachines (s : Schedule) (machines : IntervalSet) : List Job :=
  match s.profile with
  | [] => []
  | first :: rest => ((rest.flatMap fun slice =>
      (slice.allocatedJobs.entries.filter fun entry => !entry.1.isReservation && (entry.2 ∩ machines).Nonempty &&
        !(jobsRunningOnMachines first machines).any (·.id = entry.1.id)).map (·.1))).dedup

/-- Another version of a job takes its place. -/
def replaceJob (s : Schedule) (job job' : Job) : Schedule :=
  { s with profile := s.profile.map fun slice => match slice.allocatedJobs.find? job with
    | some machines => { slice with allocatedJobs := (slice.allocatedJobs.erase job).insert job' machines }
    | none => slice }

end Schedule

namespace ConservativeBf

open Execution (runFrom)

/-- `on_simulation_start`. -/
def new (c : ConservativeConfig) (date failure : ℚ) : ConservativeState where
  schedule := Schedule.new c.nbMachines date
  decision := c.setGenerators date failure

/-- The order of `sort_original_submit`. -/
def originalSubmitBefore (c : ConservativeConfig) (j1 j2 : Job) : Prop :=
  c.originalSubmit j1 < c.originalSubmit j2 ∨ c.originalSubmit j1 = c.originalSubmit j2 ∧ j1.id ≤ j2.id

instance (c : ConservativeConfig) : DecidableRel (originalSubmitBefore c) := fun j1 j2 =>
  inferInstanceAs (Decidable (c.originalSubmit j1 < c.originalSubmit j2 ∨ c.originalSubmit j1 = c.originalSubmit j2 ∧ j1.id ≤ j2.id))

/-- A sort by `sort_original_submit`. -/
def sortOriginalSubmit (c : ConservativeConfig) (jobs : List Job) : List Job := jobs.insertionSort (originalSubmitBefore c)

/-- The pointer to a job sees the job change: its version in the workload, the queues and the schedule is another one. -/
def replaceJob (s : ConservativeState) (job job' : Job) : ConservativeState :=
  let replace := fun (other : Job) => if other = job then job' else other
  { s with
    workload := Function.update s.workload job.id (some job')
    reservationQueue := s.reservationQueue.map fun sjob => { sjob with job := replace sjob.job }
    schedule := s.schedule.replaceJob job job'
    savedReservations := s.savedReservations.map fun reservation => { reservation with
      job := reservation.job.map replace
      alloc := { reservation.alloc with job := reservation.alloc.job.map replace } } }

/-- `add_execute_job`. -/
def execute (s : ConservativeState) (job : Job) (machines : IntervalSet) : ConservativeState :=
  { s with
    decision := s.decision.add (.executeJob job.id machines)
    executions := s.executions ++ [{ job := job, machines := machines, repairMachines := s.schedule.repairMachines }] }

/-! ## Planning the jobs of the queue -/

/-- Plan a job, and execute it if it starts now, in which case it leaves the queue. Beside the state is whether the job is planned
to start later. -/
def placeJob (s : ConservativeState) (job : Job) : Except Abort (ConservativeState × Bool) :=
  match s.schedule.addJobFirstFit job false with
  | .ok (schedule, alloc) =>
    let s' := { s with schedule := schedule }
    if alloc.usedMachines.Nonempty then
      if alloc.startedInFirstSlice then
        (s.queue.removeJob job).map fun queue => ({ execute s' job alloc.usedMachines with queue := queue }, false)
      else .ok (s', true)
    else .ok (s', false)
  | .error e => .error e

/-- One job of a loop that plans jobs. Beside the state is how many jobs are planned; from a limit on the loop is left. -/
def placeNext (limit : ℤ) (t : ConservativeState × ℤ) (job : Job) : Except Abort (ConservativeState × ℤ) :=
  if limit ≠ -1 ∧ limit ≤ t.2 then .ok t
  else (placeJob t.1 job).map fun (s, waits) => (s, if waits then t.2 + 1 else t.2)

/-- One job of a loop that plans the jobs of the queue anew. -/
def replaceNext (limit : ℤ) (t : ConservativeState × ℤ) (job : Job) : Except Abort (ConservativeState × ℤ) :=
  if limit ≠ -1 ∧ limit ≤ t.2 then .ok t
  else match t.1.schedule.removeJobIfExists job with
    | .ok (schedule, _) => placeNext limit ({ t.1 with schedule := schedule }, t.2) job
    | .error e => .error e

/-- Plan jobs one after the other. -/
def placeJobs (limit : ℤ) (s : ConservativeState) (scheduled : ℤ) (jobs : List Job) : Except Abort (ConservativeState × ℤ) :=
  runFrom (placeNext limit) (s, scheduled) jobs

/-- Plan the whole queue anew, each job taken out of the schedule just before. -/
def compress (limit : ℤ) (s : ConservativeState) : Except Abort ConservativeState :=
  (runFrom (replaceNext limit) (s, 0) s.queue.jobs).map (·.1)

/-- Take jobs out of the schedule. -/
def removeJobs (s : ConservativeState) (jobs : List Job) : Except Abort ConservativeState :=
  (s.schedule.removeJobs jobs).map fun schedule => { s with schedule := schedule }

/-- Take jobs out of the schedule that have to be in it. -/
def removeJobsStrictly (s : ConservativeState) (jobs : List Job) : Except Abort ConservativeState :=
  (runFrom Schedule.removeJob s.schedule jobs).map fun schedule => { s with schedule := schedule }

/-- Take all jobs of the queue out of the schedule, and plan them. -/
def placeQueue (limit : ℤ) (s : ConservativeState) : Except Abort ConservativeState :=
  match removeJobs s s.queue.jobs with
  | .ok s' => (placeJobs limit s' 0 s'.queue.jobs).map (·.1)
  | .error e => .error e

/-- How many jobs are planned to start later. -/
def nbScheduled (s : ConservativeState) : ℤ := s.schedule.nbJobsSize - s.schedule.numberOfRunningJobs

/-- The first part of `handle_schedule`: with no jobs ended, the jobs just queued are planned, or those saved when jobs were
killed. -/
def placeRecentlyQueued (c : ConservativeConfig) (s : ConservativeState) (recentlyQueuedJobs : List Job) :
    Except Abort ConservativeState :=
  if s.jobsEndedRecently.isEmpty && !s.killedJobs then
    if recentlyQueuedJobs.isEmpty && !s.savedRecentlyQueuedJobs.isEmpty then
      (placeJobs c.queueDepth s (nbScheduled s) s.savedRecentlyQueuedJobs).map fun (s', _) =>
        { s' with savedRecentlyQueuedJobs := [] }
    else (placeJobs c.queueDepth s (nbScheduled s) recentlyQueuedJobs).map (·.1)
  else .ok s

/-- `handle_schedule`. -/
def handleSchedule (c : ConservativeConfig) (s : ConservativeState) (recentlyQueuedJobs : List Job) :
    Except Abort ConservativeState :=
  match placeRecentlyQueued c s recentlyQueuedJobs with
  | .ok s' =>
    if (!s'.jobsEndedRecently.isEmpty || s'.needToCompress) && !s'.killedJobs then
      (compress c.queueDepth s').map fun s' => { s' with needToCompress := false }
    else .ok s'
  | .error e => .error e

/-! ## Reservations -/

/-- A reservation is executed, and leaves its queue. -/
def executeReservation (s : ConservativeState) (job : Job) (machines : IntervalSet) : Except Abort ConservativeState :=
  (s.reservationQueue.removeJob job).map fun queue => { execute s job machines with reservationQueue := queue }

/-- A reservation is executed if it starts in the first slice; else a call is asked for when it starts. -/
def awaitReservation (date : ℚ) (s : ConservativeState) (reservation : ReservedTimeSlice) : Except Abort ConservativeState :=
  match reservation.job with
  | none => .error .nullPointer
  | some job =>
    if reservation.alloc.startedInFirstSlice then executeReservation s job reservation.alloc.usedMachines
    else if date < job.start then
      .ok { s with decision := s.decision.addCallMeLater .reservationStart 0 job.start job.id }
    else .ok { s with startAReservation := true }

/-- A saved reservation, once the killed jobs are back: the call is asked for first. -/
def awaitSavedReservation (date : ℚ) (s : ConservativeState) (reservation : ReservedTimeSlice) : Except Abort ConservativeState :=
  match reservation.job with
  | none => .error .nullPointer
  | some job =>
    if date < job.start then
      .ok { s with decision := s.decision.addCallMeLater .reservationStart 0 job.start job.id }
    else if reservation.alloc.startedInFirstSlice then executeReservation s job reservation.alloc.usedMachines
    else .ok { s with startAReservation := true }

/-- A reservation taken out of the second slice is put into the first one, and executed. -/
def startReservation (s : ConservativeState) (job : Job) : Except Abort ConservativeState :=
  match s.schedule.addCurrentReservation job with
  | .ok (schedule, alloc) => executeReservation { s with schedule := schedule } job alloc.usedMachines
  | .error e => .error e

/-- The reservations that are due are executed, if one was to be started. -/
def startReservations (s : ConservativeState) : Except Abort ConservativeState :=
  if s.startAReservation then
    match s.schedule.removeReservationsIfReady [] with
    | .ok (schedule, jobsRemoved, ready) =>
      if ready then
        (runFrom startReservation { s with schedule := schedule } jobsRemoved).map fun s' =>
          { s' with startAReservation := false }
      else .ok { s with schedule := schedule }
    | .error e => .error e
  else .ok s

/-- A reservation gets the slices that `reserve_time_slice` finds now. -/
def addReservation (c : ConservativeConfig) (s : ConservativeState) (reservation : ReservedTimeSlice) (job : Job) :
    Except Abort ConservativeState :=
  match s.schedule.reserveTimeSlice c.sorter job with
  | .ok (schedule, reservation2) =>
    (schedule.addReservation { reservation with
      sliceBegin := reservation2.sliceBegin
      sliceEnd := reservation2.sliceEnd }).map fun schedule => { s with schedule := schedule }
  | .error e => .error e

/-- `add_kill_job`, and the jobs killed leave the schedule. -/
def killJobs (s : ConservativeState) (jobs : List Job) : Except Abort ConservativeState :=
  removeJobsStrictly { s with decision := s.decision.add (.killJobs (jobs.map Job.id).toFinset), killedJobs := true } jobs

/-- A reservation for which jobs have to be killed waits with its call until they are back. -/
def placeKillingReservation (c : ConservativeConfig) (s : ConservativeState) (reservation : ReservedTimeSlice) (job : Job)
    (recentlyQueuedJobs : List Job) : Except Abort ConservativeState :=
  match killJobs s reservation.jobsNeededToBeKilled with
  | .ok s₁ => match removeJobsStrictly s₁ reservation.jobsToReschedule with
    | .ok s₂ => (addReservation c s₂ reservation job).map fun s₃ => { s₃ with
        savedReservations := s₃.savedReservations ++ [reservation]
        savedRecentlyQueuedJobs := match c.reschedulePolicy with
          | .affected => s₃.savedRecentlyQueuedJobs ++ recentlyQueuedJobs
          | .all => s₃.savedRecentlyQueuedJobs }
    | .error e => .error e
  | .error e => .error e

/-- A reservation for which no jobs have to be killed: those in its way are planned anew, or all the queue. Beside the state are the
jobs just queued that are still to be planned. -/
def placeReservation (c : ConservativeConfig) (date : ℚ) (s : ConservativeState) (reservation : ReservedTimeSlice) (job : Job)
    (recentlyQueuedJobs : List Job) : Except Abort (ConservativeState × List Job) :=
  match removeJobsStrictly s reservation.jobsToReschedule with
  | .ok s₁ => match addReservation c s₁ reservation job with
    | .ok s₂ => match c.reschedulePolicy with
      | .affected => match placeJobs (-1) s₂ 0 reservation.jobsToReschedule with
        | .ok (s₃, _) => (awaitReservation date s₃ reservation).map fun s₄ =>
            ({ s₄ with needToCompress := true }, recentlyQueuedJobs)
        | .error e => .error e
      | .all => match placeQueue (-1) s₂ with
        | .ok s₃ => (awaitReservation date s₃ reservation).map fun s₄ => (s₄, [])
        | .error e => .error e
    | .error e => .error e
  | .error e => .error e

/-- One reservation of `handle_reservations`. A reservation that names no machines takes over those found for it, and one for which
there is no place is rejected. -/
def handleReservation (c : ConservativeConfig) (date : ℚ) (t : ConservativeState × List Job) (newJobId : String) :
    Except Abort (ConservativeState × List Job) :=
  let (s, recentlyQueuedJobs) := t
  match s.workload newJobId with
  | none => .error (.unknownJob newJobId)
  | some newJob => match s.schedule.reserveTimeSlice c.sorter newJob with
    | .error e => .error e
    | .ok (schedule, reservation) =>
      let s' := { s with schedule := schedule }
      if !reservation.success then
        .ok ({ s' with decision := s'.decision.add (.rejectJob newJob.id) }, recentlyQueuedJobs)
      else
        let job := if newJob.futureAllocations = ∅ then { newJob with futureAllocations := reservation.alloc.usedMachines } else newJob
        let s' := replaceJob s' newJob job
        let reservation := { reservation with
          jobsToReschedule := match c.reschedulePolicy with
            | .affected => sortOriginalSubmit c reservation.jobsToReschedule
            | .all => reservation.jobsToReschedule
          job := some job
          alloc := { reservation.alloc with job := some job } }
        if reservation.jobsNeededToBeKilled.isEmpty then placeReservation c date s' reservation job recentlyQueuedJobs
        else (placeKillingReservation c s' reservation job recentlyQueuedJobs).map fun s'' => (s'', recentlyQueuedJobs)

/-- `handle_reservations`. -/
def handleReservations (c : ConservativeConfig) (date : ℚ) (s : ConservativeState) (recentlyReleased : List Job)
    (recentlyQueuedJobs : List Job) : Except Abort (ConservativeState × List Job) :=
  match runFrom (handleReservation c date) (s, recentlyQueuedJobs) (recentlyReleased.map (·.id)) with
  | .ok (s', recentlyQueuedJobs') => (startReservations s').map fun s'' => (s'', recentlyQueuedJobs')
  | .error e => .error e

/-- The order of `compare_reservations`: those that name their machines first. -/
def compareReservations (j1 j2 : Job) : Prop :=
  if j1.futureAllocations = ∅ ∧ j2.futureAllocations = ∅ then j1.id ≤ j2.id
  else if j1.futureAllocations = ∅ then False
  else if j2.futureAllocations = ∅ then True
  else j1.id ≤ j2.id

instance : DecidableRel compareReservations := fun j1 j2 => by
  unfold compareReservations
  infer_instance

/-! ## Killed jobs -/

/-- The jobs just queued are looked at in order: a resubmission that is waited for is noted, the others stay. -/
def sortOutResubmitted (s : ConservativeState) : List Job → Except Abort (ConservativeState × List Job)
  | [] => .ok (s, [])
  | job :: jobs =>
    if isResubmission job.id then
      if job.id ∈ s.resubmittedJobs then
        sortOutResubmitted { s with
          resubmittedJobs := s.resubmittedJobs.erase job.id
          resubmittedJobsReleased := s.resubmittedJobsReleased ++ [job] } jobs
      else .error (.unknownJob job.id)
    else (sortOutResubmitted s jobs).map fun (s', others) => (s', job :: others)

/-- The jobs affected by the machines that were under repair, which leave the schedule. -/
def removeAffected (c : ConservativeConfig) (s : ConservativeState) : Except Abort (ConservativeState × List Job) :=
  let affected := c.pointerOrder.sort (s.schedule.jobsAffectedOnMachines s.recentlyUnderRepairMachines)
  (removeJobs s affected).map fun s' => (s', affected)

/-- All killed jobs are back, and only what was affected is planned anew: first the resubmissions, then the jobs that were in the way
of a reservation or of a repair. -/
def placeResubmitted (c : ConservativeConfig) (s : ConservativeState) : Except Abort ConservativeState :=
  match removeAffected c s with
  | .ok (s₁, affected) =>
    let allJobsToReschedule := sortOriginalSubmit c (s.savedReservations.flatMap (·.jobsToReschedule) ++ affected)
    match placeJobs c.queueDepth s₁ (nbScheduled s₁) (sortOriginalSubmit c s.resubmittedJobsReleased) with
    | .ok (s₂, scheduled) => (placeJobs c.queueDepth s₂ scheduled allJobsToReschedule).map (·.1)
    | .error e => .error e
  | .error e => .error e

/-- All killed jobs are back: jobs are planned anew, and the calls for the saved reservations are asked for. Beside the state are
the jobs just queued that are still to be planned. -/
def resumeAfterKills (c : ConservativeConfig) (date : ℚ) (s : ConservativeState) (others : List Job) :
    Except Abort (ConservativeState × List Job) :=
  match c.reschedulePolicy with
  | .affected => match placeResubmitted c s with
    | .ok s' => (runFrom (awaitSavedReservation date) s' s.savedReservations).map fun s'' =>
        ({ s'' with resubmittedJobsReleased := [], needToCompress := true }, others)
    | .error e => .error e
  | .all => match placeQueue c.queueDepth s with
    | .ok s' => (runFrom (awaitSavedReservation date) s' s.savedReservations).map fun s'' => (s'', [])
    | .error e => .error e

/-- `handle_killed_jobs`. -/
def handleKilledJobs (c : ConservativeConfig) (date : ℚ) (s : ConservativeState) (recentlyQueuedJobs : List Job) :
    Except Abort (ConservativeState × List Job) :=
  if s.killedJobs && s.resubmittedJobs.Nonempty then
    match sortOutResubmitted s recentlyQueuedJobs with
    | .ok (s', others) =>
      if s'.resubmittedJobs = ∅ then
        (resumeAfterKills c date s' others).map fun (s'', others) =>
          ({ s'' with savedReservations := [], killedJobs := false }, others)
      else .ok (s', others)
    | .error e => .error e
  else .ok (s, recentlyQueuedJobs)

/-! ## Failures -/

/-- The jobs that run on a machine are killed, and leave the schedule. -/
def killRunning (s : ConservativeState) (killed : List Job) : Except Abort ConservativeState :=
  removeJobs { s with decision := s.decision.add (.killJobs (killed.map Job.id).toFinset), killedJobs := true } killed

/-- `on_machine_instant_down_up`. -/
def onMachineInstantDownUp (s : ConservativeState) (number : ℕ) : Except Abort ConservativeState :=
  match s.schedule.profile with
  | [] => .error .pastTheEnd
  | first :: _ =>
    let killed := Schedule.jobsRunningOnMachines first {number}
    if killed.isEmpty then .ok s else killRunning s killed

/-- No job runs on the machine that goes down: those planned on it are planned anew, or all the queue. -/
def rescheduleAfterFailure (c : ConservativeConfig) (s : ConservativeState) (number : ℕ) : Except Abort ConservativeState :=
  match c.reschedulePolicy with
  | .affected =>
    let affected := c.pointerOrder.sort (s.schedule.jobsAffectedOnMachines {number})
    match removeJobsStrictly s affected with
    | .ok s' => (placeJobs (-1) s' 0 (sortOriginalSubmit c affected)).map (·.1)
    | .error e => .error e
  | .all => compress c.queueDepth s

/-- A machine goes under repair: a call is asked for when it is repaired, and where jobs run, those on it are killed or, if there are
none, jobs are planned anew. -/
def startRepair (c : ConservativeConfig) (s : ConservativeState) (date : ℚ) (draws : Draws) : Except Abort ConservativeState :=
  let s' := { s with
    schedule := (s.schedule.addRepairMachine {draws.number}).1
    recentlyUnderRepairMachines := s.recentlyUnderRepairMachines ∪ {draws.number}
    decision := s.decision.addCallMeLater .repairDone draws.number
      (date + BackfillState.repairTimeOf c.toBackfillConfig draws.number draws.repair) }
  match s'.schedule.profile with
  | [] => .error .pastTheEnd
  | first :: _ =>
    if 0 < s'.schedule.numberOfRunningJobs then
      let killed := Schedule.jobsRunningOnMachines first {draws.number}
      if killed.isEmpty then rescheduleAfterFailure c s' draws.number else killRunning s' killed
    else .ok s'

/-- `on_machine_down_for_repair`: nothing happens where a reservation runs on the machine or it is under repair already. -/
def onMachineDownForRepair (c : ConservativeConfig) (s : ConservativeState) (date : ℚ) (draws : Draws) :
    Except Abort ConservativeState :=
  match s.schedule.profile with
  | [] => .error .pastTheEnd
  | first :: _ =>
    if (Schedule.reservationsRunningOnMachines first {draws.number}).isEmpty ∧ draws.number ∉ s.schedule.repairMachines then
      startRepair c s date draws
    else .ok s

/-- The failures noted since the last step are dealt with: those that a machine recovers from at once, then the others. -/
def handleFailures (c : ConservativeConfig) (s : ConservativeState) (date : ℚ) (instantDraws downDraws : ℕ → Draws) :
    Except Abort ConservativeState :=
  match runFrom onMachineInstantDownUp s ((List.range s.onMachineInstantDownUps).map fun k => (instantDraws k).number) with
  | .ok s' =>
    (runFrom (fun s draws => onMachineDownForRepair c s date draws) { s' with onMachineInstantDownUps := 0 }
      ((List.range s.onMachineDownForRepairs).map downDraws)).map fun s'' => { s'' with onMachineDownForRepairs := 0 }
  | .error e => .error e

/-! ## Decisions -/

/-- Whether a job is rejected: it requests more machines than there are, or has no walltime. -/
def isRejected (c : ConservativeConfig) (job : Job) : Bool := c.nbMachines < job.nbRequestedResources || !job.hasWalltime

/-- A reservation released waits in its queue, and another job in the other, unless it is rejected. -/
def releaseJob (c : ConservativeConfig) (currentDate : ℚ) (s : ConservativeState) (job : Job) : ConservativeState :=
  if job.isReservation then { s with reservationQueue := s.reservationQueue.appendJob job currentDate }
  else if isRejected c job then { s with decision := s.decision.add (.rejectJob job.id) }
  else { s with queue := s.queue.appendJob job currentDate }

/-- Note the resubmissions of the jobs just killed. An id without a number is an abort. -/
def noteResubmitted (s : ConservativeState) (killed : String) : Except Abort ConservativeState :=
  match BatschedTools.separateId killed with
  | some separation => .ok { s with resubmittedJobs := insert separation.nextResubmitString s.resubmittedJobs }
  | none => .error (.unknownJob killed)

/-- `make_decisions` up to the reservations that are due. -/
def prepare (c : ConservativeConfig) (s : ConservativeState) (date currentDate : ℚ) : Except Abort ConservativeState :=
  match removeJobs s s.jobsEndedRecently with
  | .ok s₁ =>
    let s₂ := s₁.jobsReleasedRecently.foldl (releaseJob c currentDate) s₁
    match s₂.schedule.updateFirstSlice date with
    | .ok schedule => (startReservations { s₂ with schedule := schedule }).map fun s₃ => { s₃ with
        queue := s₃.queue.sortQueue c.order currentDate
        reservationQueue := s₃.reservationQueue.sortQueue FCFSOrder currentDate }
    | .error e => .error e
  | .error e => .error e

/-- The loop that rejects the jobs of the queue. It goes past every second job, and past the end where their number is odd. -/
def rejectQueue (s : ConservativeState) : List SortableJob → Except Abort ConservativeState
  | [] => .ok s
  | [_] => .error .pastTheEnd
  | sjob :: skipped :: rest =>
    (rejectQueue { s with decision := s.decision.add (.rejectJob sjob.job.id) } rest).map fun s' =>
      { s' with queue := skipped :: s'.queue }

/-- The same loop where the end of a list is followed by its first element, which the language leaves open: past the end it goes on
with the jobs that it has skipped. -/
def rejectQueueCircular (s : ConservativeState) : List SortableJob → List SortableJob → ConservativeState
  | [], skipped => { s with queue := skipped }
  | [sjob], skipped =>
    rejectQueueCircular { s with decision := s.decision.add (.rejectJob sjob.job.id) } skipped []
  | sjob :: next :: rest, skipped =>
    rejectQueueCircular { s with decision := s.decision.add (.rejectJob sjob.job.id) } rest (skipped ++ [next])
termination_by jobs skipped => jobs.length + skipped.length
decreasing_by all_goals (simp only [List.length_cons, List.length_nil, List.length_append]; omega)

/-- The end of `make_decisions`: the simulator is told once that no more jobs will be submitted, and jobs that can never run are
rejected. -/
def finishSubmitting (s : ConservativeState) (date : ℚ) : Except Abort ConservativeState :=
  let idle := !s.killedJobs && s.jobsKilledRecently.isEmpty && s.reservationQueue.isEmpty && s.schedule.size = 0 &&
    s.needToSendFinishedSubmittingJobs && s.noMoreStaticJobToSubmitReceived && ¬ date < 1
  if idle then
    if s.queue.isEmpty then
      .ok { s with decision := s.decision.add .finishedSubmittingJobs, needToSendFinishedSubmittingJobs := false }
    else match s.schedule.profile.getLast? with
      | none => .error .pastTheEnd
      | some last =>
        if s.queue.any fun sjob => sjob.job.nbRequestedResources ≤ last.availableMachines.card then .ok s
        else rejectQueue { s with queue := [] } s.queue
  else .ok s

/-- `make_decisions`, once the queues are in order. -/
def decide (c : ConservativeConfig) (s : ConservativeState) (date : ℚ) (instantDraws downDraws : ℕ → Draws) :
    Except Abort ConservativeState :=
  let recentlyReleasedReservations := s.jobsReleasedRecently.filter Job.isReservation
  let recentlyQueuedJobs := s.jobsReleasedRecently.filter fun job => !job.isReservation && !isRejected c job
  match runFrom noteResubmitted s s.jobsKilledRecently with
  | .error e => .error e
  | .ok s₁ => match handleKilledJobs c date s₁ recentlyQueuedJobs with
    | .error e => .error e
    | .ok (s₂, others) =>
      match if recentlyReleasedReservations.isEmpty then .ok (s₂, others)
        else handleReservations c date s₂ (recentlyReleasedReservations.insertionSort compareReservations) others with
      | .error e => .error e
      | .ok (s₃, others) => match handleFailures c s₃ date instantDraws downDraws with
        | .error e => .error e
        | .ok s₄ => match handleSchedule c { s₄ with decision := s₄.decision.handleResubmission s₄.jobsKilledRecently } others with
          | .error e => .error e
          | .ok s₅ => finishSubmitting s₅ date

/-- `make_decisions`. -/
def makeDecisions (c : ConservativeConfig) (s : ConservativeState) (date currentDate : ℚ) (instantDraws downDraws : ℕ → Draws) :
    Except Abort ConservativeState :=
  match prepare c s date currentDate with
  | .ok s' => decide c s' date instantDraws downDraws
  | .error e => .error e

/-! ## Messages -/

/-- Whether there is work left that a failure could hit. -/
def stillWorking (s : ConservativeState) : Bool :=
  0 < s.schedule.numberOfRunningJobs || !s.queue.isEmpty || !s.noMoreStaticJobToSubmitReceived

/-- A failure is noted, and the next one is asked for. -/
def noteFailure (c : ConservativeConfig) (s : ConservativeState) (forWhat : CallMeLaterType) (time : ℚ) : ConservativeState :=
  if stillWorking s then
    let instant := c.repairTime = 0 ∧ c.mttr = -1
    { s with
      onMachineInstantDownUps := if instant then s.onMachineInstantDownUps + 1 else s.onMachineInstantDownUps
      onMachineDownForRepairs := if instant then s.onMachineDownForRepairs else s.onMachineDownForRepairs + 1
      decision := s.decision.addCallMeLater forWhat 1 time }
  else s

/-- The branches of `on_requested_call`. -/
def answerCall (c : ConservativeConfig) (s : ConservativeState) (date : ℚ) (id : ℕ) (draws : Draws) :
    CallMeLaterType → ConservativeState
  | .smtbf => noteFailure c s .smtbf (draws.failure + date)
  | .fixedFailure => noteFailure c s .fixedFailure (c.fixedFailures + date)
  | .repairDone => { s with schedule := (s.schedule.removeRepairMachines {id}).1, needToCompress := true }
  | .reservationStart => { s with startAReservation := true }
  | .mtbf => s
  | .checkpointBatsched => s
  | .recoverFromCheckpoint => s

/-- A call is forgotten. A reservation that it starts late ends in time, since its walltime is cut by what it is late. -/
def forgetCall (s : ConservativeState) (date : ℚ) (id : ℕ) : Except Abort (ConservativeState × ℚ) :=
  let (decision, difference) := s.decision.removeCallMeLater id date
  let s' := { s with decision := decision }
  match s.decision.callMeLaters id with
  | some call =>
    if difference ≠ 0 ∧ call.forWhat = .reservationStart then
      match s.workload call.jobId with
      | some job => .ok (replaceJob s' job { job with walltime := job.walltime - difference }, difference)
      | none => .error (.unknownJob call.jobId)
    else .ok (s', difference)
  | none => .ok (s', difference)

/-- `on_requested_call`: a reservation that starts late takes its time from the slice before. -/
def onRequestedCall (c : ConservativeConfig) (s : ConservativeState) (date : ℚ) (id : ℕ) (forWhat : CallMeLaterType) (draws : Draws) :
    Except Abort ConservativeState :=
  match forgetCall (answerCall c s date id draws forWhat) date id with
  | .ok (s', difference) =>
    if difference ≠ 0 ∧ forWhat = .reservationStart then
      (s'.schedule.incorrectCallMeLater difference).map fun schedule => { s' with schedule := schedule }
    else .ok s'
  | .error e => .error e

end ConservativeBf

/-- A message of the simulator, with what its handler draws. The numbers of the machines that fail are drawn when the decisions are
made. -/
inductive ConservativeEvent where
  | jobSubmitted (job : Job)
  | jobCompleted (id : String)
  | jobsKilled (ids : List String)
  | requestedCall (date : ℚ) (id : ℕ) (forWhat : CallMeLaterType) (draws : Draws)
  | noMoreStaticJobToSubmit
  | makeDecisions (date currentDate : ℚ) (instantDraws downDraws : ℕ → Draws)

namespace ConservativeBf

/-- `clear_recent_data_structures`. -/
def clearRecentDataStructures (s : ConservativeState) : ConservativeState :=
  { s with
    jobsReleasedRecently := []
    jobsEndedRecently := []
    jobsKilledRecently := [] }

/-- What the scheduler does on a message. The messages of the step before have been sent. -/
def step (c : ConservativeConfig) (s₀ : ConservativeState) : ConservativeEvent → Except Abort ConservativeState :=
  let s := { s₀ with decision := s₀.decision.clear, executions := [] }
  fun
  | .jobSubmitted job =>
    match s.workload job.id with
    | some _ => .error (.alreadyInWorkload job.id)
    | none => .ok { s with
        workload := Function.update s.workload job.id (some job)
        jobsReleasedRecently := s.jobsReleasedRecently ++ [job] }
  | .jobCompleted id =>
    match s.workload id with
    | some job => .ok { s with jobsEndedRecently := s.jobsEndedRecently ++ [job] }
    | none => .error (.unknownJob id)
  | .jobsKilled ids => .ok { s with jobsKilledRecently := s.jobsKilledRecently ++ ids.filter (· ∉ s.jobsKilledRecently) }
  | .requestedCall date id forWhat draws => onRequestedCall c s date id forWhat draws
  | .noMoreStaticJobToSubmit => .ok { s with noMoreStaticJobToSubmitReceived := true }
  | .makeDecisions date currentDate instantDraws downDraws =>
    (makeDecisions c s date currentDate instantDraws downDraws).map clearRecentDataStructures

/-- What an event tells about the jobs. -/
def notice : ConservativeEvent → Notice
  | .jobSubmitted job => .submitted job
  | .jobCompleted id => .completed id
  | .makeDecisions date _ _ _ => .decided date
  | _ => .other

/-- The scheduler as far as its jobs go. -/
def scheduler (c : ConservativeConfig) : JobScheduler ConservativeState ConservativeEvent where
  step := step c
  decisions := (·.decision.decisions)
  notice := notice

end ConservativeBf

end ScheduleTest
