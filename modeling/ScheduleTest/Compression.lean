import ScheduleTest.ConservativeBf
import ScheduleTest.FirstFit

/-!
# The compression loop of conservative_bf with any selector

The loop of `conservative_bf` that plans the queue anew gives `add_job_first_fit` the selector that the scheduler was started with.
-/

namespace ScheduleTest

namespace ConservativeBf

open Execution (runFrom)

/-- Plan a job with a selector, and execute it if it starts now, in which case it leaves the queue. -/
def placeJobWith (selector : ResourceSelector) (s : ConservativeState) (job : Job) : Except Abort (ConservativeState × Bool) :=
  match s.schedule.addJobFirstFitWith selector job false with
  | .ok (schedule, alloc) =>
    let s' := { s with schedule := schedule }
    if alloc.usedMachines.Nonempty then
      if alloc.startedInFirstSlice then
        (s.queue.removeJob job).map fun queue => ({ execute s' job alloc.usedMachines with queue := queue }, false)
      else .ok (s', true)
    else .ok (s', false)
  | .error e => .error e

/-- One job of the loop: beside the state is how many jobs are planned, and from a limit on the loop is left. -/
def replaceNextWith (selector : ResourceSelector) (limit : ℤ) (t : ConservativeState × ℤ) (job : Job) :
    Except Abort (ConservativeState × ℤ) :=
  if limit ≠ -1 ∧ limit ≤ t.2 then .ok t
  else match t.1.schedule.removeJobIfExists job with
    | .ok (schedule, _) => (placeJobWith selector { t.1 with schedule := schedule } job).map fun (s, waits) =>
        (s, if waits then t.2 + 1 else t.2)
    | .error e => .error e

/-- Plan the whole queue anew, each job taken out of the schedule just before. -/
def compressWith (selector : ResourceSelector) (limit : ℤ) (s : ConservativeState) : Except Abort ConservativeState :=
  (runFrom (replaceNextWith selector limit) (s, 0) s.queue.jobs).map (·.1)

/-- With the basic selector this is the loop as it is run here. -/
theorem compressWith_basic (limit : ℤ) (s : ConservativeState) : compressWith .basic limit s = compress limit s := by
  have hstep : replaceNextWith .basic limit = replaceNext limit := by
    funext t job
    rw [replaceNextWith, replaceNext]
    split
    · rfl
    · rename_i hlimit
      cases t.1.schedule.removeJobIfExists job with
      | error e => rfl
      | ok r => exact (if_neg hlimit).symm
  rw [compressWith, compress, hstep]

end ConservativeBf

/-- The schedule after a call in which jobs are added with the selector that the scheduler was started with. -/
def ScheduleCall.runBy (selector : ResourceSelector) (s : Schedule) (call : ScheduleCall) : Except Abort Schedule :=
  ScheduleCall.runWith s (selector, call)

end ScheduleTest
