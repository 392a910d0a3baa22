import ScheduleTest.Theorems.Representation
import ScheduleTest.Theorems.Repair
import ScheduleTest.Theorems.Reservations
import ScheduleTest.Theorems.FcfsFast2
import ScheduleTest.Theorems.EasyBfFast2
import ScheduleTest.Theorems.RepairDone
import ScheduleTest.Theorems.EasyBf3
import ScheduleTest.Theorems.EasyBf3Accounts
import ScheduleTest.Theorems.EasyBfFast2Running
import ScheduleTest.Theorems.EasyBfFast2Waiting
import ScheduleTest.Theorems.EasyBfFast2Bound
import ScheduleTest.Theorems.EasyBfFast2Holdback
import ScheduleTest.Theorems.EasyBf
import ScheduleTest.Theorems.EasyBfDelay
import ScheduleTest.Theorems.ConservativeBf
import ScheduleTest.Theorems.FcfsFast
import ScheduleTest.Theorems.Workflow
import ScheduleTest.Theorems.Machines
import ScheduleTest.Theorems.Loading
import ScheduleTest.Theorems.EasyBf2
import ScheduleTest.Theorems.Progress
import ScheduleTest.Theorems.ServerDeletion
import ScheduleTest.Theorems.Allocation
import ScheduleTest.Theorems.QueryWait
import ScheduleTest.Theorems.FirstFit
import ScheduleTest.Theorems.Undo
import ScheduleTest.Theorems.ReserveTimeSlice
import ScheduleTest.Theorems.Compression
import ScheduleTest.Theorems.Resubmission
import ScheduleTest.Theorems.ResubmissionPaths
import ScheduleTest.Theorems.CurrentReservation
import ScheduleTest.Theorems.Dates
import ScheduleTest.Theorems.RepairInverse
import ScheduleTest.Theorems.Period
import ScheduleTest.Theorems.LeastImpactfulFit
import ScheduleTest.Theorems.ReadyReservations
import ScheduleTest.Theorems.ShadowTime
import ScheduleTest.Theorems.RejectRemaining
import ScheduleTest.Theorems.WalltimeSlack
import ScheduleTest.Theorems.JobParts
import ScheduleTest.Theorems.CheckpointData
import ScheduleTest.Theorems.SavedSchedule
import ScheduleTest.Theorems.TaskExecution
import ScheduleTest.Theorems.TaskExpansion
import ScheduleTest.Theorems.JobSubmitter
import ScheduleTest.Theorems.MachineNames
import ScheduleTest.Theorems.JobsAllocations
import ScheduleTest.Theorems.ParallelTask
import ScheduleTest.Theorems.LateReservations
import ScheduleTest.Theorems.Alteration
import ScheduleTest.Theorems.AlteredTimes
import ScheduleTest.Theorems.IdReplacement
import ScheduleTest.Theorems.CurrentSwitches
import ScheduleTest.Theorems.ProfileCollection
import ScheduleTest.Theorems.MachineNumbering
import ScheduleTest.Theorems.MaxHeap
import ScheduleTest.Protocol
import ScheduleTest.SchedulerProtocol
import ScheduleTest.EasyBfFast
import ScheduleTest.Lemmas.HandOver
import ScheduleTest.Lemmas.Received
import ScheduleTest.Lemmas.EasyBfFast
import ScheduleTest.Lemmas.Drain
import ScheduleTest.Theorems.Protocol
import ScheduleTest.Theorems.AcceptedMessages
import ScheduleTest.Theorems.SchedulerProtocol
import ScheduleTest.Theorems.FcfsFastDrain
import ScheduleTest.Theorems.EasyBfFast
import ScheduleTest.Fcfs
import ScheduleTest.Filler
import ScheduleTest.Lemmas.JobBooks
import ScheduleTest.Lemmas.Filler
import ScheduleTest.Theorems.Fcfs
import ScheduleTest.Theorems.Filler
import ScheduleTest.Sleeper
import ScheduleTest.SleeperPlatform
import ScheduleTest.Lemmas.Sleeper
import ScheduleTest.Theorems.Sleeper
