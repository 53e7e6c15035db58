import LotteryScheduler.Lib.IntrusiveList
import LotteryScheduler.Lib.Execution
import LotteryScheduler.Lib.Draw
import LotteryScheduler.Lib.Timeline
import LotteryScheduler.Lib.Journal
import LotteryScheduler.Lib.Trials
import LotteryScheduler.Lib.TailQueue
import LotteryScheduler.Lib.Census
import LotteryScheduler.Lib.Forest
import LotteryScheduler.Lib.TreeWalk
import LotteryScheduler.Lib.Unwind
import LotteryScheduler.Model.Policy
import LotteryScheduler.Model.State
import LotteryScheduler.Model.Lottery
import LotteryScheduler.Model.Core
import LotteryScheduler.Model.Setscheduler
import LotteryScheduler.Model.Fork
import LotteryScheduler.Model.System
import LotteryScheduler.Model.WaitLoop
import LotteryScheduler.Model.WakeQueue
import LotteryScheduler.Model.LoadCount
import LotteryScheduler.Model.AddressSpace
import LotteryScheduler.Model.Sharing
import LotteryScheduler.Model.TaskGroups
import LotteryScheduler.Model.Syscalls
import LotteryScheduler.Model.Monitor
import LotteryScheduler.Model.CpuMax
import LotteryScheduler.Model.Launcher
import LotteryScheduler.Proofs.Ready
import LotteryScheduler.Proofs.Books
import LotteryScheduler.Proofs.Invariant
import LotteryScheduler.Proofs.Changes
import LotteryScheduler.Proofs.Requests
import LotteryScheduler.Proofs.Wakeups
import LotteryScheduler.Proofs.Picks
import LotteryScheduler.Proofs.Schedule
import LotteryScheduler.Proofs.Forks
import LotteryScheduler.Proofs.Runs
import LotteryScheduler.Proofs.Settings
import LotteryScheduler.Proofs.Journals
import LotteryScheduler.Proofs.Sleepers
import LotteryScheduler.Proofs.Turns
import LotteryScheduler.Proofs.Threads
import LotteryScheduler.Proofs.AddressSpaces
import LotteryScheduler.Proofs.Sharing
import LotteryScheduler.Proofs.TaskGroups
import LotteryScheduler.Proofs.WakeQueues
import LotteryScheduler.Proofs.Charts
import LotteryScheduler.Properties.Accounting
import LotteryScheduler.Properties.TicketDraw
import LotteryScheduler.Properties.PickOrder
import LotteryScheduler.Properties.Admission
import LotteryScheduler.Properties.Hooks
import LotteryScheduler.Properties.CpuTime
import LotteryScheduler.Properties.Attributes
import LotteryScheduler.Properties.Inheritance
import LotteryScheduler.Properties.Leaving
import LotteryScheduler.Properties.Clones
import LotteryScheduler.Properties.ResetOnFork
import LotteryScheduler.Properties.Journals
import LotteryScheduler.Properties.Wakeups
import LotteryScheduler.Properties.WakeQueues
import LotteryScheduler.Properties.Policies
import LotteryScheduler.Properties.Turns
import LotteryScheduler.Properties.Fairness
import LotteryScheduler.Properties.Nice
import LotteryScheduler.Properties.Syscalls
import LotteryScheduler.Properties.Launches
import LotteryScheduler.Properties.LoadCount
import LotteryScheduler.Properties.AddressSpaces
import LotteryScheduler.Properties.Sharing
import LotteryScheduler.Properties.TaskGroups
import LotteryScheduler.Properties.CpuMax
import LotteryScheduler.Properties.LogDecoding
import LotteryScheduler.Properties.Charts
