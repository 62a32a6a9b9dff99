import RadOs.Timer.CreateInCallback
import RadOs.Kernel.Placement
import RadOs.Kernel.Boost
import RadOs.Kernel.Mutexes
import RadOs.Kernel.TimedWaits
import RadOs.Kernel.Locking
import RadOs.Kernel.Ranking
import RadOs.Kernel.Prepared
import RadOs.Kernel.JoinExit
import RadOs.Kernel.Signals
import RadOs.Kernel.WaitCodes
import RadOs.Kernel.Wakeups
import RadOs.Kernel.Inheritance
import RadOs.Kernel.Elapsed
import RadOs.QueueOrder
import RadOs.Kernel.Rousing
import RadOs.Kernel.Sharing
import RadOs.Kernel.TaskStates
import RadOs.Kernel.Urgency
import RadOs.Kernel.Blocking
import RadOs.Kernel.Progress
import RadOs.Kernel.Timekeeping
import RadOs.Kernel.QueueSteps
import RadOs.Kernel.LinkedQueues
import RadOs.Kernel.Overtaking
import RadOs.Avr.Resumption
import RadOs.Lib.Hierarchy
import RadOs.Lib.Turns
import RadOs.Msp430.Resumption
