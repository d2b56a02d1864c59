import Rtos.Proofs.Custody
import Rtos.Proofs.Exhaustion
import Rtos.Proofs.FirmwareBooks
import Rtos.Proofs.Interference
import Rtos.Proofs.Listings
import Rtos.Proofs.NoWait
import Rtos.Proofs.Ownership
import Rtos.Proofs.Polls
import Rtos.Proofs.Ranking
import Rtos.Proofs.Rotation
import Rtos.Proofs.RunTime
import Rtos.Proofs.Tagged
import Rtos.Proofs.TaskStates
import Rtos.Proofs.Tickets
import Rtos.Proofs.TimeLimit
import Rtos.Proofs.WaitLists
import Rtos.Proofs.WaitingRoom
import Rtos.Proofs.Wakeup
import Rtos.Run
import Rtos.Turns
