import Callee.Script.Session
import Callee.Script.Draft
import Callee.Script.Joins
import Callee.Proofs.Draining
import Callee.Proofs.Concluding
import Callee.Proofs.Cancelling
import Callee.Proofs.TakingTurns
import Callee.Proofs.Commuting
import Callee.Proofs.Outcomes
import Callee.Proofs.Attaching
import Callee.Proofs.Describing
import Callee.Proofs.Raising
import Callee.Proofs.Interrupting
import Callee.Proofs.GivingUp
import Callee.Proofs.Unreserved
import Callee.Proofs.Stranding
import Callee.Proofs.Waiting
import Callee.Proofs.Releasing
import Callee.Proofs.SlotMap
import Callee.Proofs.Pointing
import Callee.Proofs.Walking
import Callee.Proofs.Budget
import Callee.Proofs.ReadingBack
