import Uniprocessor.Main
import Uniprocessor.Trace.Observation
import Uniprocessor.Log.Pattern
import Uniprocessor.Text.Slice
import Uniprocessor.Proofs.Safety
import Uniprocessor.Proofs.Wakeup
import Uniprocessor.Proofs.Inheritance
import Uniprocessor.Proofs.Validity
import Uniprocessor.Proofs.Record
import Uniprocessor.Proofs.Deadlock
import Uniprocessor.Proofs.Ceiling
import Uniprocessor.Proofs.Urgency
import Uniprocessor.Proofs.Inversion
import Uniprocessor.Proofs.Fidelity
import Uniprocessor.Proofs.Punctual
import Uniprocessor.Proofs.Exclusive
import Uniprocessor.Proofs.Ranking
import Uniprocessor.Proofs.Patience
import Uniprocessor.Proofs.Alternation
import Uniprocessor.Proofs.FirstCome
import Uniprocessor.Proofs.Shortest
import Uniprocessor.Proofs.Backlog
import Uniprocessor.Proofs.Graded
import Uniprocessor.Proofs.Truncation
import Uniprocessor.Proofs.Contention
import Uniprocessor.Proofs.Preemption
import Uniprocessor.Proofs.Foresight
import Uniprocessor.Proofs.Metering
import Uniprocessor.Proofs.Summary
import Uniprocessor.Proofs.Anonymity
import Uniprocessor.Proofs.Spelling
import Uniprocessor.Proofs.Decoding
import Uniprocessor.Proofs.Headcount
import Uniprocessor.Proofs.Contract
import Uniprocessor.Proofs.Reselection
import Uniprocessor.Proofs.Refusals
import Uniprocessor.Proofs.Overtaking
import Uniprocessor.Proofs.Bare
import Uniprocessor.Proofs.Numbering
import Uniprocessor.Proofs.Grouping
