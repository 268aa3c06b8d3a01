import TinyScript.Proofs.Run.CallStack
import TinyScript.Proofs.Run.Lockstep

/-!
# Running programs one after the other

One machine can run any number of programs. What earlier runs have left on it, failed ones included,
are lists that nothing refers to any more, notices and printed text; the calls under way are none
again. So when the sink never refuses a text, every run goes in lockstep with a run of the same
program on a machine of its own: the lists are shifted, the outcome is the same, and what is printed
is added to the text that was there.
-/

namespace TinyScript

open Run

variable {settings : RunSettings} {fuel : Nat} {program : Program} {machine : Machine}

/-! ## Machines that have run before -/

end TinyScript
