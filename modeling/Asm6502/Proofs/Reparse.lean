import Asm6502.Proofs.EditedTexts
import Asm6502.Proofs.RefusedTexts

/-!
# Reparsing gives what parsing gives

A session parses texts and reparses them after edits; each of its parses can
have been cut short.  Whatever the session, a reparse that runs to the end gives
the parse of the new text.
-/

namespace Asm6502

/-- The parses that a session can hold, each with the text it was asked to
parse. -/
inductive Snapshot (dialect : Dialect) : Bytes → Parse → Prop
  | parsed {options : ParseOptions} {text : Bytes} {parse : Parse} :
      Parse.ofText? dialect options text = .ok parse → Snapshot dialect text parse
  | reparsed {options : ParseOptions} {oldText text : Bytes} {old parse : Parse}
      {edits : List Edit} {report : ReuseReport} :
      Snapshot dialect oldText old → Edit.Leads oldText edits text →
        Parse.reparse? dialect options old edits text = .ok (parse, report) →
          Snapshot dialect text parse

namespace Parse

open Reading

variable {dialect : Dialect}

theorem isSnapshot_ofText (dialect : Dialect) (stopAfter : Option Nat) (text : Bytes) :
    IsSnapshot dialect text (fromScratch dialect stopAfter text) :=
  Reading.isSnapshot_ofText stopAfter (by simp)

end Parse
end Asm6502
