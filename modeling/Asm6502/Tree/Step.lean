import Asm6502.Tree

/-!
# Steps of building a tree

A tree is not built while it is read.  What happens is taken down, step by step: something is
added, a node begins, possibly around the one that was completed last, or the innermost open
node is completed.  Only then its kind is known.
-/

namespace Asm6502
namespace Log

inductive Step where
  /-- Add a token or a finished node. -/
  | add (tree : Tree)
  /-- Open a node. -/
  | start
  /-- Complete the innermost open node. -/
  | complete (kind : Kind)
  /-- Open a node around the one that was completed last. -/
  | precede
deriving DecidableEq, Repr

def Step.addsTrivia : Step → Bool
  | .add (.token kind _) => kind.isTrivia
  | _ => false

end Log
end Asm6502
