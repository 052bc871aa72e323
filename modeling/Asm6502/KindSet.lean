import Asm6502.Kind

/-!
# Sets of kinds

A set of kinds is given by its membership test; its members are listed in
declaration order.
-/

namespace Asm6502

structure KindSet where
  contains : Kind → Bool

namespace KindSet

def empty : KindSet :=
  ⟨fun _ => false⟩

def insert (set : KindSet) (kind : Kind) : KindSet :=
  ⟨fun other => other == kind || set.contains other⟩

def union (left right : KindSet) : KindSet :=
  ⟨fun kind => left.contains kind || right.contains kind⟩

def ofList (kinds : List Kind) : KindSet :=
  kinds.foldl insert empty

def members (set : KindSet) : List Kind :=
  Kind.all.filter set.contains

/-- Two sets are the same if they have the same members. -/
instance : BEq KindSet :=
  ⟨fun left right => left.members == right.members⟩

end KindSet
end Asm6502
