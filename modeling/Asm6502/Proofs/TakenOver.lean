import Asm6502.Proofs.OfferedChildren
import Asm6502.Proofs.ParseShape
import Asm6502.Proofs.Reparse

/-!
# Children that are taken over

With candidates that describe the text and stand apart, reading takes one over
wherever a passage starts at which one stands, and scans every other passage.  So
the children that are shared, and the counts that are reported, follow from the
places of the candidates alone.
-/

namespace Asm6502

namespace Candidate

/-- One of the candidates starts at the offset. -/
def anyAt (candidates : List Candidate) (start : Nat) : Bool :=
  candidates.any fun candidate => candidate.start == start

end Candidate

namespace Tree

/-- The splice that stands for a tree that was taken over. -/
def spliceAt (placed : Nat × Tree) : Splice :=
  ⟨placed.2.kind, ⟨placed.1, placed.1 + placed.2.length⟩⟩

def leafCount (placed : List (Nat × Tree)) : Nat :=
  (placed.flatMap fun one => one.2.leaves).length

end Tree

namespace Reading

variable {dialect : Dialect} {stopAfter : Option Nat}

/-- Between two readings the placed trees were read, and those at whose start a
candidate stands were taken over. -/
structure TookOver (candidates : List Candidate) (placed : List (Nat × Tree))
    (before after : Reading) : Prop where
  splices :
    after.splices.reverse = before.splices.reverse ++
      (placed.filter fun one => Candidate.anyAt candidates one.1).map Tree.spliceAt
  freshTokens :
    after.freshTokens +
        Tree.leafCount (placed.filter fun one => Candidate.anyAt candidates one.1) =
      before.freshTokens + Tree.leafCount placed

section

variable {candidates : List Candidate} {placed : List (Nat × Tree)}
  {reading last : Reading}

theorem TookOver.nil (candidates : List Candidate) (reading : Reading) :
    TookOver candidates [] reading reading :=
  ⟨by simp, rfl⟩

theorem TookOver.taken {candidate : Candidate} {others : List Candidate}
    (here : Candidate.anyAt candidates reading.offset = true)
    (took : TookOver candidates placed (reading.splice candidate others) last) :
    TookOver candidates ((reading.offset, candidate.tree) :: placed) reading last := by
  obtain ⟨splices, freshTokens⟩ := took
  have kept : ((reading.offset, candidate.tree) :: placed).filter
      (fun one => Candidate.anyAt candidates one.1) =
        (reading.offset, candidate.tree) ::
          placed.filter fun one => Candidate.anyAt candidates one.1 :=
    List.filter_cons_of_pos here
  constructor
  · rw [kept, splices]
    simp [Reading.splice, Tree.spliceAt]
  · rw [kept]
    simp only [Tree.leafCount, List.flatMap_cons, List.length_append, Reading.splice]
      at freshTokens ⊢
    omega

theorem TookOver.read {tree : Tree} {passage : Reading}
    (noneHere : Candidate.anyAt candidates reading.offset = false)
    (fresh : passage.freshTokens = tree.leaves.length)
    (took : TookOver candidates placed (reading.followedBy passage) last) :
    TookOver candidates ((reading.offset, tree) :: placed) reading last := by
  obtain ⟨splices, freshTokens⟩ := took
  have left : ((reading.offset, tree) :: placed).filter
      (fun one => Candidate.anyAt candidates one.1) =
        placed.filter fun one => Candidate.anyAt candidates one.1 :=
    List.filter_cons_of_neg (by simp [noneHere])
  constructor
  · rw [left, splices]
    rfl
  · rw [left]
    simp only [Tree.leafCount, List.flatMap_cons, List.length_append, Reading.followedBy]
      at freshTokens ⊢
    omega

/-- A reading no longer holds candidates that start before its offset, and it holds
all others. -/
def HasPassed (candidates : List Candidate) (reading : Reading) : Prop :=
  ∃ dropped, candidates = dropped ++ reading.candidates ∧
    ∀ candidate ∈ dropped, candidate.start < reading.offset

theorem HasPassed.splice {text : Bytes} {candidate : Candidate}
    {others : List Candidate} (passed : HasPassed candidates reading)
    (found : Candidate.next? reading.offset text reading.candidates =
      some (candidate, others)) :
    HasPassed candidates (reading.splice candidate others) := by
  obtain ⟨dropped, split, early⟩ := passed
  obtain ⟨before, ahead, stillEarly, start, positive, -⟩ := Candidate.next?_eq_some found
  refine ⟨dropped ++ before ++ [candidate], by simp [split, ahead, Reading.splice], ?_⟩
  intro other member
  have further : (reading.splice candidate others).offset =
      reading.offset + candidate.tree.length := rfl
  simp only [List.mem_append, List.mem_singleton] at member
  rcases member with (old | old) | rfl
  · have := early other old
    omega
  · have := stillEarly other old
    omega
  · omega

theorem HasPassed.followedBy (passed : HasPassed candidates reading)
    (passage : Reading) : HasPassed candidates (reading.followedBy passage) := by
  obtain ⟨dropped, split, early⟩ := passed
  refine ⟨dropped, split, ?_⟩
  intro other member
  exact Nat.lt_of_lt_of_le (early other member) (Nat.le_add_right _ _)

end

/-- What stops a reading has just been taken over, if anything has been read. -/
def StopsBehind (stopAfter : Option Nat) (candidates : List Candidate)
    (placed : List (Nat × Tree)) (before after : Reading) : Prop :=
  after.isStopped stopAfter = true →
    placed = [] ∧ before.isStopped stopAfter = true ∨
      ∃ front final, placed = front ++ [final] ∧ Candidate.anyAt candidates final.1 = true

theorem StopsBehind.taken {candidates : List Candidate} {placed : List (Nat × Tree)}
    {reading next last : Reading} {first : Nat × Tree}
    (here : Candidate.anyAt candidates first.1 = true)
    (stops : StopsBehind stopAfter candidates placed next last) :
    StopsBehind stopAfter candidates (first :: placed) reading last := by
  intro stopped
  right
  rcases stops stopped with ⟨rfl, -⟩ | ⟨front, final, rfl, chosen⟩
  · exact ⟨[], first, rfl, here⟩
  · exact ⟨first :: front, final, rfl, chosen⟩

theorem StopsBehind.read {candidates : List Candidate} {placed : List (Nat × Tree)}
    {reading next last : Reading} (runs : next.isStopped stopAfter = false)
    (stops : StopsBehind stopAfter candidates placed next last) (first : Nat × Tree) :
    StopsBehind stopAfter candidates (first :: placed) reading last := by
  intro stopped
  right
  rcases stops stopped with ⟨-, already⟩ | ⟨front, final, rfl, chosen⟩
  · rw [runs] at already
    contradiction
  · exact ⟨first :: front, final, rfl, chosen⟩

end Reading
end Asm6502
