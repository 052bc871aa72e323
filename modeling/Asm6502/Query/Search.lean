import Asm6502.Query.Match
import Asm6502.Tree.Cursor

/-!
# Searching

A search walks over the elements below a node with a cursor and tries every
pattern at each.  It stops at a match and goes on behind it, so it can be kept,
copied and reset at any time.
-/

namespace Asm6502
namespace Query

structure Search where
  query : Query
  cursor : Cursor
  /-- The pattern to try next at the cursor. -/
  nextPattern : Nat
  /-- Every element has been looked at. -/
  done : Bool

namespace Search

/-- The search in the arena below a node, at its beginning. -/
def begin (query : Query) (arena : Arena) (root : Nat) : Search :=
  ⟨query, .atNode arena root, 0, query.patterns.isEmpty⟩

def reset (search : Search) : Search :=
  { search with
    cursor := search.cursor.reset
    nextPattern := 0
    done := search.query.patterns.isEmpty }

/-- The first match of the given patterns, numbered from `index` on. -/
def firstMatch (arena : Arena) (element : Handle) :
    (index : Nat) → List Pattern → Option Match
  | _, [] => none
  | index, pattern :: rest =>
      match pattern.match? arena element with
      | some captures => some ⟨index, captures⟩
      | none => firstMatch arena element (index + 1) rest

/-- The first match at the cursor that has not been reported. -/
def matchHere? (search : Search) : Option Match :=
  let cursor := search.cursor
  if cursor.arena.isTrivia cursor.here then none
  else
    firstMatch cursor.arena cursor.here search.nextPattern
      (search.query.patterns.drop search.nextPattern)

/-- The next match, if there is one, and the search behind it.  The cursor is
moved fewer than `limit` times, or there is no answer. -/
def seek (search : Search) : (limit : Nat) → Option (Option Match × Search)
  | 0 => none
  | limit + 1 =>
      if search.done then some (none, search)
      else
        match search.matchHere? with
        | some found =>
            some (some found, { search with nextPattern := found.pattern + 1 })
        | none => do
            let (moved, cursor) ← search.cursor.advance
            let later : Search :=
              { search with cursor := cursor, nextPattern := 0, done := !moved }
            later.seek limit

/-- The next match, if there is one, and the search behind it.  A walk passes
every element at most once. -/
def next? (search : Search) : Option (Option Match × Search) :=
  search.seek (search.cursor.arena.size + 1)

/-- Every match still to come, if there are fewer than `limit`. -/
def collect (search : Search) : (limit : Nat) → Option (List Match)
  | 0 => none
  | limit + 1 => do
      let (found?, later) ← search.next?
      match found? with
      | none => return []
      | some found => do
          let others ← later.collect limit
          return found :: others

/-- Every match still to come.  There is at most one for every element and
pattern. -/
def remaining (search : Search) : Option (List Match) :=
  search.collect
    (search.cursor.arena.size * search.query.patterns.length + 1)

/-- What can be done with a search and a copy of it. -/
inductive Action where
  /-- Ask for the next match. -/
  | next
  | reset
  /-- Copy the search. -/
  | save
  /-- Go back to the copy. -/
  | restore
  /-- Count the matches still to come. -/
  | count
deriving DecidableEq, Repr

inductive Answer where
  | found (found? : Option Match)
  | counted (number : Nat)
  | carriedOut
deriving DecidableEq, Repr

/-- A search and a saved copy. -/
structure Session where
  current : Search
  saved : Search

/-- The answer to an action, and the session behind it. -/
def Session.act (session : Session) :
    Search.Action → Option (Answer × Session)
  | .next => do
      let (found?, search) ← session.current.next?
      return (.found found?, { session with current := search })
  | .reset =>
      some (.carriedOut, { session with current := session.current.reset })
  | .save => some (.carriedOut, { session with saved := session.current })
  | .restore => some (.carriedOut, { session with current := session.saved })
  | .count => do
      let left ← session.current.remaining
      return (.counted left.length, session)

def Session.answers : (session : Session) → List Search.Action →
    Option (List Answer)
  | _, [] => some []
  | session, action :: rest => do
      let (answer, session) ← session.act action
      let others ← session.answers rest
      return answer :: others

end Search

/-- Every match at or below a node. -/
def matchesBelow (query : Query) (arena : Arena) (root : Nat) :
    Option (List Match) :=
  (Search.begin query arena root).remaining

end Query
end Asm6502
