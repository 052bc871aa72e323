import Asm6502.Proofs.CursorWalks
import Asm6502.Proofs.PatternEmbedding
import Asm6502.Query.Search

/-!
# The matches of a search

A search reports, for each element other than trivia in the order of the walk and for
each pattern in order, one match if the pattern matches the element.  It keeps a
cursor, the pattern to try next and whether it is done; which matches are still to
come follows from these, and so does what becomes of them when the search is reset,
copied or counted.
-/

namespace Asm6502
namespace Query

open Place (preorder)
open Cursor (Ahead Led standing)

/-- The matches of patterns, numbered from `index` on, at an element. -/
def matchesAt (arena : Arena) (element : Handle) (index : Nat) (patterns : List Pattern) :
    List Match :=
  if arena.isTrivia element then []
  else (patterns.zipIdx index).filterMap fun numbered =>
    (numbered.1.match? arena element).map (Match.mk numbered.2)

def matchesAmong (query : Query) (arena : Arena) (elements : List Handle) : List Match :=
  elements.flatMap fun element => matchesAt arena element 0 query.patterns

/-- The answers to actions on a search that goes through `all`, if `left` is still to
come from the search and `kept` from the copy. -/
def Search.replay (all : List Match) :
    (left kept : List Match) → List Search.Action → List Search.Answer
  | _, _, [] => []
  | left, kept, .next :: rest => .found left.head? :: replay all left.tail kept rest
  | _, kept, .reset :: rest => .carriedOut :: replay all all kept rest
  | left, _, .save :: rest => .carriedOut :: replay all left left rest
  | _, kept, .restore :: rest => .carriedOut :: replay all kept kept rest
  | left, kept, .count :: rest => .counted left.length :: replay all left kept rest

namespace Search

variable {query : Query} {arena : Arena} {tree : Tree} {top place : Place}
  {rest : List Place} {search : Search} {left : List Match} {element : Handle} {index : Nat}
  {patterns : List Pattern}

theorem matchesAt_nil (arena : Arena) (element : Handle) (index : Nat) :
    matchesAt arena element index [] = [] := by
  simp [matchesAt]

theorem firstMatch_eq_none (notTrivia : arena.isTrivia element = false)
    (none : firstMatch arena element index patterns = none) :
    matchesAt arena element index patterns = [] := by
  induction patterns generalizing index with
  | nil => exact matchesAt_nil arena element index
  | cons pattern rest ih =>
      rw [firstMatch] at none
      cases tried : pattern.match? arena element with
      | some captures => simp [tried] at none
      | none =>
          rw [tried] at none
          have others := ih none
          simpa [matchesAt, notTrivia, tried] using others

theorem firstMatch_eq_some {found : Match} (notTrivia : arena.isTrivia element = false)
    (some : firstMatch arena element index patterns = some found) :
    ∃ skipped, index + skipped = found.pattern ∧
      matchesAt arena element index patterns =
        found :: matchesAt arena element (found.pattern + 1) (patterns.drop (skipped + 1)) := by
  induction patterns generalizing index with
  | nil => simp [firstMatch] at some
  | cons pattern rest ih =>
      rw [firstMatch] at some
      cases tried : pattern.match? arena element with
      | some captures =>
          rw [tried, Option.some_inj] at some
          subst some
          exact ⟨0, rfl, by simp [matchesAt, notTrivia, tried]⟩
      | none =>
          rw [tried] at some
          obtain ⟨skipped, number, others⟩ := ih some
          refine ⟨skipped + 1, by omega, ?_⟩
          rw [List.drop_succ_cons, ← others]
          simp [matchesAt, notTrivia, tried]

/-- The matches that a search has yet to report. -/
inductive Remaining (query : Query) (arena : Arena) (top : Place) : Search → List Match → Prop
  | done {element : Handle} {nextPattern : Nat} :
      Remaining query arena top
        ⟨query, ⟨arena, Crumb.nodesBefore top.above, element⟩, nextPattern, true⟩ []
  | going {place : Place} {rest : List Place} (nextPattern : Nat) :
      Ahead top place rest →
        Remaining query arena top ⟨query, standing arena top place, nextPattern, false⟩
          (matchesAt arena place.handle nextPattern (query.patterns.drop nextPattern) ++
            matchesAmong query arena (rest.map Place.handle))

theorem matchHere?_eq_none {nextPattern : Nat}
    (none : matchHere? ⟨query, standing arena top place, nextPattern, false⟩ = none) :
    matchesAt arena place.handle nextPattern (query.patterns.drop nextPattern) = [] := by
  by_cases isTrivia : arena.isTrivia place.handle = true
  · simp [matchesAt, isTrivia]
  · rw [Bool.not_eq_true] at isTrivia
    refine firstMatch_eq_none isTrivia ?_
    simpa [matchHere?, standing, isTrivia] using none

theorem matchHere?_eq_some {nextPattern : Nat} {found : Match}
    (some : matchHere? ⟨query, standing arena top place, nextPattern, false⟩ = some found) :
    matchesAt arena place.handle nextPattern (query.patterns.drop nextPattern) =
      found :: matchesAt arena place.handle (found.pattern + 1)
        (query.patterns.drop (found.pattern + 1)) := by
  by_cases isTrivia : arena.isTrivia place.handle = true
  · simp [matchHere?, standing, isTrivia] at some
  · rw [Bool.not_eq_true] at isTrivia
    have first : firstMatch arena place.handle nextPattern
        (query.patterns.drop nextPattern) = Option.some found := by
      simpa [matchHere?, standing, isTrivia] using some
    obtain ⟨skipped, number, others⟩ := firstMatch_eq_some isTrivia first
    rw [others, List.drop_drop, ← Nat.add_assoc, number]

theorem length_matchesAt_le (arena : Arena) (element : Handle) (index : Nat)
    (patterns : List Pattern) : (matchesAt arena element index patterns).length ≤
      patterns.length := by
  rw [matchesAt]
  split
  · exact Nat.zero_le _
  · have atMost := List.length_filterMap_le (fun numbered : Pattern × Nat =>
      (numbered.1.match? arena element).map (Match.mk numbered.2)) (patterns.zipIdx index)
    rwa [List.length_zipIdx] at atMost

theorem length_matchesAmong_le (query : Query) (arena : Arena) (elements : List Handle) :
    (matchesAmong query arena elements).length ≤ elements.length * query.patterns.length := by
  induction elements with
  | nil => simp [matchesAmong]
  | cons element rest ih =>
      have here := length_matchesAt_le arena element 0 query.patterns
      rw [matchesAmong] at ih ⊢
      rw [List.flatMap_cons, List.length_append, List.length_cons, Nat.succ_mul]
      omega

theorem length_lt_size (keeps : arena.Keeps tree) (topIn : top ∈ preorder ⟨tree, []⟩)
    (ahead : Ahead top place rest) : rest.length < arena.size := by
  obtain ⟨earlier, later, split, -⟩ := Arena.exists_split_preorder topIn
  have fewer := ahead.length_lt
  rw [keeps.size, split, List.length_append, List.length_append]
  omega

/-- There is at most one match for every element and pattern. -/
theorem length_remaining_le (keeps : arena.Keeps tree) (topIn : top ∈ preorder ⟨tree, []⟩)
    (remaining : Remaining query arena top search left) :
    left.length ≤ search.cursor.arena.size * search.query.patterns.length := by
  cases remaining with
  | done => exact Nat.zero_le _
  | @going place rest nextPattern ahead =>
      have fewer := length_lt_size keeps topIn ahead
      have here := length_matchesAt_le arena place.handle nextPattern
        (query.patterns.drop nextPattern)
      have later := length_matchesAmong_le query arena (rest.map Place.handle)
      rw [List.length_drop] at here
      rw [List.length_map] at later
      rw [List.length_append]
      calc
        _ ≤ query.patterns.length + rest.length * query.patterns.length := by omega
        _ = (rest.length + 1) * query.patterns.length := by rw [Nat.succ_mul, Nat.add_comm]
        _ ≤ arena.size * query.patterns.length := Nat.mul_le_mul_right _ fewer

theorem seek_found {nextPattern : Nat} {found : Match} (limit : Nat)
    (here : matchHere? ⟨query, standing arena top place, nextPattern, false⟩ = some found)
    (ahead : Ahead top place rest) :
    ∃ behind, seek ⟨query, standing arena top place, nextPattern, false⟩ (limit + 1) =
        some ((matchesAt arena place.handle nextPattern (query.patterns.drop nextPattern) ++
          matchesAmong query arena (rest.map Place.handle)).head?, behind) ∧
      Remaining query arena top behind
        (matchesAt arena place.handle nextPattern (query.patterns.drop nextPattern) ++
          matchesAmong query arena (rest.map Place.handle)).tail := by
  rw [matchHere?_eq_some here, seek]
  simp only [Bool.false_eq_true, if_false, here]
  exact ⟨_, rfl, .going (found.pattern + 1) ahead⟩

theorem seek_passing {nextPattern : Nat} (limit : Nat)
    (here : matchHere? ⟨query, standing arena top place, nextPattern, false⟩ = none) :
    seek ⟨query, standing arena top place, nextPattern, false⟩ (limit + 1) =
      (standing arena top place).advance.bind fun moved =>
        seek ⟨query, moved.2, 0, !moved.1⟩ limit := by
  rw [seek]
  simp only [Bool.false_eq_true, if_false, here]
  rfl

theorem reset_remaining (remaining : Remaining query arena top search left) :
    search.reset = begin query arena (Crumb.nodesBefore top.above) := by
  cases remaining <;> rfl

section

variable (keeps : arena.Keeps tree) (isNode : tree.isNode = true)
  (topIn : top ∈ preorder ⟨tree, []⟩) (topNode : top.isNode = true)

include topNode

theorem begin_remaining (query : Query) (arena : Arena) :
    Remaining query arena top (begin query arena (Crumb.nodesBefore top.above))
      (matchesAmong query arena (top.preorder.map Place.handle)) := by
  cases patterns : query.patterns with
  | nil =>
      have none : matchesAmong query arena (top.preorder.map Place.handle) = [] := by
        simp [matchesAmong, patterns, matchesAt_nil]
      rw [none, begin, patterns]
      exact .done
  | cons pattern others =>
      have going : Remaining query arena top ⟨query, standing arena top top, 0, false⟩
          (matchesAt arena top.handle 0 (query.patterns.drop 0) ++
            matchesAmong query arena (top.preorder.tail.map Place.handle)) :=
        .going 0 (Cursor.ahead_top top)
      have start : standing arena top top = .atNode arena (Crumb.nodesBefore top.above) := by
        rw [standing, Place.handle_of_isNode topNode, Cursor.atNode]
      rw [start, List.drop_zero, Place.preorder_eq_cons, List.tail_cons] at going
      rw [begin, patterns, Place.preorder_eq_cons, List.map_cons, matchesAmong,
        List.flatMap_cons]
      exact going

include keeps isNode topIn

/-- The next match is the first of those that are still to come, if so many elements can
be passed. -/
theorem seek_going {nextPattern limit : Nat} (ahead : Ahead top place rest)
    (enough : rest.length + 1 < limit) :
    ∃ behind, seek ⟨query, standing arena top place, nextPattern, false⟩ limit =
        some ((matchesAt arena place.handle nextPattern (query.patterns.drop nextPattern) ++
          matchesAmong query arena (rest.map Place.handle)).head?, behind) ∧
      Remaining query arena top behind
        (matchesAt arena place.handle nextPattern (query.patterns.drop nextPattern) ++
          matchesAmong query arena (rest.map Place.handle)).tail := by
  induction limit generalizing place rest nextPattern with
  | zero => omega
  | succ limit ih =>
      cases here : matchHere? ⟨query, standing arena top place, nextPattern, false⟩ with
      | some found => exact seek_found limit here ahead
      | none =>
          have led := Cursor.led_advance keeps isNode topIn topNode ahead
          rw [seek_passing limit here, matchHere?_eq_none here]
          generalize (standing arena top place).advance = moved at led
          cases led with
          | nowhere =>
              have left : limit ≠ 0 := by omega
              obtain ⟨limit, rfl⟩ := Nat.exists_eq_add_one_of_ne_zero left
              exact ⟨_, rfl, .done⟩
          | next aheadNext =>
              rw [List.length_cons] at enough
              exact ih aheadNext (by omega)

theorem next?_remaining (remaining : Remaining query arena top search left) :
    ∃ behind, search.next? = some (left.head?, behind) ∧
      Remaining query arena top behind left.tail := by
  cases remaining with
  | done => exact ⟨_, rfl, .done⟩
  | going nextPattern ahead =>
      have fewer := length_lt_size keeps topIn ahead
      exact seek_going keeps isNode topIn topNode ahead (Nat.succ_lt_succ fewer)

/-- Asking for one match after the other comes to an end and gives all of them. -/
theorem collect_eq {limit : Nat} (remaining : Remaining query arena top search left)
    (enough : left.length < limit) : search.collect limit = some left := by
  induction left generalizing search limit with
  | nil =>
      obtain ⟨limit, rfl⟩ := Nat.exists_eq_add_one_of_ne_zero (Nat.ne_zero_of_lt enough)
      obtain ⟨behind, next, -⟩ :=
        next?_remaining keeps isNode topIn topNode remaining
      rw [collect, next]
      rfl
  | cons found others ih =>
      obtain ⟨limit, rfl⟩ := Nat.exists_eq_add_one_of_ne_zero (Nat.ne_zero_of_lt enough)
      obtain ⟨behind, next, later⟩ :=
        next?_remaining keeps isNode topIn topNode remaining
      rw [collect, next]
      simp only [List.head?_cons, Option.bind_eq_bind, Option.bind_some]
      rw [ih later (Nat.lt_of_succ_lt_succ enough)]
      rfl

theorem remaining_eq (remaining : Remaining query arena top search left) :
    search.remaining = some left :=
  collect_eq keeps isNode topIn topNode remaining
    (Nat.lt_succ_of_le (length_remaining_le keeps topIn remaining))

/-- Whatever is done with a search and its copy, the matches still to come are known. -/
theorem answers_eq_replay {current saved : Search} {kept : List Match}
    (now : Remaining query arena top current left)
    (copied : Remaining query arena top saved kept) (actions : List Action) :
    Session.answers ⟨current, saved⟩ actions =
      some (replay (matchesAmong query arena (top.preorder.map Place.handle)) left kept
        actions) := by
  induction actions generalizing current saved left kept with
  | nil => rfl
  | cons action rest ih =>
      cases action with
      | next =>
          obtain ⟨behind, next, later⟩ := next?_remaining keeps isNode topIn topNode now
          simp [Session.answers, Session.act, next, ih later copied, replay]
      | reset =>
          have again := begin_remaining topNode query arena
          rw [← reset_remaining now] at again
          simp [Session.answers, Session.act, ih again copied, replay]
      | save => simp [Session.answers, Session.act, ih now now, replay]
      | restore => simp [Session.answers, Session.act, ih copied copied, replay]
      | count =>
          have all := remaining_eq keeps isNode topIn topNode now
          simp [Session.answers, Session.act, all, ih now copied, replay]

end

end Search

variable {arena : Arena}

theorem exists_lists_of_mem {elements below : List Handle} {element : Handle}
    (lists : arena.ListsAll elements below) (member : element ∈ elements) :
    ∃ inner, arena.Lists element inner ∧ inner ⊆ below := by
  induction elements generalizing below with
  | nil => contradiction
  | cons other rest ih =>
      cases lists with
      | cons first others =>
          rcases List.mem_cons.mp member with rfl | later
          · exact ⟨_, first, List.subset_append_left _ _⟩
          · obtain ⟨inner, lists, subset⟩ := ih others later
            exact ⟨inner, lists, List.subset_append_of_subset_right _ subset⟩

mutual

theorem captured_mem (arena : Arena) :
    ∀ (pattern : Pattern) {element : Handle} {choice : Choice} {captures : List Capture}
      {below : List Handle}, Embeds arena pattern element choice captures →
      arena.Lists element below → ∀ capture ∈ captures, capture.element ∈ below
  | ⟨matcher, capture?, children⟩, element, choice, captures, below, embed, lists, capture,
      member => by
    cases embed with
    | intro _ _ inside =>
        cases lists with
        | here lists =>
            rcases List.mem_append.mp member with own | inner
            · obtain ⟨index, -, rfl⟩ := by simpa using own
              exact List.mem_cons_self
            · refine List.mem_cons_of_mem _
                (captured_mem_all arena children inside (fun child childIn => ?_) _ inner)
              exact exists_lists_of_mem lists (List.mem_filter.mp childIn).1

theorem captured_mem_all (arena : Arena) :
    ∀ (patterns : List Pattern) {elements : List Handle} {start : Nat} {choice : Choice}
      {captures : List Capture} {below : List Handle},
      EmbedAll arena patterns elements start choice captures →
      (∀ element ∈ elements, ∃ inner, arena.Lists element inner ∧ inner ⊆ below) →
      ∀ capture ∈ captures, capture.element ∈ below
  | [], elements, start, choice, captures, below, embed, lists, capture, member => by
    cases embed
    contradiction
  | pattern :: rest, elements, start, choice, captures, below, embed, lists, capture,
      member => by
    cases embed with
    | cons _ here first later =>
        rcases List.mem_append.mp member with inFirst | inLater
        · obtain ⟨inner, listsInner, subset⟩ := lists _ (List.mem_of_getElem? here)
          exact subset (captured_mem arena pattern first listsInner _ inFirst)
        · exact captured_mem_all arena rest later lists _ inLater

end

theorem mem_of_match? {pattern : Pattern} {element : Handle} {captures : List Capture}
    {below : List Handle} (matched : pattern.match? arena element = some captures)
    (lists : arena.Lists element below) :
    ∀ capture ∈ captures, capture.element ∈ below := by
  have outcome := pattern.tryAt_outcome arena element []
  rw [Pattern.match?] at matched
  generalize pattern.tryAt arena element [] = result at outcome matched
  cases outcome with
  | none => simp at matched
  | found embed _ =>
      obtain rfl := by simpa using matched
      exact captured_mem arena pattern embed lists

theorem exists_match?_of_mem {element : Handle} {index : Nat} {patterns : List Pattern}
    {found : Match} (reported : found ∈ matchesAt arena element index patterns) :
    ∃ pattern : Pattern, pattern.match? arena element = some found.captures := by
  rw [matchesAt] at reported
  split at reported
  · contradiction
  · obtain ⟨⟨pattern, number⟩, -, matched⟩ := List.mem_filterMap.mp reported
    obtain ⟨captures, found?, rfl⟩ := Option.map_eq_some_iff.mp matched
    exact ⟨pattern, found?⟩

/-- A search below a node goes through the matches at the elements of the node, which
are listed once each, whatever is done with it on the way, and captures nothing else. -/
theorem search_eq_matchesAmong {text : Bytes} {tree : Tree} {number : Nat}
    (made : Arena.ofTree? text tree = some arena) (has : arena.Has (.node number))
    (query : Query) :
    ∃ elements all, arena.Lists (.node number) elements ∧ elements.Nodup ∧
      all = query.matchesAmong arena elements ∧
      query.matchesBelow arena number = some all ∧
      (∀ actions,
        Search.Session.answers
            ⟨Search.begin query arena number, Search.begin query arena number⟩ actions =
          some (Search.replay all all all actions)) ∧
      ∀ found ∈ all, ∀ capture ∈ found.captures, capture.element ∈ elements := by
  have laid := Arena.over_of_ofTree? made
  obtain ⟨top, topIn, topNode, rfl⟩ := laid.exists_node_of_has has
  have lists := laid.lists topIn
  have start := Search.begin_remaining topNode query arena
  refine ⟨top.preorder.map Place.handle, _, ?_, ?_, rfl, ?_, ?_, ?_⟩
  · rwa [Place.handle_of_isNode topNode] at lists
  · obtain ⟨earlier, later, split, -⟩ := Arena.exists_split_preorder topIn
    have nodup := Arena.nodup_handles tree
    rw [split, List.map_append, List.map_append] at nodup
    exact nodup.of_append_right.of_append_left
  · exact Search.remaining_eq laid.toKeeps laid.isNode topIn topNode start
  · exact Search.answers_eq_replay laid.toKeeps laid.isNode topIn topNode start start
  · intro found foundIn capture captured
    obtain ⟨element, elementIn, reported⟩ := List.mem_flatMap.mp foundIn
    obtain ⟨place, below, rfl⟩ := List.mem_map.mp elementIn
    have placeIn := Place.preorder_subset_preorder topIn place below
    obtain ⟨pattern, matched⟩ := exists_match?_of_mem reported
    have inside := mem_of_match? matched (laid.lists placeIn) capture captured
    obtain ⟨other, otherIn, same⟩ := List.mem_map.mp inside
    rw [← same]
    exact List.mem_map_of_mem (Place.preorder_subset_preorder below other otherIn)

theorem search_eq_matchesAmong_line :
    ∃ arena,
      Arena.ofTree? [97, 10] (.node .sourceFile
        [.node .line [.token .ident 1, .token .eol 1]]) = some arena ∧
      arena.Has (.node 1) ∧
      ∃ elements all, arena.Lists (.node 1) elements ∧ elements.Nodup ∧
        all = Query.matchesAmong ⟨[⟨.any, some 0, []⟩], ["x"]⟩ arena elements ∧
        Query.matchesBelow ⟨[⟨.any, some 0, []⟩], ["x"]⟩ arena 1 = some all ∧
        (∀ actions,
          Search.Session.answers
              ⟨Search.begin ⟨[⟨.any, some 0, []⟩], ["x"]⟩ arena 1,
                Search.begin ⟨[⟨.any, some 0, []⟩], ["x"]⟩ arena 1⟩ actions =
            some (Search.replay all all all actions)) ∧
        ∀ found ∈ all, ∀ capture ∈ found.captures, capture.element ∈ elements := by
  have made : Arena.ofTree? [97, 10] (.node .sourceFile
      [.node .line [.token .ident 1, .token .eol 1]]) = some _ := Arena.ofTree?_node rfl
  exact ⟨_, made, Nat.one_lt_two, search_eq_matchesAmong made Nat.one_lt_two _⟩

end Query
end Asm6502
