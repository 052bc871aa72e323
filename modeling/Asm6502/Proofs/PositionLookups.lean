import Asm6502.Tree.Locate
import Asm6502.Proofs.ParseShape
import Asm6502.Proofs.PlaceNeighbours

/-!
# Position lookups

Spans that tile lie apart, so of the tokens of a tree without empty elements at most
one contains an offset and at most one ends there.  The search through the flat list
of tokens finds these two, and the lookups that go down the tree end at the same
token or at its parent.
-/

namespace Asm6502
namespace Span
namespace Tile

variable {start stop offset : Nat} {spans : List Span} {span other : Span}

theorem le (tile : Tile start stop spans) : start ≤ stop := by
  induction spans generalizing start with
  | nil => exact Nat.le_of_eq tile
  | cons span rest ih =>
      obtain ⟨-, positive, later⟩ := tile
      exact Nat.le_of_lt (Nat.lt_of_lt_of_le positive (ih later))

theorem bounds (tile : Tile start stop spans) (member : span ∈ spans) :
    start ≤ span.start ∧ span.start < span.stop ∧ span.stop ≤ stop := by
  induction spans generalizing start with
  | nil => contradiction
  | cons first rest ih =>
      obtain ⟨starts, positive, later⟩ := tile
      rcases List.mem_cons.mp member with rfl | behind
      · exact ⟨Nat.le_of_eq starts.symm, by omega, le later⟩
      · obtain ⟨behindFirst, nonempty, within⟩ := ih later behind
        exact ⟨by omega, nonempty, within⟩

theorem stop_of_concat (tile : Tile start stop (spans ++ [span])) : span.stop = stop := by
  induction spans generalizing start with
  | nil => exact tile.2.2
  | cons first rest ih => exact ih tile.2.2

theorem exists_contains (tile : Tile start stop spans) (within : start ≤ offset)
    (before : offset < stop) : ∃ span ∈ spans, span.contains offset = true := by
  induction spans generalizing start with
  | nil =>
      obtain rfl : start = stop := tile
      omega
  | cons first rest ih =>
      obtain ⟨starts, -, later⟩ := tile
      by_cases inFirst : offset < first.stop
      · exact ⟨first, by simp, by simp [contains, starts, within, inFirst]⟩
      · obtain ⟨span, member, holds⟩ := ih later (by omega)
        exact ⟨span, by simp [member], holds⟩

end Tile
end Span

theorem Tree.map_length_spansFrom (start : Nat) (leaves : List (Kind × Nat)) :
    (Tree.spansFrom start leaves).map (fun leaf => (leaf.1, leaf.2.length)) = leaves := by
  induction leaves generalizing start with
  | nil => rfl
  | cons leaf rest ih =>
      rw [Tree.spansFrom, List.map_cons, ih]
      simp [Span.length]

namespace Place

variable {place token left right : Place} {places : List Place} {start stop offset : Nat}

theorem contains_span : place.span.contains offset = true ↔
    place.start ≤ offset ∧ offset < place.stop := by
  rw [Span.contains, Bool.and_eq_true, decide_eq_true_iff, decide_eq_true_iff]
  rfl

theorem touches_span : place.span.touches offset = true ↔
    place.start ≤ offset ∧ offset ≤ place.stop := by
  rw [Span.touches, Bool.and_eq_true, decide_eq_true_iff, decide_eq_true_iff]
  rfl

theorem covers_span {inner : Span} : place.span.covers inner = true ↔
    place.start ≤ inner.start ∧ inner.stop ≤ place.stop := by
  rw [Span.covers, Bool.and_eq_true, decide_eq_true_iff, decide_eq_true_iff]
  rfl

theorem bounds_of_tile (tile : Span.Tile start stop (places.map span))
    (member : place ∈ places) :
    start ≤ place.start ∧ place.start < place.stop ∧ place.stop ≤ stop :=
  tile.bounds (List.mem_map_of_mem member)

theorem apart_of_tile (tile : Span.Tile start stop (places.map span))
    (here : place ∈ places) (there : token ∈ places) :
    place = token ∨ place.stop ≤ token.start ∨ token.stop ≤ place.start := by
  induction places generalizing start with
  | nil => contradiction
  | cons first rest ih =>
      obtain ⟨-, -, later⟩ := tile
      have behind {other : Place} (member : other ∈ rest) : first.stop ≤ other.start :=
        (bounds_of_tile later member).1
      rcases List.mem_cons.mp here with rfl | hereBehind <;>
        rcases List.mem_cons.mp there with rfl | thereBehind
      · exact .inl rfl
      · exact .inr (.inl (behind thereBehind))
      · exact .inr (.inr (behind hereBehind))
      · exact ih later hereBehind thereBehind

/-- Among places that tile, at most one has what no two apart from each other can
have, so a search for it finds that one. -/
theorem find?_eq_some_iff_of_tile (tile : Span.Tile start stop (places.map span))
    {wanted : Place → Bool}
    (overlap : ∀ place ∈ places, ∀ other ∈ places, wanted place = true →
      wanted other = true → ¬ place.stop ≤ other.start) :
    places.find? wanted = some token ↔ token ∈ places ∧ wanted token = true := by
  constructor
  · intro found
    exact ⟨List.mem_of_find?_eq_some found, List.find?_some found⟩
  · rintro ⟨member, holds⟩
    cases found : places.find? wanted with
    | none => simp [List.find?_eq_none.mp found token member] at holds
    | some other =>
        have otherIn := List.mem_of_find?_eq_some found
        have otherHolds := List.find?_some found
        rcases apart_of_tile tile otherIn member with rfl | before | behind
        · rfl
        · exact absurd before (overlap other otherIn token member otherHolds holds)
        · exact absurd behind (overlap token member other otherIn holds otherHolds)

theorem find?_contains_eq_some (tile : Span.Tile start stop (places.map span)) :
    places.find? (fun place => place.span.contains offset) = some token ↔
      token ∈ places ∧ token.start ≤ offset ∧ offset < token.stop := by
  rw [find?_eq_some_iff_of_tile tile, contains_span]
  intro place _ other _ inPlace inOther
  rw [contains_span] at inPlace inOther
  omega

theorem find?_stop_eq_some (tile : Span.Tile start stop (places.map span)) :
    places.find? (fun place => place.stop == offset) = some token ↔
      token ∈ places ∧ token.stop = offset := by
  rw [find?_eq_some_iff_of_tile tile]
  · simp
  · intro place _ other otherIn endsPlace endsOther
    have positive := (bounds_of_tile tile otherIn).2.1
    rw [beq_iff_eq] at endsPlace endsOther
    omega

/-- Consecutive places parted at an offset: the earlier ones end at or before it, the
later ones behind it. -/
structure Parted (offset start middle stop : Nat) (earlier later : List Place) : Prop where
  tiled : Span.Tile start middle (earlier.map span)
  tiledBehind : Span.Tile middle stop (later.map span)
  reached : earlier = [] ∨ middle ≤ offset
  next : ∀ next, later.head? = some next → offset < next.stop

/-- The search stops in front of the first place that ends behind the offset. -/
theorem exists_parted (offset : Nat) (tile : Span.Tile start stop (places.map span))
    (last? : Option Place) :
    ∃ earlier later middle, places = earlier ++ later ∧
      tokensAround offset last? start places =
        (earlier.getLast?.or last?, middle, later.head?) ∧
      Parted offset start middle stop earlier later := by
  induction places generalizing start last? with
  | nil => exact ⟨[], [], start, rfl, rfl, rfl, tile, .inl rfl, by simp⟩
  | cons first rest ih =>
      obtain ⟨starts, positive, later⟩ := tile
      have stops : first.span.stop = start + first.length := by rw [← starts]; rfl
      by_cases passed : start + first.length ≤ offset
      · obtain ⟨earlier, behind, middle, rfl, around, tiled, tiledBehind, reached, next⟩ :=
          ih (stops ▸ later) (some first)
        refine ⟨first :: earlier, behind, middle, rfl, ?_, ⟨starts, positive, stops ▸ tiled⟩,
          tiledBehind, .inr ?_, next⟩
        · rw [tokensAround, if_pos passed, around, List.getLast?_cons]
          cases earlier.getLast? <;> rfl
        · rcases reached with rfl | reached
          · obtain rfl : _ = middle := tiled
            exact passed
          · exact reached
      · refine ⟨[], first :: rest, start, rfl, ?_, rfl, ⟨starts, positive, later⟩, .inl rfl, ?_⟩
        · rw [tokensAround, if_neg passed]
          rfl
        · intro next isNext
          obtain rfl : first = next := by simpa using isNext
          have whole : first.stop = first.span.stop := rfl
          omega

namespace Parted

variable {middle : Nat} {earlier later : List Place}

theorem middle_le (parted : Parted offset start middle stop earlier later)
    (begun : start ≤ offset) : middle ≤ offset := by
  rcases parted.reached with rfl | reached
  · obtain rfl : start = middle := parted.tiled
    exact begun
  · exact reached

theorem stop_le (parted : Parted offset start middle stop earlier later)
    (member : token ∈ earlier) : token.stop ≤ middle :=
  (bounds_of_tile parted.tiled member).2.2

theorem lt_stop (parted : Parted offset start middle stop earlier later)
    (member : token ∈ later) : offset < token.stop := by
  cases later with
  | nil => contradiction
  | cons first rest =>
      have firstBehind := parted.next first rfl
      rcases List.mem_cons.mp member with rfl | behind
      · exact firstBehind
      · have apart : first.stop ≤ token.start ∧ _ :=
          bounds_of_tile parted.tiledBehind.2.2 behind
        omega

/-- The first of the later places contains the offset, unless there is none. -/
theorem find?_contains (parted : Parted offset start middle stop earlier later)
    (tile : Span.Tile start stop ((earlier ++ later).map span)) (begun : start ≤ offset) :
    (earlier ++ later).find? (fun place => place.span.contains offset) = later.head? := by
  have passed := parted.middle_le begun
  cases later with
  | nil =>
      rw [List.head?_nil, List.find?_eq_none]
      intro token member
      have inEarlier : token ∈ earlier := by simpa using member
      have ends := parted.stop_le inEarlier
      rw [contains_span]
      omega
  | cons first rest =>
      have starts : first.start = middle := parted.tiledBehind.1
      exact (find?_contains_eq_some tile).mpr
        ⟨by simp, starts ▸ passed, parted.next first rfl⟩

/-- The last of the earlier places ends at the offset, if they reach it. -/
theorem find?_stop (parted : Parted offset start middle stop earlier later)
    (tile : Span.Tile start stop ((earlier ++ later).map span)) (begun : start ≤ offset) :
    (earlier ++ later).find? (fun place => place.stop == offset) =
      if middle == offset && decide (start < offset) then earlier.getLast? else none := by
  have passed := parted.middle_le begun
  split
  next meets =>
    rw [Bool.and_eq_true, beq_iff_eq, decide_eq_true_iff] at meets
    obtain ⟨meets, begins⟩ := meets
    rcases List.eq_nil_or_concat earlier with rfl | ⟨init, last, ends⟩
    · obtain rfl : start = middle := parted.tiled
      omega
    · rw [List.concat_eq_append] at ends
      subst ends
      have ends : last.stop = middle := by
        have tiled := parted.tiled
        rw [List.map_append] at tiled
        exact tiled.stop_of_concat
      rw [(find?_stop_eq_some tile).mpr ⟨by simp, ends.trans meets⟩]
      simp
  next apart =>
    rw [Bool.and_eq_true, beq_iff_eq, decide_eq_true_iff] at apart
    rw [List.find?_eq_none]
    intro token member
    rw [beq_iff_eq]
    rcases List.mem_append.mp member with inEarlier | inLater
    · have ends := parted.stop_le inEarlier
      have bounds := bounds_of_tile parted.tiled inEarlier
      omega
    · have ends := parted.lt_stop inLater
      omega

end Parted

/-- The answer for the token that ends at an offset and the one that contains it. -/
def tokensOfSides : (left? right? : Option Place) → TokensAt
  | some left, some right => .between left right
  | some token, none => .single token
  | none, some token => .single token
  | none, none => .none

theorem rightBiased_tokensOfSides (left? right? : Option Place) :
    (tokensOfSides left? right?).rightBiased = right?.or left? := by
  cases left? <;> cases right? <;> rfl

/-- Searching the flat list of tokens finds the token that ends at the offset and the
one that contains it. -/
theorem tokensAt_eq_tokensOfSides
    (tile : Span.Tile place.start place.stop (place.tokens.map span)) (offset : Nat) :
    place.tokensAt offset =
      tokensOfSides (place.tokens.find? fun token => token.stop == offset)
        (place.tokens.find? fun token => token.span.contains offset) := by
  by_cases touched : place.span.touches offset = true
  · have begun := (touches_span.mp touched).1
    obtain ⟨earlier, later, middle, split, around, parted⟩ := exists_parted offset tile none
    rw [split] at tile
    have starts : place.span.start = place.start := rfl
    rw [tokensAt, if_pos touched, starts, around, split, parted.find?_contains tile begun,
      parted.find?_stop tile begun]
    simp only [parted.middle_le begun, if_true, Option.or_none]
    generalize (if middle == offset && decide (place.start < offset) then earlier.getLast?
      else none) = left?
    cases left? <;> cases later.head? <;> rfl
  · rw [touches_span] at touched
    have noneEnds : place.tokens.find? (fun token => token.stop == offset) = none := by
      rw [List.find?_eq_none]
      intro token member
      have bounds := bounds_of_tile tile member
      rw [beq_iff_eq]
      omega
    have noneContains :
        place.tokens.find? (fun token => token.span.contains offset) = none := by
      rw [List.find?_eq_none]
      intro token member
      have bounds := bounds_of_tile tile member
      rw [contains_span]
      omega
    rw [tokensAt, if_neg (by rwa [touches_span]), noneEnds, noneContains]
    rfl

mutual

theorem stop_sinkInto (accepts : Tree → Span → Bool) (outer : List Crumb) :
    ∀ (tree : Tree) (start : Nat),
      (sinkInto accepts outer tree start).2 = start + tree.length
  | .token _ _, _ => rfl
  | .node kind trees, start => stop_sinkAmong accepts kind outer [] trees start

theorem stop_sinkAmong (accepts : Tree → Span → Bool) (kind : Kind) (outer : List Crumb)
    (before : List Tree) :
    ∀ (trees : List Tree) (start : Nat),
      (sinkAmong accepts kind outer before trees start).2 = start + Tree.totalLength trees
  | [], _ => rfl
  | tree :: after, start => by
      rw [sinkAmong, stop_sinkAmong, stop_sinkInto, Tree.totalLength, Nat.add_assoc]

end

theorem sinkAmong_cons (accepts : Tree → Span → Bool) (kind : Kind) (outer : List Crumb)
    (before : List Tree) (tree : Tree) (after : List Tree) (start : Nat) :
    (sinkAmong accepts kind outer before (tree :: after) start).1 =
      if accepts tree ⟨start, start + tree.length⟩ then
        some (sinkInto accepts (⟨kind, before, after⟩ :: outer) tree start).1
      else (sinkAmong accepts kind outer (tree :: before) after (start + tree.length)).1 := by
  rw [← stop_sinkInto accepts (⟨kind, before, after⟩ :: outer) tree start]
  rfl

theorem sinkAmong_eq (accepts : Tree → Span → Bool) (kind : Kind) (outer : List Crumb)
    (before trees : List Tree) :
    (sinkAmong accepts kind outer before trees
        (Tree.totalLength before + Crumb.offset outer)).1 =
      ((among kind outer before trees).find? fun child =>
        accepts child.focus child.span).map (sink accepts) := by
  induction trees generalizing before with
  | nil => rfl
  | cons tree after ih =>
      have behind : Tree.totalLength before + Crumb.offset outer + tree.length =
          Tree.totalLength (tree :: before) + Crumb.offset outer := by
        rw [Tree.totalLength]
        omega
      have here : span ⟨tree, ⟨kind, before, after⟩ :: outer⟩ =
          ⟨Tree.totalLength before + Crumb.offset outer,
            Tree.totalLength before + Crumb.offset outer + tree.length⟩ := rfl
      rw [sinkAmong_cons, among, List.find?_cons, here, behind, ih]
      cases accepts tree _ <;> rfl

/-- Going down continues in the first child that is accepted. -/
theorem sink_eq (accepts : Tree → Span → Bool) (place : Place) :
    place.sink accepts =
      ((place.children.find? fun child => accepts child.focus child.span).map
        (sink accepts)).getD place := by
  obtain ⟨focus, above⟩ := place
  cases focus with
  | token kind length => rfl
  | node kind trees =>
      have among := sinkAmong_eq accepts kind above [] trees
      rw [Tree.totalLength, Nat.zero_add] at among
      rw [children, ← among]
      rfl

/-- Going down ends at a place below that was accepted, unless it never went down, and
none of whose children is accepted. -/
theorem sink_spec (accepts : Tree → Span → Bool) (place : Place) :
    place.sink accepts ∈ place.preorder ∧
      (place.sink accepts = place ∨
        accepts (place.sink accepts).focus (place.sink accepts).span = true) ∧
      ∀ child ∈ (place.sink accepts).children, accepts child.focus child.span = false := by
  obtain ⟨focus, above⟩ := place
  induction focus using Tree.induct generalizing above with
  | token kind length => exact ⟨mem_preorder_self _, .inl rfl, by simp [sink_eq, children]⟩
  | node kind trees ih =>
      rw [sink_eq]
      cases found : (children ⟨.node kind trees, above⟩).find? fun child =>
          accepts child.focus child.span with
      | none =>
          refine ⟨mem_preorder_self _, .inl rfl, ?_⟩
          simpa using List.find?_eq_none.mp found
      | some child =>
          have childIn := List.mem_of_find?_eq_some found
          have accepted := List.find?_some found
          obtain ⟨earlier, tree, after, rfl, rfl⟩ := mem_among childIn
          obtain ⟨below, reached, last⟩ := ih tree (by simp) _
          refine ⟨mem_preorder_iff.mpr (.inr ⟨_, childIn, below⟩), .inr ?_, last⟩
          rcases reached with same | accepts
          · simp only [Option.map_some, Option.getD_some, same]
            exact accepted
          · exact accepts

theorem map_pair_tokens (place : Place) :
    place.tokens.map (fun token => (token.kind, token.length)) = place.focus.leaves := by
  have spans := congrArg (List.map fun leaf => (leaf.1, leaf.2.length)) (map_tokens place)
  rw [Tree.map_length_spansFrom, List.map_map] at spans
  rw [← spans]
  refine List.map_congr_left fun token _ => ?_
  simp [Span.length, span]

/-- The root is a node, and no other element of the tree is empty. -/
structure Solid (root : Tree) : Prop where
  isNode : root.isNode = true
  positive : ∀ place ∈ preorder ⟨root, []⟩, place ≠ ⟨root, []⟩ → 0 < place.length

/-- The tree of every parse is solid. -/
theorem solid_ofText (dialect : Dialect) (text : Bytes) :
    Solid (Parse.ofText dialect text).root := by
  rcases Parse.ofText_cases dialect text with ⟨-, read⟩ | ⟨-, refused⟩
  · have covers := Parse.covers_entire dialect text
    rw [read]
    refine ⟨?_, fun place member notRoot => ?_⟩
    · rw [Reading.snapshotOf_passages]
      rfl
    · have notEmpty := mt (covers.nonempty place member) notRoot
      omega
  · rw [refused]
    exact ⟨rfl, fun place member notRoot => absurd (List.mem_singleton.mp member) notRoot⟩

namespace Solid

variable {root : Tree} {child : Place} {range : Span}

theorem tile_children (solid : Solid root) (within : place ∈ preorder ⟨root, []⟩)
    (isNode : place.isNode = true) :
    Span.Tile place.start place.stop (place.children.map span) := by
  refine Place.tile_children isNode fun child childIn => ?_
  refine solid.positive child (children_subset_preorder within child childIn) ?_
  rintro rfl
  have up := parent?_of_mem_children childIn
  contradiction

theorem tile_tokens (solid : Solid root) (within : place ∈ preorder ⟨root, []⟩) :
    Span.Tile place.start place.stop (place.tokens.map span) := by
  have positive : ∀ leaf ∈ place.focus.leaves, 0 < leaf.2 := by
    rw [← map_pair_tokens]
    intro leaf member
    obtain ⟨token, tokenIn, rfl⟩ := List.mem_map.mp member
    obtain ⟨below, isToken⟩ := List.mem_filter.mp tokenIn
    refine solid.positive token (preorder_subset_preorder within token below) ?_
    rintro rfl
    simp [Place.isToken, Tree.isToken, solid.isNode] at isToken
  have tiled := Tree.tile_spansFrom positive place.start
  have spans := congrArg (List.map Prod.snd) (map_tokens place)
  rw [List.map_map] at spans
  rw [Tree.leafLength_leaves, ← spans] at tiled
  exact tiled

theorem stop_le_length (solid : Solid root) :
    ∀ place ∈ preorder ⟨root, []⟩, place.stop ≤ root.length := by
  have atRoot : (⟨root, []⟩ : Place) ∈ preorder ⟨root, []⟩ ∧
      Place.stop ⟨root, []⟩ ≤ root.length :=
    ⟨mem_preorder_self _, by simp [Place.stop, start, Place.length, Crumb.offset]⟩
  intro place member
  refine (forall_mem_preorder
    (motive := fun place => place ∈ preorder ⟨root, []⟩ ∧ place.stop ≤ root.length)
    (fun parent holds child childIn => ?_) atRoot place member).2
  have tiled := solid.tile_children holds.1 (isNode_of_mem_children childIn)
  have within := (bounds_of_tile tiled childIn).2.2
  exact ⟨children_subset_preorder holds.1 child childIn, Nat.le_trans within holds.2⟩

end Solid

/-- The tokens found at an offset are those that contain or bound it. -/
structure FindsTokens (place : Place) (offset : Nat) : Prop where
  none_iff :
    place.tokensAt offset = .none ↔
      place.tokens = [] ∨ offset < place.start ∨ place.stop < offset
  between_iff (left right : Place) :
    place.tokensAt offset = .between left right ↔
      (left ∈ place.tokens ∧ right ∈ place.tokens) ∧
        (place.start < offset ∧ offset < place.stop) ∧
        left.stop = offset ∧ right.start = offset
  single_iff (token : Place) :
    place.tokensAt offset = .single token ↔
      (token ∈ place.tokens ∧ token.span.touches offset = true) ∧
        ∀ other ∈ place.tokens, other.span.touches offset = true → other = token

/-- The node found around an offset is the parent of the token to the right of it. -/
structure FindsNode (root : Tree) (offset : Nat) : Prop where
  none_iff : nodeAt? root offset = none ↔ root.length < offset
  parent :
    0 < root.length → offset ≤ root.length →
      ∃ token node, (tokensAt ⟨root, []⟩ offset).rightBiased = some token ∧
        token.parent? = some node ∧ nodeAt? root offset = some node

/-- The element found around a range inside a place is the smallest one, for a single
byte the token to the right of it. -/
structure FindsCovering (place : Place) (range : Span) : Prop where
  below : place.covering range ∈ place.preorder
  covers : (place.covering range).span.covers range = true
  smallest : ∀ child ∈ (place.covering range).children, child.span.covers range = false
  byte : range.length = 1 →
    (place.tokensAt range.start).rightBiased = some (place.covering range)

section

variable {left? right? : Option Place}

theorem tokensOfSides_eq_none :
    tokensOfSides left? right? = .none ↔ left? = none ∧ right? = none := by
  cases left? <;> cases right? <;> simp [tokensOfSides]

theorem tokensOfSides_eq_between :
    tokensOfSides left? right? = .between left right ↔
      left? = some left ∧ right? = some right := by
  cases left? <;> cases right? <;> simp [tokensOfSides]

theorem tokensOfSides_eq_single :
    tokensOfSides left? right? = .single token ↔
      left? = some token ∧ right? = none ∨ left? = none ∧ right? = some token := by
  cases left? <;> cases right? <;> simp [tokensOfSides]

end

/-- The token of a place that ends at an offset, and the one that contains it. -/
structure Sides (place : Place) (offset : Nat) (left? right? : Option Place) : Prop where
  left (token : Place) :
    left? = some token ↔ token ∈ place.tokens ∧ token.stop = offset
  right (token : Place) :
    right? = some token ↔ token ∈ place.tokens ∧ token.start ≤ offset ∧ offset < token.stop

/-- The tokens at an offset are those on its two sides. -/
theorem exists_sides (tile : Span.Tile place.start place.stop (place.tokens.map span))
    (offset : Nat) :
    ∃ left? right?, place.tokensAt offset = tokensOfSides left? right? ∧
      place.Sides offset left? right? :=
  ⟨_, _, tokensAt_eq_tokensOfSides tile offset, fun _ => find?_stop_eq_some tile,
    fun _ => find?_contains_eq_some tile⟩

namespace Sides

variable {left? right? : Option Place}

theorem touches_iff (sides : place.Sides offset left? right?)
    (tile : Span.Tile place.start place.stop (place.tokens.map span)) (token : Place) :
    token ∈ place.tokens ∧ token.span.touches offset = true ↔
      left? = some token ∨ right? = some token := by
  rw [sides.left, sides.right, touches_span, ← and_or_left]
  refine and_congr_right fun member => ?_
  have nonempty := (bounds_of_tile tile member).2.1
  omega

theorem right_ne (sides : place.Sides offset left? right?) (token : Place)
    (isLeft : left? = some token) : right? ≠ some token := by
  rw [sides.left] at isLeft
  rw [Ne, sides.right]
  omega

theorem none_iff (sides : place.Sides offset left? right?)
    (tile : Span.Tile place.start place.stop (place.tokens.map span)) :
    tokensOfSides left? right? = .none ↔
      place.tokens = [] ∨ offset < place.start ∨ place.stop < offset := by
  rw [tokensOfSides_eq_none]
  constructor
  · rintro ⟨noLeft, noRight⟩
    by_cases empty : place.tokens = []
    · exact .inl empty
    · obtain ⟨token, member⟩ := List.exists_mem_of_ne_nil _ empty
      refine .inr (Decidable.byContradiction fun inside => ?_)
      have within := bounds_of_tile tile member
      -- The byte to the right of the offset, or the last one at the very end.
      obtain ⟨byte, isByte⟩ : ∃ byte, byte = min offset (place.stop - 1) := ⟨_, rfl⟩
      have begun : place.start ≤ byte := by omega
      obtain ⟨span, spanIn, holds⟩ := tile.exists_contains begun (by omega)
      obtain ⟨other, otherIn, rfl⟩ := List.mem_map.mp spanIn
      rw [contains_span] at holds
      have otherBounds := bounds_of_tile tile otherIn
      have touches : other.span.touches offset = true := touches_span.mpr (by omega)
      have side := (sides.touches_iff tile other).mp ⟨otherIn, touches⟩
      simp [noLeft, noRight] at side
  · intro outside
    have untouched (token : Place) : ¬ (left? = some token ∨ right? = some token) := by
      rw [← sides.touches_iff tile, touches_span]
      rintro ⟨member, touches⟩
      have within := bounds_of_tile tile member
      rcases outside with empty | before | behind
      · simp [empty] at member
      · omega
      · omega
    simp only [not_or] at untouched
    exact ⟨Option.eq_none_iff_forall_ne_some.mpr fun token => (untouched token).1,
      Option.eq_none_iff_forall_ne_some.mpr fun token => (untouched token).2⟩

theorem between_iff (sides : place.Sides offset left? right?)
    (tile : Span.Tile place.start place.stop (place.tokens.map span)) :
    tokensOfSides left? right? = .between left right ↔
      (left ∈ place.tokens ∧ right ∈ place.tokens) ∧
        (place.start < offset ∧ offset < place.stop) ∧
        left.stop = offset ∧ right.start = offset := by
  rw [tokensOfSides_eq_between, sides.left, sides.right]
  constructor
  · rintro ⟨⟨leftIn, ends⟩, rightIn, starts, behind⟩
    have leftBounds := bounds_of_tile tile leftIn
    have rightBounds := bounds_of_tile tile rightIn
    have starts : right.start = offset := by
      rcases apart_of_tile tile leftIn rightIn with rfl | before | crossed <;> omega
    exact ⟨⟨leftIn, rightIn⟩, by omega, ends, starts⟩
  · rintro ⟨⟨leftIn, rightIn⟩, -, ends, starts⟩
    have rightBounds := bounds_of_tile tile rightIn
    exact ⟨⟨leftIn, ends⟩, rightIn, by omega⟩

theorem single_iff (sides : place.Sides offset left? right?)
    (tile : Span.Tile place.start place.stop (place.tokens.map span)) :
    tokensOfSides left? right? = .single token ↔
      (token ∈ place.tokens ∧ token.span.touches offset = true) ∧
        ∀ other ∈ place.tokens, other.span.touches offset = true → other = token := by
  rw [tokensOfSides_eq_single, sides.touches_iff tile]
  constructor
  · intro single
    have only (other : Place) (side : left? = some other ∨ right? = some other) :
        other = token := by
      rcases single with ⟨isLeft, noRight⟩ | ⟨noLeft, isRight⟩ <;> simp_all
    refine ⟨?_, fun other member touches => ?_⟩
    · rcases single with ⟨isLeft, -⟩ | ⟨-, isRight⟩
      · exact .inl isLeft
      · exact .inr isRight
    · exact only other ((sides.touches_iff tile other).mp ⟨member, touches⟩)
  · rintro ⟨side, alone⟩
    have only (other : Place) (otherSide : left? = some other ∨ right? = some other) :
        other = token := by
      obtain ⟨member, touches⟩ := (sides.touches_iff tile other).mpr otherSide
      exact alone other member touches
    rcases side with isLeft | isRight
    · refine .inl ⟨isLeft, Option.eq_none_iff_forall_ne_some.mpr fun other isRight => ?_⟩
      obtain rfl := only other (.inr isRight)
      exact sides.right_ne _ isLeft isRight
    · refine .inr ⟨Option.eq_none_iff_forall_ne_some.mpr fun other isLeft => ?_, isRight⟩
      obtain rfl := only other (.inl isLeft)
      exact sides.right_ne _ isLeft isRight

end Sides

theorem findsTokens_of_tile
    (tile : Span.Tile place.start place.stop (place.tokens.map span)) (offset : Nat) :
    place.FindsTokens offset := by
  obtain ⟨left?, right?, found, sides⟩ := exists_sides tile offset
  exact ⟨found ▸ sides.none_iff tile, fun _ _ => found ▸ sides.between_iff tile,
    fun _ => found ▸ sides.single_iff tile⟩

theorem mem_tokens (below : token ∈ place.preorder) (notNode : token.isNode = false) :
    token ∈ place.tokens := by
  refine List.mem_filter.mpr ⟨below, ?_⟩
  rw [isToken, Tree.isToken, ← isNode, notNode]
  rfl

/-- A span counts as covering an offset if it contains it, and at the end of the text if
it ends there. -/
def coversEnd (length offset : Nat) (span : Span) : Bool :=
  span.contains offset || (span.stop == offset && offset == length)

theorem nodeAt?_eq (root : Tree) (offset : Nat) :
    nodeAt? root offset =
      if offset ≤ root.length then
        some (sink (fun tree span => tree.isNode && coversEnd root.length offset span)
          ⟨root, []⟩)
      else none := by
  have whole : coversEnd root.length offset ⟨0, root.length⟩ = true ↔
      offset ≤ root.length := by
    simp [coversEnd, Span.contains]
    omega
  simp only [← whole]
  rfl

/-- In a solid tree a place covers an offset up to the end if it contains the byte there,
or the last one at the very end. -/
theorem coversEnd_span {length : Nat} (nonempty : 0 < place.length)
    (within : place.stop ≤ length) (reached : offset ≤ length) :
    coversEnd length offset place.span = true ↔
      place.start ≤ min offset (length - 1) ∧ min offset (length - 1) < place.stop := by
  have stops : place.span.stop = place.stop := rfl
  have extent : place.stop = place.start + place.length := rfl
  rw [coversEnd, Bool.or_eq_true, Bool.and_eq_true, beq_iff_eq, beq_iff_eq, contains_span,
    stops]
  omega

namespace Solid

variable {root : Tree} {range : Span} {byte : Nat}

theorem exists_child (solid : Solid root) (within : place ∈ preorder ⟨root, []⟩)
    (isNode : place.isNode = true) (begun : place.start ≤ byte) (before : byte < place.stop) :
    ∃ child ∈ place.children, child.start ≤ byte ∧ byte < child.stop := by
  obtain ⟨span, spanIn, holds⟩ :=
    (solid.tile_children within isNode).exists_contains begun before
  obtain ⟨child, childIn, rfl⟩ := List.mem_map.mp spanIn
  exact ⟨child, childIn, contains_span.mp holds⟩

/-- The token to the right of an offset is the one that contains the byte there, or the
last byte at the very end. -/
theorem rightBiased_root (solid : Solid root) (reached : offset ≤ root.length)
    (member : token ∈ tokens ⟨root, []⟩)
    (begun : token.start ≤ min offset (root.length - 1))
    (before : min offset (root.length - 1) < token.stop) :
    (tokensAt ⟨root, []⟩ offset).rightBiased = some token := by
  have tile := solid.tile_tokens (mem_preorder_self _)
  obtain ⟨left?, right?, found, sides⟩ := exists_sides tile offset
  have within := solid.stop_le_length token (List.mem_filter.mp member).1
  rw [found, rightBiased_tokensOfSides]
  by_cases inside : offset < root.length
  · rw [(sides.right token).mpr ⟨member, by omega⟩]
    rfl
  · have noRight : right? = none := by
      rw [Option.eq_none_iff_forall_ne_some]
      intro other isRight
      obtain ⟨otherIn, -, behind⟩ := (sides.right other).mp isRight
      have otherWithin := solid.stop_le_length other (List.mem_filter.mp otherIn).1
      omega
    rw [noRight, Option.none_or]
    exact (sides.left token).mpr ⟨member, by omega⟩

theorem findsNode (solid : Solid root) (offset : Nat) : FindsNode root offset := by
  refine ⟨?_, fun nonempty reached => ?_⟩
  · rw [nodeAt?_eq]
    split <;> simp <;> omega
  · obtain ⟨below, accepted, last⟩ := sink_spec
      (fun tree span => tree.isNode && coversEnd root.length offset span) ⟨root, []⟩
    obtain ⟨node, nodeEq⟩ : ∃ node, node = sink
      (fun tree span => tree.isNode && coversEnd root.length offset span) ⟨root, []⟩ :=
      ⟨_, rfl⟩
    rw [← nodeEq] at below accepted last
    have nonemptyAll (place : Place) (within : place ∈ preorder ⟨root, []⟩) :
        0 < place.length := by
      by_cases isRoot : place = ⟨root, []⟩
      · exact isRoot ▸ nonempty
      · exact solid.positive place within isRoot
    have covers (place : Place) (within : place ∈ preorder ⟨root, []⟩) :
        coversEnd root.length offset place.span = true ↔
          place.start ≤ min offset (root.length - 1) ∧
            min offset (root.length - 1) < place.stop :=
      coversEnd_span (nonemptyAll place within) (solid.stop_le_length place within) reached
    have isNode : node.isNode = true ∧ coversEnd root.length offset node.span = true := by
      rcases accepted with rfl | accepted
      · refine ⟨solid.isNode, (covers _ below).mpr ?_⟩
        simp only [start, Place.stop, Crumb.offset, Place.length]
        omega
      · exact (Bool.and_eq_true _ _).mp accepted
    obtain ⟨begun, before⟩ := (covers node below).mp isNode.2
    obtain ⟨token, childIn, contains⟩ := solid.exists_child below isNode.1 begun before
    have tokenBelow := children_subset_preorder below token childIn
    have notNode : token.isNode = false := by
      have refused := last token childIn
      rw [(covers token tokenBelow).mpr contains, Bool.and_true] at refused
      exact refused
    refine ⟨token, node, ?_, parent?_of_mem_children childIn, ?_⟩
    · exact solid.rightBiased_root reached (mem_tokens tokenBelow notNode) contains.1 contains.2
    · rw [nodeAt?_eq, if_pos reached, nodeEq]

theorem findsCovering (solid : Solid root) (within : place ∈ preorder ⟨root, []⟩)
    (nonempty : range.start < range.stop) (covers : place.span.covers range = true) :
    place.FindsCovering range := by
  obtain ⟨below, accepted, last⟩ := sink_spec (fun _ own => own.covers range) place
  change place.covering range ∈ _ at below
  change place.covering range = place ∨ (place.covering range).span.covers range = true
    at accepted
  have holds : (place.covering range).span.covers range = true := by
    rcases accepted with same | accepted
    · rwa [same]
    · exact accepted
  refine ⟨below, holds, last, fun single => ?_⟩
  rw [Span.length] at single
  have belowRoot := preorder_subset_preorder within _ below
  have bounds := covers_span.mp holds
  have notNode : (place.covering range).isNode = false := by
    refine Bool.eq_false_iff.mpr fun isNode => ?_
    obtain ⟨child, childIn, contains⟩ :=
      solid.exists_child belowRoot isNode bounds.1 (by omega)
    have refused := last child childIn
    rw [Bool.eq_false_iff, Ne, covers_span] at refused
    omega
  obtain ⟨left?, right?, found, sides⟩ :=
    exists_sides (solid.tile_tokens within) range.start
  rw [found, rightBiased_tokensOfSides,
    (sides.right _).mpr ⟨mem_tokens below notNode, bounds.1, by omega⟩]
  rfl

end Solid

/-- The three position lookups agree in every tree without empty elements, and the tree
of a parse is one. -/
theorem lookups_agree :
    (∀ dialect text, Solid (Parse.ofText dialect text).root) ∧
      ∀ root, Solid root →
        (∀ offset, FindsNode root offset) ∧
        ∀ place ∈ preorder ⟨root, []⟩, place.isNode = true →
          (∀ offset, place.FindsTokens offset) ∧
          ∀ range : Span, range.start < range.stop → place.span.covers range = true →
            place.FindsCovering range :=
  ⟨solid_ofText, fun _ solid => ⟨solid.findsNode, fun _ within _ =>
    ⟨findsTokens_of_tile (solid.tile_tokens within), fun _ => solid.findsCovering within⟩⟩⟩

/-- The boundary between the instruction of a line and the line's end, the end of the
text, and a range across both tokens. -/
theorem lookups_agree_instructionLine :
    let line : Tree := .node .line [.node .instruction [.token .mnemonic 3], .token .eol 1]
    let root : Tree := .node .sourceFile [line]
    let place : Place := ⟨line, [⟨.sourceFile, [], []⟩]⟩
    (Solid root ∧ place ∈ preorder ⟨root, []⟩ ∧ place.isNode = true ∧
        place.span.covers ⟨2, 4⟩ = true) ∧
      FindsNode root 4 ∧ place.FindsTokens 3 ∧ place.FindsCovering ⟨2, 4⟩ ∧
      nodeAt? root 4 = some place ∧ place.covering ⟨2, 4⟩ = place := by
  intro line root place
  have solid : Solid root := ⟨rfl, by decide⟩
  have within : place ∈ preorder ⟨root, []⟩ := by decide
  have covers : place.span.covers ⟨2, 4⟩ = true := by decide
  obtain ⟨findsNode, findsBelow⟩ := lookups_agree.2 root solid
  obtain ⟨findsTokens, findsCovering⟩ := findsBelow place within rfl
  exact ⟨⟨solid, within, rfl, covers⟩, findsNode 4, findsTokens 3,
    findsCovering ⟨2, 4⟩ (by decide) covers, by decide, by decide⟩

end Place
end Asm6502
