import Asm6502.Proofs.MatchEnumeration
import Asm6502.Proofs.ParseShape
import Asm6502.Proofs.PrintedQueries
import Asm6502.Proofs.TextPlaces
import Mathlib.Data.List.Find

/-!
# Named kinds in queries

A pattern of nothing but the name of a kind reports the elements of that kind in preorder,
and one inside of a pattern for the kind of a node tells whether such an element is a child
of the node.  That holds for every named kind but one: a search passes over trivia, at the
cursor and among children, so comments are named and still never found.
-/

namespace Asm6502

namespace Kind

theorem isNode_of_isBlock {kind : Kind} (isBlock : kind.isBlock = true) :
    kind.isNode = true := by
  cases kind <;> first | rfl | contradiction

theorem isTrivia_of_isNode {kind : Kind} (isNode : kind.isNode = true) :
    kind.isTrivia = false := by
  cases kind <;> first | rfl | contradiction

theorem ne_tombstone_of_isNamed {kind : Kind} (isNamed : kind.isNamed = true) :
    kind ≠ .tombstone := by
  rintro rfl
  contradiction

theorem ne_tombstone_of_isNode {kind : Kind} (isNode : kind.isNode = true) :
    kind ≠ .tombstone := by
  rintro rfl
  contradiction

/-- Comments are the only trivia with a name. -/
theorem isTrivia_of_isNamed {kind : Kind} (isNamed : kind.isNamed = true)
    (notComment : kind ≠ .comment) : kind.isTrivia = false := by
  cases kind <;> first | rfl | contradiction

end Kind

namespace Place

theorem Stands.isNode_kind {place : Place} (stands : Stands place)
    (isNode : place.isNode = true) : place.kind.isNode = true := by
  cases stands with
  | root => rfl
  | @passage tree _ shape =>
      rcases kind_cases_of_passage shape with isLine | isBlock
      · have kind : tree.kind.isNode = true := by
          rw [isLine]
          rfl
        exact kind
      · exact Kind.isNode_of_isBlock isBlock
  | inside shape =>
      cases shape with
      | token => contradiction
      | node isInline => exact isInline.1
  | lineEnd => contradiction

theorem find?_significant {kind : Kind} (notTrivia : kind.isTrivia = false) (place : Place) :
    (place.significant.find? fun child => child.kind = kind) =
      place.children.find? fun child => child.kind = kind := by
  rw [significant, List.find?_filter]
  refine List.find?_congr fun child _ => ?_
  by_cases same : child.kind = kind
  · simp [same, isTrivia, notTrivia]
  · simp [same]

theorem find?_significant_eq_none {kind : Kind} (isTrivia : kind.isTrivia = true)
    (place : Place) : (place.significant.find? fun child => child.kind = kind) = none := by
  rw [List.find?_eq_none]
  intro child member same
  have notTrivia := (List.mem_filter.mp member).2
  rw [decide_eq_true_eq] at same
  simp [Place.isTrivia, same, isTrivia] at notTrivia

end Place

theorem Parse.isNode_kind_ofText (dialect : Dialect) (text : Bytes) {place : Place}
    (member : place ∈ (ofText dialect text).places) (isNode : place.isNode = true) :
    place.kind.isNode = true := by
  rcases ofText_cases dialect text with ⟨-, read⟩ | ⟨-, refused⟩
  · have holds := Reading.holds_passages dialect text
    rw [places, read, Reading.snapshotOf_passages] at member
    exact (Place.stands_of_mem_preorder holds.shape place member).isNode_kind isNode
  · rw [refused] at member
    rw [kind_of_mem_places_rejected member]
    rfl

theorem Arena.Keeps.significant {arena : Arena} {tree : Tree} {place : Place}
    (keeps : arena.Keeps tree) (member : place ∈ Place.preorder ⟨tree, []⟩) :
    arena.significant place.handle = place.significant.map Place.handle := by
  rw [Arena.significant, keeps.children member, List.filter_map, Place.significant]
  refine congrArg _ (List.filter_congr fun child childIn => ?_)
  have below := Place.children_subset_preorder member child childIn
  rw [Function.comp_apply, Arena.isTrivia, keeps.kind below]
  rfl

namespace Query

open Phrase (AllFit NameFits)

/-- A pattern of nothing but the name of a kind, captured. -/
def elementSource (kind : Kind) : String :=
  "(" ++ kind.name ++ ") @c"

/-- A pattern for elements of a kind with a captured child of another kind. -/
def parentSource (outer inner : Kind) : String :=
  "(" ++ outer.name ++ " (" ++ inner.name ++ ") @c)"

def elementPattern (kind : Kind) : Pattern :=
  ⟨.kind kind, some 0, []⟩

def parentPattern (outer inner : Kind) : Pattern :=
  ⟨.kind outer, none, [elementPattern inner]⟩

theorem nameFits_c : NameFits "c" :=
  ⟨'c', [], rfl, rfl, by simp⟩

theorem lays_element (kind : Kind) {gap source : List Char} {rest : List Lexeme}
    (isGap : Lexeme.Gap gap) (ends : source.head?.any Token.continuesCapture = false)
    (lays : Lexeme.Lays rest source) :
    Lexeme.Lays (Phrase.print (.node (some kind) [] (some "c")) ++ rest)
      (gap ++ '(' :: (kind.name.toList ++ ')' :: ' ' :: '@' :: 'c' :: source)) := by
  have capture : Lexeme.Lays ((.capture, ['@', 'c']) :: rest) (' ' :: '@' :: 'c' :: source) :=
    .next (.blank rfl .nil) ends lays
  have closing : Lexeme.Lays ((.rightParen, [')']) :: (.capture, ['@', 'c']) :: rest)
      (')' :: ' ' :: '@' :: 'c' :: source) :=
    .next .nil trivial capture
  have name : Lexeme.Lays (Phrase.headLexeme (some kind) ::
      (.rightParen, [')']) :: (.capture, ['@', 'c']) :: rest)
      (kind.name.toList ++ ')' :: ' ' :: '@' :: 'c' :: source) :=
    .next .nil rfl closing
  exact .next isGap trivial name

theorem compile_elementSource {kind : Kind} (known : kind ≠ .tombstone) :
    compile (elementSource kind) = .ok ⟨[elementPattern kind], ["c"]⟩ := by
  have fits : AllFit 0 [.node (some kind) [] (some "c")] :=
    ⟨⟨by decide, by simpa using known, trivial, by simpa using nameFits_c⟩, trivial⟩
  have lays := lays_element kind .nil rfl (.done .nil)
  have source : (elementSource kind).toList =
      '(' :: (kind.name.toList ++ [')', ' ', '@', 'c']) := by
    simp [elementSource]
  exact compile_printed fits (source ▸ lays)

theorem compile_parentSource {outer inner : Kind} (outerKnown : outer ≠ .tombstone)
    (innerKnown : inner ≠ .tombstone) :
    compile (parentSource outer inner) = .ok ⟨[parentPattern outer inner], ["c"]⟩ := by
  have fits : AllFit 0 [.node (some outer) [.node (some inner) [] (some "c")] none] :=
    ⟨⟨by decide, by simpa using outerKnown,
      ⟨⟨by decide, by simpa using innerKnown, trivial, by simpa using nameFits_c⟩, trivial⟩,
      by simp⟩, trivial⟩
  have closing : Lexeme.Lays [(.rightParen, [')'])] [')'] := .next .nil trivial (.done .nil)
  have blank : Lexeme.Gap [' '] := .blank rfl .nil
  have element := lays_element inner blank rfl closing
  have head : Lexeme.Lays (Phrase.headLexeme (some outer) ::
      (Phrase.print (.node (some inner) [] (some "c")) ++ [(.rightParen, [')'])]))
      (outer.name.toList ++ ' ' :: '(' :: (inner.name.toList ++ [')', ' ', '@', 'c', ')'])) :=
    .next .nil rfl element
  have source : (parentSource outer inner).toList =
      '(' :: (outer.name.toList ++
        ' ' :: '(' :: (inner.name.toList ++ [')', ' ', '@', 'c', ')'])) := by
    simp [parentSource]
  exact compile_printed fits (source ▸ .next .nil trivial head)

theorem tryAt_element (arena : Arena) (kind : Kind) (element : Handle) (noted : List Capture) :
    (elementPattern kind).tryAt arena element noted =
      if arena.kind element = kind then (true, noted ++ [⟨0, element⟩]) else (false, noted) := by
  simp [elementPattern, Pattern.tryAt, Matcher.accepts]

theorem match?_element (arena : Arena) (kind : Kind) (element : Handle) :
    (elementPattern kind).match? arena element =
      if arena.kind element = kind then some [⟨0, element⟩] else none := by
  rw [Pattern.match?, tryAt_element]
  by_cases same : arena.kind element = kind <;> simp [same]

theorem tryAll_element (arena : Arena) (kind : Kind) (elements : List Handle)
    (noted : List Capture) :
    Pattern.tryAll arena [elementPattern kind] elements noted =
      match elements.find? fun element => arena.kind element = kind with
      | some element => (true, noted ++ [⟨0, element⟩])
      | none => (false, noted) := by
  induction elements with
  | nil => rfl
  | cons element rest ih =>
      rw [Pattern.tryAll, Trial.first, tryAt_element, List.find?_cons]
      by_cases same : arena.kind element = kind
      · simp [same, Pattern.tryAll]
      · rw [Pattern.tryAll] at ih
        simpa [same] using ih

theorem match?_parent (arena : Arena) (outer inner : Kind) (element : Handle) :
    (parentPattern outer inner).match? arena element =
      if arena.kind element = outer then
        ((arena.significant element).find? fun child => arena.kind child = inner).map
          fun child => [⟨0, child⟩]
      else none := by
  rw [Pattern.match?, parentPattern, Pattern.tryAt]
  by_cases same : arena.kind element = outer
  · cases element with
    | token number =>
        simp [Matcher.accepts, same, Handle.isToken, Arena.significant, Arena.children]
    | node number =>
        have tried := tryAll_element arena inner (arena.significant (.node number)) []
        cases found : (arena.significant (.node number)).find?
            fun child => arena.kind child = inner with
        | none =>
            rw [found] at tried
            simp [Matcher.accepts, same, Handle.isToken, tried]
        | some child =>
            rw [found] at tried
            simp [Matcher.accepts, same, Handle.isToken, tried]
  · simp [Matcher.accepts, same]

/-- One match for each of some elements, which it captures. -/
def capturing (elements : List Place) : List Match :=
  elements.map fun element => ⟨0, [⟨0, element.handle⟩]⟩

/-- A source compiles, and the query has these matches at and below the root. -/
def Reports (arena : Arena) (source : String) (found : List Match) : Prop :=
  ∃ query, compile source = .ok query ∧ query.matchesBelow arena 0 = some found

/-- A source compiles, and the query has a match at an element. -/
def MatchesAt (arena : Arena) (source : String) (element : Handle) : Prop :=
  ∃ query, compile source = .ok query ∧ matchesAt arena element 0 query.patterns ≠ []

theorem matchesAt_singleton (arena : Arena) (pattern : Pattern) (element : Handle) :
    matchesAt arena element 0 [pattern] =
      if arena.isTrivia element then []
      else ((pattern.match? arena element).map (Match.mk 0)).toList := by
  rw [matchesAt]
  cases tried : pattern.match? arena element <;> simp [tried]

section

variable {arena : Arena} {text : Bytes} {tree : Tree} (laid : arena.Over text tree)
include laid

theorem matchesBelow_singleton (pattern : Pattern) (names : List String) :
    matchesBelow ⟨[pattern], names⟩ arena 0 =
      some ((Place.preorder ⟨tree, []⟩).filterMap fun place =>
        if place.isTrivia then none
        else (pattern.match? arena place.handle).map (Match.mk 0)) := by
  have topIn := Place.mem_preorder_self ⟨tree, []⟩
  have topNode : Place.isNode ⟨tree, []⟩ = true := laid.isNode
  have start := Search.begin_remaining topNode ⟨[pattern], names⟩ arena
  have all := Search.remaining_eq laid.toKeeps laid.isNode topIn topNode start
  rw [matchesAmong, List.flatMap_map] at all
  refine all.trans (congrArg some ?_)
  rw [List.filterMap_eq_flatMap_toList]
  refine List.flatMap_congr fun place member => ?_
  rw [matchesAt_singleton, Arena.isTrivia, laid.kind member, Place.isTrivia]
  split <;> rfl

theorem reports_elements {kind : Kind} (known : kind ≠ .tombstone) :
    Reports arena (elementSource kind)
      (capturing ((Place.preorder ⟨tree, []⟩).filter fun place =>
        place.kind = kind ∧ kind.isTrivia = false)) := by
  refine ⟨_, compile_elementSource known, ?_⟩
  rw [matchesBelow_singleton laid, capturing, ← List.filterMap_eq_map, List.filterMap_filter]
  refine congrArg some (List.filterMap_congr fun place member => ?_)
  rw [match?_element, laid.kind member, Place.isTrivia]
  by_cases same : place.kind = kind
  · cases isTrivia : kind.isTrivia <;> simp [same, isTrivia]
  · simp [same]

theorem match?_parent_handle {place : Place} (member : place ∈ Place.preorder ⟨tree, []⟩)
    (outer inner : Kind) :
    (parentPattern outer inner).match? arena place.handle =
      if place.kind = outer then
        (place.significant.find? fun child => child.kind = inner).map
          fun child => [⟨0, child.handle⟩]
      else none := by
  have kinds : ∀ child ∈ place.significant, arena.kind child.handle = child.kind := by
    intro child childIn
    have inTree := Place.children_subset_preorder member child (List.mem_filter.mp childIn).1
    exact laid.kind inTree
  have found : (place.significant.find? fun child => arena.kind child.handle = inner) =
      place.significant.find? fun child => child.kind = inner :=
    List.find?_congr fun child childIn => by rw [kinds child childIn]
  rw [match?_parent, laid.kind member, laid.significant member, List.find?_map]
  simp only [Function.comp_def, found, Option.map_map]

theorem reports_parents {outer inner : Kind} (outerKnown : outer ≠ .tombstone)
    (innerKnown : inner ≠ .tombstone) (notTrivia : outer.isTrivia = false) :
    Reports arena (parentSource outer inner)
      (capturing (((Place.preorder ⟨tree, []⟩).filter fun place => place.kind = outer).filterMap
        fun place => place.significant.find? fun child => child.kind = inner)) := by
  refine ⟨_, compile_parentSource outerKnown innerKnown, ?_⟩
  rw [matchesBelow_singleton laid, capturing, List.map_filterMap, List.filterMap_filter]
  refine congrArg some (List.filterMap_congr fun place member => ?_)
  rw [match?_parent_handle laid member, Place.isTrivia]
  by_cases same : place.kind = outer
  · simp only [same, notTrivia, if_true, Bool.false_eq_true, if_false, Option.map_map,
      decide_true]
    rfl
  · simp [same]

theorem matchesAt_parent_iff {place : Place} {inner : Kind}
    (member : place ∈ Place.preorder ⟨tree, []⟩) (known : place.kind ≠ .tombstone)
    (innerKnown : inner ≠ .tombstone) (notTrivia : place.kind.isTrivia = false) :
    MatchesAt arena (parentSource place.kind inner) place.handle ↔
      (place.significant.find? fun child => child.kind = inner).isSome = true := by
  have compiled := compile_parentSource known innerKnown
  have here : matchesAt arena place.handle 0 [parentPattern place.kind inner] =
      ((place.significant.find? fun child => child.kind = inner).map
        fun child => Match.mk 0 [⟨0, child.handle⟩]).toList := by
    rw [matchesAt_singleton, match?_parent_handle laid member, Arena.isTrivia, laid.kind member,
      notTrivia, if_neg Bool.false_ne_true, if_pos rfl, Option.map_map]
    rfl
  constructor
  · rintro ⟨query, others, nonempty⟩
    obtain rfl := Except.ok.inj (compiled.symm.trans others)
    rw [here] at nonempty
    cases found : place.significant.find? fun child => child.kind = inner with
    | none => simp [found] at nonempty
    | some child => rfl
  · intro found
    obtain ⟨child, isChild⟩ := Option.isSome_iff_exists.mp found
    refine ⟨_, compiled, ?_⟩
    rw [here, isChild]
    simp

end

/-- Queries show the elements of a kind: alone, its name reports each of them once and in
preorder, and inside of a pattern for the kind of a node, it tells whether one of them is a
child of the node. -/
structure Shows (parse : Parse) (arena : Arena) (kind : Kind) : Prop where
  elements :
    Reports arena (elementSource kind)
      (capturing (parse.places.filter fun place => place.kind = kind))
  once : ((parse.places.filter fun place => place.kind = kind).map Place.handle).Nodup
  parents :
    ∀ node ∈ parse.places, node.isNode = true →
      (MatchesAt arena (parentSource node.kind kind) node.handle ↔
        ∃ child ∈ node.children, child.kind = kind)
  /-- The first child of the kind is the one that is captured. -/
  firsts :
    ∀ node ∈ parse.places, node.isNode = true →
      Reports arena (parentSource node.kind kind)
        (capturing ((parse.places.filter fun place => place.kind = node.kind).filterMap
          fun place => place.children.find? fun child => child.kind = kind))

/-- Queries for a kind are accepted and match nothing. -/
structure Hides (parse : Parse) (arena : Arena) (kind : Kind) : Prop where
  elements : Reports arena (elementSource kind) []
  parents :
    ∀ node ∈ parse.places, node.isNode = true →
      Reports arena (parentSource node.kind kind) [] ∧
        ¬MatchesAt arena (parentSource node.kind kind) node.handle

section

variable {arena : Arena} {dialect : Dialect} {text : Bytes} {kind : Kind}
  (laid : arena.Over (Parse.ofText dialect text).text (Parse.ofText dialect text).root)
  (isNamed : kind.isNamed = true)
include laid isNamed

theorem shows_of_not_isTrivia (notTrivia : kind.isTrivia = false) :
    Shows (Parse.ofText dialect text) arena kind := by
  have known := Kind.ne_tombstone_of_isNamed isNamed
  refine ⟨?_, ?_, fun node member isNode => ?_, fun node member isNode => ?_⟩
  · simpa [notTrivia, Parse.places] using reports_elements laid known
  · exact (Arena.nodup_handles _).sublist (List.filter_sublist.map _)
  · have nodeKind := Parse.isNode_kind_ofText dialect text member isNode
    rw [matchesAt_parent_iff laid member (Kind.ne_tombstone_of_isNode nodeKind) known
      (Kind.isTrivia_of_isNode nodeKind), Place.find?_significant notTrivia, List.find?_isSome]
    simp
  · have nodeKind := Parse.isNode_kind_ofText dialect text member isNode
    have found := reports_parents laid (Kind.ne_tombstone_of_isNode nodeKind) known
      (Kind.isTrivia_of_isNode nodeKind)
    simpa only [Place.find?_significant notTrivia, Parse.places] using found

theorem hides_of_isTrivia (isTrivia : kind.isTrivia = true) :
    Hides (Parse.ofText dialect text) arena kind := by
  have known := Kind.ne_tombstone_of_isNamed isNamed
  refine ⟨?_, fun node member isNode => ?_⟩
  · simpa [isTrivia, capturing] using reports_elements laid known
  · have nodeKind := Parse.isNode_kind_ofText dialect text member isNode
    have nodeKnown := Kind.ne_tombstone_of_isNode nodeKind
    have notTrivia := Kind.isTrivia_of_isNode nodeKind
    constructor
    · have found := reports_parents laid nodeKnown known notTrivia
      simpa [Place.find?_significant_eq_none isTrivia, capturing] using found
    · rw [matchesAt_parent_iff laid member nodeKnown known notTrivia,
        Place.find?_significant_eq_none isTrivia]
      simp

end

end Query

namespace Parse

open Query

theorem exists_over_ofText (dialect : Dialect) (text : Bytes) :
    ∃ arena,
      Arena.ofTree? (ofText dialect text).text (ofText dialect text).root = some arena ∧
        arena.Over (ofText dialect text).text (ofText dialect text).root := by
  obtain ⟨arena, made⟩ := hasArena_ofText dialect text
  exact ⟨arena, made, Arena.over_of_ofTree? made⟩

/-- In the tree of every text, queries show every named kind, except that they hide
comments. -/
theorem ofText_shows_named (dialect : Dialect) (text : Bytes) :
    ∃ arena,
      Arena.ofTree? (ofText dialect text).text (ofText dialect text).root = some arena ∧
        (∀ kind : Kind, kind.isNamed = true → kind ≠ .comment →
          Shows (ofText dialect text) arena kind) ∧
        Hides (ofText dialect text) arena .comment := by
  obtain ⟨arena, made, laid⟩ := exists_over_ofText dialect text
  refine ⟨arena, made, fun kind isNamed notComment => ?_, hides_of_isTrivia laid rfl rfl⟩
  exact shows_of_not_isTrivia laid isNamed (Kind.isTrivia_of_isNamed isNamed notComment)

/-- A statement with a comment behind it. -/
def commentedLine : Bytes := Bytes.ascii "nop ; x\n"

theorem ofText_shows_named_commentedLine :
    ((ofText .stock commentedLine).places.filter fun place =>
        place.kind = .mnemonic).length = 1 ∧
      Kind.isNamed .mnemonic = true ∧ Kind.mnemonic ≠ .comment ∧
        ∃ arena,
          Arena.ofTree? (ofText .stock commentedLine).text (ofText .stock commentedLine).root =
            some arena ∧
          Shows (ofText .stock commentedLine) arena .mnemonic ∧
            Hides (ofText .stock commentedLine) arena .comment := by
  obtain ⟨arena, made, shown, hidden⟩ := ofText_shows_named .stock commentedLine
  exact ⟨by decide +kernel, rfl, by decide, arena, made, shown .mnemonic rfl (by decide), hidden⟩

/-- The comment is an element of a named kind, and no query shows it. -/
theorem comment_not_shown :
    ¬∀ (dialect : Dialect) (text : Bytes),
      ∃ arena,
        Arena.ofTree? (ofText dialect text).text (ofText dialect text).root = some arena ∧
          ∀ kind : Kind, kind.isNamed = true → Shows (ofText dialect text) arena kind := by
  intro shows
  obtain ⟨arena, made, all⟩ := shows .stock commentedLine
  obtain ⟨query, compiled, found⟩ := (all .comment rfl).elements
  have hidden : Hides (ofText .stock commentedLine) arena .comment :=
    hides_of_isTrivia (Arena.over_of_ofTree? made) rfl rfl
  obtain ⟨other, again, none⟩ := hidden.elements
  obtain rfl := Except.ok.inj (again.symm.trans compiled)
  have empty := Option.some_inj.mp (found.symm.trans none)
  rw [capturing, List.map_eq_nil_iff] at empty
  exact absurd empty (by decide +kernel)

end Parse
end Asm6502
