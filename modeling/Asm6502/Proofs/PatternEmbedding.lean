import Asm6502.Query.Match

/-!
# Embeddings of patterns

A pattern embeds in an element if its matcher accepts the element and its child
patterns embed in some of the element's children other than trivia, in order.
Matching takes the first child that will do for each child pattern.  A later child
would leave no more to choose from, so an embedding is found if there is any, and
the one that is found is the leftmost.
-/

namespace Asm6502
namespace Query

/-- Which children were chosen for consecutive child patterns: for the first one the
position of a child and the choice below it, then the choice for the others. -/
inductive Choice where
  | done
  | next (position : Nat) (inner others : Choice)
deriving DecidableEq, Repr

/-- The first position in which two choices differ, each position taken before those
below it, is an earlier one. -/
inductive Choice.Left : Choice → Choice → Prop
  | position {first second : Nat} {inner inner' others others' : Choice} :
      first < second → Left (.next first inner others) (.next second inner' others')
  | inner {position : Nat} {inner inner' others others' : Choice} :
      Left inner inner' → Left (.next position inner others) (.next position inner' others')
  | others {position : Nat} {inner others others' : Choice} :
      Left others others' → Left (.next position inner others) (.next position inner others')

mutual

/-- A pattern embeds in an element by a choice of children.  The captures are the
pattern's own and then those of its child patterns in order. -/
inductive Embeds (arena : Arena) : Pattern → Handle → Choice → List Capture → Prop
  | intro {matcher : Matcher} {capture? : Option Nat} {children : List Pattern}
      {element : Handle} {choice : Choice} {captures : List Capture} :
      matcher.accepts arena element = true →
      (children ≠ [] → element.isToken = false) →
      EmbedAll arena children (arena.significant element) 0 choice captures →
        Embeds arena ⟨matcher, capture?, children⟩ element choice
          ((capture?.map fun index => Capture.mk index element).toList ++ captures)

/-- Patterns embed in elements at increasing positions, from `start` on. -/
inductive EmbedAll (arena : Arena) :
    List Pattern → List Handle → (start : Nat) → Choice → List Capture → Prop
  | nil {elements : List Handle} {start : Nat} : EmbedAll arena [] elements start .done []
  | cons {pattern : Pattern} {rest : List Pattern} {elements : List Handle}
      {start position : Nat} {element : Handle} {inner others : Choice}
      {first later : List Capture} :
      start ≤ position →
      elements[position]? = some element →
      Embeds arena pattern element inner first →
      EmbedAll arena rest elements (position + 1) others later →
        EmbedAll arena (pattern :: rest) elements start (.next position inner others)
          (first ++ later)

end

/-- No other choice is left of this one. -/
def IsLeftmost (embeds : Choice → List Capture → Prop) (choice : Choice) : Prop :=
  ∀ other captures, embeds other captures → other = choice ∨ choice.Left other

/-- How a search for an embedding ends: with the leftmost one, whose captures have
been noted, or without, when there is none. -/
inductive Outcome (embeds : Choice → List Capture → Prop) (noted : List Capture) :
    Bool × List Capture → Prop
  | found {choice : Choice} {captures : List Capture} :
      embeds choice captures → IsLeftmost embeds choice →
        Outcome embeds noted (true, noted ++ captures)
  | none : (∀ choice captures, ¬embeds choice captures) → Outcome embeds noted (false, noted)

variable {arena : Arena} {pattern : Pattern} {patterns rest : List Pattern}
  {element : Handle} {elements : List Handle} {start position : Nat} {choice : Choice}
  {noted captures : List Capture}

/-- What embeds from some position on embeds from any earlier one. -/
theorem EmbedAll.earlier {before : Nat}
    (embed : EmbedAll arena patterns elements start choice captures) (le : before ≤ start) :
    EmbedAll arena patterns elements before choice captures := by
  cases embed with
  | nil => exact .nil
  | cons bound here first later => exact .cons (Nat.le_trans le bound) here first later

/-- The first element in which a pattern embeds, if there is one. -/
inductive FirstOutcome (embeds : Handle → Choice → List Capture → Prop)
    (elements : List Handle) (start : Nat) (noted : List Capture) :
    Option (List Handle) × List Capture → Prop
  | found {position : Nat} {element : Handle} {choice : Choice} {captures : List Capture} :
      start ≤ position → elements[position]? = some element →
      embeds element choice captures → IsLeftmost (embeds element) choice →
      (∀ other otherElement, start ≤ other → elements[other]? = some otherElement →
        ∀ choice captures, embeds otherElement choice captures → position ≤ other) →
        FirstOutcome embeds elements start noted
          (some (elements.drop (position + 1)), noted ++ captures)
  | none :
      (∀ other otherElement, start ≤ other → elements[other]? = some otherElement →
        ∀ choice captures, ¬embeds otherElement choice captures) →
        FirstOutcome embeds elements start noted (none, noted)

theorem FirstOutcome.earlier {embeds : Handle → Choice → List Capture → Prop}
    {result : Option (List Handle) × List Capture}
    (outcome : FirstOutcome embeds elements (start + 1) noted result)
    (here : elements[start]? = some element)
    (fails : ∀ choice captures, ¬embeds element choice captures) :
    FirstOutcome embeds elements start noted result := by
  have later {other : Nat} {otherElement : Handle} {choice : Choice} {captures : List Capture}
      (le : start ≤ other) (there : elements[other]? = some otherElement)
      (embed : embeds otherElement choice captures) : start + 1 ≤ other := by
    rcases Nat.lt_or_eq_of_le le with lt | rfl
    · exact lt
    · rw [here, Option.some_inj] at there
      exact absurd embed (there ▸ fails choice captures)
  cases outcome with
  | found le there embed leftmost first =>
      exact .found (Nat.le_of_succ_le le) there embed leftmost
        fun other otherElement le there choice captures embed =>
          first other otherElement (later le there embed) there choice captures embed
  | none first =>
      exact .none fun other otherElement le there choice captures embed =>
        first other otherElement (later le there embed) there choice captures embed

theorem first_outcome {embeds : Handle → Choice → List Capture → Prop} {trial : Trial}
    (tells : ∀ element, Outcome (embeds element) noted (trial element noted))
    (elements : List Handle) (start : Nat) :
    FirstOutcome embeds elements start noted (trial.first (elements.drop start) noted) := by
  induction behind : elements.drop start generalizing start with
  | nil =>
      refine .none fun other otherElement le there => ?_
      rw [List.drop_eq_nil_iff] at behind
      rw [List.getElem?_eq_none (Nat.le_trans behind le)] at there
      contradiction
  | cons element rest ih =>
      have here : elements[start]? = some element := by
        rw [← List.head?_drop, behind, List.head?_cons]
      have restEq : elements.drop (start + 1) = rest := by
        rw [← List.tail_drop, behind, List.tail_cons]
      have told := tells element
      rw [Trial.first]
      generalize trial element noted = result at told
      cases told with
      | found embed leftmost =>
          rw [← restEq]
          exact .found (Nat.le_refl start) here embed leftmost
            fun _ _ le _ _ _ _ => le
      | none fails => exact (ih (start + 1) restEq).earlier here fails

/-- How a search for an embedding of consecutive patterns ends.  Where there is none,
captures of the first patterns may have been noted. -/
inductive AllOutcome (embeds : Choice → List Capture → Prop) (noted : List Capture) :
    Bool × List Capture → Prop
  | found {choice : Choice} {captures : List Capture} :
      embeds choice captures → IsLeftmost embeds choice →
        AllOutcome embeds noted (true, noted ++ captures)
  | none {captures : List Capture} : (∀ choice captures, ¬embeds choice captures) →
      AllOutcome embeds noted (false, noted ++ captures)

/-- The first element for the first pattern and the leftmost choice behind it for the
others are the leftmost choice for all. -/
theorem isLeftmost_next {inner others : Choice}
    (least : ∀ other otherElement, start ≤ other → elements[other]? = some otherElement →
      ∀ choice captures, Embeds arena pattern otherElement choice captures →
        position ≤ other)
    (here : elements[position]? = some element)
    (innerLeftmost : IsLeftmost (Embeds arena pattern element) inner)
    (othersLeftmost : IsLeftmost (EmbedAll arena rest elements (position + 1)) others) :
    IsLeftmost (EmbedAll arena (pattern :: rest) elements start)
      (.next position inner others) := by
  intro other captures embed
  cases embed with
  | @cons _ _ _ _ otherPosition otherElement otherInner otherOthers _ _ le there inside behind =>
      have bound := least otherPosition otherElement le there _ _ inside
      rcases Nat.lt_or_eq_of_le bound with lt | rfl
      · exact .inr (.position lt)
      · rw [here, Option.some_inj] at there
        subst there
        rcases innerLeftmost _ _ inside with rfl | left
        · rcases othersLeftmost _ _ behind with rfl | left
          · exact .inl rfl
          · exact .inr (.others left)
        · exact .inr (.inner left)

mutual

/-- Matching finds the leftmost embedding, or there is none. -/
theorem Pattern.tryAt_outcome (arena : Arena) :
    ∀ (pattern : Pattern) (element : Handle) (noted : List Capture),
      Outcome (Embeds arena pattern element) noted (pattern.tryAt arena element noted)
  | ⟨matcher, capture?, children⟩, element, noted => by
      let own := (capture?.map fun index => Capture.mk index element).toList
      have all := Pattern.tryAll_outcome arena children (arena.significant element) 0
        (noted ++ own)
      rw [List.drop_zero] at all
      rw [Pattern.tryAt]
      by_cases accepted : matcher.accepts arena element = true
      · rw [if_pos accepted]
        -- A pattern without children asks nothing of what is inside, so it fits tokens too.
        by_cases leaf : children = []
        · subst leaf
          have embed : Embeds arena ⟨matcher, capture?, []⟩ element .done (own ++ []) :=
            .intro accepted (absurd rfl) .nil
          have leftmost : IsLeftmost (Embeds arena ⟨matcher, capture?, []⟩ element) .done := by
            intro other captures embed
            cases embed with
            | intro _ _ inside =>
                cases inside
                exact .inl rfl
          rw [List.append_nil] at embed
          exact .found embed leftmost
        · rw [if_neg (by simpa using leaf)]
          by_cases isToken : element.isToken = true
          · rw [if_pos isToken, List.take_left]
            refine .none fun choice captures embed => ?_
            cases embed with
            | intro _ isNode _ => simp [isNode leaf] at isToken
          · rw [if_neg isToken]
            generalize Pattern.tryAll arena children (arena.significant element)
              (noted ++ own) = result at all
            cases all with
            | found embed leftmost =>
                rw [List.append_assoc]
                refine .found (.intro accepted (fun _ => by simpa using isToken) embed)
                  fun other captures embed => ?_
                cases embed with
                | intro _ _ inside => exact leftmost _ _ inside
            | none fails =>
                simp only [List.append_assoc, List.take_left]
                refine .none fun choice captures embed => ?_
                cases embed with
                | intro _ _ inside => exact fails _ _ inside
      · rw [if_neg accepted]
        refine .none fun choice captures embed => ?_
        cases embed with
        | intro accepts _ _ => exact accepted accepts

theorem Pattern.tryAll_outcome (arena : Arena) :
    ∀ (patterns : List Pattern) (elements : List Handle) (start : Nat)
      (noted : List Capture),
      AllOutcome (EmbedAll arena patterns elements start) noted
        (Pattern.tryAll arena patterns (elements.drop start) noted)
  | [], elements, start, noted => by
      have embed : EmbedAll arena [] elements start .done [] := .nil
      have leftmost : IsLeftmost (EmbedAll arena [] elements start) .done := by
        intro other captures embed
        cases embed
        exact .inl rfl
      have found : AllOutcome (EmbedAll arena [] elements start) noted (true, noted ++ []) :=
        .found embed leftmost
      simpa [Pattern.tryAll] using found
  | pattern :: rest, elements, start, noted => by
      have first := first_outcome (fun element => Pattern.tryAt_outcome arena pattern element noted)
        elements start
      rw [Pattern.tryAll]
      generalize (Pattern.tryAt arena pattern).first (elements.drop start) noted = result
        at first
      cases first with
      | @found position element inner captures le here embed leftmost least =>
          have later := Pattern.tryAll_outcome arena rest elements (position + 1)
            (noted ++ captures)
          simp only
          generalize Pattern.tryAll arena rest (elements.drop (position + 1))
            (noted ++ captures) = result at later
          cases later with
          | found laterEmbed laterLeftmost =>
              rw [List.append_assoc]
              exact .found (.cons le here embed laterEmbed)
                (isLeftmost_next least here leftmost laterLeftmost)
          | none fails =>
              rw [List.append_assoc]
              refine .none fun choice captures other => ?_
              cases other with
              | cons le there inside behind =>
                  have bound := least _ _ le there _ _ inside
                  exact fails _ _ (behind.earlier (Nat.succ_le_succ bound))
      | none fails =>
          have none : AllOutcome (EmbedAll arena (pattern :: rest) elements start) noted
              (false, noted ++ []) := by
            refine .none fun choice captures other => ?_
            cases other with
            | cons le there inside _ => exact fails _ _ le there _ _ inside
          simpa using none

end

/-- Matching agrees with embedding: it succeeds exactly where there is an embedding, and
then notes the captures of the leftmost one behind those that have been noted, and
nothing where it fails. -/
theorem Pattern.tryAt_leftmost_embedding (arena : Arena) (pattern : Pattern) (element : Handle)
    (noted : List Capture) :
    ((pattern.tryAt arena element noted).1 = true ↔
        ∃ choice captures, Embeds arena pattern element choice captures) ∧
      ((∃ choice captures, Embeds arena pattern element choice captures ∧
          IsLeftmost (Embeds arena pattern element) choice ∧
          pattern.tryAt arena element noted = (true, noted ++ captures)) ∨
        pattern.tryAt arena element noted = (false, noted)) := by
  have outcome := pattern.tryAt_outcome arena element noted
  generalize pattern.tryAt arena element noted = result at outcome
  cases outcome with
  | found embed leftmost =>
      exact ⟨⟨fun _ => ⟨_, _, embed⟩, fun _ => rfl⟩, .inl ⟨_, _, embed, leftmost, rfl⟩⟩
  | none fails =>
      refine ⟨⟨fun found => absurd found Bool.false_ne_true, ?_⟩, .inr rfl⟩
      rintro ⟨choice, captures, embed⟩
      exact absurd embed (fails choice captures)

end Query
end Asm6502
