import Asm6502.Proofs.QueryPhrases

/-!
# Printed queries

Reading the tokens of a phrase adds its pattern to the patterns read before, whatever
was read before and wherever the tokens stand.  So what is printed for phrases
compiles to the query that they stand for.
-/

namespace Asm6502
namespace Query

open Compilation (read)
open Phrase (print printAll captureLexemes headLexeme headMatcher resolve resolveAll Fits
  AllFit)

namespace Compilation

/-- What comes next is not the head of a pattern. -/
def Ready (state : Compilation) : Prop :=
  ∀ paren, state.expectation ≠ .head paren

/-- The open and the complete patterns, once more patterns are added in order. -/
def extended (patterns : List Pattern) (state : Compilation) :
    List OpenPattern × List Pattern :=
  match state.opened with
  | [] => ([], patterns.reverse ++ state.complete)
  | innermost :: outer =>
      ({ innermost with children := patterns.reverse ++ innermost.children } :: outer,
        state.complete)

/-- Patterns have been added, and `seen` are all tokens that were read. -/
structure Extends (seen : List Lexeme) (patterns : List Pattern)
    (before after : Compilation) : Prop where
  ready : after.Ready
  names : after.names = captureNames seen
  lists : (after.opened, after.complete) = before.extended patterns

variable {seen later : List Lexeme} {patterns others : List Pattern}
  {state before middle after : Compilation} {token : Token} {tokens : List Token}
  {all : List String}

theorem Extends.refl (ready : state.Ready) (names : state.names = captureNames seen) :
    Extends seen [] state state := by
  refine ⟨ready, names, ?_⟩
  rw [extended]
  cases opened : state.opened <;> rfl

theorem Extends.trans (first : Extends seen patterns before middle)
    (second : Extends later others middle after) :
    Extends later (patterns ++ others) before after := by
  refine ⟨second.ready, second.names, ?_⟩
  have lists := first.lists
  rw [second.lists, extended, extended]
  rw [extended] at lists
  cases opened : before.opened with
  | nil =>
      simp only [opened, Prod.mk.injEq] at lists
      simp [lists.1, lists.2]
  | cons innermost outer =>
      simp only [opened, Prod.mk.injEq] at lists
      simp [lists.1, lists.2]

theorem Extends.length_opened (extend : Extends seen patterns before after) :
    after.opened.length = before.opened.length := by
  have lists := congrArg Prod.fst extend.lists
  rw [extended] at lists
  cases opened : before.opened <;> simp_all

theorem foldlM_cons_of_read {next : Compilation} (accepted : state.read token = .ok next)
    (rest : List Token) : (token :: rest).foldlM read state = rest.foldlM read next := by
  rw [List.foldlM_cons, accepted]
  rfl

theorem foldlM_append_of_read (accepted : tokens.foldlM read state = .ok middle)
    (rest : List Token) : (tokens ++ rest).foldlM read state = rest.foldlM read middle := by
  rw [List.foldlM_append, accepted]
  rfl

theorem read_of_ready (ready : state.Ready) : state.read token = state.readItem token := by
  rw [read]
  split
  · next paren expects => exact absurd expects (ready paren)
  · rfl

theorem expectation_add (pattern : Pattern) (state : Compilation) :
    (state.add pattern).expectation = .captureOrPattern := by
  rw [add]
  split <;> rfl

theorem names_add (pattern : Pattern) (state : Compilation) :
    (state.add pattern).names = state.names := by
  rw [add]
  split <;> rfl

theorem lists_add (pattern : Pattern) (state : Compilation) :
    ((state.add pattern).opened, (state.add pattern).complete) = state.extended [pattern] := by
  rw [add, extended]
  split <;> simp [*]

theorem expectation_capture (name : String) (state : Compilation) :
    (state.capture name).expectation = .pattern := by
  cases opened : state.opened <;> simp [capture, opened]

theorem names_capture (name : String) (state : Compilation) :
    (state.capture name).names = (nameIndex name state.names).2 := by
  cases opened : state.opened <;> simp [capture, opened]

/-- A capture behind the pattern that was just added gives it the number of its name. -/
theorem lists_capture {pattern : Pattern} (name : String)
    (lists : (state.opened, state.complete) = before.extended [pattern]) :
    ((state.capture name).opened, (state.capture name).complete) =
      before.extended [pattern.captured (nameIndex name state.names).1] := by
  rw [extended] at lists ⊢
  cases opened : before.opened with
  | nil =>
      simp only [opened, Prod.mk.injEq] at lists
      simp [capture, lists.1, lists.2]
  | cons innermost outer =>
      simp only [opened, Prod.mk.injEq] at lists
      simp [capture, lists.1, lists.2]

theorem read_capture {name : String} (expects : state.expectation = .captureOrPattern)
    (lexeme : token.lexeme = (.capture, '@' :: name.toList)) :
    state.read token = .ok (state.capture name) := by
  have kind : token.kind = .capture := congrArg Prod.fst lexeme
  have chars : token.chars = '@' :: name.toList := congrArg Prod.snd lexeme
  rw [read, expects]
  simp [readItem, kind, chars, expects]

/-- A complete pattern is added, and then captured if a capture follows. -/
theorem read_captured (matcher : Matcher) (children : List Pattern)
    (capture? : Option String) (names : state.names = captureNames seen)
    (same : tokens.map Token.lexeme = captureLexemes capture?)
    (numbers : captureNames (seen ++ captureLexemes capture?) <+: all) :
    ∃ after, tokens.foldlM read (state.add ⟨matcher, none, children⟩) = .ok after ∧
      Extends (seen ++ captureLexemes capture?)
        [⟨matcher, capture?.map all.idxOf, children⟩] state after := by
  cases capture? with
  | none =>
      obtain rfl : tokens = [] := List.map_eq_nil_iff.mp same
      refine ⟨_, rfl, ?_, ?_, lists_add _ _⟩
      · intro paren
        simp [expectation_add]
      · simpa [names_add, captureLexemes] using names
  | some name =>
      obtain ⟨token, rfl, lexeme⟩ := List.map_eq_singleton_iff.mp same
      have named := captureName?_capture name
      have numbered := nameIndex_captureNames seen named
      rw [← names, ← names_add ⟨matcher, none, children⟩] at numbered
      have number := idxOf_of_mem_of_isPrefix
        (mem_captureNames (List.mem_append_right seen List.mem_cons_self) named) numbers
      refine ⟨(state.add ⟨matcher, none, children⟩).capture name, ?_, ?_, ?_, ?_⟩
      · exact foldlM_cons_of_read (read_capture (expectation_add _ _) lexeme) []
      · intro paren
        simp [expectation_capture]
      · rw [names_capture, numbered]
        rfl
      · rw [lists_capture name (lists_add _ _), numbered, Option.map_some, number]
        rfl

theorem ofName?_name {kind : Kind} (known : kind ≠ .tombstone) :
    Kind.ofName? kind.name = some kind := by
  revert known
  cases kind <;> decide

theorem read_leftParen (ready : state.Ready) (shallow : state.opened.length ≤ maxDepth)
    (lexeme : token.lexeme = (.leftParen, ['('])) :
    state.read token = .ok { state with expectation := .head token.span } := by
  have kind : token.kind = .leftParen := congrArg Prod.fst lexeme
  rw [read_of_ready ready]
  simp [readItem, kind, Nat.not_lt.mpr shallow]

theorem read_head {paren : Span} {kind? : Option Kind} (known : kind? ≠ some .tombstone)
    (expects : state.expectation = .head paren) (lexeme : token.lexeme = headLexeme kind?) :
    state.read token = .ok (state.push paren (headMatcher kind?)) := by
  cases kind? with
  | none =>
      have kind : token.kind = .wildcard := congrArg Prod.fst lexeme
      simp [read, expects, readHead, kind, headMatcher]
  | some known' =>
      have kind : token.kind = .name := congrArg Prod.fst lexeme
      have chars : token.chars = known'.name.toList := congrArg Prod.snd lexeme
      have found : Kind.ofName? known'.name = some known' :=
        ofName?_name fun same => known (by rw [same])
      simp [read, expects, readHead, kind, chars, found, headMatcher]

theorem read_rightParen {innermost : OpenPattern} {outer : List OpenPattern}
    (ready : state.Ready) (opened : state.opened = innermost :: outer)
    (lexeme : token.lexeme = (.rightParen, [')'])) :
    state.read token =
      .ok (add ⟨innermost.matcher, none, innermost.children.reverse⟩
        { state with opened := outer }) := by
  have kind : token.kind = .rightParen := congrArg Prod.fst lexeme
  rw [read_of_ready ready]
  simp [readItem, kind, opened]

theorem captureName?_head (kind? : Option Kind) :
    (headLexeme kind?).captureName? = none := by
  cases kind? <;> rfl

theorem read_completed {base : Compilation} {matcher : Matcher} {children : List Pattern}
    {capture? : Option String}
    (step : state.read token = .ok (base.add ⟨matcher, none, children⟩))
    (noName : token.lexeme.captureName? = none) (names : base.names = captureNames seen)
    (same : tokens.map Token.lexeme = captureLexemes capture?)
    (numbers : captureNames (seen ++ token.lexeme :: captureLexemes capture?) <+: all) :
    ∃ after, (token :: tokens).foldlM read state = .ok after ∧
      Extends (seen ++ token.lexeme :: captureLexemes capture?)
        [⟨matcher, capture?.map all.idxOf, children⟩] base after := by
  rw [← captureNames_append_of_none noName] at names
  rw [List.append_cons] at numbers ⊢
  obtain ⟨after, readRest, extend⟩ :=
    read_captured matcher children capture? names same numbers
  exact ⟨after, (foldlM_cons_of_read step tokens).trans readRest, extend⟩

mutual

/-- Reading the tokens of a phrase adds the pattern that it stands for.  Captures are
numbered by `all`, the names of the whole query: those seen so far come first in it, so
the number that a name is given is the one that it keeps. -/
theorem read_phrase (all : List String) :
    ∀ (phrase : Phrase) {seen : List Lexeme} {state : Compilation} {tokens : List Token},
      phrase.Fits state.opened.length → state.Ready → state.names = captureNames seen →
      tokens.map Token.lexeme = phrase.print →
      captureNames (seen ++ phrase.print) <+: all →
        ∃ after, tokens.foldlM read state = .ok after ∧
          Extends (seen ++ phrase.print) [phrase.resolve all] state after
  | .any capture?, seen, state, tokens, fits, ready, names, same, numbers => by
      rw [print, List.map_eq_cons_iff] at same
      obtain ⟨token, rest, rfl, lexeme, sameRest⟩ := same
      have kind : token.kind = .wildcard := congrArg Prod.fst lexeme
      have step : state.read token = .ok (state.add ⟨.any, none, []⟩) := by
        rw [read_of_ready ready]
        simp [readItem, kind]
      rw [print, ← lexeme] at numbers ⊢
      exact read_completed step (by rw [lexeme]; rfl) names sameRest numbers
  | .text chars capture?, seen, state, tokens, fits, ready, names, same, numbers => by
      rw [print, List.map_eq_cons_iff] at same
      obtain ⟨token, rest, rfl, lexeme, sameRest⟩ := same
      have kind : token.kind = .text := congrArg Prod.fst lexeme
      have written : token.chars = '"' :: (chars ++ ['"']) := congrArg Prod.snd lexeme
      have step : state.read token = .ok (state.add ⟨.text chars, none, []⟩) := by
        rw [read_of_ready ready]
        simp [readItem, kind, written]
      rw [print, ← lexeme] at numbers ⊢
      exact read_completed step (by rw [lexeme]; rfl) names sameRest numbers
  | .node kind? children capture?, seen, state, tokens, fits, ready, names, same,
      numbers => by
      rw [print, List.map_eq_cons_iff] at same
      obtain ⟨opening, others, rfl, isOpening, same⟩ := same
      obtain ⟨head, others, rfl, isHead, same⟩ := List.map_eq_cons_iff.mp same
      obtain ⟨inside, others, rfl, sameInside, same⟩ := List.map_eq_append_iff.mp same
      obtain ⟨closing, behind, rfl, isClosing, sameBehind⟩ := List.map_eq_cons_iff.mp same
      obtain ⟨shallow, known, fitsInside, -⟩ := fits
      -- Names are numbered as they are read: those inside come before the node's own.
      let started : Compilation := { state with expectation := .head opening.span }
      let pushed := started.push opening.span (headMatcher kind?)
      have written : seen ++ print (.node kind? children capture?) =
          (seen ++ [opening.lexeme] ++ [head.lexeme] ++ printAll children) ++
            closing.lexeme :: captureLexemes capture? := by
        rw [print, isOpening, isHead, isClosing]
        simp
      rw [written] at numbers ⊢
      have readyInside : pushed.Ready := by
        intro paren
        simp [pushed, push]
      have namesInside : pushed.names =
          captureNames (seen ++ [opening.lexeme] ++ [head.lexeme]) := by
        rw [captureNames_append_of_none (by rw [isHead]; exact captureName?_head kind?),
          captureNames_append_of_none (by rw [isOpening]; rfl)]
        exact names
      have fitsPushed : AllFit pushed.opened.length children := fitsInside
      obtain ⟨middle, readInside, extendInside⟩ := read_phrases all children fitsPushed
        readyInside namesInside sameInside ((captureNames_prefix_append _ _).trans numbers)
      have lists := extendInside.lists
      simp only [extended, pushed, push, started, List.append_nil, Prod.mk.injEq] at lists
      let closed : Compilation := { middle with opened := state.opened }
      have step : middle.read closing =
          .ok (closed.add ⟨headMatcher kind?, none, resolveAll all children⟩) := by
        rw [read_rightParen extendInside.ready lists.1 isClosing, List.reverse_reverse]
      obtain ⟨after, readBehind, extend⟩ := read_completed step (by rw [isClosing]; rfl)
        extendInside.names sameBehind numbers
      refine ⟨after, ?_, extend.ready, extend.names, ?_⟩
      · have readHead : started.read head = .ok pushed := read_head known rfl isHead
        rw [foldlM_cons_of_read (read_leftParen ready shallow isOpening),
          foldlM_cons_of_read readHead, foldlM_append_of_read readInside]
        exact readBehind
      · rw [extend.lists]
        simp only [extended, closed, lists.2]
        rfl

theorem read_phrases (all : List String) :
    ∀ (phrases : List Phrase) {seen : List Lexeme} {state : Compilation}
      {tokens : List Token},
      AllFit state.opened.length phrases → state.Ready → state.names = captureNames seen →
      tokens.map Token.lexeme = printAll phrases →
      captureNames (seen ++ printAll phrases) <+: all →
        ∃ after, tokens.foldlM read state = .ok after ∧
          Extends (seen ++ printAll phrases) (resolveAll all phrases) state after
  | [], seen, state, tokens, fits, ready, names, same, numbers => by
      obtain rfl : tokens = [] := List.map_eq_nil_iff.mp same
      exact ⟨state, rfl, .refl ready (by rwa [printAll, List.append_nil])⟩
  | phrase :: rest, seen, state, tokens, fits, ready, names, same, numbers => by
      rw [printAll, List.map_eq_append_iff] at same
      obtain ⟨first, others, rfl, sameFirst, sameOthers⟩ := same
      rw [printAll, ← List.append_assoc] at numbers ⊢
      obtain ⟨middle, readFirst, extendFirst⟩ := read_phrase all phrase fits.1 ready names
        sameFirst ((captureNames_prefix_append _ _).trans numbers)
      have fitsOthers : AllFit middle.opened.length rest := by
        rw [extendFirst.length_opened]
        exact fits.2
      obtain ⟨after, readOthers, extendOthers⟩ := read_phrases all rest fitsOthers
        extendFirst.ready extendFirst.names sameOthers numbers
      refine ⟨after, ?_, extendFirst.trans extendOthers⟩
      exact (foldlM_append_of_read readFirst others).trans readOthers

end

end Compilation

theorem Compilation.finish_of_ready {state : Compilation} (ready : state.Ready)
    (closed : state.opened = []) (length : Nat) :
    state.finish length = .ok ⟨state.complete.reverse, state.names⟩ := by
  cases expects : state.expectation with
  | head paren => exact absurd expects (ready paren)
  | pattern => simp [finish, expects, closed]
  | captureOrPattern => simp [finish, expects, closed]

theorem read_printed {phrases : List Phrase} {tokens : List Token} (fits : AllFit 0 phrases)
    (same : tokens.map Token.lexeme = printAll phrases) (length : Nat) :
    ∃ after : Compilation, tokens.foldlM read {} = .ok after ∧
      after.finish length = .ok (ofPhrases phrases) := by
  let start : Compilation := {}
  have ready : start.Ready := by
    intro paren
    simp [start]
  have names : start.names = captureNames [] := rfl
  have fitsStart : AllFit start.opened.length phrases := fits
  obtain ⟨after, readAll, extend⟩ := Compilation.read_phrases
    (captureNames (printAll phrases)) phrases fitsStart ready names same List.prefix_rfl
  have lists : (after.opened, after.complete) =
      ([], (resolveAll (captureNames (printAll phrases)) phrases).reverse ++ []) :=
    extend.lists
  simp only [List.append_nil, Prod.mk.injEq] at lists
  refine ⟨after, readAll, ?_⟩
  rw [Compilation.finish_of_ready extend.ready lists.1, lists.2, List.reverse_reverse,
    extend.names]
  rfl

theorem proper_name (kind : Kind) : Lexeme.Proper (.name, kind.name.toList) := by
  have chars : ∃ first rest, kind.name.toList = first :: rest ∧ first.isAlpha = true ∧
      rest.all Token.continuesName = true := by
    cases kind <;> exact ⟨_, _, rfl, by decide, by decide⟩
  obtain ⟨first, rest, split, isAlpha, continues⟩ := chars
  rw [split]
  exact .name isAlpha (List.all_eq_true.mp continues)

theorem proper_captureLexemes {capture? : Option String}
    (fits : ∀ name ∈ capture?, Phrase.NameFits name) :
    ∀ lexeme ∈ captureLexemes capture?, lexeme.Proper := by
  cases capture? with
  | none => simp [captureLexemes]
  | some name =>
      obtain ⟨first, rest, split, starts, continues⟩ := fits name rfl
      intro lexeme member
      obtain rfl : lexeme = (.capture, '@' :: name.toList) := by
        simpa [captureLexemes] using member
      rw [split]
      exact .capture starts continues

theorem proper_headLexeme (kind? : Option Kind) : (headLexeme kind?).Proper := by
  cases kind? with
  | none => exact .wildcard
  | some kind => exact proper_name kind

mutual

theorem proper_print {depth : Nat} : ∀ {phrase : Phrase}, phrase.Fits depth →
    ∀ lexeme ∈ phrase.print, lexeme.Proper
  | .any capture?, fits => by
      rw [print, List.forall_mem_cons]
      exact ⟨.wildcard, proper_captureLexemes fits⟩
  | .text chars capture?, ⟨plain, names⟩ => by
      rw [print, List.forall_mem_cons]
      exact ⟨.text plain, proper_captureLexemes names⟩
  | .node kind? children capture?, ⟨_, _, fitsInside, names⟩ => by
      rw [print, List.forall_mem_cons, List.forall_mem_cons, List.forall_mem_append,
        List.forall_mem_cons]
      exact ⟨.leftParen, proper_headLexeme kind?, proper_printAll fitsInside, .rightParen,
        proper_captureLexemes names⟩

theorem proper_printAll {depth : Nat} : ∀ {phrases : List Phrase}, AllFit depth phrases →
    ∀ lexeme ∈ printAll phrases, lexeme.Proper
  | [], _ => by simp [printAll]
  | phrase :: rest, ⟨fits, fitsRest⟩ => by
      rw [printAll, List.forall_mem_append]
      exact ⟨proper_print fits, proper_printAll fitsRest⟩

end

/-- A source that phrases are printed to, with any layout, compiles to their query. -/
theorem compile_printed {phrases : List Phrase} {source : String} (fits : AllFit 0 phrases)
    (lays : Lexeme.Lays (printAll phrases) source.toList) :
    compile source = .ok (ofPhrases phrases) := by
  have same := Token.map_lexeme_scan lays (proper_printAll fits)
  obtain ⟨after, readAll, finished⟩ :=
    read_printed fits same (Utf8.totalSize source.toList)
  rw [compile, readAll]
  exact finished

end Query
end Asm6502
