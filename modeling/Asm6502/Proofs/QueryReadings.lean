import Asm6502.Proofs.PrintedQueries

/-!
# Readings of queries

While a query is read, the tokens so far are those of complete phrases, an opening
parenthesis with its head and more phrases, and so on for every open pattern.  The open
and complete patterns are the ones that these phrases stand for.  Each token that is
accepted keeps this, so a query that can end is the query of phrases.
-/

namespace Asm6502
namespace Query

open Phrase (print printAll captureLexemes headLexeme headMatcher resolve resolveAll NameFits
  Fits AllFit)

namespace Phrase

theorem printAll_append (first second : List Phrase) :
    printAll (first ++ second) = printAll first ++ printAll second := by
  induction first with
  | nil => rfl
  | cons phrase rest ih => rw [List.cons_append, printAll, printAll, ih, List.append_assoc]

theorem resolveAll_append (all : List String) (first second : List Phrase) :
    resolveAll all (first ++ second) = resolveAll all first ++ resolveAll all second := by
  induction first with
  | nil => rfl
  | cons phrase rest ih => rw [List.cons_append, resolveAll, resolveAll, ih, List.cons_append]

theorem allFit_append {depth : Nat} {first second : List Phrase} :
    AllFit depth (first ++ second) ↔ AllFit depth first ∧ AllFit depth second := by
  induction first with
  | nil => simp [AllFit]
  | cons phrase rest ih => rw [List.cons_append, AllFit, AllFit, ih, and_assoc]

def capture? : Phrase → Option String
  | .any capture? => capture?
  | .text _ capture? => capture?
  | .node _ _ capture? => capture?

def captured (name : String) : Phrase → Phrase
  | .any _ => .any (some name)
  | .text chars _ => .text chars (some name)
  | .node kind? children _ => .node kind? children (some name)

variable {phrase : Phrase} {name : String}

theorem print_captured (bare : phrase.capture? = none) :
    (phrase.captured name).print = phrase.print ++ [(.capture, '@' :: name.toList)] := by
  cases phrase <;> simp_all [capture?, captured, print, captureLexemes]

theorem resolve_captured (all : List String) :
    resolve all (phrase.captured name) = (resolve all phrase).captured (all.idxOf name) := by
  cases phrase <;> simp [captured, resolve, Pattern.captured]

theorem fits_captured {depth : Nat} (fits : phrase.Fits depth) (nameFits : NameFits name) :
    (phrase.captured name).Fits depth := by
  have only : ∀ other ∈ some name, NameFits other := by simpa using nameFits
  cases phrase with
  | any => exact only
  | text => exact ⟨fits.1, only⟩
  | node => exact ⟨fits.1, fits.2.1, fits.2.2.1, only⟩

end Phrase

namespace Compilation

variable {state after : Compilation} {token : Token}

/-- What an accepted token does. -/
inductive Step (state : Compilation) (token : Token) : Compilation → Prop
  | leftParen : state.Ready → state.opened.length ≤ maxDepth →
      token.lexeme = (.leftParen, ['(']) →
        Step state token { state with expectation := .head token.span }
  | head {paren : Span} {kind? : Option Kind} : state.expectation = .head paren →
      kind? ≠ some .tombstone → token.lexeme = headLexeme kind? →
        Step state token (state.push paren (headMatcher kind?))
  | rightParen {innermost : OpenPattern} {outer : List OpenPattern} : state.Ready →
      state.opened = innermost :: outer → token.lexeme = (.rightParen, [')']) →
        Step state token (add ⟨innermost.matcher, none, innermost.children.reverse⟩
          { state with opened := outer })
  | wildcard : state.Ready → token.lexeme = (.wildcard, ['_']) →
      Step state token (state.add ⟨.any, none, []⟩)
  | text {chars : List Char} : state.Ready → (∀ char ∈ chars, char ≠ '"' ∧ char ≠ '\n') →
      token.lexeme = (.text, '"' :: (chars ++ ['"'])) →
        Step state token (state.add ⟨.text chars, none, []⟩)
  | capture {name : String} : state.expectation = .captureOrPattern → NameFits name →
      token.lexeme = (.capture, '@' :: name.toList) →
        Step state token (state.capture name)

theorem not_garbage_of_read (step : state.read token = .ok after) :
    token.kind ≠ .garbage := by
  intro garbage
  rw [read] at step
  split at step
  · simp [readHead, garbage] at step
  · simp [readItem, garbage] at step

theorem name_of_ofName? {name : String} {kind : Kind} (found : Kind.ofName? name = some kind) :
    name = kind.name ∧ kind ≠ .tombstone := by
  have holds := List.find?_some found
  rw [Bool.and_eq_true, beq_iff_eq, bne_iff_ne] at holds
  exact ⟨holds.1.symm, holds.2⟩

theorem step_of_readHead {paren : Span} (proper : token.lexeme.Proper)
    (expects : state.expectation = .head paren) (step : state.readHead paren token = .ok after) :
    state.Step token after := by
  rw [readHead] at step
  split at step
  · next isWildcard =>
      obtain rfl := Except.ok.inj step
      generalize same : token.lexeme = lexeme at proper
      have kind : token.kind = lexeme.1 := congrArg Prod.fst same
      cases proper with
      | wildcard =>
          have isHead : token.lexeme = headLexeme none := same
          exact .head expects (by simp) isHead
      | _ => simp [isWildcard] at kind
  · next isName =>
      split at step
      · next known found =>
          obtain rfl := Except.ok.inj step
          obtain ⟨named, notTombstone⟩ := name_of_ofName? found
          have isHead : token.lexeme = headLexeme (some known) := by
            rw [Token.lexeme, isName, headLexeme, ← named, String.toList_ofList]
          exact .head expects (by simpa using notTombstone) isHead
      · cases step
  · cases step

theorem step_of_readItem (proper : token.lexeme.Proper) (ready : state.Ready)
    (step : state.readItem token = .ok after) : state.Step token after := by
  generalize same : token.lexeme = lexeme at proper
  have kind : token.kind = lexeme.1 := congrArg Prod.fst same
  have chars : token.chars = lexeme.2 := congrArg Prod.snd same
  cases proper with
  | leftParen =>
      simp only [readItem, kind] at step
      split at step
      · cases step
      · next shallow =>
          obtain rfl := Except.ok.inj step
          exact .leftParen ready (Nat.not_lt.mp shallow) same
  | rightParen =>
      simp only [readItem, kind] at step
      split at step
      · cases step
      · next innermost outer opened =>
          obtain rfl := Except.ok.inj step
          exact .rightParen ready opened same
  | wildcard =>
      simp only [readItem, kind] at step
      obtain rfl := Except.ok.inj step
      exact .wildcard ready same
  | @capture first rest starts continues =>
      simp only [readItem, kind, chars] at step
      split at step
      · next expects =>
          obtain rfl := Except.ok.inj step
          have fits : NameFits (String.ofList (first :: rest)) :=
            ⟨first, rest, String.toList_ofList, starts, continues⟩
          have isCapture : token.lexeme =
              (.capture, '@' :: (String.ofList (first :: rest)).toList) := by
            rw [same, String.toList_ofList]
          exact .capture expects fits isCapture
      · cases step
  | name =>
      simp only [readItem, kind] at step
      cases step
  | @text inside plain =>
      simp only [readItem, kind, chars, List.drop_one, List.tail_cons,
        List.dropLast_concat] at step
      obtain rfl := Except.ok.inj step
      exact .text ready plain same

/-- An accepted token does one of these things. -/
theorem step_of_read (proper : token.kind ≠ .garbage → token.lexeme.Proper)
    (step : state.read token = .ok after) : state.Step token after := by
  have proper := proper (not_garbage_of_read step)
  cases expects : state.expectation with
  | head paren =>
      simp only [read, expects] at step
      exact step_of_readHead proper expects step
  | _ =>
      have ready : state.Ready := by
        intro paren
        simp [expects]
      exact step_of_readItem proper ready (by rwa [← read_of_ready ready])

/-- Tokens are those of complete phrases and of open ones, whose patterns are given.
The open patterns are innermost first, and patterns of one list are latest first. -/
inductive Drafted (all : List String) :
    List Token → List OpenPattern × List Pattern → Prop
  | complete {phrases : List Phrase} {tokens : List Token} :
      AllFit 0 phrases → tokens.map Token.lexeme = printAll phrases →
        Drafted all tokens ([], (resolveAll all phrases).reverse)
  | opened {before inside : List Token} {paren : Token} {kind? : Option Kind}
      {children : List Phrase} {outer : List OpenPattern} {complete : List Pattern} :
      Drafted all before (outer, complete) → outer.length ≤ maxDepth →
      kind? ≠ some .tombstone → AllFit (outer.length + 1) children →
      paren.lexeme = (.leftParen, ['(']) →
      inside.map Token.lexeme = headLexeme kind? :: printAll children →
        Drafted all (before ++ paren :: inside)
          (⟨paren.span, headMatcher kind?, (resolveAll all children).reverse⟩ :: outer,
            complete)

variable {all : List String} {tokens more : List Token} {phrase : Phrase}

/-- The tokens of a phrase add its pattern. -/
theorem Drafted.add {base : Compilation}
    (drafted : Drafted all tokens (base.opened, base.complete))
    (fits : phrase.Fits base.opened.length) (same : more.map Token.lexeme = phrase.print) :
    Drafted all (tokens ++ more) (base.extended [resolve all phrase]) := by
  rw [extended]
  generalize base.complete = complete at drafted ⊢
  generalize base.opened = opened at drafted fits ⊢
  have single : printAll [phrase] = phrase.print := by rw [printAll, printAll, List.append_nil]
  cases drafted with
  | @complete phrases _ fitsAll sameTokens =>
      have fitsMore : AllFit 0 (phrases ++ [phrase]) :=
        Phrase.allFit_append.mpr ⟨fitsAll, fits, trivial⟩
      have sameMore : (tokens ++ more).map Token.lexeme = printAll (phrases ++ [phrase]) := by
        rw [List.map_append, sameTokens, same, Phrase.printAll_append, single]
      have added : Drafted all (tokens ++ more) _ := .complete fitsMore sameMore
      simpa [Phrase.resolveAll_append, resolveAll] using added
  | @opened before inside paren kind? children outer _ draft shallow known fitsInside isParen
      sameInside =>
      have fitsMore : AllFit (outer.length + 1) (children ++ [phrase]) :=
        Phrase.allFit_append.mpr ⟨fitsInside, fits, trivial⟩
      have sameMore : (inside ++ more).map Token.lexeme =
          headLexeme kind? :: printAll (children ++ [phrase]) := by
        rw [List.map_append, sameInside, same, Phrase.printAll_append, single, List.cons_append]
      have added := Drafted.opened draft shallow known fitsMore isParen sameMore
      simpa [Phrase.resolveAll_append, resolveAll] using added

/-- How the tokens that were read led to a state. -/
inductive Reached (all : List String) (state : Compilation) : List Token → Prop
  /-- They are phrases, and what comes next cannot be a capture. -/
  | pattern {tokens : List Token} : state.expectation = .pattern →
      Drafted all tokens (state.opened, state.complete) → Reached all state tokens
  /-- They end with a phrase without a capture. -/
  | captureOrPattern {before last : List Token} {base : Compilation} {phrase : Phrase} :
      state.expectation = .captureOrPattern →
      Drafted all before (base.opened, base.complete) → phrase.Fits base.opened.length →
      phrase.capture? = none → last.map Token.lexeme = phrase.print →
      (state.opened, state.complete) = base.extended [resolve all phrase] →
        Reached all state (before ++ last)
  /-- They end with an opening parenthesis. -/
  | head {before : List Token} {paren : Token} : state.expectation = .head paren.span →
      Drafted all before (state.opened, state.complete) → state.opened.length ≤ maxDepth →
      paren.lexeme = (.leftParen, ['(']) → Reached all state (before ++ [paren])

theorem Reached.drafted (reached : Reached all state tokens) (ready : state.Ready) :
    Drafted all tokens (state.opened, state.complete) := by
  cases reached with
  | pattern expects draft => exact draft
  | captureOrPattern expects draft fits bare same lists =>
      rw [lists]
      exact draft.add fits same
  | head expects => exact absurd expects (ready _)

/-- A phrase without a capture was completed. -/
theorem Reached.of_add {base : Compilation} {before last : List Token} (matcher : Matcher)
    (children : List Pattern) (draft : Drafted all before (base.opened, base.complete))
    (fits : phrase.Fits base.opened.length) (bare : phrase.capture? = none)
    (same : last.map Token.lexeme = phrase.print)
    (resolved : resolve all phrase = ⟨matcher, none, children⟩) :
    Reached all (base.add ⟨matcher, none, children⟩) (before ++ last) :=
  .captureOrPattern (expectation_add _ _) draft fits bare same
    (by rw [resolved]; exact lists_add _ _)

theorem Step.names_eq (step : state.Step token after)
    (names : state.names = captureNames (tokens.map Token.lexeme)) :
    after.names = captureNames ((tokens ++ [token]).map Token.lexeme) := by
  rw [List.map_append, List.map_singleton]
  have kept {lexeme : Lexeme} (same : token.lexeme = lexeme)
      (noName : lexeme.captureName? = none) :
      state.names = captureNames (tokens.map Token.lexeme ++ [token.lexeme]) := by
    rw [same, captureNames_append_of_none noName, names]
  cases step with
  | leftParen ready shallow same => exact kept same rfl
  | head expects known same => exact kept same (captureName?_head _)
  | rightParen ready opened same =>
      rw [names_add]
      exact kept same rfl
  | wildcard ready same =>
      rw [names_add]
      exact kept same rfl
  | text ready plain same =>
      rw [names_add]
      exact kept same rfl
  | @capture name expects fits same =>
      have numbered := nameIndex_captureNames (tokens.map Token.lexeme)
        (captureName?_capture name)
      rw [same, names_capture, names, numbered]

theorem Reached.push {paren : Span} {kind? : Option Kind} (reached : Reached all state tokens)
    (expects : state.expectation = .head paren) (known : kind? ≠ some .tombstone)
    (same : token.lexeme = headLexeme kind?) :
    Reached all (state.push paren (headMatcher kind?)) (tokens ++ [token]) := by
  cases reached with
  | @head before opening isHead draft shallow isParen =>
      have sameSpan : opening.span = paren := by
        simpa using isHead.symm.trans expects
      have sameHead : [token].map Token.lexeme = headLexeme kind? :: printAll [] := by
        rw [List.map_singleton, same, printAll]
      have fits : AllFit (state.opened.length + 1) [] := trivial
      have opened := Drafted.opened draft shallow known fits isParen sameHead
      rw [List.append_assoc]
      refine .pattern rfl ?_
      rw [← sameSpan]
      exact opened
  | pattern other => simp [other] at expects
  | captureOrPattern other => simp [other] at expects

theorem Drafted.close {innermost : OpenPattern} {outer : List OpenPattern}
    (draft : Drafted all tokens (innermost :: outer, state.complete))
    (same : token.lexeme = (.rightParen, [')'])) :
    Reached all (Compilation.add ⟨innermost.matcher, none, innermost.children.reverse⟩
      { state with opened := outer }) (tokens ++ [token]) := by
  cases draft with
  | @opened before inside paren kind? children _ _ draft shallow known fits isParen sameInside =>
      have closed : (paren :: (inside ++ [token])).map Token.lexeme =
          (Phrase.node kind? children none).print := by
        rw [List.map_cons, List.map_append, isParen, sameInside, List.map_singleton, same]
        simp [print, captureLexemes]
      have fitsNode : (Phrase.node kind? children none).Fits outer.length :=
        ⟨shallow, known, fits, by simp⟩
      rw [List.append_assoc, List.cons_append]
      let base : Compilation := { state with opened := outer }
      have draftBase : Drafted all before (base.opened, base.complete) := draft
      refine .of_add _ _ draftBase fitsNode rfl closed ?_
      simp [resolve]

/-- A capture names the phrase that was completed last.  More names may come, but they do
not change the number that is given here. -/
theorem Reached.capture {name : String} (reached : Reached all state tokens)
    (expects : state.expectation = .captureOrPattern) (nameFits : NameFits name)
    (same : token.lexeme = (.capture, '@' :: name.toList))
    (names : state.names = captureNames (tokens.map Token.lexeme))
    (numbers : captureNames ((tokens ++ [token]).map Token.lexeme) <+: all) :
    Reached all (state.capture name) (tokens ++ [token]) := by
  cases reached with
  | @captureOrPattern before last base phrase other draft fits bare sameLast lists =>
      have named := captureName?_capture name
      have numbered := nameIndex_captureNames ((before ++ last).map Token.lexeme) named
      rw [← names] at numbered
      have captured := lists_capture name lists
      rw [List.map_append, List.map_singleton, same] at numbers
      have number := idxOf_of_mem_of_isPrefix
        (mem_captureNames (List.mem_append_right _ List.mem_cons_self) named) numbers
      have printed : (last ++ [token]).map Token.lexeme = (phrase.captured name).print := by
        rw [List.map_append, sameLast, List.map_singleton, same, Phrase.print_captured bare]
      rw [List.append_assoc]
      refine .pattern (expectation_capture name state) ?_
      rw [captured, numbered, ← number, ← Phrase.resolve_captured]
      exact draft.add (Phrase.fits_captured fits nameFits) printed
  | pattern other => simp [other] at expects
  | head other => simp [other] at expects

/-- Each accepted token continues the phrases that were read. -/
theorem Reached.step (reached : Reached all state tokens) (step : state.Step token after)
    (names : state.names = captureNames (tokens.map Token.lexeme))
    (numbers : captureNames ((tokens ++ [token]).map Token.lexeme) <+: all) :
    Reached all after (tokens ++ [token]) := by
  cases step with
  | leftParen ready shallow same => exact .head rfl (reached.drafted ready) shallow same
  | head expects known same => exact reached.push expects known same
  | rightParen ready opened same => exact (opened ▸ reached.drafted ready).close same
  | wildcard ready same =>
      have fits : (Phrase.any none).Fits state.opened.length := by simp [Fits]
      have printed : [token].map Token.lexeme = (Phrase.any none).print := by
        rw [List.map_singleton, same]
        rfl
      exact .of_add _ _ (reached.drafted ready) fits rfl printed rfl
  | @text chars ready plain same =>
      have fits : (Phrase.text chars none).Fits state.opened.length := ⟨plain, by simp⟩
      have printed : [token].map Token.lexeme = (Phrase.text chars none).print := by
        rw [List.map_singleton, same]
        rfl
      exact .of_add _ _ (reached.drafted ready) fits rfl printed rfl
  | capture expects nameFits same => exact reached.capture expects nameFits same names numbers

theorem Reached.run {more : List Token} (reached : Reached all state tokens)
    (names : state.names = captureNames (tokens.map Token.lexeme))
    (proper : ∀ token ∈ more, token.kind ≠ .garbage → token.lexeme.Proper)
    (numbers : captureNames ((tokens ++ more).map Token.lexeme) <+: all)
    (readMore : more.foldlM read state = .ok after) :
    Reached all after (tokens ++ more) ∧
      after.names = captureNames ((tokens ++ more).map Token.lexeme) := by
  induction more generalizing state tokens with
  | nil =>
      obtain rfl := Except.ok.inj readMore
      rw [List.append_nil]
      exact ⟨reached, names⟩
  | cons token rest ih =>
      cases accepted : state.read token with
      | error error =>
          rw [List.foldlM_cons, accepted] at readMore
          cases readMore
      | ok next =>
          rw [foldlM_cons_of_read accepted] at readMore
          rw [List.append_cons] at numbers ⊢
          have step := step_of_read (proper token List.mem_cons_self) accepted
          have numbersNow : captureNames ((tokens ++ [token]).map Token.lexeme) <+: all := by
            rw [List.map_append] at numbers
            exact (captureNames_prefix_append _ _).trans numbers
          exact ih (reached.step step names numbersNow) (step.names_eq names)
            (fun other member => proper other (List.mem_cons_of_mem _ member)) numbers readMore

end Compilation

/-- Every parenthesis is matched. -/
inductive Balanced : List TokenKind → Prop
  | nil : Balanced []
  | other {kind : TokenKind} {rest : List TokenKind} :
      kind ≠ .leftParen → kind ≠ .rightParen → Balanced rest → Balanced (kind :: rest)
  | parens {inside rest : List TokenKind} :
      Balanced inside → Balanced rest →
        Balanced (.leftParen :: (inside ++ .rightParen :: rest))

theorem Balanced.append {first second : List TokenKind} (balanced : Balanced first)
    (others : Balanced second) : Balanced (first ++ second) := by
  induction balanced with
  | nil => exact others
  | other notLeft notRight _ ih => exact .other notLeft notRight ih
  | parens inside _ _ ih =>
      rw [List.cons_append, List.append_assoc, List.cons_append]
      exact .parens inside ih

theorem balanced_capture (capture? : Option String) :
    Balanced ((captureLexemes capture?).map Prod.fst) := by
  cases capture? with
  | none => exact .nil
  | some name => exact .other nofun nofun .nil

theorem balanced_head {kinds : List TokenKind} (kind? : Option Kind) (rest : Balanced kinds) :
    Balanced ((headLexeme kind?).1 :: kinds) := by
  cases kind? with
  | none => exact .other nofun nofun rest
  | some kind => exact .other nofun nofun rest

mutual

theorem balanced_print : ∀ phrase : Phrase, Balanced (phrase.print.map Prod.fst)
  | .any capture? => .other nofun nofun (balanced_capture capture?)
  | .text chars capture? => .other nofun nofun (balanced_capture capture?)
  | .node kind? children capture? => by
      rw [print, List.map_cons, List.map_cons, List.map_append, List.map_cons]
      exact .parens (balanced_head kind? (balanced_printAll children))
        (balanced_capture capture?)

theorem balanced_printAll : ∀ phrases : List Phrase, Balanced ((printAll phrases).map Prod.fst)
  | [] => .nil
  | phrase :: rest => by
      rw [printAll, List.map_append]
      exact (balanced_print phrase).append (balanced_printAll rest)

end

namespace Compilation

/-- The innermost open pattern is the one behind the last parenthesis without a match. -/
theorem Drafted.innermost {all : List String} {tokens : List Token} {innermost : OpenPattern}
    {outer : List OpenPattern} {complete : List Pattern}
    (draft : Drafted all tokens (innermost :: outer, complete)) :
    ∃ before paren inside, tokens = before ++ paren :: inside ∧
      paren.kind = .leftParen ∧ paren.span = innermost.paren ∧
      Balanced (inside.map Token.kind) := by
  cases draft with
  | @opened before inside paren kind? children _ _ draft shallow known fits isParen sameInside =>
      refine ⟨before, paren, inside, rfl, congrArg Prod.fst isParen, rfl, ?_⟩
      have kinds : inside.map Token.kind = (inside.map Token.lexeme).map Prod.fst := by
        rw [List.map_map]
        rfl
      rw [kinds, sameInside]
      exact balanced_head kind? (balanced_printAll children)

end Compilation
end Query
end Asm6502
