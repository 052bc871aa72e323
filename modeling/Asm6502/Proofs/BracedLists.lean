import Asm6502.Proofs.ExchangedReadings
import Asm6502.Proofs.ParseShape
import Asm6502.Proofs.TextPlaces
import Asm6502.Text.Edit

/-!
# Lists in braces

The tokens of a list in braces that is an argument of a call are kept as they are.  Other
tokens in its braces change nothing else: not the tokens around the list, not the tree, and
not what is reported.  Only the rule that tells whether an operand is indirect looks through
a list and counts the parentheses and commas in it, so it has to judge both texts alike.
-/

namespace Asm6502

/-- A list in braces that is an argument of a call, and whose last brace is the one that
closes the first. -/
structure Place.IsClosedList (list : Place) : Prop where
  isList : list.kind = .macroArg
  isArgument : list.parent?.map kind = some .callExpr
  closed : ∃ inside, list.tokens.map kind = .leftBrace :: (inside ++ [.rightBrace]) ∧
    Kind.Balanced inside

theorem Written.exists_map_leaf {parts : List Written}
    (flat : ∀ part ∈ parts, ∃ token, part = .leaf token) :
    ∃ tokens : List Token, parts = tokens.map .leaf := by
  induction parts with
  | nil => exact ⟨[], rfl⟩
  | cons part parts ih =>
      obtain ⟨token, rfl⟩ := flat part List.mem_cons_self
      obtain ⟨tokens, rfl⟩ := ih fun other member => flat other (List.mem_cons_of_mem _ member)
      exact ⟨token :: tokens, rfl⟩

namespace Parse

variable {dialect : Dialect} {text : Bytes} {list : Place}
  {before inside filler behind : List Token}

/-- The tokens of a text in front of a list, in its braces and behind it. -/
structure Surrounds (dialect : Dialect) (text : Bytes) (list : Place)
    (before inside behind : List Token) : Prop where
  scanned : Scan.scan dialect text = before ++ Token.braced inside ++ behind
  start : Token.totalLength before = list.start
  focus : list.focus = Token.listNode inside
  balanced : Kind.Balanced (inside.map Token.kind)
  unbroken : Token.Unbroken inside

/-- Operands that begin in front of a list are judged alike with other tokens in its
braces. -/
def JudgesAlike (before inside filler behind : List Token) : Prop :=
  ∀ lead mnemonic opening, before = lead ++ mnemonic :: opening → mnemonic.kind = .mnemonic →
    Token.Unbroken opening →
      Operand.opensIndirect
          { rest := opening ++ (Token.braced inside ++ Token.restOfLine behind) } =
        Operand.opensIndirect
          { rest := opening ++ (Token.braced filler ++ Token.restOfLine behind) }

/-- Only the list itself is another one in the other text: the tokens around it, the tree
around it and the messages are the same. -/
structure KeepsAround (dialect : Dialect) (text other : Bytes) (list : Place)
    (before filler behind : List Token) : Prop where
  scanned : Scan.scan dialect other = before ++ Token.braced filler ++ behind
  root : (ofText dialect other).root = Crumb.plug list.above (Token.listNode filler)
  messages : (ofText dialect other).diagnostics.map Diagnostic.message =
    (ofText dialect text).diagnostics.map Diagnostic.message

theorem unbroken_of_isList {tokens : List Token} (member : list ∈ (entire dialect text).places)
    (isList : list.kind = .macroArg) (focus : list.focus.leaves = tokens.map Token.pair) :
    Token.Unbroken tokens := by
  rw [Reading.snapshotOf_passages] at member
  have shape := (Reading.holds_passages dialect text).shape
  have stands := Place.stands_of_mem_preorder shape list member
  intro token tokenIn isEol
  have leafIn : token.pair ∈ list.focus.leaves := by
    rw [focus]
    exact List.mem_map_of_mem tokenIn
  cases stands with
  | root => contradiction
  | @passage tree above shape =>
      have isList : tree.kind = .macroArg := isList
      rcases Place.Stands.kind_cases_of_passage shape with isLine | isBlock
      · rw [isLine] at isList
        contradiction
      · rw [isList] at isBlock
        contradiction
  | inside shape => exact shape.leaf_kind_ne leafIn isEol
  | lineEnd => contradiction

/-- A list holds the tokens of the text from its start on. -/
theorem exists_tokens_of_isList (member : list ∈ (entire dialect text).places)
    (isList : list.kind = .macroArg) (isNode : list.isNode = true) :
    ∃ before tokens behind, Scan.scan dialect text = before ++ (tokens ++ behind) ∧
      Token.totalLength before = list.start ∧
        list.focus = .node .macroArg (tokens.map Draft.leaf) := by
  obtain ⟨settled, tail, _, writtenAs⟩ := exists_writtenAs dialect text
  rw [places, writtenAs.root] at member
  obtain ⟨written, occurs⟩ := Place.exists_occurs_of_mem_preorder member
  obtain ⟨before, behind, split, start⟩ := occurs.exists_tokens
  rw [Written.tokens_node, writtenAs.tokens] at split
  have sameKind := occurs.kind
  have formed := (occurs.standing writtenAs.standing).formed (by rw [← sameKind, isList]; rfl)
  have focus := occurs.focus
  cases written with
  | leaf token =>
      rw [occurs.isNode] at isNode
      contradiction
  | node kind parts =>
      obtain rfl : .macroArg = kind := isList.symm.trans sameKind
      obtain ⟨tokens, rfl⟩ := Written.exists_map_leaf formed.exists_leaf_of_macroArg
      rw [Written.tokens_node, Written.allTokens_map_leaf] at split
      rw [Written.tree_node, List.map_map] at focus
      exact ⟨before, tokens, behind, split, start, focus⟩

theorem exists_surrounds (member : list ∈ (entire dialect text).places)
    (isClosed : list.IsClosedList) :
    ∃ before inside behind, Surrounds dialect text list before inside behind := by
  obtain ⟨kinds, braces, balanced⟩ := isClosed.closed
  rw [map_kind_tokens] at braces
  have isNode : list.isNode = true := by
    rw [Place.isNode]
    cases focus : list.focus with
    | token => simp [focus, Tree.leaves] at braces
    | node => rfl
  obtain ⟨before, tokens, behind, scanned, start, focus⟩ :=
    exists_tokens_of_isList member isClosed.isList isNode
  have leaves : list.focus.leaves = tokens.map Token.pair := by
    rw [focus, Tree.leaves, Draft.allLeaves_map_leaf]
  rw [leaves, List.map_map] at braces
  have included : tokens ⊆ Scan.scanFrom dialect true 0 text := by
    rw [← Scan.scan, scanned]
    simp
  obtain ⟨inside, rfl, rfl⟩ := Scan.exists_braced included braces
  have unbroken := unbroken_of_isList member isClosed.isList leaves
  refine ⟨before, inside, behind, by rw [scanned, List.append_assoc], start, focus, balanced, ?_⟩
  exact fun token tokenIn => unbroken token (by simp [Token.braced, tokenIn])

namespace Surrounds

variable (surrounds : Surrounds dialect text list before inside behind)
include surrounds

theorem splice_eq (filler : Bytes) :
    Edit.splice text ⟨list.start + 1, list.stop - 1⟩ filler =
      before.flatMap Token.text ++
        0x7b :: (filler ++ 0x7d :: behind.flatMap Token.text) := by
  have textOf := Scan.flatMap_text_scanFrom dialect true text
  rw [← Scan.scan, surrounds.scanned, List.flatMap_append, List.flatMap_append,
    Token.flatMap_text_braced] at textOf
  have length : list.length = Token.totalLength inside + 2 := by
    rw [Place.length, surrounds.focus, Token.listNode, Tree.length, ← Tree.leafLength_allLeaves,
      Draft.allLeaves_map_leaf, Tree.leafLength_map_pair, Token.totalLength_braced]
  have opened : text.take (list.start + 1) = before.flatMap Token.text ++ [0x7b] := by
    have split : text = (before.flatMap Token.text ++ [0x7b]) ++
        (inside.flatMap Token.text ++ 0x7d :: behind.flatMap Token.text) := by
      simp [← textOf]
    rw [split]
    refine List.take_left' ?_
    rw [List.length_append, ← Token.totalLength_eq_length_flatMap, surrounds.start]
    rfl
  have closing : text.drop (list.stop - 1) = 0x7d :: behind.flatMap Token.text := by
    have split : text = (before.flatMap Token.text ++ 0x7b :: inside.flatMap Token.text) ++
        0x7d :: behind.flatMap Token.text := by
      simp [← textOf]
    rw [split]
    refine List.drop_left' ?_
    rw [Place.stop, length, List.length_append, List.length_cons,
      ← Token.totalLength_eq_length_flatMap, ← Token.totalLength_eq_length_flatMap,
      surrounds.start]
    omega
  rw [Edit.splice, opened, closing]
  simp

/-- The line of the list, with either tokens in its braces. -/
theorem exists_exchange (fills : Token.FillsBraces filler)
    (fillerWhole : ∀ token ∈ filler, token.kind ≠ .eof)
    (judged : JudgesAlike before inside filler behind) :
    ∃ (exchange : Exchange) (earlier later : List (List Token)),
      exchange.inside = inside ∧ exchange.filler = filler ∧ exchange.JudgedAlike ∧
        Token.totalLength earlier.flatten + exchange.position = list.start ∧
          Token.lines (Scan.scan dialect text) = earlier ++ exchange.line :: later ∧
            Token.lines (before ++ Token.braced filler ++ behind) =
              earlier ++ exchange.other :: later := by
  obtain ⟨earlier, front, split, unbroken, around⟩ := Token.exists_lines_around before behind
  have whole : ∀ token ∈ Scan.scan dialect text, token.kind ≠ .eof := fun token member =>
    (Scan.isScanned_of_mem_scan member).kind_ne_eof
  rw [surrounds.scanned, split] at whole
  have fillerUnbroken : Token.Unbroken filler := fun token member isEol =>
    fills.plain token member (by simp [isEol])
  have goesOn : ∀ token ∈ front ++ (inside ++ filler), token.kind.endsLine = false := by
    simp only [List.forall_mem_append]
    refine ⟨fun token member => ?_, fun token member => ?_, fun token member => ?_⟩
    · exact Draft.endsLine_eq_false (unbroken token member) (whole token (by simp [member]))
    · exact Draft.endsLine_eq_false (surrounds.unbroken token member)
        (whole token (by simp [Token.braced, member]))
    · exact Draft.endsLine_eq_false (fillerUnbroken token member) (fillerWhole token member)
  have behindWhole : ∀ token ∈ Token.restOfLine behind, token.kind ≠ .eof := fun token member =>
    whole token (List.mem_append_right _ (Token.restOfLine_subset behind member))
  let exchange : Exchange := ⟨front, inside, filler, Token.restOfLine behind,
    surrounds.balanced, fills.balanced, goesOn, behindWhole⟩
  refine ⟨exchange, earlier, (Token.lines behind).tail, rfl, rfl, ?_, ?_, ?_, ?_⟩
  · intro lead mnemonic opening isFront isMnemonic
    have isFront : front = lead ++ mnemonic :: opening := isFront
    refine judged (earlier.flatten ++ lead) mnemonic opening ?_ isMnemonic fun token member => ?_
    · rw [split, isFront, List.append_assoc]
    · exact unbroken token (by simp [isFront, member])
  · rw [← surrounds.start, split, Token.totalLength_append]
    rfl
  · rw [surrounds.scanned,
      around _ (Token.braced_ne_nil _) (Token.unbroken_braced surrounds.unbroken),
      List.append_assoc]
    rfl
  · rw [around _ (Token.braced_ne_nil _) (Token.unbroken_braced fillerUnbroken),
      List.append_assoc]
    rfl

end Surrounds

/-- The surroundings of the first brace of a list. -/
def insideOf (above : List Crumb) (inside : List Token) : List Crumb :=
  ⟨.macroArg, [], (inside ++ [Token.rightBrace]).map Draft.leaf⟩ :: above

theorem plug_listNode (above : List Crumb) (inside : List Token) :
    Crumb.plug above (Token.listNode inside) =
      Crumb.plug (insideOf above inside) (.token .leftBrace 1) :=
  rfl

theorem covers_start {above : List Crumb} {position : Nat} (inside : List Token)
    (offset : Crumb.offset above = position) :
    Crumb.offset (insideOf above inside) ≤ position ∧
      position < Crumb.offset (insideOf above inside) + 1 := by
  have same : Crumb.offset (insideOf above inside) = position := by
    rw [insideOf, Crumb.offset, offset, Tree.totalLength, Nat.zero_add]
  omega

theorem above_unique {above outer : List Crumb}
    (same : Crumb.plug above (Token.listNode inside) = Crumb.plug outer (Token.listNode inside))
    (offset : Crumb.offset above = Crumb.offset outer) : above = outer := by
  rw [plug_listNode, plug_listNode] at same
  have surroundings := Crumb.plug_token_unique same (covers_start inside offset)
    (covers_start inside rfl)
  exact (List.cons.inj surroundings).2

theorem opensList_of_isArgument (isArgument : list.parent?.map Place.kind = some .callExpr)
    (inside : List Token) : Crumb.OpensList (insideOf list.above inside) := by
  obtain ⟨focus, above⟩ := list
  cases above with
  | nil => contradiction
  | cons call outer => exact ⟨_, call, outer, rfl, Option.some.inj isArgument⟩

theorem keepsAround (member : list ∈ (entire dialect text).places) (isClosed : list.IsClosedList)
    (surrounds : Surrounds dialect text list before inside behind)
    (short : text.length ≤ maxTextLength) {filler : Bytes}
    (otherShort : (Edit.splice text ⟨list.start + 1, list.stop - 1⟩ filler).length ≤
      maxTextLength)
    (fills : Token.FillsBraces (Scan.scanFrom dialect false 0 filler))
    (judged : JudgesAlike before inside (Scan.scanFrom dialect false 0 filler) behind) :
    KeepsAround dialect text (Edit.splice text ⟨list.start + 1, list.stop - 1⟩ filler) list before
      (Scan.scanFrom dialect false 0 filler) behind := by
  have scanned : Scan.scan dialect (Edit.splice text ⟨list.start + 1, list.stop - 1⟩ filler) =
      before ++ Token.braced (Scan.scanFrom dialect false 0 filler) ++ behind := by
    rw [surrounds.splice_eq]
    exact Scan.scanFrom_braced surrounds.scanned fills
  generalize Edit.splice text ⟨list.start + 1, list.stop - 1⟩ filler = other
    at scanned otherShort ⊢
  obtain ⟨exchange, earlier, later, isInside, isFiller, judged, start, lines, lines'⟩ :=
    surrounds.exists_exchange fills
      (fun token member => (Scan.isScanned_of_mem member).kind_ne_eof) judged
  have shapes : ∀ line ∈ earlier ++ exchange.line :: later,
      Token.IsLine line ∧ ∀ token ∈ line, Scan.IsScanned token := by
    rw [← lines]
    exact fun line member => Scan.lines_scan_shape dialect member
  have whole : ∀ token ∈ (earlier ++ exchange.line :: later).flatten, token.kind ≠ .eof := by
    rw [← lines, Token.flatten_lines]
    exact fun token member => (Scan.isScanned_of_mem_scan member).kind_ne_eof
  have closed : (Reading.ofText dialect none [] text).IsClosed := Reading.isClosed_close _
  have root : Crumb.plug list.above (Token.listNode inside) = (entire dialect text).root := by
    rw [← surrounds.focus]
    exact Place.plug_of_mem_preorder member
  have cases := Reading.exchanged_cases dialect judged shapes
  rw [← lines, ← lines', ← scanned, ← Reading.ofText_eq_addLines, ← Reading.ofText_eq_addLines,
    start] at cases
  rcases cases with astray | exchanged
  · rw [Sketch.forest_of_opened_nil closed] at astray
    exact absurd (opensList_of_isArgument isClosed.isArgument inside)
      (astray.not_opensList root (covers_start inside rfl))
  · obtain ⟨above, offset, plugged, plugged'⟩ := exchanged.exists_plug closed
      (fun token member => whole token (by simp [member]))
      (fun token member => whole token (by
        rcases List.mem_append.mp member with member | member
        · simp [Exchange.line, member]
        · simp [member]))
    rw [Exchange.part, isInside] at plugged
    obtain rfl : above = list.above :=
      above_unique (plugged.symm.trans root.symm) (offset.trans start)
    refine ⟨scanned, ?_, ?_⟩
    · rw [← isFiller, ofText_of_le otherShort]
      exact plugged'
    · rw [ofText_of_le short, ofText_of_le otherShort]
      exact exchanged.messages.symm

/-- A list in braces that is an argument of a call hides its tokens: with any others that
fill its braces, all that stands around it stays, as do the messages.  Where an operand of an
instruction begins in front of the list, it has to be judged alike whether it is indirect;
and the text must not become too long. -/
theorem ofText_hides_list (dialect : Dialect) (text : Bytes) {list : Place}
    (member : list ∈ (ofText dialect text).places) (isClosed : list.IsClosedList) :
    ∃ before inside behind, Surrounds dialect text list before inside behind ∧
      ∀ filler : Bytes, Token.FillsBraces (Scan.scanFrom dialect false 0 filler) →
        JudgesAlike before inside (Scan.scanFrom dialect false 0 filler) behind →
          (Edit.splice text ⟨list.start + 1, list.stop - 1⟩ filler).length ≤ maxTextLength →
            KeepsAround dialect text (Edit.splice text ⟨list.start + 1, list.stop - 1⟩ filler) list
              before (Scan.scanFrom dialect false 0 filler) behind := by
  have short := length_le_of_mem_places member (by simp [isClosed.isList])
  rw [ofText_of_le short] at member
  obtain ⟨before, inside, behind, surrounds⟩ := exists_surrounds member isClosed
  exact ⟨before, inside, behind, surrounds, fun _ fills judged otherShort =>
    keepsAround member isClosed surrounds short otherShort fills judged⟩

/-- A list of one register. -/
def registerList : Tree :=
  .node .macroArg [.token .leftBrace 1, .token .register 1, .token .rightBrace 1]

/-- Around a list that is the argument of a call. -/
def countCrumb : Crumb :=
  ⟨.callExpr, [.token .leftParen 1, .token .pseudoFnKw 7], [.token .rightParen 1]⟩

/-- A closing parenthesis, a comma and an opening parenthesis. -/
def turnedParentheses : Bytes :=
  Bytes.ascii "),("

theorem fillsBraces_turnedParentheses :
    Token.FillsBraces (Scan.scanFrom .stock false 0 turnedParentheses) := by
  decide +kernel

theorem isClosedList_register (outer : List Crumb) :
    Place.IsClosedList ⟨registerList, countCrumb :: outer⟩ :=
  ⟨rfl, rfl, [.register], rfl, rfl⟩

/-- A directive whose data is the number of tokens in a list. -/
def countedData : Bytes :=
  Bytes.ascii ".byte .tcount(\x7ba\x7d)\n"

def dataList : Place :=
  ⟨registerList, [countCrumb, ⟨.directive, [.token .whitespace 1, .token .directiveKw 5], []⟩,
    ⟨.line, [], [.token .eol 1]⟩, ⟨.sourceFile, [], []⟩]⟩

theorem ofText_hides_list_countedData :
    dataList ∈ (ofText .stock countedData).places ∧ dataList.IsClosedList ∧
      ∃ before behind, KeepsAround .stock countedData
        (Edit.splice countedData ⟨dataList.start + 1, dataList.stop - 1⟩ turnedParentheses)
        dataList before (Scan.scanFrom .stock false 0 turnedParentheses) behind := by
  have member : dataList ∈ (ofText .stock countedData).places := by decide +kernel
  have noMnemonic : ∀ token ∈ Scan.scan .stock countedData, token.kind ≠ .mnemonic := by
    decide +kernel
  obtain ⟨before, inside, behind, surrounds, keeps⟩ :=
    ofText_hides_list .stock countedData member (isClosedList_register _)
  refine ⟨member, isClosedList_register _, before, behind,
    keeps turnedParentheses fillsBraces_turnedParentheses ?_ (by decide +kernel)⟩
  rintro lead mnemonic opening rfl isMnemonic
  refine absurd isMnemonic (noMnemonic mnemonic ?_)
  rw [surrounds.scanned]
  simp

/-- An operand that begins with a parenthesis and goes on behind the matching one. -/
def countedOperand : Bytes :=
  Bytes.ascii "lda (.tcount(\x7ba\x7d))*2\n"

def operandList : Place :=
  ⟨registerList, [countCrumb, ⟨.parenExpr, [.token .leftParen 1], [.token .rightParen 1]⟩,
    ⟨.binaryExpr, [], [.token .star 1, .node .numberLiteral [.token .number 1]]⟩,
    ⟨.operand, [], []⟩, ⟨.instruction, [.token .whitespace 1, .token .mnemonic 3], []⟩,
    ⟨.line, [], [.token .eol 1]⟩, ⟨.sourceFile, [], []⟩]⟩

/-- The rule that tells whether an operand is indirect looks through a list. -/
theorem operand_sees_list :
    ¬∀ (dialect : Dialect) (text : Bytes) (list : Place), list ∈ (ofText dialect text).places →
      list.IsClosedList → ∃ before inside behind,
        Surrounds dialect text list before inside behind ∧
          ∀ filler : Bytes, Token.FillsBraces (Scan.scanFrom dialect false 0 filler) →
            (Edit.splice text ⟨list.start + 1, list.stop - 1⟩ filler).length ≤ maxTextLength →
            KeepsAround dialect text
              (Edit.splice text ⟨list.start + 1, list.stop - 1⟩ filler) list before
              (Scan.scanFrom dialect false 0 filler) behind := by
  intro hidden
  obtain ⟨before, inside, behind, -, keeps⟩ :=
    hidden .stock countedOperand operandList (by decide +kernel) (isClosedList_register _)
  have messages :=
    (keeps turnedParentheses fillsBraces_turnedParentheses (by decide +kernel)).messages
  exact absurd messages (by decide +kernel)

end Parse
end Asm6502
