import Asm6502.Proofs.CommentTokens
import Asm6502.Proofs.LineTails
import Asm6502.Proofs.ParseShape
import Asm6502.Proofs.PlaceNeighbours
import Asm6502.Proofs.TextPlaces
import Asm6502.Proofs.WrittenTexts
import Asm6502.View.Statement

/-!
# Where the comment of a line stands

The lines of a tree are lines of the text as they were read.  So a line has at most one
comment, and it is a child of the line, which is where the view of a line looks for it.
Only behind the last comma of a macro call it stands in the call, and is not found.
-/

namespace Asm6502

namespace Reading

variable {dialect : Dialect} {lines : List (List Token)}

/-- The lines among some trees were read from some of the given lists of tokens. -/
def LinesFrom (dialect : Dialect) (lines : List (List Token)) (trees : List Tree) : Prop :=
  ∀ tree ∈ Tree.allLineNodes trees, ∃ block? tokens, tokens ∈ lines ∧
    tree = (Line.read dialect block? tokens).tree

theorem allLineNodes_leave (sketch : Sketch OpenBlock) (block : BlockKind) :
    Tree.allLineNodes (sketch.leave block.nodeKind).forest =
      Tree.allLineNodes sketch.forest := by
  rcases Sketch.forest_leave sketch block.nodeKind with
    same | ⟨before, children, -, split, closed⟩
  · rw [same]
  · rw [split, closed]
    simp [Tree.allLineNodes, Tree.lineNodes_of_isBlock block.isBlock_nodeKind]

theorem allLineNodes_applyEdge (offset : Nat) (sketch : Sketch OpenBlock)
    (edge? : Option BlockEdge) :
    Tree.allLineNodes (applyEdge offset sketch edge?).forest =
      Tree.allLineNodes sketch.forest := by
  rcases applyEdge_cases offset sketch edge? with same | ⟨_, _, -, wrapped⟩ | ⟨block, left⟩
  · rw [same]
  · rw [wrapped, Sketch.forest_wrap]
  · rw [left, allLineNodes_leave]

theorem LinesFrom.addLine {reading : Reading} {tokens : List Token}
    (known : LinesFrom dialect lines reading.sketch.forest) (member : tokens ∈ lines) :
    LinesFrom dialect lines (reading.addLine dialect tokens).sketch.forest := by
  intro tree treeIn
  rw [Reading.addLine, allLineNodes_applyEdge, Sketch.forest_add, Tree.allLineNodes_append,
    List.mem_append] at treeIn
  rcases treeIn with before | here
  · exact known tree before
  · refine ⟨reading.block?, tokens, member, ?_⟩
    simpa [Tree.allLineNodes, Line.read, Tree.lineNodes] using here

theorem LinesFrom.addLines {reading : Reading} {more : List (List Token)}
    (known : LinesFrom dialect lines reading.sketch.forest) (included : more ⊆ lines) :
    LinesFrom dialect lines (addLines dialect more reading).sketch.forest := by
  exact addLines_induct (motive := fun _ reading => LinesFrom dialect lines reading.sketch.forest)
    known fun _ member _ _ known => known.addLine (included member)

theorem LinesFrom.closeBlocks (blocks : List OpenBlock) {reading : Reading}
    (known : LinesFrom dialect lines reading.sketch.forest) :
    LinesFrom dialect lines (closeBlocks blocks reading).sketch.forest := by
  induction blocks generalizing reading with
  | nil => exact known
  | cons openBlock outer ih =>
      refine ih ?_
      intro tree treeIn
      exact known tree (by rwa [allLineNodes_leave] at treeIn)

end Reading

theorem Parse.exists_read_of_mem_lines {dialect : Dialect} {text : Bytes} {line : Place}
    (member : line ∈ Place.lines ⟨(entire dialect text).root, []⟩) :
    ∃ block? tokens, tokens ∈ Token.lines (Scan.scan dialect text) ∧
      line.focus = (Line.read dialect block? tokens).tree := by
  have start : Reading.LinesFrom dialect (Token.lines (Scan.scan dialect text))
      ({} : Reading).sketch.forest := fun tree member => absurd member List.not_mem_nil
  have whole := (start.addLines fun _ => id).closeBlocks
    (Reading.addLines dialect (Token.lines (Scan.scan dialect text)) {}).sketch.tags
  rw [← Reading.close, ← Reading.ofText_eq_addLines,
    Sketch.forest_of_opened_nil (Reading.isClosed_ofText dialect text)] at whole
  have root : (entire dialect text).root =
      .node .sourceFile (Reading.treesOf (Reading.passages dialect text)) :=
    congrArg Parse.root (Reading.snapshotOf_passages dialect text)
  have trees : (Reading.ofText dialect none [] text).sketch.trees =
      Reading.treesOf (Reading.passages dialect text) := (Tree.node.inj root).2
  have focuses := Place.lines_of_root (Reading.holds_passages dialect text).shape
  rw [← root] at focuses
  apply whole
  rw [trees, ← focuses]
  exact List.mem_map_of_mem member

namespace Place

variable {line comment call child : Place}

theorem exists_child {tree : Tree} (member : tree ∈ line.focus.children) :
    ∃ child ∈ line.children, child.focus = tree := by
  rw [← map_focus_children, List.mem_map] at member
  exact member

theorem mem_tokens_of_isToken (member : child ∈ line.preorder) (isToken : child.isToken = true) :
    child ∈ line.tokens :=
  List.mem_filter.mpr ⟨member, isToken⟩

theorem map_focus_amongEarlier (kind : Kind) (outer : List Crumb) (after before : List Tree) :
    (amongEarlier kind outer after before).map focus = before := by
  induction before generalizing after with
  | nil => rfl
  | cons tree before ih => rw [amongEarlier, List.map_cons, ih]

/-- A line has one comment. -/
structure HasComment (line comment : Place) : Prop where
  only : line.tokens.filter (fun leaf => leaf.kind == .comment) = [comment]

theorem HasComment.eq (has : HasComment line comment) (member : child ∈ line.preorder)
    (isToken : child.isToken = true) (isComment : child.kind = .comment) : child = comment := by
  have listed : child ∈ line.tokens.filter fun leaf => leaf.kind == .comment :=
    List.mem_filter.mpr ⟨mem_tokens_of_isToken member isToken, by rw [isComment]; rfl⟩
  rw [has.only] at listed
  exact List.mem_singleton.mp listed

theorem HasComment.eq_of_comment? (has : HasComment line comment)
    (found : View.Line.comment? line = some child) :
    child = comment ∧ child ∈ line.children := by
  have member := List.mem_of_find?_eq_some found
  obtain ⟨inChildren, isToken⟩ := List.mem_filter.mp member
  have isComment : child.kind = .comment := by simpa using List.find?_some found
  exact ⟨has.eq (children_subset_preorder (mem_preorder_self line) child inChildren) isToken
    isComment, inChildren⟩

theorem HasComment.comment?_eq_some (has : HasComment line comment)
    (member : comment ∈ line.children) (isToken : comment.isToken = true)
    (isComment : comment.kind = .comment) : View.Line.comment? line = some comment := by
  cases found : View.Line.comment? line with
  | none =>
      have among : comment ∈ line.tokenChildren := List.mem_filter.mpr ⟨member, isToken⟩
      have missing := List.find?_eq_none.mp found comment among
      simp [isComment] at missing
  | some child => rw [(has.eq_of_comment? found).1]

theorem HasComment.comment?_eq_none (has : HasComment line comment)
    (callIn : call ∈ line.children) (commentIn : comment ∈ call.children) :
    View.Line.comment? line = none := by
  cases found : View.Line.comment? line with
  | none => rfl
  | some child =>
      obtain ⟨rfl, member⟩ := has.eq_of_comment? found
      have direct := parent?_of_mem_children member
      rw [parent?_of_mem_children commentIn] at direct
      obtain rfl := Option.some.inj direct
      obtain ⟨first, second, split⟩ := List.append_of_mem callIn
      have deeper := depth_of_children_eq split
      omega

/-- The sibling that a place comes next to, trivia apart. -/
def neighbour? (place : Place) : Option Place :=
  place.earlierSiblings.find? fun sibling => !sibling.isTrivia

theorem kind_neighbour? {arguments gap : List Tree} {comma : Tree}
    {first second : List Place} (split : call.children = first ++ comment :: second)
    (before : first.map focus = arguments ++ comma :: gap)
    (gapTrivia : ∀ tree ∈ gap, tree.kind.isTrivia = true)
    (notTrivia : comma.kind.isTrivia = false) :
    comment.neighbour?.map kind = some comma.kind := by
  have surroundings := above_of_children_eq split
  have focuses :
      comment.earlierSiblings.map focus = gap.reverse ++ comma :: arguments.reverse := by
    unfold earlierSiblings
    rw [surroundings]
    simp [map_focus_amongEarlier, before]
  have found : (comment.earlierSiblings.map focus).find? (fun tree => !tree.kind.isTrivia) =
      some comma := by
    rw [focuses, List.find?_append, List.find?_eq_none.mpr, List.find?_cons_of_pos]
    · rfl
    · simp [notTrivia]
    · intro tree member
      simp [gapTrivia tree (List.mem_reverse.mp member)]
  rw [List.find?_map] at found
  have kinds := congrArg (Option.map Tree.kind) found
  rw [Option.map_map] at kinds
  exact kinds

theorem HasComment.of_read {dialect : Dialect} {block? : Option BlockKind} {text : Bytes}
    {tokens : List Token} (tokensIn : tokens ∈ Token.lines (Scan.scan dialect text))
    (focus : line.focus = (Line.read dialect block? tokens).tree)
    (inside : comment ∈ line.tokens) (isComment : comment.kind = .comment) :
    HasComment line comment ∧ ∃ token ∈ tokens, token.kind = .comment := by
  obtain ⟨isLine, scanned⟩ := Scan.lines_scan_shape dialect tokensIn
  have counted : line.tokens.countP (fun leaf => leaf.kind == .comment) =
      tokens.countP fun token => token.kind == .comment := by
    rw [Parse.countP_tokens line fun kind => kind == .comment, focus,
      Line.leaves_read dialect block? scanned isLine, List.countP_map]
    rfl
  have listed : comment ∈ line.tokens.filter fun leaf => leaf.kind == .comment :=
    List.mem_filter.mpr ⟨inside, by rw [isComment]; rfl⟩
  have some : 0 < tokens.countP fun token => token.kind == .comment := by
    rw [← counted, List.countP_eq_length_filter]
    exact List.length_pos_of_mem listed
  obtain ⟨token, tokenIn, tokenComment⟩ := List.countP_pos_iff.mp some
  have tokenComment : token.kind = .comment := by simpa using tokenComment
  obtain ⟨front, ends, split, ending, noComment⟩ :=
    Token.exists_split_comment tokensIn tokenIn tokenComment
  have one : tokens.countP (fun token => token.kind == .comment) = 1 := by
    rw [split, List.countP_append, List.countP_cons_of_pos (by rw [tokenComment]; rfl),
      List.countP_eq_zero.mpr fun other member => by simpa using noComment other member,
      List.countP_eq_zero.mpr fun other member => by simp [ending other member]]
  refine ⟨⟨?_⟩, token, tokenIn, tokenComment⟩
  rw [← counted, List.countP_eq_length_filter, List.length_eq_one_iff] at one
  obtain ⟨only, alone⟩ := one
  rw [alone, List.mem_singleton] at listed
  rw [alone, listed]

end Place

namespace Parse

open Place

/-- A comment is the only one of its line.  It is a child of the line, and the view of the
line finds it; or else it stands in a macro call, behind the comma after which the last
argument is missing, and is not found. -/
theorem ofText_keeps_comments (dialect : Dialect) (text : Bytes) {line comment : Place}
    (member : line ∈ View.Line.all ⟨(ofText dialect text).root, []⟩)
    (inside : comment ∈ line.tokens) (isComment : comment.kind = .comment) :
    line.tokens.filter (fun leaf => leaf.kind == .comment) = [comment] ∧
      (comment ∈ line.children ∧ View.Line.comment? line = some comment ∨
        ∃ call ∈ line.children, call.kind = .macroCall ∧ comment ∈ call.children ∧
          comment.neighbour?.map kind = some .comma ∧ View.Line.comment? line = none) := by
  have isLineNode : line ∈ Place.lines ⟨(entire dialect text).root, []⟩ := by
    obtain ⟨below, isLine⟩ := List.mem_filter.mp member
    have kind : line.kind = .line := by simp_all
    rw [← ofText_of_le (length_le_of_mem_places below (by simp [kind]))]
    exact mem_lines_iff.mpr ⟨below, kind⟩
  obtain ⟨block?, tokens, tokensIn, focus⟩ := exists_read_of_mem_lines isLineNode
  obtain ⟨has, token, tokenIn, tokenComment⟩ :=
    HasComment.of_read tokensIn focus inside isComment
  have isToken : comment.isToken = true := (List.mem_filter.mp inside).2
  obtain ⟨isLine, scanned⟩ := Scan.lines_scan_shape dialect tokensIn
  obtain ⟨front, ends, split, ending, -⟩ :=
    Token.exists_split_comment tokensIn tokenIn tokenComment
  have isTrivia : token.isTrivia = true := by rw [Token.isTrivia, tokenComment]; rfl
  have trailing : Token.Trailing (token :: ends) := by
    intro other member
    rcases List.mem_cons.mp member with rfl | member
    · exact .inl isTrivia
    · exact .inr (ending other member)
  obtain ⟨children, tree, holds⟩ := Line.holds_read dialect block? isLine scanned trailing
    ⟨front, split.symm⟩ List.mem_cons_self isTrivia
  have lineChildren : line.focus.children = children := by rw [focus, tree]; rfl
  refine ⟨has.only, ?_⟩
  rcases holds with direct | ⟨arguments, comma, gap, nodeIn, isComma, gapTrivia, inGap⟩
  · left
    obtain ⟨child, childIn, isLeaf⟩ := exists_child (lineChildren ▸ direct)
    have same : child = comment :=
      has.eq (children_subset_preorder (mem_preorder_self line) child childIn)
        (by rw [Place.isToken, isLeaf]; rfl) (by rw [Place.kind, isLeaf]; exact tokenComment)
    rw [same] at childIn
    exact ⟨childIn, has.comment?_eq_some childIn isToken isComment⟩
  · right
    obtain ⟨call, callIn, isCall⟩ := exists_child (lineChildren ▸ nodeIn)
    have callChildren : call.children.map Place.focus = arguments ++ comma :: gap := by
      rw [map_focus_children, isCall]
      rfl
    obtain ⟨near, far, rfl⟩ := List.append_of_mem inGap
    have regrouped : arguments ++ comma :: (near ++ Draft.leaf token :: far) =
        (arguments ++ comma :: near) ++ Draft.leaf token :: far := by simp
    rw [regrouped, List.map_eq_append_iff] at callChildren
    obtain ⟨first, rest, split, before, behind⟩ := callChildren
    obtain ⟨child, second, rfl, isLeaf, -⟩ := List.map_eq_cons_iff.mp behind
    have childIn : child ∈ call.children := by simp [split]
    have below := children_subset_preorder
      (children_subset_preorder (mem_preorder_self line) call callIn) child childIn
    obtain rfl : child = comment :=
      has.eq below (by rw [Place.isToken, isLeaf]; rfl)
        (by rw [Place.kind, isLeaf]; exact tokenComment)
    refine ⟨call, callIn, by rw [Place.kind, isCall]; rfl, childIn, ?_,
      has.comment?_eq_none callIn childIn⟩
    rw [kind_neighbour? split before (fun tree treeIn => gapTrivia tree (by simp [treeIn]))
      (by rw [isComma]; rfl), isComma]

/-- A macro call in which a comma stands behind the last argument, and a comment. -/
def trailingComma : Bytes :=
  Bytes.ascii "m a, ; c\n"

/-- The children of the call: a name, one argument, the comma and the comment. -/
def trailingCommaCall : Tree :=
  .node .macroCall [.token .ident 1, .token .whitespace 1, .node .macroArg [.token .register 1],
    .token .comma 1, .token .whitespace 1, .token .comment 3]

def trailingCommaLine : Place :=
  ⟨.node .line [trailingCommaCall, .token .eol 1], [⟨.sourceFile, [], []⟩]⟩

def trailingCommaComment : Place :=
  ⟨.token .comment 3,
    [⟨.macroCall, (trailingCommaCall.children.take 5).reverse, []⟩,
      ⟨.line, [], [.token .eol 1]⟩, ⟨.sourceFile, [], []⟩]⟩

theorem ofText_keeps_comments_trailingComma :
    trailingCommaLine ∈ View.Line.all ⟨(ofText .stock trailingComma).root, []⟩ ∧
      trailingCommaComment ∈ trailingCommaLine.tokens ∧
      trailingCommaComment.kind = .comment ∧
      trailingCommaLine.tokens.filter (fun leaf => leaf.kind == .comment) =
        [trailingCommaComment] ∧
      trailingCommaComment.neighbour?.map kind = some .comma := by
  have member : trailingCommaLine ∈ View.Line.all ⟨(ofText .stock trailingComma).root, []⟩ := by
    decide +kernel
  have inside : trailingCommaComment ∈ trailingCommaLine.tokens := by decide +kernel
  obtain ⟨only, ⟨direct, -⟩ | ⟨-, -, -, -, behind, -⟩⟩ :=
    ofText_keeps_comments .stock trailingComma member inside rfl
  · exact absurd direct (by decide +kernel)
  · exact ⟨member, inside, rfl, only, behind⟩

/-- The comment behind a trailing comma is no child of its line, which finds none. -/
theorem comment_in_call :
    ¬∀ (dialect : Dialect) (text : Bytes) (line comment : Place),
      line ∈ View.Line.all ⟨(ofText dialect text).root, []⟩ → comment ∈ line.tokens →
        comment.kind = .comment →
          comment ∈ line.children ∧ View.Line.comment? line = some comment := by
  intro found
  obtain ⟨direct, -⟩ := found .stock trailingComma trailingCommaLine trailingCommaComment
    (by decide +kernel) (by decide +kernel) rfl
  exact absurd direct (by decide +kernel)

end Parse
end Asm6502
