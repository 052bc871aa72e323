import Asm6502.Proofs.DiagnosticOrder
import Asm6502.Proofs.WrittenTexts
import Mathlib.Data.List.Induction

/-!
# Reports of unclosed blocks

Among the diagnostics of a text those of unclosed blocks can be told by their
wording.  They stand in the order in which the blocks have been opened.
-/

namespace Asm6502

open Written

namespace Cause

theorem take_toList_append {first : String} {count : Nat}
    (enough : count ≤ first.toList.length) (second : String) :
    (first ++ second).toList.take count = first.toList.take count := by
  rw [String.toList_append, List.take_append_of_le_length enough]

theorem take_message_unterminatedBlock (block : BlockKind) :
    (Cause.unterminatedBlock block).message.toList.take 3 = ['u', 'n', 't'] :=
  take_toList_append (by decide) _

theorem take_quoted (word : String) (behind : String) :
    ("`" ++ word ++ "`" ++ behind).toList.take 1 = ['`'] := by
  rw [take_toList_append, take_toList_append, take_toList_append]
  all_goals simp

theorem message_ne_unterminatedBlock {cause : Cause} (ofLine : cause.IsOfLine)
    (block : BlockKind) : cause.message ≠ (Cause.unterminatedBlock block).message := by
  intro same
  have three : cause.message.toList.take 3 = ['u', 'n', 't'] := by
    rw [same, take_message_unterminatedBlock]
  have one : cause.message.toList.take 1 = ['u'] := by
    simpa [List.take_take] using congrArg (List.take 1) three
  cases cause with
  | unknownDirective word =>
      have begins : (Cause.unknownDirective word).message.toList.take 3 = ['u', 'n', 'k'] :=
        take_toList_append (by decide) _
      rw [begins] at three
      contradiction
  | mismatchedCloser inner found =>
      have begins : (Cause.mismatchedCloser inner found).message.toList.take 1 = ['e'] := by
        change ("expected " ++ _ ++ _ ++ _ : String).toList.take 1 = _
        rw [take_toList_append, take_toList_append, take_toList_append]
        all_goals simp
      rw [begins] at one
      contradiction
  | closerOutsideBlock found =>
      have begins := take_quoted found " without an open block"
      exact absurd (begins.symm.trans one) (by decide)
  | branchOutsideConditional found =>
      have begins := take_quoted found " outside of a conditional block"
      exact absurd (begins.symm.trans one) (by decide)
  | unterminatedBlock other => exact ofLine other rfl
  | _ => exact absurd three (by decide)

end Cause

namespace BlockKind

def all : List BlockKind :=
  [.macroBody, .conditional, .procedure, .scope, .repetition, .record, .union, .enumeration]

theorem mem_all (block : BlockKind) : block ∈ all := by
  cases block <;> decide

end BlockKind

namespace Diagnostic

/-- The diagnostic says that a block has not been closed. -/
def IsUnterminated (diagnostic : Diagnostic) : Prop :=
  ∃ block, diagnostic.message = (Cause.unterminatedBlock block).message

instance (diagnostic : Diagnostic) : Decidable diagnostic.IsUnterminated :=
  decidable_of_iff
    (∃ block ∈ BlockKind.all, diagnostic.message = (Cause.unterminatedBlock block).message)
    ⟨fun ⟨block, _, same⟩ => ⟨block, same⟩,
      fun ⟨block, same⟩ => ⟨block, BlockKind.mem_all block, same⟩⟩

theorem not_isUnterminated_of_mem_rejected {error : InputTooLarge} {diagnostic : Diagnostic}
    (member : diagnostic ∈ (Parse.rejected error).diagnostics) :
    ¬ diagnostic.IsUnterminated := by
  obtain rfl := List.mem_singleton.mp member
  rintro ⟨block, same⟩
  have begins : error.message.toList.take 3 = ['i', 'n', 'p'] := by
    change ("input of " ++ _ ++ _ ++ _ ++ _ : String).toList.take 3 = _
    rw [Cause.take_toList_append, Cause.take_toList_append, Cause.take_toList_append,
      Cause.take_toList_append]
    all_goals simp
  have others := Cause.take_message_unterminatedBlock block
  rw [← same, begins] at others
  contradiction

theorem insert_of_lt {diagnostic : Diagnostic} {diagnostics : List Diagnostic}
    (before : ∀ other ∈ diagnostics, other.start < diagnostic.start) :
    insert diagnostic diagnostics = diagnostics ++ [diagnostic] := by
  induction diagnostics with
  | nil => rfl
  | cons first rest ih =>
      have firstBefore := before first (by simp)
      rw [insert, if_neg (by omega), ih fun other member => before other (by simp [member])]
      rfl

theorem inOrder_reverse {diagnostics : List Diagnostic}
    (increasing : diagnostics.Pairwise fun first second => first.start < second.start) :
    inOrder diagnostics.reverse = diagnostics := by
  induction diagnostics using List.reverseRecOn with
  | nil => rfl
  | append_singleton rest last ih =>
      obtain ⟨ordered, -, before⟩ := List.pairwise_append.mp increasing
      rw [List.reverse_append, List.reverse_singleton, List.singleton_append, inOrder,
        List.foldr_cons]
      change insert last (inOrder rest.reverse) = _
      rw [ih ordered]
      exact insert_of_lt fun other member => before other member last (by simp)

theorem IsOfLine.not_isUnterminated {diagnostic : Diagnostic} (ofLine : diagnostic.IsOfLine) :
    ¬ diagnostic.IsUnterminated := by
  obtain ⟨cause, isOfLine, message⟩ := ofLine
  rintro ⟨block, same⟩
  exact Cause.message_ne_unterminatedBlock isOfLine block (message.symm.trans same)

theorem isUnterminated_unterminated (block : BlockKind) (keyword : Span) :
    (unterminated block keyword).IsUnterminated :=
  ⟨block, rfl⟩

end Diagnostic

theorem Ending.start_le {dialect : Dialect} {block? : Option BlockKind} {start : Nat}
    {tail : List Written} {reports : List Diagnostic}
    (ending : Ending dialect block? start tail reports) :
    ∀ report ∈ reports, start ≤ report.start := by
  induction ending with
  | closed => simp
  | unclosed _ _ _ _ ih =>
      intro report member
      rcases List.mem_cons.mp member with rfl | later
      · exact Nat.le_add_left _ _
      · exact Nat.le_trans (Nat.le_add_right _ _) (ih report later)

theorem Ending.increasing {dialect : Dialect} {block? : Option BlockKind} {start : Nat}
    {tail : List Written} {reports : List Diagnostic}
    (ending : Ending dialect block? start tail reports) :
    reports.Pairwise fun first second => first.start < second.start := by
  induction ending with
  | closed => exact .nil
  | @unclosed _ start block keyword opener body _ _ _ early _ ending ih =>
      refine .cons ?_ ih
      intro report member
      -- The opening word stands in the opening line, the inner blocks behind that line.
      have behind := ending.start_le report member
      have here : (unterminated block (keyword.shift start)).start = keyword.start + start := rfl
      rw [allTokens, Token.totalLength_append] at behind
      omega

theorem Ending.isUnterminated {dialect : Dialect} {block? : Option BlockKind} {start : Nat}
    {tail : List Written} {reports : List Diagnostic}
    (ending : Ending dialect block? start tail reports) :
    ∀ report ∈ reports, report.IsUnterminated := by
  induction ending with
  | closed => simp
  | unclosed _ _ _ _ ih =>
      intro report member
      rcases List.mem_cons.mp member with rfl | later
      · exact Diagnostic.isUnterminated_unterminated _ _
      · exact ih report later

/-- Of the diagnostics of a text, those of unclosed blocks are listed from the
outermost to the innermost. -/
theorem Parse.WrittenAs.filter_diagnostics {dialect : Dialect} {text : Bytes} {parse : Parse}
    {settled tail : List Written} {reports : List Diagnostic}
    (writtenAs : WrittenAs dialect text parse settled tail reports) :
    parse.diagnostics.filter (fun diagnostic => diagnostic.IsUnterminated) = reports := by
  obtain ⟨others, ofLine, diagnostics⟩ := writtenAs.diagnostics
  have none : others.filter (fun diagnostic => decide diagnostic.IsUnterminated) = [] := by
    rw [List.filter_eq_nil_iff]
    intro diagnostic member
    simpa using (ofLine diagnostic member).not_isUnterminated
  have every : reports.reverse.filter (fun diagnostic => decide diagnostic.IsUnterminated) =
      reports.reverse := by
    rw [List.filter_eq_self]
    intro diagnostic member
    simpa using writtenAs.ending.isUnterminated diagnostic (List.mem_reverse.mp member)
  rw [diagnostics, Diagnostic.filter_inOrder, List.filter_append, none, every, List.nil_append]
  exact Diagnostic.inOrder_reverse writtenAs.ending.increasing

end Asm6502
