import Asm6502.Parse.Outcome

/-!
# Refused texts

A text that is not too long is read as a whole, by parsing and by reparsing.  A longer one is
refused before anything of it is read, and what is given instead is empty.
-/

namespace Asm6502

namespace ParseOptions

variable {options : ParseOptions} {text : Bytes}

theorem check_of_le (fits : text.length ≤ options.limit) : options.check text = .ok () :=
  if_neg (Nat.not_lt.mpr fits)

theorem check_of_lt (tooLong : options.limit < text.length) :
    options.check text = .error ⟨text.length, options.limit⟩ :=
  if_pos tooLong

/-- What is behind the check is reached by no text that is too long. -/
theorem eq_of_check {α : Type} {value result : α}
    (passed : (options.check text).bind (fun _ => .ok value) = .ok result) :
    text.length ≤ options.limit ∧ result = value := by
  rcases Nat.lt_or_ge options.limit text.length with tooLong | fits
  · rw [check_of_lt tooLong] at passed
    contradiction
  · rw [check_of_le fits] at passed
    exact ⟨fits, (Except.ok.inj passed).symm⟩

end ParseOptions

namespace Parse

open ParseOptions

variable {dialect : Dialect} {options : ParseOptions} {old : Parse} {edits : List Edit}
  {text : Bytes}

theorem ofText?_of_le (fits : text.length ≤ options.limit) :
    ofText? dialect options text = .ok (fromScratch dialect options.stopAfter text) := by
  rw [ofText?, check_of_le fits]
  rfl

theorem ofText?_of_lt (tooLong : options.limit < text.length) :
    ofText? dialect options text = .error ⟨text.length, options.limit⟩ := by
  rw [ofText?, check_of_lt tooLong]
  rfl

theorem reparse?_of_le (fits : text.length ≤ options.limit) :
    reparse? dialect options old edits text =
      .ok (takeOver dialect options.stopAfter old edits text) := by
  rw [reparse?, check_of_le fits]
  rfl

theorem reparse?_of_lt (tooLong : options.limit < text.length) :
    reparse? dialect options old edits text = .error ⟨text.length, options.limit⟩ := by
  rw [reparse?, check_of_lt tooLong]
  rfl

theorem ofText?_eq_ok {parse : Parse} (parsed : ofText? dialect options text = .ok parse) :
    parse = fromScratch dialect options.stopAfter text :=
  (eq_of_check parsed).2

theorem reparse?_eq_ok {result : Parse × ReuseReport}
    (reparsed : reparse? dialect options old edits text = .ok result) :
    result = takeOver dialect options.stopAfter old edits text :=
  (eq_of_check reparsed).2

/-- Without options only the width of offsets limits a text. -/
theorem limit_default : ({} : ParseOptions).limit = maxTextLength :=
  Nat.min_self _

theorem ofText_of_le (fits : text.length ≤ maxTextLength) :
    ofText dialect text = entire dialect text := by
  rw [← limit_default] at fits
  rw [ofText, ofText?_of_le fits]
  rfl

theorem ofText_of_lt (tooLong : maxTextLength < text.length) :
    ofText dialect text = rejected ⟨text.length, maxTextLength⟩ := by
  rw [← limit_default] at tooLong
  rw [ofText, ofText?_of_lt tooLong, limit_default]

theorem reparse_of_le (fits : text.length ≤ maxTextLength) :
    reparse dialect old edits text = (takeOver dialect none old edits text).1 := by
  rw [← limit_default] at fits
  rw [reparse, reparse?_of_le fits]

theorem reparse_of_lt (tooLong : maxTextLength < text.length) :
    reparse dialect old edits text = rejected ⟨text.length, maxTextLength⟩ := by
  rw [← limit_default] at tooLong
  rw [reparse, reparse?_of_lt tooLong, limit_default]

theorem ofText_cases (dialect : Dialect) (text : Bytes) :
    (text.length ≤ maxTextLength ∧ ofText dialect text = entire dialect text) ∨
      (maxTextLength < text.length ∧
        ofText dialect text = rejected ⟨text.length, maxTextLength⟩) := by
  rcases Nat.lt_or_ge maxTextLength text.length with tooLong | fits
  · exact .inr ⟨tooLong, ofText_of_lt tooLong⟩
  · exact .inl ⟨fits, ofText_of_le fits⟩

end Parse

/-- The same byte over and over, once more than a text can have bytes. -/
@[irreducible] def Bytes.overlong (byte : UInt8) : Bytes :=
  List.replicate (maxTextLength + 1) byte

theorem Bytes.lt_length_overlong (byte : UInt8) : maxTextLength < (overlong byte).length := by
  rw [overlong, List.length_replicate]
  exact Nat.lt_succ_self _

theorem Bytes.overlong_ne_nil (byte : UInt8) : overlong byte ≠ [] :=
  List.ne_nil_of_length_pos (Nat.zero_lt_of_lt (lt_length_overlong byte))

theorem Bytes.eq_of_mem_overlong {byte other : UInt8} (member : other ∈ overlong byte) :
    other = byte := by
  rw [overlong] at member
  exact List.eq_of_mem_replicate member

end Asm6502
