import Asm6502.Proofs.RefusedTexts
import Mathlib.Order.Bounds.Basic

/-!
# Reading in chunks

A source that serves its text in chunks is read as their concatenation.  The reading
stops by itself behind the last chunk.  A limit is noticed at the first chunk that
passes it, and what has been read by then is the shortest beginning of the chunks that
is too long.  So parsing the chunks is parsing the text, but for the limit named in a
refusal: offsets have 32 bits, and a limit beyond them can only be named by a reading.
-/

namespace Asm6502
namespace Chunks

/-- The course of a reading behind some text, with as many reads as it takes. -/
inductive Reads (limit? : Option Nat) (source : Nat → Bytes) :
    (text : Bytes) → Except InputTooLarge Bytes → Prop
  | ended {text : Bytes} :
      source text.length = [] → Reads limit? source text (.ok text)
  | refused {text chunk : Bytes} {limit : Nat} :
      source text.length = chunk → chunk ≠ [] → limit? = some limit →
        limit < (text ++ chunk).length →
          Reads limit? source text (.error ⟨(text ++ chunk).length, limit⟩)
  | further {text chunk : Bytes} {result : Except InputTooLarge Bytes} :
      source text.length = chunk → chunk ≠ [] →
        (∀ limit ∈ limit?, (text ++ chunk).length ≤ limit) →
          Reads limit? source (text ++ chunk) result → Reads limit? source text result

/-- The lengths of the text behind each of the chunks. -/
def totals (chunks : List Bytes) : Set Nat :=
  {total | ∃ count, total = (chunks.take count).flatten.length}

/-- What reading chunks comes to: all of them, or the first one too many. -/
inductive Accounts (limit? : Option Nat) (chunks : List Bytes) :
    Except InputTooLarge Bytes → Prop
  | whole : (∀ limit ∈ limit?, chunks.flatten.length ≤ limit) →
      Accounts limit? chunks (.ok chunks.flatten)
  | refused {before after : List Bytes} {chunk : Bytes} {limit : Nat} :
      chunks = before ++ chunk :: after → limit? = some limit →
        before.flatten.length ≤ limit → limit < (before ++ [chunk]).flatten.length →
          Accounts limit? chunks (.error ⟨(before ++ [chunk]).flatten.length, limit⟩)

variable {limit? : Option Nat} {chunks before rest : List Bytes}

/-- Chunks that have been read are passed over. -/
theorem readAt_append (before rest : List Bytes) (offset : Nat) :
    readAt (before ++ rest) (before.flatten.length + offset) = readAt rest offset := by
  induction before with
  | nil => simp
  | cons chunk before ih =>
      have behind : ¬ chunk.length + before.flatten.length + offset < chunk.length := by omega
      have left : chunk.length + before.flatten.length + offset - chunk.length =
          before.flatten.length + offset := by omega
      rw [List.cons_append, List.flatten_cons, List.length_append, readAt, if_neg behind, left, ih]

theorem readAt_behind (before rest : List Bytes) :
    readAt (before ++ rest) before.flatten.length = readAt rest 0 :=
  readAt_append before rest 0

theorem readAt_zero_cons {chunk : Bytes} (nonempty : chunk ≠ []) (rest : List Bytes) :
    readAt (chunk :: rest) 0 = chunk := by
  rw [readAt, if_pos (List.length_pos_iff.mpr nonempty), List.drop_zero]

section

variable {source : Nat → Bytes} {fuel : Nat} {text chunk : Bytes}

theorem readOn_ended (ended : source text.length = []) :
    readOn limit? source fuel text = .ok text := by
  cases fuel with
  | zero => rfl
  | succ fuel => rw [readOn, ended]

theorem readOn_refused {limit : Nat} (here : source text.length = chunk) (nonempty : chunk ≠ [])
    (tooLong : limit < (text ++ chunk).length) :
    readOn (some limit) source (fuel + 1) text = .error ⟨(text ++ chunk).length, limit⟩ := by
  obtain ⟨first, behind, rfl⟩ := List.exists_cons_of_ne_nil nonempty
  rw [readOn, here]
  exact if_pos tooLong

theorem readOn_further (here : source text.length = chunk) (nonempty : chunk ≠ [])
    (fits : ∀ limit ∈ limit?, (text ++ chunk).length ≤ limit) :
    readOn limit? source (fuel + 1) text = readOn limit? source fuel (text ++ chunk) := by
  obtain ⟨first, behind, rfl⟩ := List.exists_cons_of_ne_nil nonempty
  rw [readOn, here]
  cases limit? with
  | none => rfl
  | some limit => exact if_neg (Nat.not_lt.mpr (fits limit rfl))

end

/-- Behind chunks that were read, the reading takes its course through the others and
comes to what they hold.  One read for each of them is enough. -/
theorem reads_readOn {fuel : Nat} (split : chunks = before ++ rest) (enough : rest.length ≤ fuel)
    (fits : ∀ limit ∈ limit?, before.flatten.length ≤ limit) :
    Reads limit? (readAt chunks) before.flatten
        (readOn limit? (readAt chunks) fuel before.flatten) ∧
      Accounts limit? chunks (readOn limit? (readAt chunks) fuel before.flatten) := by
  induction rest generalizing before fuel with
  | nil =>
      obtain rfl : chunks = before := by simpa using split
      have ended : readAt chunks chunks.flatten.length = [] := by
        have behind := readAt_behind chunks []
        rwa [List.append_nil] at behind
      rw [readOn_ended ended]
      exact ⟨.ended ended, .whole fits⟩
  | cons chunk rest ih =>
      have further : chunks = (before ++ [chunk]) ++ rest := by simpa using split
      have longer : (before ++ [chunk]).flatten = before.flatten ++ chunk := by simp
      by_cases empty : chunk = []
      · -- An empty chunk is passed over without a read of its own.
        subst empty
        rw [List.append_nil] at longer
        have fitsLonger : ∀ limit ∈ limit?, (before ++ [[]]).flatten.length ≤ limit := by
          rwa [longer]
        have behind := ih further (Nat.le_of_succ_le enough) fitsLonger
        rwa [longer] at behind
      · have here : readAt chunks before.flatten.length = chunk := by
          rw [split, readAt_behind, readAt_zero_cons empty]
        obtain ⟨fuel, rfl⟩ : ∃ less, fuel = less + 1 :=
          Nat.exists_eq_succ_of_ne_zero (Nat.ne_of_gt (Nat.lt_of_lt_of_le (Nat.succ_pos _) enough))
        by_cases tooLong : ∃ limit ∈ limit?, limit < (before.flatten ++ chunk).length
        · obtain ⟨limit, rfl, tooLong⟩ := tooLong
          rw [readOn_refused here empty tooLong]
          refine ⟨.refused here empty rfl tooLong, ?_⟩
          rw [← longer] at tooLong ⊢
          exact .refused split rfl (fits limit rfl) tooLong
        · have fitsLonger : ∀ limit ∈ limit?, (before.flatten ++ chunk).length ≤ limit :=
            fun limit isLimit => Nat.le_of_not_lt fun less => tooLong ⟨limit, isLimit, less⟩
          have behind := ih further (Nat.le_of_succ_le_succ enough) (longer ▸ fitsLonger)
          rw [longer] at behind
          rw [readOn_further here empty fitsLonger]
          exact ⟨.further here empty fitsLonger behind.1, behind.2⟩

theorem reads_readAll (limit? : Option Nat) (chunks : List Bytes) :
    Reads limit? (readAt chunks) [] (readAll limit? chunks) ∧
      Accounts limit? chunks (readAll limit? chunks) :=
  reads_readOn (List.nil_append chunks).symm (Nat.le_refl _) fun _ _ => Nat.zero_le _

theorem length_flatten_take_le {count more : Nat} (le : count ≤ more) (chunks : List Bytes) :
    (chunks.take count).flatten.length ≤ (chunks.take more).flatten.length := by
  rw [← Nat.add_sub_cancel' le, List.take_add, List.flatten_append, List.length_append]
  exact Nat.le_add_right _ _

theorem take_chunk (before after : List Bytes) (chunk : Bytes) :
    (before ++ chunk :: after).take (before.length + 1) = before ++ [chunk] := by
  rw [List.append_cons, List.take_left' (by simp)]

theorem total_cases {total : Nat} {chunk : Bytes} {after : List Bytes}
    (isTotal : total ∈ totals (before ++ chunk :: after)) :
    total ≤ before.flatten.length ∨ (before ++ [chunk]).flatten.length ≤ total := by
  obtain ⟨count, rfl⟩ := isTotal
  rcases Nat.lt_or_ge before.length count with late | early
  · right
    have bound := length_flatten_take_le late (before ++ chunk :: after)
    rwa [Nat.succ_eq_add_one, take_chunk] at bound
  · left
    have bound := length_flatten_take_le early (before ++ chunk :: after)
    rwa [List.take_left] at bound

theorem isLeast_total {chunk : Bytes} {after : List Bytes} {limit : Nat}
    (fits : before.flatten.length ≤ limit) (tooLong : limit < (before ++ [chunk]).flatten.length) :
    IsLeast {total ∈ totals (before ++ chunk :: after) | limit < total}
      (before ++ [chunk]).flatten.length := by
  constructor
  · exact ⟨⟨before.length + 1, by rw [take_chunk]⟩, tooLong⟩
  · rintro total ⟨isTotal, above⟩
    exact (total_cases isTotal).resolve_left (Nat.not_le.mpr (Nat.lt_of_le_of_lt fits above))

theorem readAll_of_fits (fits : ∀ limit ∈ limit?, chunks.flatten.length ≤ limit) :
    readAll limit? chunks = .ok chunks.flatten := by
  have accounts := (reads_readAll limit? chunks).2
  generalize readAll limit? chunks = result at accounts
  cases accounts with
  | whole => rfl
  | @refused before after chunk limit split isLimit _ tooLong =>
      have whole := fits limit isLimit
      rw [split, List.append_cons, List.flatten_append, List.length_append] at whole
      omega

theorem readAll_of_lt {limit : Nat} (tooLong : limit < chunks.flatten.length) :
    ∃ length, IsLeast {total ∈ totals chunks | limit < total} length ∧
      readAll (some limit) chunks = .error ⟨length, limit⟩ := by
  have accounts := (reads_readAll (some limit) chunks).2
  generalize readAll (some limit) chunks = result at accounts
  cases accounts with
  | whole fits => exact absurd (fits limit rfl) (Nat.not_le.mpr tooLong)
  | @refused before after chunk other split isLimit fits passes =>
      obtain rfl := Option.some.inj isLimit
      rw [split]
      exact ⟨_, isLeast_total fits passes, rfl⟩

/-- A limit that is passed inside a chunk is told with the length up to the end of that
chunk. -/
example : readAll (some 5) [[0x6c, 0x64, 0x61, 0x20], [0x23, 0x31], [0x0a]] =
    .error ⟨6, 5⟩ := by
  decide

end Chunks

namespace Parse

/-- How parsing chunks and parsing their text go together: the parse is the same, or
both are refused for the same limit.  Only a limit beyond the reach of offsets is named
by the reading but not by the parse. -/
inductive Agree (options : ParseOptions) (chunks : List Bytes) :
    (chunked whole : Except InputTooLarge Parse) → Prop
  | parsed (parse : Parse) : Agree options chunks (.ok parse) (.ok parse)
  | refused (read length limit : Nat) :
      Agree options chunks (.error ⟨read, limit⟩) (.error ⟨length, limit⟩)
  | beyond {limit : Nat} (read : Nat) : options.maxLength? = some limit →
      maxTextLength < limit → limit < chunks.flatten.length →
        Agree options chunks (.error ⟨read, limit⟩)
          (.error ⟨chunks.flatten.length, maxTextLength⟩)

variable {dialect : Dialect} {options : ParseOptions} {chunks : List Bytes} {text : Bytes}

theorem ofChunks?_of_ok (read : Chunks.readAll options.maxLength? chunks = .ok text) :
    ofChunks? dialect options chunks = ofText? dialect options text := by
  rw [ofChunks?, read]
  rfl

theorem ofChunks?_of_error {error : InputTooLarge}
    (read : Chunks.readAll options.maxLength? chunks = .error error) :
    ofChunks? dialect options chunks = .error error := by
  rw [ofChunks?, read]
  rfl

/-- The same result is in agreement with itself. -/
theorem Agree.of_eq {chunked whole : Except InputTooLarge Parse} (same : chunked = whole) :
    Agree options chunks chunked whole := by
  subst same
  cases chunked with
  | ok parse => exact .parsed parse
  | error error => exact .refused error.length error.length error.limit

/-- A text whose reading is refused is refused as a whole, for the limit as far as
offsets reach. -/
theorem agree_of_lt {limit : Nat} (isLimit : options.maxLength? = some limit)
    (tooLong : limit < chunks.flatten.length) :
    Agree options chunks (ofChunks? dialect options chunks)
      (ofText? dialect options chunks.flatten) := by
  obtain ⟨read, -, refusal⟩ := Chunks.readAll_of_lt tooLong
  rw [← isLimit] at refusal
  have reach : options.limit = min limit maxTextLength := by
    rw [ParseOptions.limit, isLimit, Option.getD_some]
  have passes : options.limit < chunks.flatten.length :=
    Nat.lt_of_le_of_lt (reach ▸ Nat.min_le_left _ _) tooLong
  rw [ofChunks?_of_error refusal, ofText?_of_lt passes, reach]
  rcases Nat.lt_or_ge maxTextLength limit with far | near
  · rw [Nat.min_eq_right (Nat.le_of_lt far)]
    exact .beyond read isLimit far tooLong
  · rw [Nat.min_eq_left near]
    exact .refused read chunks.flatten.length limit

/-- Reading chunks takes a finite course.  It gives all of the text if that is within the
limit, and else tells the limit and the shortest beginning of the chunks that passes it.
Parsing the chunks agrees with parsing the text. -/
theorem ofChunks?_agrees (dialect : Dialect) (options : ParseOptions) (chunks : List Bytes) :
    Chunks.Reads options.maxLength? (Chunks.readAt chunks) []
        (Chunks.readAll options.maxLength? chunks) ∧
      (Chunks.readAll options.maxLength? chunks = .ok chunks.flatten ↔
        ∀ limit ∈ options.maxLength?, chunks.flatten.length ≤ limit) ∧
      (∀ limit ∈ options.maxLength?, limit < chunks.flatten.length →
        ∃ read, IsLeast {total ∈ Chunks.totals chunks | limit < total} read ∧
          Chunks.readAll options.maxLength? chunks = .error ⟨read, limit⟩) ∧
      Agree options chunks (ofChunks? dialect options chunks)
        (ofText? dialect options chunks.flatten) := by
  have refused : ∀ limit ∈ options.maxLength?, limit < chunks.flatten.length →
      ∃ read, IsLeast {total ∈ Chunks.totals chunks | limit < total} read ∧
        Chunks.readAll options.maxLength? chunks = .error ⟨read, limit⟩ := by
    intro limit isLimit tooLong
    have isLimit : options.maxLength? = some limit := isLimit
    rw [isLimit]
    exact Chunks.readAll_of_lt tooLong
  refine ⟨(Chunks.reads_readAll _ _).1, ⟨?_, Chunks.readAll_of_fits⟩, refused, ?_⟩
  · intro read limit isLimit
    by_contra tooLong
    obtain ⟨length, -, refusal⟩ := refused limit isLimit (Nat.lt_of_not_le tooLong)
    rw [read] at refusal
    cases refusal
  · by_cases fits : ∀ limit ∈ options.maxLength?, chunks.flatten.length ≤ limit
    · exact .of_eq (ofChunks?_of_ok (Chunks.readAll_of_fits fits))
    · push Not at fits
      obtain ⟨limit, isLimit, tooLong⟩ := fits
      exact agree_of_lt isLimit tooLong

/-- A text that passes a limit of 4 GiB is refused for that limit when it is read in
chunks, but for the greatest length offsets can tell when it is parsed. -/
theorem limits_differ_beyond_offsets :
    ∃ read whole, ofChunks? .stock ⟨some 4294967296, none⟩
          [List.replicate 4294967297 0x61] = .error read ∧
        ofText? .stock ⟨some 4294967296, none⟩
          [List.replicate 4294967297 0x61].flatten = .error whole ∧
        read.limit = 4294967296 ∧ whole.limit = 4294967295 := by
  have length : [List.replicate 4294967297 (0x61 : UInt8)].flatten.length = 4294967297 := by
    rw [List.flatten_singleton, List.length_replicate]
  have tooLong : 4294967296 < [List.replicate 4294967297 (0x61 : UInt8)].flatten.length := by
    rw [length]
    decide
  obtain ⟨read, -, refusal⟩ := Chunks.readAll_of_lt tooLong
  have passes : (⟨some 4294967296, none⟩ : ParseOptions).limit <
      [List.replicate 4294967297 (0x61 : UInt8)].flatten.length :=
    Nat.lt_of_le_of_lt (Nat.min_le_left _ _) tooLong
  exact ⟨_, _, ofChunks?_of_error refusal, ofText?_of_lt passes, rfl, by decide⟩

end Parse
end Asm6502
