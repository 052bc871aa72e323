import Asm6502.Proofs.LetterCase
import Asm6502.Proofs.SpacedTokens

/-!
# Spellings

Many tokens can be listed, words by one spelling for all letter cases.  What is scanned
by itself in lower case is so in any letter case, so that it is enough to look at the
lists.
-/

namespace Asm6502

/-- A token is scanned by itself in any letter case if it is in lower case. -/
theorem Token.StandsAlone.of_lower {dialect : Dialect} {kind : Kind} {text : Bytes}
    (alone : StandsAlone dialect ⟨kind, Bytes.lower text⟩) :
    StandsAlone dialect ⟨kind, text⟩ where
  scanned := by
    have scanned := alone.scanned
    rw [Scan.scanFrom_lower] at scanned
    obtain ⟨token, single, same⟩ := List.map_eq_singleton_iff.mp scanned
    have text : token.text = text := by
      have whole := Scan.flatMap_text_scanFrom dialect false text
      rw [single, List.flatMap_singleton] at whole
      exact whole
    have kind : token.kind = kind := congrArg Token.kind same
    rw [single, ← text, ← kind]
  isMark := alone.isMark

/-- A token stands for a meaning: it is listed as a sign, or it spells a listed word in
any letter case. -/
inductive Stands {Meaning : Type} (kind : Kind) (signs : List (Token × Meaning))
    (words : List (Bytes × Meaning)) : Token → Meaning → Prop
  | sign {token : Token} {meaning : Meaning} :
      (token, meaning) ∈ signs → Stands kind signs words token meaning
  | word {text : Bytes} {meaning : Meaning} :
      (Bytes.lower text, meaning) ∈ words → Stands kind signs words ⟨kind, text⟩ meaning

/-- A token with the meaning that it stands for. -/
structure Spelling {Meaning : Type} (kind : Kind) (signs : List (Token × Meaning))
    (words : List (Bytes × Meaning)) where
  token : Token
  meaning : Meaning
  stands : Stands kind signs words token meaning

/-- What holds of the listed signs, and of listed words in any letter case. -/
theorem Spelling.forall {Meaning : Type} {kind : Kind} {signs : List (Token × Meaning)}
    {words : List (Bytes × Meaning)} {motive : Token → Meaning → Prop}
    (spelling : Spelling kind signs words) (ofSign : ∀ pair ∈ signs, motive pair.1 pair.2)
    (ofWord : ∀ pair ∈ words, ∀ text, Bytes.lower text = pair.1 → motive ⟨kind, text⟩ pair.2) :
    motive spelling.token spelling.meaning := by
  obtain ⟨token, meaning, stands⟩ := spelling
  cases stands with
  | sign member => exact ofSign _ member
  | word member => exact ofWord _ member _ rfl

end Asm6502
