import Bracketing.Validation
import Mathlib.Computability.Language

/-!
The grammar of flat expressions as a language: a run of digits, then any number of operators with a
run of digits behind each. The walk over a text that checks it accepts this language and no more, so
what is refused can be told from the grammar alone.
-/

namespace Bracketing

open scoped Computability

namespace Grammar

def letters (p : Char → Prop) : Language Char := {w | ∃ c, p c ∧ w = [c]}

def symbols : Language Char := letters fun c => ∃ op : Operator, c = op.symbol

def run (digit : Char → Bool) : Language Char :=
  letters (digit · = true) * (letters (digit · = true))∗

def flat (digit : Char → Bool) : Language Char := run digit * (symbols * run digit)∗

def behindDigit (digit : Char → Bool) : Language Char :=
  (letters (digit · = true))∗ * (symbols * run digit)∗

theorem nil_notMem_letters_mul (p : Char → Prop) (l : Language Char) : [] ∉ letters p * l := by
  rw [Language.mem_mul]
  rintro ⟨-, ⟨c, -, rfl⟩, w, -, h⟩
  cases h

theorem cons_mem_letters_mul_iff {p : Char → Prop} {l : Language Char} {c : Char}
    {cs : List Char} : c :: cs ∈ letters p * l ↔ p c ∧ cs ∈ l := by
  rw [Language.mem_mul]
  constructor
  · rintro ⟨-, ⟨d, hd, rfl⟩, w, hw, h⟩
    cases h
    exact ⟨hd, hw⟩
  · rintro ⟨hc, hcs⟩
    exact ⟨[c], ⟨c, hc, rfl⟩, cs, hcs, rfl⟩

theorem mem_symbols_iff {w : List Char} : w ∈ symbols ↔ ∃ op : Operator, w = [op.symbol] := by
  constructor
  · rintro ⟨-, ⟨op, rfl⟩, rfl⟩
    exact ⟨op, rfl⟩
  · rintro ⟨op, rfl⟩
    exact ⟨op.symbol, ⟨op, rfl⟩, rfl⟩

section Equations

variable (digit : Char → Bool)

theorem flat_eq : flat digit = letters (digit · = true) * behindDigit digit := by
  rw [flat, behindDigit, run, mul_assoc]

theorem behindDigit_eq :
    behindDigit digit =
      1 + symbols * flat digit + letters (digit · = true) * behindDigit digit := by
  -- Behind an operand the text ends, or a symbol begins the same again.
  have hrest : (symbols * run digit)∗ = 1 + symbols * flat digit := by
    rw [flat, ← mul_assoc, Language.one_add_self_mul_kstar_eq_kstar]
  calc behindDigit digit
      = (1 + letters (digit · = true) * (letters (digit · = true))∗) * (symbols * run digit)∗ := by
        rw [Language.one_add_self_mul_kstar_eq_kstar, behindDigit]
    _ = (symbols * run digit)∗ + letters (digit · = true) * behindDigit digit := by
        rw [one_add_mul, mul_assoc, behindDigit]
    _ = 1 + symbols * flat digit + letters (digit · = true) * behindDigit digit := by
        rw [hrest]

theorem nil_notMem_flat : [] ∉ flat digit := by
  rw [flat_eq]
  exact nil_notMem_letters_mul _ _

theorem nil_mem_behindDigit : [] ∈ behindDigit digit := by
  rw [behindDigit_eq]
  exact .inl (.inl rfl)

variable {digit}

theorem cons_mem_flat_iff {c : Char} {cs : List Char} :
    c :: cs ∈ flat digit ↔ digit c = true ∧ cs ∈ behindDigit digit := by
  rw [flat_eq, cons_mem_letters_mul_iff]

theorem cons_mem_behindDigit_iff {c : Char} {cs : List Char} :
    c :: cs ∈ behindDigit digit ↔
      (∃ op : Operator, c = op.symbol) ∧ cs ∈ flat digit ∨
        digit c = true ∧ cs ∈ behindDigit digit := by
  conv_lhs => rw [behindDigit_eq]
  rw [Language.mem_add, Language.mem_add, symbols, cons_mem_letters_mul_iff,
    cons_mem_letters_mul_iff]
  simp

end Equations

theorem mem_iff_completes {digit : Char → Bool} (h : ∀ op, digit (Operator.symbol op) = false)
    (cs : List Char) :
    (cs ∈ flat digit ↔ completes digit false cs = true) ∧
      (cs ∈ behindDigit digit ↔ completes digit true cs = true) := by
  induction cs with
  | nil => simp [nil_notMem_flat, nil_mem_behindDigit, completes]
  | cons c cs ih =>
    rw [cons_mem_flat_iff, cons_mem_behindDigit_iff]
    cases hc : digit c with
    | true =>
      -- The walk asks for a digit first, which is no loss: a digit is no symbol.
      have hsymbol : ¬ ∃ op : Operator, c = op.symbol := by
        rintro ⟨op, rfl⟩
        rw [h op] at hc
        cases hc
      simp [completes, hc, hsymbol, ih.2]
    | false =>
      simp [completes, hc, ih.1, Option.isSome_iff_exists, Operator.ofSymbol?_eq_some_iff]

theorem isFlat_iff_mem_flat {digit : Char → Bool} (h : ∀ op, digit (Operator.symbol op) = false)
    {cs : List Char} : isFlat digit cs = true ↔ cs ∈ flat digit :=
  (mem_iff_completes h cs).1.symm

end Grammar

end Bracketing
