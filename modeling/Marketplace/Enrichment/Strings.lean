import Marketplace.Auth.Text
import Marketplace.Words.Split

/-!
# Text in the enrichment

What the enrichment asks of its strings: which characters are spaces
(`Marketplace.Enrichment.isSpace`), and the tables of Unicode (`Marketplace.Enrichment.Unicode`),
of which only the rows of ASCII are known here.
-/

namespace Marketplace.Enrichment

/-- `str.isspace` of a character, which is what `\s` stands for: the separators of information are
spaces too. -/
def isSpace (c : Char) : Bool := isWhitespace c || (0x1C ≤ c.toNat && c.toNat ≤ 0x1F)

/-- `str.strip`. -/
def strip (s : Text) : Text := Words.trim isSpace s

/-- `str.split`, without a separator. -/
def splitSpaces (s : Text) : List Text := Words.split isSpace s

/-- What is written in ASCII is no space. -/
theorem isSpace_of_printed {c : Char} (hlow : 33 ≤ c.toNat) (hhigh : c.toNat ≤ 126) :
    isSpace c = false := by
  simp only [isSpace, isWhitespace_of_printed hlow hhigh, Bool.false_or, Bool.and_eq_false_iff,
    decide_eq_false_iff_not]
  omega

/-- A digit is no space. -/
theorem isSpace_of_isDigit (c : Char) (h : c.isDigit = true) : isSpace c = false := by
  have hrange := Ascii.isDigit_iff.mp h
  exact isSpace_of_printed (by omega) (by omega)

/-- **The tables of Unicode.** -/
structure Unicode where
  /-- What the compatibility decomposition makes of a character, without the combining marks. -/
  base : Char → Text
  /-- `str.lower` of a character. -/
  lower : Char → Text
  /-- What `\d` stands for. -/
  isDecimal : Char → Bool
  /-- What `\w` stands for. -/
  isWord : Char → Bool
  base_ascii : ∀ c, c.toNat < 128 → base c = [c]
  lower_ascii : ∀ c, c.toNat < 128 → lower c = [c.toLower]
  isDecimal_ascii : ∀ c, c.toNat < 128 → isDecimal c = c.isDigit
  isWord_ascii : ∀ c, c.toNat < 128 → isWord c = (c.isAlphanum || c = '_')
  isSpace_of_isDecimal : ∀ c, isDecimal c = true → isSpace c = false

namespace Unicode

variable (u : Unicode)

/-- `normalize("NFKD", …)` without the combining marks. The marks of a character may be reordered
before they are taken out, so each character is decomposed by itself. -/
def fold (s : Text) : Text := s.flatMap u.base

/-- `str.lower`. -/
def lowered (s : Text) : Text := s.flatMap u.lower

theorem fold_append (s t : Text) : u.fold (s ++ t) = u.fold s ++ u.fold t := List.flatMap_append

theorem lowered_append (s t : Text) : u.lowered (s ++ t) = u.lowered s ++ u.lowered t :=
  List.flatMap_append

theorem fold_ascii {s : Text} (h : ∀ c ∈ s, c.toNat < 128) : u.fold s = s := by
  induction s with
  | nil => rfl
  | cons c s ih =>
    rw [fold, List.flatMap_cons, u.base_ascii c (h c List.mem_cons_self)]
    exact congrArg (c :: ·) (ih fun d hd => h d (List.mem_cons_of_mem c hd))

theorem lowered_ascii {s : Text} (h : ∀ c ∈ s, c.toNat < 128) :
    u.lowered s = s.map Char.toLower := by
  induction s with
  | nil => rfl
  | cons c s ih =>
    rw [lowered, List.flatMap_cons, u.lower_ascii c (h c List.mem_cons_self)]
    exact congrArg (c.toLower :: ·) (ih fun d hd => h d (List.mem_cons_of_mem c hd))

/-- The tables of a language that is written in ASCII. -/
def plain : Unicode where
  base := fun c => [c]
  lower := fun c => [c.toLower]
  isDecimal := Char.isDigit
  isWord := fun c => c.isAlphanum || c = '_'
  base_ascii := fun _ _ => rfl
  lower_ascii := fun _ _ => rfl
  isDecimal_ascii := fun _ _ => rfl
  isWord_ascii := fun _ _ => rfl
  isSpace_of_isDecimal := isSpace_of_isDigit

end Unicode

end Marketplace.Enrichment
