import FloatLayout.Fault

/-!
# Machine words

Products of pixel counts and cross products of coordinates are computed in words of 32 and of
64 bits. A result that does not fit its word is a fault, never a wrapped number. Sizes in memory are
words too.

## Main definitions

- `Word`: the two widths of words.
- `Word.Fits`: a number fits a signed word.
- `Word.checked`: a result, if it fits.
- `reserve`: asks for room in memory.
-/

namespace FloatLayout

/-- A width of machine words. -/
inductive Word where
  | bits32
  | bits64
deriving DecidableEq, Repr

namespace Word

/-- The least number too great for a signed word. -/
def limit : Word → Int
  | bits32 => 2147483648
  | bits64 => 9223372036854775808

/-- `n` fits a signed word. -/
def Fits (w : Word) (n : Int) : Prop := -w.limit ≤ n ∧ n < w.limit

instance (w : Word) (n : Int) : Decidable (w.Fits n) := inferInstanceAs (Decidable (_ ∧ _))

/-- `n`, the result of `operation`, unless it does not fit a signed word. -/
def checked (w : Word) (operation : WordOperation) (n : Int) : Except Fault Int :=
  if w.Fits n then .ok n else .error (.overflow operation)

/-- A result in a signed word of 32 bits. -/
abbrev checked32 := checked bits32

/-- A result in a signed word of 64 bits. -/
abbrev checked64 := checked bits64

theorem checked_eq_ok {w : Word} {operation : WordOperation} {n : Int} (h : w.Fits n) :
    w.checked operation n = .ok n := if_pos h

theorem checked_eq_ok_iff {w : Word} {operation : WordOperation} {n k : Int} :
    w.checked operation n = .ok k ↔ w.Fits n ∧ n = k := by
  unfold checked
  split
  · rw [and_iff_right ‹_›, Except.ok.injEq]
  · exact ⟨nofun, fun h => absurd h.1 ‹_›⟩

theorem checked_eq_error {w : Word} {operation : WordOperation} {n : Int} (h : ¬w.Fits n) :
    w.checked operation n = .error (.overflow operation) := if_neg h

end Word

/-- Asks for room for `count` entries of `bytes` bytes each. The size of the room is a signed word of
    64 bits. -/
def reserve (count bytes : Nat) : Except Fault Unit :=
  require (Word.bits64.Fits (count * bytes : Nat)) .tooMuchRoom

end FloatLayout
