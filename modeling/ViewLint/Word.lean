/-!
# Words

Signed integers of a fixed number of bits: which numbers fit one (`Word.fits`), and what a number
becomes when only its lowest 64 bits are kept (`wrap64`).
-/

namespace ViewLint

namespace Word

/-- The first number that is too large for a signed word. -/
def bound (bits : Nat) : Int := (Nat.pow 2 (bits - 1) : Nat)

/-- Does a number fit a signed word? -/
def fits (bits : Nat) (n : Int) : Bool := -bound bits ≤ n && n < bound bits

theorem bound_64 : bound 64 = 9223372036854775808 := by decide

theorem fits_iff {bits : Nat} {n : Int} :
    fits bits n = true ↔ -bound bits ≤ n ∧ n < bound bits := by
  unfold fits
  rw [Bool.and_eq_true, decide_eq_true_eq, decide_eq_true_eq]

end Word

/-- Wraps an integer to the range of a 64-bit signed word: its lowest 64 bits are kept. -/
def wrap64 (n : Int) : Int := n.bmod 18446744073709551616

/-- Only a number that fits the word is kept as it is. -/
theorem wrap64_eq_self_iff {n : Int} : wrap64 n = n ↔ Word.fits 64 n = true := by
  rw [Word.fits_iff, Word.bound_64]
  unfold wrap64 Int.bmod
  dsimp only
  split <;> omega

/-- A number that is too large loses at least one turn of the word. -/
theorem wrap64_le_of_bound_le {n : Int} (h : Word.bound 64 ≤ n) :
    wrap64 n ≤ n - 18446744073709551616 := by
  rw [Word.bound_64] at h
  unfold wrap64 Int.bmod
  dsimp only
  split <;> omega

end ViewLint
