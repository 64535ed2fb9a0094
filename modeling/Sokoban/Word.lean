/-! # Machine words

A machine word has 64 bits. Read without a sign it is a number below `Word.bound`; read with a sign
its upper half stands for the negative numbers.
-/

namespace Sokoban.Word

/-- The number of words: two to the 64th. -/
def bound : Nat := 0x10000000000000000

/-- Half the number of words: two to the 63rd. -/
def half : Int := 0x8000000000000000

def signed (n : Nat) : Int := Int.bmod n bound

/-- Whether a number is the value of a signed word. -/
def Fits (x : Int) : Prop := -half ≤ x ∧ x < half

instance (x : Int) : Decidable (Fits x) := inferInstanceAs (Decidable (_ ∧ _))

theorem bound_eq : (bound : Int) = 2 * half := by decide

/-- A number below half the number of words is its own signed value. -/
theorem signed_of_lt {n : Nat} (h : (n : Int) < half) : signed n = n := by
  unfold signed half bound at *
  rw [Int.bmod_def]
  omega

end Sokoban.Word
