/-!
# Decimal digits

Natural numbers as lists of decimal digits, most significant first. `ofDigits_digits` says that
reading the digits of a number gives the number.
-/

namespace PermissionUsage.Decimal

def digit (d : Nat) : Char := Char.ofNat (48 + d)

/-- The decimal digits of a number, without leading zeros. -/
def digits (n : Nat) : List Char :=
  if n < 10 then [digit n] else digits (n / 10) ++ [digit (n % 10)]

/-- The number that a list of digits stands for. -/
def ofDigits (cs : List Char) : Nat := cs.foldl (fun n c => 10 * n + (c.toNat - 48)) 0

/-- The character of a digit is that many places after the character zero. -/
theorem toNat_digit {d : Nat} (h : d < 10) : (digit d).toNat = 48 + d := by
  have : ∀ d : Fin 10, (digit d).toNat = 48 + d := by decide
  exact this ⟨d, h⟩

theorem isDigit_digit {d : Nat} (h : d < 10) : (digit d).isDigit := by
  have : ∀ d : Fin 10, (digit d).isDigit := by decide
  exact this ⟨d, h⟩

/-- One more digit makes the number ten times as great and adds the digit. -/
theorem ofDigits_append_digit (cs : List Char) {d : Nat} (h : d < 10) :
    ofDigits (cs ++ [digit d]) = 10 * ofDigits cs + d := by
  simp [ofDigits, toNat_digit h]

/-- The digits of a number are read as that number. -/
theorem ofDigits_digits (n : Nat) : ofDigits (digits n) = n := by
  induction n using Nat.strongRecOn with
  | ind n ih =>
    rw [digits]
    split
    · next h => simp [ofDigits, toNat_digit h]
    · rw [ofDigits_append_digit _ (Nat.mod_lt _ (by omega)), ih (n / 10) (by omega)]
      omega

/-- Nothing but digits is written for a number. -/
theorem isDigit_of_mem_digits (n : Nat) : ∀ c ∈ digits n, c.isDigit := by
  induction n using Nat.strongRecOn with
  | ind n ih =>
    rw [digits]
    split
    · next h => simpa using isDigit_digit h
    · intro c hc
      rcases List.mem_append.1 hc with hc | hc
      · exact ih (n / 10) (by omega) c hc
      · obtain rfl := List.mem_singleton.1 hc
        exact isDigit_digit (Nat.mod_lt _ (by omega))

/-- Digits as a number is written: at least one, and no leading zero but in zero itself. -/
def isPlain (cs : List Char) : Bool :=
  cs ≠ [] ∧ cs.all Char.isDigit ∧ (cs.head? = some '0' → cs = ['0'])

def parse? (text : String) : Option Nat :=
  if isPlain text.toList then some (ofDigits text.toList) else none

def render (n : Nat) : String := String.ofList (digits n)

end PermissionUsage.Decimal
