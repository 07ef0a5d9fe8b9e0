/-!
# Instants and lengths of time

Instants are milliseconds since the epoch and lengths of time are milliseconds, both 64-bit signed
integers. Sums and differences are taken exactly and then have to fit: a result outside the 64-bit
range is an `Overflow`, never a wrapped value. `add_eq_ok_iff` and `sub_eq_ok_iff` say exactly when
a sum or a difference exists.
-/

namespace PermissionUsage

/-- The operation whose exact result left the 64-bit range. -/
inductive Overflow where
  | add
  | sub
  deriving DecidableEq, Repr

def Overflow.message : Overflow → String
  | .add => "attempt to add with overflow"
  | .sub => "attempt to subtract with overflow"

/-- A value, or the first overflow met on the way to it. -/
abbrev Checked (α : Type) := Except Overflow α

/-- An instant or a length of time in milliseconds. -/
abbrev Millis := Int64

namespace Millis

/-- The 64-bit value of an integer that fits. -/
def ofInt? (n : Int) : Option Millis :=
  if -0x8000000000000000 ≤ n ∧ n < 0x8000000000000000 then some (Int64.ofInt n) else none

/-- An integer has a 64-bit value exactly if it is the integer of that value. -/
theorem ofInt?_eq_some_iff {n : Int} {t : Millis} : ofInt? n = some t ↔ t.toInt = n := by
  unfold ofInt?
  constructor
  · intro h
    split at h
    · next hn =>
      obtain rfl := Option.some.inj h
      exact Int64.toInt_ofInt_of_le hn.1 hn.2
    · cases h
  · rintro rfl
    rw [if_pos ⟨t.le_toInt, t.toInt_lt⟩, Int64.ofInt_toInt]

@[simp] theorem ofInt?_toInt (t : Millis) : ofInt? t.toInt = some t :=
  ofInt?_eq_some_iff.2 rfl

/-- The exact result `n` of an operation, or the overflow of that operation. -/
def checked (operation : Overflow) (n : Int) : Checked Millis :=
  match ofInt? n with
  | some t => .ok t
  | none => .error operation

/-- A checked result is the exact one. So whoever has a result reasons about integers from here on.
-/
theorem checked_eq_ok_iff {operation : Overflow} {n : Int} {t : Millis} :
    checked operation n = .ok t ↔ t.toInt = n := by
  unfold checked
  rw [← ofInt?_eq_some_iff]
  cases ofInt? n <;> simp

def add (a b : Millis) : Checked Millis := checked .add (a.toInt + b.toInt)

def sub (a b : Millis) : Checked Millis := checked .sub (a.toInt - b.toInt)

/-- A sum exists exactly as the instant with the exact sum. -/
theorem add_eq_ok_iff {a b t : Millis} : add a b = .ok t ↔ t.toInt = a.toInt + b.toInt :=
  checked_eq_ok_iff

/-- A difference exists exactly as the instant with the exact difference. -/
theorem sub_eq_ok_iff {a b t : Millis} : sub a b = .ok t ↔ t.toInt = a.toInt - b.toInt :=
  checked_eq_ok_iff

def later (a b : Millis) : Millis := if a.toInt ≤ b.toInt then b else a

def earlier (a b : Millis) : Millis := if a.toInt ≤ b.toInt then a else b

/-- The later of two instants, for arithmetic on integers. -/
theorem toInt_later (a b : Millis) : (later a b).toInt = max a.toInt b.toInt := by
  unfold later; split <;> omega

/-- The earlier of two instants, for arithmetic on integers. -/
theorem toInt_earlier (a b : Millis) : (earlier a b).toInt = min a.toInt b.toInt := by
  unfold earlier; split <;> omega

def latest (first : Millis) (rest : List Millis) : Millis := rest.foldl later first

def earliest (first : Millis) (rest : List Millis) : Millis := rest.foldl earlier first

def oneMinute : Millis := 60000

def oneDay : Millis := 86400000

/-- The number of whole minutes between the epoch and `t`, rounded toward the epoch. -/
def minute (t : Millis) : Int := t.toInt.tdiv 60000

/-- Rounding to minutes keeps the order of instants, before the epoch too. -/
theorem minute_le_minute {a b : Millis} (h : a.toInt ≤ b.toInt) : a.minute ≤ b.minute :=
  Int.tdiv_le_tdiv (by decide) h

end Millis

end PermissionUsage
