namespace DialogueScript

-- Powers of natural numbers are those of the core library, whatever else is imported.
attribute [instance (high), default_instance 20000] instPowNat

/-- `num / den` to the nearest whole number, an exact half to the even neighbour. -/
def nearestEven (num den : Nat) : Nat :=
  let below := num / den
  let twice := 2 * (num % den)
  if twice < den then below else if den < twice then below + 1 else below + below % 2

/-- `num / den` to the nearest whole number with at most 53 significant bits. -/
def nearestUnits (num den : Nat) : Nat :=
  let shift := (num / den).log2 - 52
  nearestEven num (den * 2 ^ shift) * 2 ^ shift

/-- The first power of two that is too large for a double, 2^1024, in units. -/
def overflowUnits : Nat := 2 ^ 2098

theorem overflowUnits_pos : 0 < overflowUnits := by simp only [overflowUnits, Nat.two_pow_pos]

def Representable (units : Nat) : Prop :=
  units < overflowUnits ∧ ∃ mantissa shift, mantissa < 2 ^ 53 ∧ units = mantissa * 2 ^ shift

inductive Double where
  | nan
  | infinity (negative : Bool)
  | finite (negative : Bool) (units : Nat) (representable : Representable units)
deriving DecidableEq

theorem nearestEven_le (num den : Nat) : nearestEven num den ≤ num / den + 1 := by
  unfold nearestEven
  dsimp only
  split
  · omega
  split <;> omega

theorem div_shift_lt (n : Nat) : n / 2 ^ (n.log2 - 52) < 2 ^ 53 := by
  rw [Nat.div_lt_iff_lt_mul (Nat.two_pow_pos _), ← Nat.pow_add]
  calc n < 2 ^ (n.log2 + 1) := Nat.lt_log2_self
    _ ≤ 2 ^ (53 + (n.log2 - 52)) := Nat.pow_le_pow_right (by decide) (by omega)

theorem nearestUnits_significant (num den : Nat) :
    ∃ mantissa shift, mantissa < 2 ^ 53 ∧ nearestUnits num den = mantissa * 2 ^ shift := by
  let shift := (num / den).log2 - 52
  have hdiv : num / (den * 2 ^ shift) < 2 ^ 53 := by
    rw [← Nat.div_div_eq_div_mul]
    exact div_shift_lt (num / den)
  have hle := nearestEven_le num (den * 2 ^ shift)
  rcases Nat.lt_or_ge (nearestEven num (den * 2 ^ shift)) (2 ^ 53) with hlt | hge
  · exact ⟨_, shift, hlt, rfl⟩
  · have heq : nearestEven num (den * 2 ^ shift) = 2 ^ 53 := by omega
    refine ⟨2 ^ 52, shift + 1, by decide, ?_⟩
    change nearestEven num (den * 2 ^ shift) * 2 ^ shift = _
    rw [heq, Nat.pow_succ 2 shift]
    omega

namespace Double

def ofUnits (negative : Bool) (num den : Nat) : Double :=
  if h : nearestUnits num den < overflowUnits then
    .finite negative (nearestUnits num den) ⟨h, nearestUnits_significant num den⟩
  else .infinity negative

def ofRatio (negative : Bool) (num den : Nat) : Double := ofUnits negative (num * 2 ^ 1074) den

def ofNat (n : Nat) : Double := ofRatio false n 1

def zero : Double := .finite false 0 ⟨overflowUnits_pos, 0, 0, by decide, rfl⟩

def one : Double := ofNat 1

def isNaN : Double → Bool
  | nan => true
  | _ => false

/-- Place on the number line in units, the infinities just outside the finite range. -/
def rank : Double → Int
  | nan => 0
  | infinity negative => if negative then -(overflowUnits : Int) else overflowUnits
  | finite negative units _ => if negative then -(units : Int) else units

/-- Numeric order. Nothing compares with a NaN, and the two zeros are equal. -/
def compare? (a b : Double) : Option Ordering :=
  if a.isNaN || b.isNaN then none else some (compare a.rank b.rank)

def equals (a b : Double) : Bool := a.compare? b = some .eq

def isTruthy (a : Double) : Bool := !a.isNaN && a.rank != 0

end Double

end DialogueScript
