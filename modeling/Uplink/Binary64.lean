/-! IEEE 754 binary64 numbers, exactly: a finite number is a sign and a count of units of `2^-1074`
that lies on the grid of the format. Every operation computes the exact quotient of two natural
numbers and rounds it once, to nearest with ties to even (`ofQuotient`); a magnitude of `2^1024` or
more becomes an infinity. -/

namespace Uplink

/-- The distance between neighbouring numbers of the format at `units`. -/
def Binary64.spacing (units : Nat) : Nat := 1 <<< (units.log2 - 52)

/-- `2^1024`, the magnitude at which numbers overflow, in units. -/
def Binary64.overflow : Nat := 1 <<< 2098

/-- A count of units is on the grid if it stays below overflow and is a multiple of its spacing. -/
def Binary64.OnGrid (units : Nat) : Prop :=
  units < overflow ∧ spacing units ∣ units

instance (units : Nat) : Decidable (Binary64.OnGrid units) :=
  inferInstanceAs (Decidable (_ ∧ _))

inductive Binary64 where
  | nan
  | infinite (negative : Bool)
  | finite (negative : Bool) (units : Nat) (onGrid : Binary64.OnGrid units)
deriving DecidableEq

namespace Binary64

/-- The natural number nearest to `n / d`; a tie goes to the even neighbour. -/
def roundQuotient (n d : Nat) : Nat :=
  let q := n / d
  let twice := 2 * (n % d)
  if twice < d then q
  else if d < twice then q + 1
  else q + q % 2

theorem le_roundQuotient (n d : Nat) : n / d ≤ roundQuotient n d := by
  unfold roundQuotient; simp only; split
  · exact Nat.le_refl _
  · split
    · omega
    · omega

theorem roundQuotient_le (n d : Nat) : roundQuotient n d ≤ n / d + 1 := by
  unfold roundQuotient; simp only; split
  · omega
  · split <;> omega

/-- The count of units on the grid nearest to `n / d` units, before overflow is looked at. -/
def nearestUnits (n d : Nat) : Nat :=
  roundQuotient n (d * spacing (n / d)) * spacing (n / d)

theorem spacing_pos (u : Nat) : 0 < spacing u := by
  rw [spacing, Nat.one_shiftLeft]; exact Nat.two_pow_pos _

theorem overflow_pos : 0 < overflow := by
  rw [overflow, Nat.one_shiftLeft]; exact Nat.two_pow_pos 2098

theorem onGrid_zero : OnGrid 0 := ⟨overflow_pos, Nat.dvd_zero _⟩

/-- A multiple `k * 2^s` with `k ≤ 2^53` is a multiple of its own spacing. -/
theorem spacing_dvd_of_le {k s : Nat} (hk : k ≤ 1 <<< 53) : spacing (k <<< s) ∣ k <<< s := by
  rw [Nat.one_shiftLeft] at hk
  rw [Nat.shiftLeft_eq]
  rcases Nat.eq_zero_or_pos k with rfl | hpos
  · simp
  rcases Nat.lt_or_eq_of_le hk with hlt | rfl
  · have hk0 : k ≠ 0 := by omega
    have hlog : (k * 2 ^ s).log2 < 53 + s := by
      rw [Nat.log2_lt (Nat.mul_ne_zero hk0 (Nat.pos_iff_ne_zero.mp (Nat.two_pow_pos s))),
        Nat.pow_add]
      exact Nat.mul_lt_mul_of_pos_right hlt (Nat.two_pow_pos s)
    rw [spacing, Nat.one_shiftLeft]
    exact Nat.dvd_trans (Nat.pow_dvd_pow 2 (by omega)) (Nat.dvd_mul_left _ _)
  · rw [← Nat.pow_add]
    rw [spacing, Nat.one_shiftLeft, Nat.log2_two_pow]
    exact Nat.pow_dvd_pow 2 (by omega)

theorem roundQuotient_spacing_le (n d : Nat) :
    roundQuotient n (d * spacing (n / d)) ≤ 1 <<< 53 := by
  rw [Nat.one_shiftLeft]
  refine Nat.le_trans (roundQuotient_le _ _) ?_
  have hlt : n / d < 2 ^ 53 * spacing (n / d) := by
    rw [spacing, Nat.one_shiftLeft, ← Nat.pow_add]
    exact Nat.lt_of_lt_of_le Nat.lt_log2_self (Nat.pow_le_pow_right (by decide) (by omega))
  rw [← Nat.div_div_eq_div_mul]
  exact Nat.succ_le_of_lt ((Nat.div_lt_iff_lt_mul (spacing_pos _)).mpr hlt)

theorem onGrid_nearestUnits {n d : Nat} (h : nearestUnits n d < overflow) :
    OnGrid (nearestUnits n d) :=
  ⟨h, by
    have hd := spacing_dvd_of_le (s := (n / d).log2 - 52) (roundQuotient_spacing_le n d)
    rwa [Nat.shiftLeft_eq, ← Nat.one_shiftLeft] at hd⟩

/-- The number nearest to `n / d` units of the given sign. -/
def ofQuotient (negative : Bool) (n d : Nat) : Binary64 :=
  if h : nearestUnits n d < overflow then .finite negative _ (onGrid_nearestUnits h)
  else .infinite negative

/-- The number of units in one. -/
def one : Nat := 1 <<< 1074

def zero : Binary64 := .finite false 0 onGrid_zero

def negativeZero : Binary64 := .finite true 0 onGrid_zero

instance : Inhabited Binary64 := ⟨zero⟩

def ofNat (n : Nat) : Binary64 := ofQuotient false (n * one) 1

def ofInt (i : Int) : Binary64 := ofQuotient (i < 0) (i.natAbs * one) 1

def isFinite : Binary64 → Bool
  | .finite .. => true
  | _ => false

def isZero : Binary64 → Bool
  | .finite _ u _ => u == 0
  | _ => false

def neg : Binary64 → Binary64
  | .nan => .nan
  | .infinite s => .infinite !s
  | .finite s u h => .finite (!s) u h

/-- Multiplication; infinity times zero is no number. -/
def mul : Binary64 → Binary64 → Binary64
  | .nan, _ => .nan
  | _, .nan => .nan
  | .infinite s, .infinite t => .infinite (s != t)
  | .infinite s, .finite t u _ => if u = 0 then .nan else .infinite (s != t)
  | .finite s u _, .infinite t => if u = 0 then .nan else .infinite (s != t)
  | .finite s u _, .finite t v _ => ofQuotient (s != t) (u * v) one

/-- Division; zero by zero and infinity by infinity are no numbers. -/
def div : Binary64 → Binary64 → Binary64
  | .nan, _ => .nan
  | _, .nan => .nan
  | .infinite _, .infinite _ => .nan
  | .infinite s, .finite t _ _ => .infinite (s != t)
  | .finite s _ _, .infinite t => .finite (s != t) 0 onGrid_zero
  | .finite s u _, .finite t v _ =>
    if v = 0 then if u = 0 then .nan else .infinite (s != t)
    else ofQuotient (s != t) (u * one) v

/-- Addition; an exact zero of operands of opposite sign is positive. -/
def add : Binary64 → Binary64 → Binary64
  | .nan, _ => .nan
  | _, .nan => .nan
  | .infinite s, .infinite t => if s = t then .infinite s else .nan
  | .infinite s, .finite .. => .infinite s
  | .finite .., .infinite t => .infinite t
  | .finite s u _, .finite t v _ =>
    if s = t then ofQuotient s (u + v) 1
    else if u < v then ofQuotient t (v - u) 1
    else if v < u then ofQuotient s (u - v) 1
    else zero

instance : Neg Binary64 := ⟨neg⟩
instance : Mul Binary64 := ⟨mul⟩
instance : Div Binary64 := ⟨div⟩
instance : Add Binary64 := ⟨add⟩

/-- The signed count of units of a finite number. -/
def units : Binary64 → Int
  | .finite false u _ => u
  | .finite true u _ => -u
  | _ => 0

/-- The order of numbers: nothing is below or above what is no number. -/
def lt : Binary64 → Binary64 → Bool
  | .nan, _ => false
  | _, .nan => false
  | .infinite s, .infinite t => s && !t
  | .infinite s, .finite .. => s
  | .finite .., .infinite t => !t
  | x, y => x.units < y.units

/-- Equality of numbers: zeros of both signs are equal, and what is no number equals nothing. -/
def eq : Binary64 → Binary64 → Bool
  | .nan, _ => false
  | _, .nan => false
  | .infinite s, .infinite t => s == t
  | .infinite _, .finite .. => false
  | .finite .., .infinite _ => false
  | x, y => x.units == y.units

def le (x y : Binary64) : Bool := x.lt y || x.eq y

/-- The number of nanoseconds nearest to a finite, nonnegative number of seconds. -/
def toNanos : Binary64 → Nat
  | .finite false u _ => roundQuotient (u * 1000000000) one
  | _ => 0

end Binary64

end Uplink
