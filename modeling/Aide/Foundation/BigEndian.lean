import Mathlib.Algebra.Order.Ring.Nat
import Mathlib.Data.UInt
import Mathlib.Tactic.Common

/-- The last `width` bytes of a number, the most significant first. -/
def beBytes : ℕ → ℕ → List UInt8
  | 0, _ => []
  | width + 1, n => beBytes width (n / 256) ++ [UInt8.ofNat n]

@[simp] theorem beBytes_length (width n : ℕ) : (beBytes width n).length = width := by
  induction width generalizing n with
  | zero => rfl
  | succ width ih => simp [beBytes, ih]

/-- Numbers that fit into the width are told apart by their bytes. -/
theorem beBytes_inj {width n m : ℕ} (left : n < 256 ^ width) (right : m < 256 ^ width)
    (same : beBytes width n = beBytes width m) : n = m := by
  induction width generalizing n m with
  | zero =>
    rw [Nat.pow_zero] at left right
    omega
  | succ width ih =>
    obtain ⟨high, low⟩ := List.append_inj' same rfl
    have digits : n / 256 = m / 256 :=
      ih (Nat.div_lt_of_lt_mul (by rwa [Nat.mul_comm, ← Nat.pow_succ]))
        (Nat.div_lt_of_lt_mul (by rwa [Nat.mul_comm, ← Nat.pow_succ])) high
    have digit : n % 256 = m % 256 := by
      have bytes := congrArg UInt8.toNat (List.singleton_inj.mp low)
      simpa using bytes
    omega

/-- The number that bytes stand for, the most significant first. -/
def beValue (bytes : List UInt8) : ℕ := bytes.foldl (fun n byte => n * 256 + byte.toNat) 0

theorem beValue_beBytes (width n : ℕ) : beValue (beBytes width n) = n % 256 ^ width := by
  induction width generalizing n with
  | zero => exact (Nat.mod_one n).symm
  | succ width ih =>
    have digits : beValue (beBytes (width + 1) n) = beValue (beBytes width (n / 256)) * 256 + n % 256 := by
      simp [beValue, beBytes]
    rw [digits, ih, Nat.pow_succ', Nat.mod_mul]
    omega

/-- A number that fits into the width is what its bytes stand for. -/
theorem beValue_beBytes_of_lt {width n : ℕ} (fits : n < 256 ^ width) : beValue (beBytes width n) = n := by
  rw [beValue_beBytes, Nat.mod_eq_of_lt fits]
