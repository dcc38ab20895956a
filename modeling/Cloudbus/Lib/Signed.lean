-- Signed machine arithmetic in which an overflow is an error. Each operation is
-- the one on integers, followed by a check that the result has `w` bits.
import Mathlib.Algebra.Order.Ring.Int
import Mathlib.Data.BitVec
import Mathlib.Tactic.Common

namespace Signed

variable {w : Nat}

/-- The number `x` with `w` bits, when it has no more. -/
def fit (w : Nat) (x : Int) : Option (BitVec w) :=
  if (BitVec.ofInt w x).toInt = x then some (BitVec.ofInt w x) else none

def add (a b : BitVec w) : Option (BitVec w) := fit w (a.toInt + b.toInt)

def sub (a b : BitVec w) : Option (BitVec w) := fit w (a.toInt - b.toInt)

def mul (a b : BitVec w) : Option (BitVec w) := fit w (a.toInt * b.toInt)

/-- The quotient is rounded toward zero. -/
def div (a b : BitVec w) : Option (BitVec w) :=
  if b.toInt = 0 then none else fit w (a.toInt.tdiv b.toInt)

/-- The remainder has the sign of `a`. It has no value where the quotient has none. -/
def rem (a b : BitVec w) : Option (BitVec w) :=
  (div a b).bind fun _ => fit w (a.toInt.tmod b.toInt)

/-- What fits is the number itself. -/
theorem fit_eq_some {x : Int} {r : BitVec w} : fit w x = some r ↔ r.toInt = x := by
  unfold fit
  constructor
  · intro h
    split at h
    · rename_i hx
      cases h
      exact hx
    · cases h
  · rintro rfl
    rw [BitVec.ofInt_toInt, if_pos rfl]

theorem fit_of_range {x : Int} (hw : 0 < w) (hlo : -(2 : Int) ^ (w - 1) ≤ x) (hhi : x < (2 : Int) ^ (w - 1)) :
    ∃ r : BitVec w, fit w x = some r ∧ r.toInt = x := by
  have hx : (BitVec.ofInt w x).toInt = x := by
    rw [BitVec.toInt_ofInt]
    obtain ⟨k, rfl⟩ : ∃ k, w = k + 1 := ⟨w - 1, by omega⟩
    rw [Nat.add_sub_cancel] at hlo hhi
    have hpow : (2 ^ (k + 1) : Nat) = 2 * 2 ^ k := by rw [Nat.pow_succ, Nat.mul_comm]
    have hcast : ((2 ^ k : Nat) : Int) = (2 : Int) ^ k := by push_cast; rfl
    rw [hpow]
    apply Int.bmod_eq_of_le <;> omega
  exact ⟨BitVec.ofInt w x, fit_eq_some.mpr hx, hx⟩

/-! ## Division toward zero -/

/-- Quotient and remainder. The remainder has the sign of `x`. -/
theorem tdiv_spec (x : Int) {y : Int} (hy : 0 < y) : y * x.tdiv y + x.tmod y = x ∧
    (0 ≤ x → 0 ≤ x.tmod y ∧ x.tmod y < y) ∧ (x ≤ 0 → -y < x.tmod y ∧ x.tmod y ≤ 0) := by
  refine ⟨Int.mul_tdiv_add_tmod x y, fun h => ?_, fun h => ?_⟩
  · rw [Int.tmod_eq_emod_of_nonneg h]
    exact ⟨Int.emod_nonneg x (by omega), Int.emod_lt_of_pos x hy⟩
  · have hneg : x.tmod y = -(-x % y) := by
      rw [← Int.tmod_eq_emod_of_nonneg (by omega : 0 ≤ -x), Int.neg_tmod, Int.neg_neg]
    have h0 := Int.emod_nonneg (-x) (show y ≠ 0 by omega)
    have hlt := Int.emod_lt_of_pos (-x) hy
    omega

/-! ## Results -/

/-- The computation has no overflow, and the number `x` as its result. -/
def Gives (o : Option (BitVec w)) (x : Int) : Prop := ∃ r, o = some r ∧ r.toInt = x

theorem Gives.bind {v : Nat} {o : Option (BitVec w)} {f : BitVec w → Option (BitVec v)} {x y : Int}
    (h : Gives o x) (hf : ∀ r : BitVec w, r.toInt = x → Gives (f r) y) : Gives (o.bind f) y := by
  obtain ⟨r, rfl, hr⟩ := h
  exact hf r hr

section Rules

variable {a b : BitVec w} {x y : Int} (hw : 0 < w) (ha : a.toInt = x) (hb : b.toInt = y)
include hw ha hb

theorem gives_add (hlo : -(2 : Int) ^ (w - 1) ≤ x + y) (hhi : x + y < (2 : Int) ^ (w - 1)) :
    Gives (add a b) (x + y) := by
  subst ha hb
  exact fit_of_range hw hlo hhi

theorem gives_sub (hlo : -(2 : Int) ^ (w - 1) ≤ x - y) (hhi : x - y < (2 : Int) ^ (w - 1)) :
    Gives (sub a b) (x - y) := by
  subst ha hb
  exact fit_of_range hw hlo hhi

theorem gives_mul (hlo : -(2 : Int) ^ (w - 1) ≤ x * y) (hhi : x * y < (2 : Int) ^ (w - 1)) :
    Gives (mul a b) (x * y) := by
  subst ha hb
  exact fit_of_range hw hlo hhi

theorem gives_div (hy : y ≠ 0) (hlo : -(2 : Int) ^ (w - 1) ≤ x.tdiv y) (hhi : x.tdiv y < (2 : Int) ^ (w - 1)) :
    Gives (div a b) (x.tdiv y) := by
  subst ha hb
  unfold div
  rw [if_neg hy]
  exact fit_of_range hw hlo hhi

/-- A remainder has no more bits than the divisor. -/
theorem gives_rem (hy : y ≠ 0) (hlo : -(2 : Int) ^ (w - 1) ≤ x.tdiv y) (hhi : x.tdiv y < (2 : Int) ^ (w - 1)) :
    Gives (rem a b) (x.tmod y) := by
  refine (gives_div hw ha hb hy hlo hhi).bind fun _ _ => ?_
  subst ha hb
  exact ⟨a.srem b, fit_eq_some.mpr (BitVec.toInt_srem a b), BitVec.toInt_srem a b⟩

end Rules

end Signed
