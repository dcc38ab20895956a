-- The places of a vector visited in a circle, from any start.
import Mathlib.Algebra.BigOperators.Fin
import Mathlib.Algebra.Order.BigOperators.Group.Finset
import Mathlib.Tactic.Common

namespace Cycle

open Finset

variable {α : Type} {n : Nat}

/-- A sum over the places of a list is the sum over the list. -/
theorem sum_getElem? (f : α → Nat) (l : List α) : ∑ i ∈ range l.length, (l[i]?.map f).getD 0 = (l.map f).sum := by
  induction l with
  | nil => rfl
  | cons a l ih =>
    rw [List.length_cons, Finset.sum_range_succ', List.map_cons, List.sum_cons, add_comm, ← ih]
    rfl

/-- Each place is visited in one round. -/
theorem exists_visit (hn : 0 < n) (start : Nat) {i : Nat} (hi : i < n) : ∃ k < n, (start + k) % n = i := by
  have hs : start % n < n := Nat.mod_lt _ hn
  refine ⟨(i + (n - start % n)) % n, Nat.mod_lt _ hn, ?_⟩
  calc (start + (i + (n - start % n)) % n) % n
      = (start + (i + (n - start % n))) % n := Nat.add_mod_mod ..
    _ = (start % n + (i + (n - start % n))) % n := (Nat.mod_add_mod ..).symm
    _ = (i + n) % n := by congr 1; omega
    _ = i := by rw [Nat.add_mod_right, Nat.mod_eq_of_lt hi]

/-- One round sums up all places, from any start. -/
theorem sum_round (n start : Nat) (g : Nat → Nat) : ∑ k ∈ range n, g ((start + k) % n) = ∑ k ∈ range n, g k := by
  induction start with
  | zero =>
    apply Finset.sum_congr rfl
    intro k hk
    rw [Nat.zero_add, Nat.mod_eq_of_lt (Finset.mem_range.mp hk)]
  | succ start ih =>
    -- a start that is one further leaves the first place out and adds it at the end
    have hfirst := Finset.sum_range_succ' (fun k => g ((start + k) % n)) n
    have hlast := Finset.sum_range_succ (fun k => g ((start + k) % n)) n
    have hsame : g ((start + n) % n) = g ((start + 0) % n) := by rw [Nat.add_mod_right, Nat.add_zero]
    have hshift : ∑ k ∈ range n, g ((start + 1 + k) % n) = ∑ k ∈ range n, g ((start + (k + 1)) % n) := by
      apply Finset.sum_congr rfl
      intro k _
      rw [Nat.add_assoc, Nat.add_comm 1 k]
    omega

end Cycle
