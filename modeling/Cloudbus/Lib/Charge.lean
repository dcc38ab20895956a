-- Paying for a loop out of a potential. Each element of a list has a weight,
-- and what a loop does for an element is paid by the weight that it loses.
import Mathlib.Algebra.Order.BigOperators.Group.List
import Mathlib.Algebra.Order.Ring.Nat
import Mathlib.Data.List.Nodup

namespace Charge

variable {α β κ : Type}

/-- The weight of a list. -/
def weight (pot : α → Nat) (l : List α) : Nat := (l.map pot).sum

section Weight

variable (pot : α → Nat)

@[simp] theorem weight_nil : weight pot [] = 0 := rfl

@[simp] theorem weight_cons (a : α) (l : List α) : weight pot (a :: l) = pot a + weight pot l := by
  simp [weight]

@[simp] theorem weight_append (a b : List α) : weight pot (a ++ b) = weight pot a + weight pot b := by
  simp [weight]

theorem weight_eq_zero {l : List α} (h : ∀ a ∈ l, pot a = 0) : weight pot l = 0 := by
  induction l with
  | nil => rfl
  | cons a l ih =>
    rw [weight_cons, h a List.mem_cons_self, ih fun b hb => h b (List.mem_cons_of_mem a hb)]

theorem weight_sublist {l l' : List α} (h : l.Sublist l') : weight pot l ≤ weight pot l' :=
  (h.map pot).sum_le_sum fun _ _ => Nat.zero_le _

/-- One element is replaced, and pays `n`. -/
theorem weight_set {l : List α} {k n : Nat} {a b : α} (hget : l[k]? = some a) (hpay : pot b + n ≤ pot a) :
    weight pot (l.set k b) + n ≤ weight pot l := by
  induction l generalizing k with
  | nil => cases hget
  | cons x l ih =>
    cases k with
    | zero =>
      obtain rfl : x = a := Option.some.inj hget
      rw [List.set_cons_zero, weight_cons, weight_cons]
      omega
    | succ k =>
      have h := ih hget
      rw [List.set_cons_succ, weight_cons, weight_cons]
      omega

/-- The elements are updated and some are removed, and those in `hit` pay `n` each. -/
theorem weight_sweep {l : List α} {n : Nat} {hit keep : α → Bool} {upd : α → α}
    (hkeep : ∀ a ∈ l, keep (upd a) → pot (upd a) + (if hit a then n else 0) ≤ pot a)
    (hdrop : ∀ a ∈ l, hit a → n ≤ pot a) :
    weight pot ((l.map upd).filter keep) + n * (l.filter hit).length ≤ weight pot l := by
  induction l with
  | nil => simp
  | cons a l ih =>
    have hrest := ih (fun b hb => hkeep b (List.mem_cons_of_mem a hb)) fun b hb => hdrop b (List.mem_cons_of_mem a hb)
    have hk := hkeep a List.mem_cons_self
    have hd := hdrop a List.mem_cons_self
    rw [List.map_cons, List.filter_cons, List.filter_cons, weight_cons]
    by_cases hhit : hit a
    · rw [if_pos hhit] at hk ⊢
      have hn := hd hhit
      rw [List.length_cons, Nat.mul_succ]
      split
      · have := hk ‹_›
        rw [weight_cons]
        omega
      · omega
    · rw [if_neg hhit] at hk ⊢
      split
      · have := hk ‹_›
        rw [weight_cons]
        omega
      · omega

/-- The elements are updated, and those in `hit` pay `n` each. -/
theorem weight_map {l : List α} {n : Nat} {hit : α → Bool} {upd : α → α}
    (h : ∀ a ∈ l, pot (upd a) + (if hit a then n else 0) ≤ pot a) :
    weight pot (l.map upd) + n * (l.filter hit).length ≤ weight pot l := by
  have hsweep := @weight_sweep α pot l n hit (fun _ => true) upd (fun a ha _ => h a ha) fun a ha hit => by
    have := h a ha
    rw [if_pos hit] at this
    omega
  rwa [List.filter_true] at hsweep

/-- Entries that were made for the elements of a list weigh `n` each at most. -/
theorem weight_forall₂ {R : β → α → Prop} {l : List β} {obs : List α} {n : Nat} (h : List.Forall₂ R l obs)
    (hR : ∀ b a, R b a → pot a ≤ n) : weight pot obs ≤ n * l.length := by
  induction h with
  | nil => simp
  | cons hab _ ih =>
    have := hR _ _ hab
    rw [weight_cons, List.length_cons, Nat.mul_succ]
    omega

end Weight

/-! ## Sums over keys

The entries of a log are told apart by a key: `f k` finds in an entry what it has for `k`. -/

section Keys

variable {f : κ → α → Option β} {pot : β → Nat} {cost : α → Nat}

theorem weight_filterMap_cons (k : κ) (a : α) (l : List α) :
    weight pot ((a :: l).filterMap (f k)) = weight pot (f k a).toList + weight pot (l.filterMap (f k)) := by
  rw [List.filterMap_cons]
  cases f k a with
  | none => simp
  | some b => simp

theorem sum_weight_cons (ks : List κ) (a : α) (l : List α) :
    (ks.map fun k => weight pot ((a :: l).filterMap (f k))).sum =
      (ks.map fun k => weight pot (f k a).toList).sum + (ks.map fun k => weight pot (l.filterMap (f k))).sum := by
  rw [← List.sum_map_add]
  simp only [weight_filterMap_cons]

/-- An entry weighs for one key at most. -/
theorem sum_weight_le {ks : List κ} {l : List α} (hks : ks.Nodup)
    (hone : ∀ a k k', (f k a).isSome → (f k' a).isSome → k = k')
    (hcost : ∀ a k b, f k a = some b → pot b ≤ cost a) :
    (ks.map fun k => weight pot (l.filterMap (f k))).sum ≤ weight cost l := by
  induction l with
  | nil => simp
  | cons a l ih =>
    have hentry : (ks.map fun k => weight pot (f k a).toList).sum ≤ cost a := by
      clear ih
      induction ks with
      | nil => exact Nat.zero_le _
      | cons k ks ihk =>
        obtain ⟨hk, hks⟩ := List.nodup_cons.mp hks
        rw [List.map_cons, List.sum_cons]
        cases hf : f k a with
        | none =>
          have := ihk hks
          simpa using this
        | some b =>
          have hrest : (ks.map fun k => weight pot (f k a).toList).sum = 0 := by
            refine List.sum_eq_zero fun n hn => ?_
            obtain ⟨k', hk', rfl⟩ := List.mem_map.mp hn
            cases hf' : f k' a with
            | none => rfl
            | some b' =>
              have : k = k' := hone a k k' (by rw [hf]; rfl) (by rw [hf']; rfl)
              exact absurd (this ▸ hk') hk
          rw [hrest]
          simpa using hcost a k b hf
    rw [sum_weight_cons, weight_cons]
    omega

/-- When every entry that costs has a key, the keys weigh all of it. -/
theorem le_sum_weight {ks : List κ} {l : List α}
    (hcover : ∀ a ∈ l, cost a ≠ 0 → ∃ k ∈ ks, ∃ b, f k a = some b ∧ cost a ≤ pot b) :
    weight cost l ≤ (ks.map fun k => weight pot (l.filterMap (f k))).sum := by
  induction l with
  | nil => exact Nat.zero_le _
  | cons a l ih =>
    have hrest := ih fun b hb => hcover b (List.mem_cons_of_mem a hb)
    have hentry : cost a ≤ (ks.map fun k => weight pot (f k a).toList).sum := by
      by_cases hzero : cost a = 0
      · omega
      · obtain ⟨k, hk, b, hf, hp⟩ := hcover a List.mem_cons_self hzero
        have hweight : weight pot (f k a).toList = pot b := by simp [hf]
        exact hp.trans (hweight ▸ List.single_le_sum (fun _ _ => Nat.zero_le _) _ (List.mem_map_of_mem hk))
    rw [sum_weight_cons, weight_cons]
    omega

end Keys

end Charge
