-- Loops over the indices of a list. A loop that visits each place once, and
-- changes only the element at that place, is a map of the list.
import Mathlib.Data.List.Basic

namespace Loop

variable {σ α : Type}

/-- What holds before the loop, and is carried from one turn to the next, holds
after it. -/
theorem foldl_range (n : Nat) (turn : σ → Nat → σ) (s : σ) (motive : Nat → σ → Prop)
    (start : motive 0 s) (next : ∀ k s, k < n → motive k s → motive (k + 1) (turn s k)) :
    motive n ((List.range n).foldl turn s) := by
  suffices h : ∀ k, k ≤ n → motive k ((List.range k).foldl turn s) from h n (Nat.le_refl n)
  intro k
  induction k with
  | zero => exact fun _ => start
  | succ k ih =>
    intro hk
    rw [List.range_succ, List.foldl_append]
    exact next k _ hk (ih (Nat.le_of_succ_le hk))

/-- The list after the first `k` turns: the elements before `k` are new. -/
def done (f : α → α) (l : List α) (k : Nat) : List α := (l.take k).map f ++ l.drop k

@[simp] theorem done_zero (f : α → α) (l : List α) : done f l 0 = l := by simp [done]

@[simp] theorem done_length (f : α → α) (l : List α) : done f l l.length = l.map f := by
  simp [done]

/-- The element at `k` is still the old one. -/
theorem done_get (f : α → α) (l : List α) (k : Nat) : (done f l k)[k]? = l[k]? := by
  unfold done
  by_cases hk : k ≤ l.length
  · have hlen : ((l.take k).map f).length = k := by simp [hk]
    rw [List.getElem?_append_right (by omega), List.getElem?_drop, hlen, Nat.sub_self, Nat.add_zero]
  · rw [List.getElem?_eq_none (by simp; omega), List.getElem?_eq_none (by omega)]

theorem done_succ {f : α → α} {l : List α} {k : Nat} {a : α} (h : l[k]? = some a) :
    (done f l k).set k (f a) = done f l (k + 1) := by
  obtain ⟨hk, rfl⟩ := List.getElem?_eq_some_iff.mp h
  have hlen : ((l.take k).map f).length = k := by simp; omega
  unfold done
  rw [List.set_append_right _ _ (by omega), hlen, Nat.sub_self, List.take_succ_eq_append_getElem hk,
    List.map_append, List.append_assoc]
  congr 1
  rw [List.drop_eq_getElem_cons hk]
  rfl

theorem done_succ_of_eq {f : α → α} {l : List α} {k : Nat} {a : α} (h : l[k]? = some a)
    (hf : f a = a) : done f l k = done f l (k + 1) := by
  obtain ⟨hk, heq⟩ := List.getElem?_eq_some_iff.mp ((done_get f l k).trans h)
  rw [← done_succ h, hf, ← heq, List.set_getElem_self]

/-- The elements that satisfy `p` among the first `k`. -/
theorem filter_take_succ {l : List α} {k : Nat} {a : α} (p : α → Bool) (h : l[k]? = some a) :
    (l.take (k + 1)).filter p = (l.take k).filter p ++ if p a then [a] else [] := by
  obtain ⟨hk, rfl⟩ := List.getElem?_eq_some_iff.mp h
  rw [List.take_succ_eq_append_getElem hk, List.filter_append]
  congr 1
  simp only [List.filter_cons, List.filter_nil]

/-! ## Lists with a key -/

/-- Entries that belong together stay together when both sides keep the same ones. -/
theorem forall₂_filter {α β : Type} {R : α → β → Prop} {p : α → Bool} {q : β → Bool} {l : List α}
    {l' : List β} (h : List.Forall₂ R l l') (hpq : ∀ a b, R a b → q b = p a) :
    List.Forall₂ R (l.filter p) (l'.filter q) := by
  induction h with
  | nil => exact .nil
  | @cons a b l l' hr _ ih =>
    rw [List.filter_cons, List.filter_cons, hpq a b hr]
    split
    · exact .cons hr ih
    · exact ih

/-- An entry that the filter drops can be changed to another one. -/
theorem filter_set {α : Type} {p : α → Bool} {l : List α} {k : Nat} {a b : α} (hget : l[k]? = some a)
    (ha : p a = false) (hb : p b = false) : (l.set k b).filter p = l.filter p := by
  induction l generalizing k with
  | nil => cases hget
  | cons c l ih =>
    cases k with
    | zero =>
      obtain rfl : c = a := Option.some.inj hget
      rw [List.set_cons_zero, List.filter_cons_of_neg (by simp [hb]), List.filter_cons_of_neg (by simp [ha])]
    | succ k => rw [List.set_cons_succ, List.filter_cons, List.filter_cons, ih hget]

/-- One entry has the key of `a`. -/
theorem filter_key {α κ : Type} [BEq κ] [LawfulBEq κ] (key : α → κ) {l : List α}
    (hn : (l.map key).Nodup) {a : α} (ha : a ∈ l) : l.filter (fun b => key b == key a) = [a] := by
  induction l with
  | nil => cases ha
  | cons b l ih =>
    rw [List.map_cons, List.nodup_cons] at hn
    rcases List.mem_cons.mp ha with rfl | ha
    · rw [List.filter_cons, if_pos (by simp), List.filter_eq_nil_iff.mpr]
      intro c hc hk
      exact hn.1 (List.mem_map.mpr ⟨c, hc, by simpa using hk⟩)
    · rw [List.filter_cons, if_neg, ih hn.2 ha]
      intro hk
      rw [beq_iff_eq] at hk
      exact hn.1 (hk ▸ List.mem_map_of_mem ha)

/-- A change of one entry changes all entries with its key. -/
theorem set_key {α κ : Type} [BEq κ] [LawfulBEq κ] (key : α → κ) {l : List α}
    (hn : (l.map key).Nodup) {k : Nat} {a : α} (ha : l[k]? = some a) (b : α) :
    l.set k b = l.map fun c => if key c == key a then b else c := by
  induction l generalizing k with
  | nil => cases ha
  | cons c l ih =>
    rw [List.map_cons, List.nodup_cons] at hn
    cases k with
    | zero =>
      rw [List.getElem?_cons_zero, Option.some.injEq] at ha
      subst ha
      rw [List.set_cons_zero, List.map_cons, if_pos (by simp)]
      have hrest : l.map (fun d => if key d == key c then b else d) = l.map id :=
        List.map_congr_left fun d hd => if_neg fun hk => by
          rw [beq_iff_eq] at hk
          exact hn.1 (hk ▸ List.mem_map_of_mem hd)
      rw [hrest, List.map_id]
    | succ k =>
      rw [List.getElem?_cons_succ] at ha
      rw [List.set_cons_succ, List.map_cons, ih hn.2 ha, if_neg]
      intro hk
      rw [beq_iff_eq] at hk
      exact hn.1 (hk ▸ List.mem_map_of_mem (List.mem_of_getElem? ha))

theorem map_set_self {α κ : Type} (key : α → κ) {l : List α} {k : Nat} {a b : α}
    (ha : l[k]? = some a) (hb : key b = key a) : (l.set k b).map key = l.map key := by
  obtain ⟨hk, rfl⟩ := List.getElem?_eq_some_iff.mp ha
  rw [List.map_set, hb]
  have hk' : k < (l.map key).length := by simpa using hk
  have h : (l.map key).set k (l.map key)[k] = l.map key := List.set_getElem_self hk'
  rwa [List.getElem_map] at h

end Loop
