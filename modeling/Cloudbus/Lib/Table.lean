-- A total table over a list: every key has a value, and the values that were
-- never set are the default. So a read after a write needs no bounds, and a
-- table of concrete values still computes.
import Mathlib.Data.List.Basic

/-- Keys are `0, 1, 2, ...`. -/
structure Table (α : Type) where
  entries : List α := []
deriving DecidableEq, Repr

namespace Table

variable {α : Type} [Inhabited α]

instance : Inhabited (Table α) := ⟨⟨[]⟩⟩

def get (t : Table α) (i : Nat) : α := t.entries.getD i default

/-- The keys before `i` that were never set are filled up with the default. -/
def set (t : Table α) (i : Nat) (v : α) : Table α :=
  ⟨t.entries.take i ++ (List.replicate (i - t.entries.length) default ++ v :: t.entries.drop (i + 1))⟩

theorem get_set (t : Table α) (i j : Nat) (v : α) :
    (t.set i v).get j = if j = i then v else t.get j := by
  unfold get set
  rw [List.getD_eq_getElem?_getD, List.getD_eq_getElem?_getD]
  by_cases hlen : i ≤ t.entries.length
  · have htake : (t.entries.take i).length = i := by rw [List.length_take]; omega
    rw [Nat.sub_eq_zero_of_le hlen, List.replicate_zero, List.nil_append]
    rcases Nat.lt_trichotomy j i with h | rfl | h
    · rw [List.getElem?_append_left (by omega), if_neg (by omega), List.getElem?_take_of_lt h]
    · rw [List.getElem?_append_right (by omega), htake, if_pos rfl]
      simp
    · obtain ⟨k, rfl⟩ : ∃ k, j = i + 1 + k := ⟨j - (i + 1), by omega⟩
      rw [List.getElem?_append_right (by omega), htake, if_neg (by omega),
        show i + 1 + k - i = k + 1 from by omega, List.getElem?_cons_succ, List.getElem?_drop]
  · have htake : t.entries.take i = t.entries := List.take_of_length_le (by omega)
    have hdrop : t.entries.drop (i + 1) = [] := List.drop_eq_nil_iff.mpr (by omega)
    rw [htake, hdrop]
    by_cases hj : j < t.entries.length
    · rw [List.getElem?_append_left hj, if_neg (by omega)]
    · have hnone : t.entries[j]? = none := List.getElem?_eq_none (by omega)
      rw [List.getElem?_append_right (by omega), hnone]
      rcases Nat.lt_trichotomy j i with h | rfl | h
      · rw [List.getElem?_append_left (by rw [List.length_replicate]; omega), if_neg (by omega),
          List.getElem?_replicate, if_pos (by omega)]
        rfl
      · rw [List.getElem?_append_right (by simp), if_pos rfl,
          List.length_replicate]
        simp
      · rw [List.getElem?_append_right (by rw [List.length_replicate]; omega), if_neg (by omega),
          List.length_replicate, List.getElem?_eq_none (by simp; omega)]

/-- A change of the value at one key. -/
def modify (t : Table α) (i : Nat) (f : α → α) : Table α := t.set i (f (t.get i))

theorem get_modify (t : Table α) (i j : Nat) (f : α → α) :
    (t.modify i f).get j = if j = i then f (t.get i) else t.get j :=
  t.get_set i j _

/-- A part of the values that the change leaves alone is the same at every key. -/
theorem get_modify_field {β : Type} (t : Table α) (i j : Nat) (f : α → α) (p : α → β)
    (h : p (f (t.get i)) = p (t.get i)) : p ((t.modify i f).get j) = p (t.get j) := by
  rw [get_modify]
  split
  · rename_i hj
    rw [h, hj]
  · rfl

end Table
