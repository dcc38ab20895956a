-- `std::map`: keys with their values in the order of the keys, each key once.
import Cloudbus.Lib.Ordered

/-- The order is a part of the map. -/
structure OrderedMap (κ α : Type) [LinearOrder κ] where
  entries : List (κ × α) := []
  ordered : Ordered.Ascending Prod.fst entries := by exact List.Pairwise.nil

namespace OrderedMap

variable {κ α : Type} [LinearOrder κ]

def find (k : κ) (m : OrderedMap κ α) : Option α := (Ordered.get Prod.fst k m.entries).map Prod.snd

/-- `try_emplace`: whether there was no value for the key. -/
def try_emplace (k : κ) (a : α) (m : OrderedMap κ α) : OrderedMap κ α × Bool :=
  match h : Ordered.get Prod.fst k m.entries with
  | none => (⟨Ordered.place Prod.fst (k, a) m.entries, m.ordered.place h⟩, true)
  | some _ => (m, false)

def erase (k : κ) (m : OrderedMap κ α) : OrderedMap κ α := ⟨Ordered.erase Prod.fst k m.entries, m.ordered.erase⟩

theorem find_eq_some {k : κ} {a : α} {m : OrderedMap κ α} : m.find k = some a ↔ (k, a) ∈ m.entries := by
  unfold find
  rw [Option.map_eq_some_iff]
  constructor
  · rintro ⟨⟨j, b⟩, hget, rfl⟩
    obtain ⟨hmem, rfl⟩ := Ordered.get_key hget
    exact hmem
  · intro hmem
    exact ⟨(k, a), m.ordered.get_eq.mpr ⟨hmem, rfl⟩, rfl⟩

theorem mem_keys {k : κ} {m : OrderedMap κ α} :
    k ∈ m.entries.map Prod.fst ↔ m.find k ≠ none := by
  rw [← Option.isSome_iff_ne_none, Option.isSome_iff_exists, List.mem_map]
  constructor
  · rintro ⟨⟨_, a⟩, hmem, rfl⟩
    exact ⟨a, find_eq_some.mpr hmem⟩
  · rintro ⟨a, ha⟩
    exact ⟨(k, a), find_eq_some.mp ha, rfl⟩

theorem try_emplace_of_none {k : κ} {m : OrderedMap κ α} (a : α) (h : m.find k = none) :
    (m.try_emplace k a).2 = true ∧ ∀ j, (m.try_emplace k a).1.find j = if j = k then some a else m.find j := by
  have hget : Ordered.get Prod.fst k m.entries = none := Option.map_eq_none_iff.mp h
  unfold try_emplace
  split
  · refine ⟨rfl, fun j => ?_⟩
    unfold find
    rw [Ordered.get_place]
    by_cases hj : j = k
    · rw [if_pos hj, if_pos hj.symm]
      rfl
    · rw [if_neg hj, if_neg (Ne.symm hj)]
  · rename_i a' hsome
    rw [hget] at hsome
    cases hsome

theorem find_erase (k j : κ) (m : OrderedMap κ α) : (m.erase k).find j = if j = k then none else m.find j := by
  unfold find erase
  rw [m.ordered.get_erase]
  split <;> rfl

/-- Each key is once in the map. -/
theorem nodup_keys (m : OrderedMap κ α) : (m.entries.map Prod.fst).Nodup :=
  (Ordered.ascending_iff.mp m.ordered).imp ne_of_lt

end OrderedMap
