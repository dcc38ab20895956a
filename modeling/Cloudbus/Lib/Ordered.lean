-- A vector that is kept in the order of a key, as one does with
-- `std::upper_bound` and `std::lower_bound`. On an ordered vector the binary
-- searches give the place where the order splits it, so they are written as
-- `takeWhile` and `dropWhile` here.
import Mathlib.Data.List.Basic
import Mathlib.Order.Lattice
import Mathlib.Tactic.Common

namespace Ordered

variable {α κ : Type} [LinearOrder κ] {key : α → κ}

/-- The keys of the list go up. -/
def Ascending (key : α → κ) (l : List α) : Prop := l.Pairwise fun a b => key a < key b

/-- `insert(upper_bound(x), x)`. -/
def insert (key : α → κ) (x : α) (l : List α) : List α :=
  l.takeWhile (fun y => !decide (key x < key y)) ++ x :: l.dropWhile fun y => !decide (key x < key y)

/-- `erase(lower_bound(x))`, when that is an element with the key. -/
def erase (key : α → κ) (k : κ) (l : List α) : List α :=
  l.takeWhile (fun y => decide (key y < k)) ++
    match l.dropWhile fun y => decide (key y < k) with
    | [] => []
    | y :: ys => if key y = k then ys else y :: ys

/-- The element with the key `k`, when `lower_bound(k)` is one. -/
def get (key : α → κ) (k : κ) (l : List α) : Option α :=
  match l.dropWhile fun y => decide (key y < k) with
  | [] => none
  | y :: _ => if key y = k then some y else none

/-- `insert(lower_bound(x), x)`. -/
def place (key : α → κ) (x : α) (l : List α) : List α :=
  l.takeWhile (fun y => decide (key y < key x)) ++ x :: l.dropWhile fun y => decide (key y < key x)

/-- The element at `lower_bound(k)` is changed, when it has the key. -/
def adjust (key : α → κ) (k : κ) (f : α → α) (l : List α) : List α :=
  l.takeWhile (fun y => decide (key y < k)) ++
    match l.dropWhile fun y => decide (key y < k) with
    | [] => []
    | y :: ys => if key y = k then f y :: ys else y :: ys

theorem insert_cons (x y : α) (l : List α) :
    insert key x (y :: l) = if key x < key y then x :: y :: l else y :: insert key x l := by
  unfold insert
  by_cases h : key x < key y
  · simp [h]
  · simp [h]

theorem erase_cons (k : κ) (y : α) (l : List α) :
    erase key k (y :: l) =
      if key y < k then y :: erase key k l else if key y = k then l else y :: l := by
  unfold erase
  by_cases h : key y < k
  · simp [h]
  · simp [h]

theorem get_cons (k : κ) (y : α) (l : List α) :
    get key k (y :: l) = if key y < k then get key k l else if key y = k then some y else none := by
  unfold get
  by_cases h : key y < k
  · simp [h]
  · simp [h]

/-- On a vector whose keys do not go down, `lower_bound(k)` is the first element with the key. -/
theorem get_eq_find {l : List α} (h : l.Pairwise fun a b => key a ≤ key b) (k : κ) :
    get key k l = l.find? fun y => key y = k := by
  induction l with
  | nil => rfl
  | cons y l ih =>
    rw [get_cons, List.find?_cons]
    obtain ⟨hy, hl⟩ := List.pairwise_cons.mp h
    rcases lt_trichotomy (key y) k with hlt | heq | hgt
    · rw [if_pos hlt, ih hl, decide_eq_false (ne_of_lt hlt)]
    · rw [if_neg (not_lt_of_ge (le_of_eq heq.symm)), if_pos heq, decide_eq_true heq]
    · rw [if_neg (lt_asymm hgt), if_neg (ne_of_gt hgt), decide_eq_false (ne_of_gt hgt)]
      refine (List.find?_eq_none.mpr fun z hz => ?_).symm
      rw [decide_eq_true_eq]
      exact ne_of_gt (lt_of_lt_of_le hgt (hy z hz))

theorem place_cons (x y : α) (l : List α) :
    place key x (y :: l) = if key y < key x then y :: place key x l else x :: y :: l := by
  unfold place
  by_cases h : key y < key x
  · simp [h]
  · simp [h]

theorem adjust_cons (k : κ) (f : α → α) (y : α) (l : List α) :
    adjust key k f (y :: l) =
      if key y < k then y :: adjust key k f l else if key y = k then f y :: l else y :: l := by
  unfold adjust
  by_cases h : key y < k
  · simp [h]
  · simp [h]

theorem mem_insert {x a : α} {l : List α} : a ∈ insert key x l ↔ a = x ∨ a ∈ l := by
  unfold insert
  conv_rhs => rw [← List.takeWhile_append_dropWhile (p := fun y => !decide (key x < key y)) (l := l)]
  simp only [List.mem_append, List.mem_cons]
  tauto

theorem Ascending.insert {x : α} {l : List α} (h : Ascending key l) (hx : ∀ a ∈ l, key a ≠ key x) :
    Ascending key (insert key x l) := by
  induction l with
  | nil => exact List.pairwise_singleton _ _
  | cons y l ih =>
    obtain ⟨hy, hl⟩ := List.pairwise_cons.mp h
    rw [insert_cons]
    split
    · rename_i hlt
      apply List.pairwise_cons.mpr
      refine ⟨?_, h⟩
      intro b hb
      rcases List.mem_cons.mp hb with rfl | hb
      · exact hlt
      · exact lt_trans hlt (hy b hb)
    · rename_i hge
      apply List.pairwise_cons.mpr
      refine ⟨?_, ih hl fun a ha => hx a (.tail _ ha)⟩
      intro b hb
      rcases mem_insert.mp hb with rfl | hb
      · exact lt_of_le_of_ne (not_lt.mp hge) (hx y (.head _))
      · exact hy b hb

/-- On an ordered vector, what has the key is erased. -/
theorem Ascending.erase_eq {k : κ} {l : List α} (h : Ascending key l) :
    erase key k l = l.filter fun a => !decide (key a = k) := by
  induction l with
  | nil => rfl
  | cons y l ih =>
    obtain ⟨hy, hl⟩ := List.pairwise_cons.mp h
    have hrest : ¬ key y < k → l.filter (fun a => !decide (key a = k)) = l := by
      intro hge
      apply List.filter_eq_self.mpr
      intro a ha
      have hlt : k < key a := lt_of_le_of_lt (not_lt.mp hge) (hy a ha)
      simpa using ne_of_gt hlt
    rw [erase_cons, List.filter_cons]
    by_cases hlt : key y < k
    · rw [if_pos hlt, if_pos (by simpa using ne_of_lt hlt), ih hl]
    · rw [if_neg hlt, hrest hlt]
      by_cases heq : key y = k
      · rw [if_pos heq, if_neg (by simpa using heq)]
      · rw [if_neg heq, if_pos (by simpa using heq)]

theorem Ascending.erase {k : κ} {l : List α} (h : Ascending key l) : Ascending key (erase key k l) := by
  rw [h.erase_eq]
  exact h.sublist List.filter_sublist

theorem Ascending.mem_erase {k : κ} {a : α} {l : List α} (h : Ascending key l) :
    a ∈ Ordered.erase key k l ↔ a ∈ l ∧ key a ≠ k := by
  rw [h.erase_eq]
  simp

/-- The first element is the least one. -/
theorem Ascending.head?_eq {a : α} {l : List α} (h : Ascending key l) (ha : a ∈ l) :
    l.head? = some a ↔ ∀ b ∈ l, b ≠ a → key a < key b := by
  cases l with
  | nil => cases ha
  | cons y l =>
    obtain ⟨hy, -⟩ := List.pairwise_cons.mp h
    rw [List.head?_cons, Option.some.injEq]
    constructor
    · rintro rfl b hb hne
      exact hy b ((List.mem_cons.mp hb).resolve_left hne)
    · intro hleast
      by_contra hne
      have hlt := hy a ((List.mem_cons.mp ha).resolve_left fun he => hne he.symm)
      exact lt_asymm hlt (hleast y (.head _) hne)

theorem Ascending.filter_length_le {l : List α} (h : Ascending key l) (k : κ) :
    (l.filter fun a => key a = k).length ≤ 1 := by
  have hf : Ascending key (l.filter fun a => key a = k) := h.sublist List.filter_sublist
  cases hl : l.filter fun a => key a = k with
  | nil => exact Nat.zero_le 1
  | cons a tail =>
    cases tail with
    | nil => exact Nat.le_refl 1
    | cons b tail =>
      -- two elements with the key `k` would not go up
      have hkey : ∀ c ∈ l.filter (fun a => key a = k), key c = k := fun c hc => by simpa using (List.mem_filter.mp hc).2
      rw [hl] at hf hkey
      have hlt := (List.pairwise_cons.mp hf).1 b List.mem_cons_self
      rw [hkey a List.mem_cons_self, hkey b (List.mem_cons_of_mem a List.mem_cons_self)] at hlt
      exact absurd hlt (lt_irrefl k)

/-! ## The vector as a map -/

/-- What is found has the key. -/
theorem get_key {k : κ} {a : α} {l : List α} (h : get key k l = some a) : a ∈ l ∧ key a = k := by
  induction l with
  | nil => cases h
  | cons y l ih =>
    rw [get_cons] at h
    split at h
    · exact ⟨.tail _ (ih h).1, (ih h).2⟩
    · split at h
      · rename_i heq
        cases h
        exact ⟨.head _, heq⟩
      · cases h

/-- On an ordered vector the search finds what is there. -/
theorem Ascending.get_eq {k : κ} {a : α} {l : List α} (h : Ascending key l) :
    get key k l = some a ↔ a ∈ l ∧ key a = k := by
  refine ⟨get_key, ?_⟩
  rintro ⟨ha, hk⟩
  induction l with
  | nil => cases ha
  | cons y l ih =>
    obtain ⟨hy, hl⟩ := List.pairwise_cons.mp h
    rw [get_cons]
    rcases List.mem_cons.mp ha with rfl | ha
    · rw [if_neg (by rw [hk]; exact lt_irrefl k), if_pos hk]
    · rw [if_pos (hk ▸ hy a ha)]
      exact ih hl ha

theorem Ascending.get_eq_none {k : κ} {l : List α} (h : Ascending key l) :
    get key k l = none ↔ ∀ a ∈ l, key a ≠ k := by
  constructor
  · intro hnone a ha hk
    rw [h.get_eq.mpr ⟨ha, hk⟩] at hnone
    cases hnone
  · intro hne
    by_contra hsome
    obtain ⟨a, ha⟩ := Option.ne_none_iff_exists'.mp hsome
    exact hne a (get_key ha).1 (get_key ha).2

theorem mem_place {x a : α} {l : List α} : a ∈ place key x l ↔ a = x ∨ a ∈ l := by
  unfold place
  conv_rhs => rw [← List.takeWhile_append_dropWhile (p := fun y => decide (key y < key x)) (l := l)]
  simp only [List.mem_append, List.mem_cons]
  tauto

theorem Ascending.place {x : α} {l : List α} (h : Ascending key l) (hx : Ordered.get key (key x) l = none) :
    Ascending key (place key x l) := by
  have hne := h.get_eq_none.mp hx
  clear hx
  induction l with
  | nil => exact List.pairwise_singleton _ _
  | cons y l ih =>
    obtain ⟨hy, hl⟩ := List.pairwise_cons.mp h
    rw [place_cons]
    split
    · rename_i hlt
      apply List.pairwise_cons.mpr
      refine ⟨?_, ih hl fun a ha => hne a (.tail _ ha)⟩
      intro b hb
      rcases mem_place.mp hb with rfl | hb
      · exact hlt
      · exact hy b hb
    · rename_i hge
      have hlt : key x < key y := lt_of_le_of_ne (not_lt.mp hge) (hne y (.head _)).symm
      apply List.pairwise_cons.mpr
      refine ⟨?_, h⟩
      intro b hb
      rcases List.mem_cons.mp hb with rfl | hb
      · exact hlt
      · exact lt_trans hlt (hy b hb)

theorem mem_adjust {k : κ} {f : α → α} {a : α} {l : List α} (h : a ∈ adjust key k f l) :
    a ∈ l ∨ ∃ b ∈ l, a = f b := by
  induction l with
  | nil => exact .inl h
  | cons y l ih =>
    rw [adjust_cons] at h
    split at h
    · rcases List.mem_cons.mp h with rfl | h
      · exact .inl (.head _)
      · rcases ih h with h | ⟨b, hb, rfl⟩
        · exact .inl (.tail _ h)
        · exact .inr ⟨b, .tail _ hb, rfl⟩
    · split at h
      · rcases List.mem_cons.mp h with rfl | h
        · exact .inr ⟨y, .head _, rfl⟩
        · exact .inl (.tail _ h)
      · exact .inl h

theorem map_key_adjust {k : κ} {f : α → α} (hf : ∀ a, key (f a) = key a) (l : List α) :
    (adjust key k f l).map key = l.map key := by
  induction l with
  | nil => rfl
  | cons y l ih =>
    rw [adjust_cons]
    split
    · rw [List.map_cons, List.map_cons, ih]
    · split
      · rw [List.map_cons, List.map_cons, hf]
      · rfl

theorem ascending_iff {l : List α} : Ascending key l ↔ (l.map key).Pairwise (· < ·) := List.pairwise_map.symm

theorem Ascending.adjust {k : κ} {f : α → α} {l : List α} (h : Ascending key l) (hf : ∀ a, key (f a) = key a) :
    Ascending key (adjust key k f l) := by
  rw [ascending_iff, map_key_adjust hf]
  exact ascending_iff.mp h

theorem get_place (k : κ) (x : α) (l : List α) :
    get key k (place key x l) = if key x = k then some x else get key k l := by
  have hself : key x = k → ¬ key x < k := fun hk hlt => absurd hk (ne_of_lt hlt)
  induction l with
  | nil =>
    unfold place
    rw [List.takeWhile_nil, List.dropWhile_nil, List.nil_append, get_cons]
    by_cases hk : key x = k
    · simp only [if_neg (hself hk), if_pos hk]
    · simp only [if_neg hk]
      split <;> rfl
  | cons y l ih =>
    rw [place_cons]
    split
    · rename_i hlt
      rw [get_cons, get_cons, ih]
      by_cases hk : key x = k
      · simp only [if_pos hk, if_pos (hk ▸ hlt)]
      · simp only [if_neg hk]
    · rename_i hge
      rw [get_cons]
      by_cases hk : key x = k
      · simp only [if_neg (hself hk), if_pos hk]
      · simp only [if_neg hk]
        split
        · rfl
        · rename_i hxk
          -- everything in the vector is past `k`
          have hky : k < key y := lt_of_lt_of_le (lt_of_le_of_ne (not_lt.mp hxk) fun h => hk h.symm) (not_lt.mp hge)
          rw [get_cons, if_neg (not_lt_of_gt hky), if_neg (ne_of_gt hky)]

theorem Ascending.get_adjust {k : κ} {f : α → α} {l : List α} (h : Ascending key l) (hf : ∀ a, key (f a) = key a)
    (j : κ) : get key j (Ordered.adjust key k f l) = if j = k then (get key k l).map f else get key j l := by
  induction l with
  | nil => split <;> rfl
  | cons y l ih =>
    obtain ⟨hy, hl⟩ := List.pairwise_cons.mp h
    rw [adjust_cons]
    split
    · rename_i hlt
      rw [get_cons, get_cons, get_cons, ih hl, if_pos hlt]
      by_cases hj : j = k
      · rw [if_pos hj, if_pos hj, if_pos (hj ▸ hlt)]
      · rw [if_neg hj, if_neg hj]
    · rename_i hge
      split
      · rename_i heq
        subst heq
        rw [get_cons, hf, get_cons, get_cons, if_neg (lt_irrefl _), if_pos rfl]
        by_cases hj : j = key y
        · rw [if_pos hj, hj, if_neg (lt_irrefl _), if_pos rfl]
          rfl
        · rw [if_neg hj, if_neg (Ne.symm hj), if_neg (Ne.symm hj)]
      · rename_i hne
        by_cases hj : j = k
        · rw [if_pos hj, hj, get_cons, if_neg hge, if_neg hne]
          rfl
        · rw [if_neg hj]

theorem Ascending.get_erase {k : κ} {l : List α} (h : Ascending key l) (j : κ) :
    get key j (Ordered.erase key k l) = if j = k then none else get key j l := by
  by_cases hj : j = k
  · rw [if_pos hj, h.erase.get_eq_none]
    intro a ha
    rw [hj]
    exact (h.mem_erase.mp ha).2
  · rw [if_neg hj]
    cases hget : get key j l with
    | none =>
      rw [h.erase.get_eq_none]
      intro a ha
      exact h.get_eq_none.mp hget a (h.mem_erase.mp ha).1
    | some a =>
      obtain ⟨ha, hk⟩ := get_key hget
      exact h.erase.get_eq.mpr ⟨h.mem_erase.mpr ⟨ha, hk ▸ hj⟩, hk⟩

/-! ## At the end of the vector -/

theorem place_last {x : α} {l : List α} (h : ∀ a ∈ l, key a < key x) : place key x l = l ++ [x] := by
  induction l with
  | nil => rfl
  | cons y l ih =>
    rw [place_cons, if_pos (h y List.mem_cons_self), ih fun a ha => h a (List.mem_cons_of_mem y ha)]
    rfl

theorem adjust_last {x : α} {f : α → α} {l : List α} (h : ∀ a ∈ l, key a < key x) :
    adjust key (key x) f (l ++ [x]) = l ++ [f x] := by
  induction l with
  | nil => rw [List.nil_append, adjust_cons, if_neg (lt_irrefl _), if_pos rfl]; rfl
  | cons y l ih =>
    rw [List.cons_append, adjust_cons, if_pos (h y List.mem_cons_self),
      ih fun a ha => h a (List.mem_cons_of_mem y ha)]
    rfl

theorem get_last {x : α} {l : List α} (h : ∀ a ∈ l, key a < key x) : get key (key x) (l ++ [x]) = some x := by
  induction l with
  | nil => rw [List.nil_append, get_cons, if_neg (lt_irrefl _), if_pos rfl]
  | cons y l ih =>
    rw [List.cons_append, get_cons, if_pos (h y List.mem_cons_self),
      ih fun a ha => h a (List.mem_cons_of_mem y ha)]

/-! ## Two vectors with the same keys

A vector is changed in the same way as its image, when the key can be read off the image. -/

section Image

variable {β : Type} {key' : β → κ} {g : α → β}

theorem map_get (hg : ∀ a, key' (g a) = key a) (k : κ) (l : List α) :
    get key' k (l.map g) = (get key k l).map g := by
  induction l with
  | nil => rfl
  | cons y l ih =>
    rw [List.map_cons, get_cons, get_cons, hg, ih]
    split
    · rfl
    · split <;> rfl

theorem map_place (hg : ∀ a, key' (g a) = key a) (x : α) (l : List α) :
    (place key x l).map g = place key' (g x) (l.map g) := by
  induction l with
  | nil => rfl
  | cons y l ih =>
    rw [List.map_cons, place_cons, place_cons, hg, hg]
    split
    · rw [List.map_cons, ih]
    · rfl

theorem map_adjust (hg : ∀ a, key' (g a) = key a) {k : κ} {f : α → α} {f' : β → β} (hf : ∀ a, g (f a) = f' (g a))
    (l : List α) : (adjust key k f l).map g = adjust key' k f' (l.map g) := by
  induction l with
  | nil => rfl
  | cons y l ih =>
    rw [List.map_cons, adjust_cons, adjust_cons, hg]
    split
    · rw [List.map_cons, ih]
    · split
      · rw [List.map_cons, hf]
      · rfl

theorem map_erase (hg : ∀ a, key' (g a) = key a) (k : κ) (l : List α) :
    (erase key k l).map g = erase key' k (l.map g) := by
  induction l with
  | nil => rfl
  | cons y l ih =>
    rw [List.map_cons, erase_cons, erase_cons, hg]
    split
    · rw [List.map_cons, ih]
    · split <;> rfl

end Image

end Ordered
