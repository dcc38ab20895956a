-- A registry of what belongs to shared objects: a vector in the order of their
-- owners, from which the entries of owners that are gone are removed while a new
-- one is inserted. A weak pointer keeps the address of its owner, so that a new
-- owner never has the key of an entry.
import Cloudbus.Lib.Ordered
import Mathlib.Logic.Function.Basic

namespace Registry

open Ordered

variable {α κ : Type} [LinearOrder κ] {key : α → κ} {expired : κ → Bool} {k : κ} {v v' : List α}

/-- What a call for the owner `k` may do to a registry. -/
structure Visit (key : α → κ) (expired : κ → Bool) (k : κ) (v v' : List α) : Prop where
  ordered : Ascending key v'
  old : ∀ a ∈ v', key a ≠ k → a ∈ v
  others : ∀ a ∈ v, key a ≠ k → expired (key a) = false → a ∈ v'
  own : ∃ a ∈ v', key a = k

/-- An entry is inserted, and those before it whose owners are gone are removed. -/
theorem Visit.insert {x : α} {before after : List α} (hv : Ascending key (before ++ after)) (hx : key x = k)
    (hbefore : ∀ a ∈ before, expired (key a) = false → key a < k) (hafter : ∀ a ∈ after.head?, k < key a) :
    Visit key expired k (before ++ after) ((before.filter fun a => !expired (key a)) ++ x :: after) := by
  obtain ⟨hb, ha, hba⟩ := List.pairwise_append.mp hv
  have hlt : ∀ a ∈ after, k < key a := by
    cases after with
    | nil => intro a ha; cases ha
    | cons y after =>
      have hy := hafter y rfl
      intro a hmem
      rcases List.mem_cons.mp hmem with rfl | hmem
      · exact hy
      · exact lt_trans hy ((List.pairwise_cons.mp ha).1 a hmem)
  have hfilter : ∀ a ∈ before.filter (fun a => !expired (key a)), a ∈ before ∧ expired (key a) = false := by
    intro a hmem
    simpa using hmem
  subst hx
  refine ⟨?_, ?_, ?_, ⟨x, by simp, rfl⟩⟩
  · apply List.pairwise_append.mpr
    refine ⟨hb.sublist List.filter_sublist, List.pairwise_cons.mpr ⟨hlt, ha⟩, ?_⟩
    intro a hmem b hb'
    obtain ⟨hmem, hlive⟩ := hfilter a hmem
    rcases List.mem_cons.mp hb' with rfl | hb'
    · exact hbefore a hmem hlive
    · exact hba a hmem b hb'
  · intro a hmem hne
    rcases List.mem_append.mp hmem with hmem | hmem
    · exact List.mem_append_left after (hfilter a hmem).1
    · rcases List.mem_cons.mp hmem with rfl | hmem
      · exact absurd rfl hne
      · exact List.mem_append_right before hmem
  · intro a hmem hne hlive
    rcases List.mem_append.mp hmem with hmem | hmem
    · exact List.mem_append_left _ (List.mem_filter.mpr ⟨hmem, by rw [hlive]; rfl⟩)
    · exact List.mem_append_right _ (List.mem_cons_of_mem x hmem)

/-- The entry of `k` is changed. -/
theorem Visit.adjust {f : α → α} {a : α} (hv : Ascending key v) (hget : get key k v = some a)
    (hf : ∀ a, key (f a) = key a) : Visit key expired k v (Ordered.adjust key k f v) := by
  have hv' := hv.adjust (k := k) hf
  have hgets := hv.get_adjust (k := k) hf
  refine ⟨hv', ?_, ?_, ⟨f a, ?_⟩⟩
  · intro b hb hne
    have h := hgets (key b)
    rw [if_neg hne, hv'.get_eq.mpr ⟨hb, rfl⟩] at h
    exact (get_key h.symm).1
  · intro b hb hne _
    have h := hgets (key b)
    rw [if_neg hne, hv.get_eq.mpr ⟨hb, rfl⟩] at h
    exact (get_key h).1
  · have h := hgets k
    rw [if_pos rfl, hget] at h
    exact get_key h

/-- The entry at a place is replaced by another one of the same owner. -/
theorem Visit.set {i : Nat} {a b : α} (hv : Ascending key v) (hget : v[i]? = some a) (ha : key a = k)
    (hb : key b = k) : Visit key expired k v (v.set i b) := by
  have hmem : ∀ c ∈ v, key c ≠ k → c ∈ v.set i b := by
    intro c hc hne
    obtain ⟨j, hj⟩ := List.mem_iff_getElem?.mp hc
    refine List.mem_iff_getElem?.mpr ⟨j, ?_⟩
    rw [List.getElem?_set_ne, hj]
    rintro rfl
    rw [hget] at hj
    cases hj
    exact hne ha
  refine ⟨?_, ?_, fun c hc hne _ => hmem c hc hne, ⟨b, ?_, hb⟩⟩
  · obtain ⟨hi, rfl⟩ := List.getElem?_eq_some_iff.mp hget
    rw [ascending_iff, List.map_set, hb, ← ha, ← List.map_set, List.set_getElem_self]
    exact ascending_iff.mp hv
  · intro c hc hne
    rcases List.mem_or_eq_of_mem_set hc with hc | rfl
    · exact hc
    · exact absurd hb hne
  · exact List.mem_set (List.getElem?_eq_some_iff.mp hget).1 b

theorem Visit.trans {v'' : List α} (h : Visit key expired k v v') (h' : Visit key expired k v' v'') :
    Visit key expired k v v'' where
  ordered := h'.ordered
  old a ha hne := h.old a (h'.old a ha hne) hne
  others a ha hne hlive := h'.others a (h.others a ha hne hlive) hne hlive
  own := h'.own

/-- What another owner has stays as it is. -/
theorem Visit.get_eq {j : κ} (hv : Ascending key v) (h : Visit key expired k v v') (hne : j ≠ k)
    (hlive : expired j = false) : get key j v' = get key j v := by
  cases hget : get key j v with
  | none =>
    rw [h.ordered.get_eq_none]
    intro a ha hkey
    exact hv.get_eq_none.mp hget a (h.old a ha (hkey ▸ hne)) hkey
  | some a =>
    obtain ⟨ha, rfl⟩ := get_key hget
    exact h.ordered.get_eq.mpr ⟨h.others a ha hne hlive, rfl⟩

/-! ## Runs -/

/-- An owner comes or goes, or a call is made. -/
inductive Event (κ β : Type) where
  | create (k : κ)
  | destroy (k : κ)
  | call (c : β)

variable {β : Type} {owner : β → κ} {C : (κ → Bool) → β → List α → List α → Prop} {events : List (Event κ β)}
  {expired₀ : κ → Bool} {v₀ : List α}

/-- Whom an event is about. -/
def Event.about (owner : β → κ) : Event κ β → κ
  | .create k => k
  | .destroy k => k
  | .call c => owner c

/-- The registry after some events, and which owners are gone then. `C` says what a call does. -/
inductive Run (key : α → κ) (C : (κ → Bool) → β → List α → List α → Prop) (expired₀ : κ → Bool) (v₀ : List α) :
    List (Event κ β) → (κ → Bool) → List α → Prop
  | start : Run key C expired₀ v₀ [] expired₀ v₀
  | create {events : List (Event κ β)} {expired : κ → Bool} {v : List α} (k : κ) :
      Run key C expired₀ v₀ events expired v → expired k → (∀ a ∈ v, key a ≠ k) →
      Run key C expired₀ v₀ (events ++ [.create k]) (Function.update expired k false) v
  | destroy {events : List (Event κ β)} {expired : κ → Bool} {v : List α} (k : κ) :
      Run key C expired₀ v₀ events expired v →
      Run key C expired₀ v₀ (events ++ [.destroy k]) (Function.update expired k true) v
  | call {events : List (Event κ β)} {expired : κ → Bool} {v v' : List α} (c : β) :
      Run key C expired₀ v₀ events expired v → C expired c v v' →
      Run key C expired₀ v₀ (events ++ [.call c]) expired v'

/-- On a registry in order a call does nothing, or visits the entry of its owner. -/
def Lawful (key : α → κ) (owner : β → κ) (C : (κ → Bool) → β → List α → List α → Prop) : Prop :=
  ∀ expired c v v', Ascending key v → C expired c v v' → v' = v ∨ Visit key expired (owner c) v v'

theorem Run.ordered (hC : Lawful key owner C) (h₀ : Ascending key v₀) (h : Run key C expired₀ v₀ events expired v) :
    Ascending key v := by
  induction h with
  | start => exact h₀
  | create _ _ _ _ ih => exact ih
  | destroy _ _ ih => exact ih
  | call c _ hc ih =>
    rcases hC _ c _ _ ih hc with rfl | hvisit
    · exact ih
    · exact hvisit.ordered

/-- As long as no event is about an owner, it keeps what it has. -/
theorem Run.keeps (hC : Lawful key owner C) (h₀ : Ascending key v₀) (h : Run key C expired₀ v₀ events expired v)
    (hk : ∀ e ∈ events, e.about owner ≠ k) (hlive : expired₀ k = false) :
    expired k = false ∧ get key k v = get key k v₀ := by
  induction h with
  | start => exact ⟨hlive, rfl⟩
  | create j _ _ _ ih =>
    obtain ⟨ih1, ih2⟩ := ih fun e he => hk e (List.mem_append_left _ he)
    have hne : j ≠ k := hk (.create j) (List.mem_append_right _ List.mem_cons_self)
    exact ⟨by rw [Function.update_of_ne hne.symm]; exact ih1, ih2⟩
  | destroy j _ ih =>
    obtain ⟨ih1, ih2⟩ := ih fun e he => hk e (List.mem_append_left _ he)
    have hne : j ≠ k := hk (.destroy j) (List.mem_append_right _ List.mem_cons_self)
    exact ⟨by rw [Function.update_of_ne hne.symm]; exact ih1, ih2⟩
  | call c hrun hc ih =>
    obtain ⟨ih1, ih2⟩ := ih fun e he => hk e (List.mem_append_left _ he)
    have hne : owner c ≠ k := hk (.call c) (List.mem_append_right _ List.mem_cons_self)
    have hord := hrun.ordered hC h₀
    rcases hC _ c _ _ hord hc with rfl | hvisit
    · exact ⟨ih1, ih2⟩
    · exact ⟨ih1, (hvisit.get_eq hord hne.symm ih1).trans ih2⟩

end Registry
