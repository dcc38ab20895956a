-- `next` hands out the addresses of the least priority in turns: in a round of
-- as many calls as the sum of their weights, each one as often as its weight.
import Cloudbus.Addresses
import Cloudbus.Lib.Cycle

open Finset

namespace cloudbus.InterfaceBase

/-- The weights are found: the priority is the least one, and there is a weight to hand out. -/
structure Ready (s : InterfaceBase) : Prop where
  le : ∀ a ∈ s.addresses, s.prio ≤ a.priority
  total : s.total = total_share s.prio s.addresses
  pos : 0 < s.total
  counts : ∀ a ∈ s.addresses, a.count ≤ a.max

/-- The address at this place is not one of the least priority with some of its weight left. -/
def Full (s : InterfaceBase) (i : Nat) : Prop :=
  ∀ a, s.addresses[i]? = some a → a.priority = s.prio → a.max ≤ a.count

def share_at (s : InterfaceBase) (i : Nat) : Nat := (s.addresses[i]?.map (Address.share s.prio)).getD 0

/-- The address at this place is handed out. -/
def take_at (s : InterfaceBase) (i : Nat) : InterfaceBase :=
  { s with idx := i, addresses := s.addresses.modify i fun a => a.set_count (a.count + 1) }

variable {s s' : InterfaceBase}

variable {i fuel sum : Nat} {a : Address}

theorem not_full : ¬ s.Full i ↔ ∃ a, s.addresses[i]? = some a ∧ a.priority = s.prio ∧ a.count < a.max := by
  simp only [Full, not_forall, not_le, exists_prop]

theorem Ready.addresses_pos (hr : s.Ready) : 0 < s.addresses.length := by
  rw [List.length_pos_iff]
  intro h
  have := hr.pos
  rw [hr.total, h] at this
  exact absurd this (lt_irrefl 0)

theorem Ready.with_idx (hr : s.Ready) (i : Nat) : Ready { s with idx := i } := ⟨hr.le, hr.total, hr.pos, hr.counts⟩

/-- What the places after `start` add up to. -/
def sum_from (s : InterfaceBase) (start j : Nat) : Nat :=
  ∑ k ∈ range j, s.share_at ((start + k) % s.addresses.length)

/-- A round sums up to the total. -/
theorem Ready.sum_round (hr : s.Ready) (start : Nat) : s.sum_from start s.addresses.length = s.total := by
  unfold sum_from
  rw [Cycle.sum_round, hr.total]
  exact Cycle.sum_getElem? _ _

/-! ## The loop -/

theorem scan_exit (h : ¬ sum < s.total) : scan (fuel + 1) sum s = some (none, s) := by
  rw [scan, if_neg h]

theorem scan_turn (fuel : Nat) (h : sum < s.total) (hi : (s.idx + 1) % s.addresses.length = i)
    (ha : s.addresses[i]? = some a) :
    scan (fuel + 1) sum s =
      if a.priority = s.prio then
        if a.count < a.max then some (some i, s.take_at i)
        else scan fuel (sum + a.count) { s with idx := i }
      else scan fuel sum { s with idx := i } := by
  rw [scan, if_pos h]
  simp only [hi, ha, take_at]

/-- What comes of the loop: an address that has some of its weight left, or nothing because no address
has. -/
def Outcome (s : InterfaceBase) (r : Option (Option Nat × InterfaceBase)) : Prop :=
  (∃ i < s.addresses.length, ¬ s.Full i ∧ r = some (some i, s.take_at i)) ∨
    (∀ i < s.addresses.length, s.Full i) ∧ ∃ idx, r = some (none, { s with idx := idx })

/-- The loop after `j` places from `start` on, none of which had anything left. -/
theorem scan_spec (hr : s.Ready) (start : Nat) {j : Nat} (idx : Nat) (hj : j ≤ s.addresses.length)
    (hvis : ∀ k < j, s.Full ((start + k) % s.addresses.length))
    (hidx : (idx + 1) % s.addresses.length = (start + j) % s.addresses.length) (hfuel : s.addresses.length < fuel + j) :
    s.Outcome (scan fuel (s.sum_from start j) { s with idx := idx }) := by
  induction fuel generalizing j idx with
  | zero => omega
  | succ fuel ih =>
    by_cases hsum : s.sum_from start j < s.total
    · have hlt : j < s.addresses.length := by
        refine lt_of_le_of_ne hj fun he => ?_
        rw [he, hr.sum_round] at hsum
        exact lt_irrefl _ hsum
      have hpos : (start + j) % s.addresses.length < s.addresses.length := Nat.mod_lt _ hr.addresses_pos
      obtain ⟨a, hget⟩ : ∃ a, s.addresses[(start + j) % s.addresses.length]? = some a :=
        ⟨_, List.getElem?_eq_getElem hpos⟩
      have hturn := scan_turn (s := { s with idx := idx }) fuel hsum hidx hget
      have hmore : s.sum_from start (j + 1) = s.sum_from start j + a.share s.prio := by
        unfold sum_from
        rw [Finset.sum_range_succ]
        simp [share_at, hget]
      -- when the place has nothing left the loop goes on, with its share added
      have go : s.Full ((start + j) % s.addresses.length) →
          s.Outcome (scan fuel (s.sum_from start j + a.share s.prio)
            { s with idx := (start + j) % s.addresses.length }) := by
        intro hfull
        rw [← hmore]
        apply ih _ hlt
        · intro k hk
          rcases Nat.lt_succ_iff_lt_or_eq.mp hk with hk | rfl
          · exact hvis k hk
          · exact hfull
        · exact Nat.mod_add_mod ..
        · omega
      rw [hturn]
      by_cases hp : a.priority = s.prio
      · by_cases hc : a.count < a.max
        · rw [if_pos hp, if_pos hc]
          exact .inl ⟨_, hpos, fun hf => absurd (hf a hget hp) (not_le_of_gt hc), rfl⟩
        · rw [if_pos hp, if_neg hc]
          have hcount : a.share s.prio = a.count := by
            rw [Address.share, if_pos hp]
            exact le_antisymm (not_lt.mp hc) (hr.counts a (List.mem_of_getElem? hget))
          rw [hcount] at go
          apply go
          intro b hb _
          rw [hget] at hb
          cases hb
          exact not_lt.mp hc
      · rw [if_neg hp]
        have hzero : a.share s.prio = 0 := if_neg hp
        rw [hzero] at go
        apply go
        intro b hb hbp
        rw [hget] at hb
        cases hb
        exact absurd hbp hp
    · refine .inr ⟨fun i hi => ?_, idx, scan_exit hsum⟩
      by_contra hfull
      -- a place with something left is still to come, and its share is missing in the sum
      obtain ⟨k, hk, hki⟩ := Cycle.exists_visit hr.addresses_pos start hi
      have hjk : j ≤ k := by
        by_contra hlt
        exact hfull (hki ▸ hvis k (not_le.mp hlt))
      have hshare : 0 < s.share_at ((start + k) % s.addresses.length) := by
        obtain ⟨a, ha, hp, hlt⟩ := not_full.mp hfull
        rw [hki]
        simp only [share_at, ha, Option.map_some, Option.getD_some, Address.share, if_pos hp]
        omega
      have hsub : insert k (range j) ⊆ range s.addresses.length := by
        intro x hx
        rw [Finset.mem_insert, Finset.mem_range] at hx
        rw [Finset.mem_range]
        omega
      have hle := Finset.sum_le_sum_of_subset (f := fun k => s.share_at ((start + k) % s.addresses.length)) hsub
      rw [Finset.sum_insert (by simpa using hjk)] at hle
      have hround := hr.sum_round start
      unfold sum_from at hround hsum
      omega

variable {fuel' k : Nat} {r : Option Nat × InterfaceBase} {a' : Address} {l : List Address} {t : Int}

/-- More turns change nothing. -/
theorem scan_mono (hle : fuel ≤ fuel') (h : scan fuel sum s = some r) : scan fuel' sum s = some r := by
  induction fuel generalizing fuel' sum s with
  | zero => cases h
  | succ fuel ih =>
    obtain ⟨f, rfl⟩ : ∃ f, fuel' = f + 1 := ⟨fuel' - 1, by omega⟩
    have hf : fuel ≤ f := Nat.le_of_succ_le_succ hle
    rw [scan] at h ⊢
    split
    · rename_i hsum
      simp only [if_pos hsum] at h
      dsimp only
      split
      · rename_i hn
        simp only [hn] at h
        cases h
      · rename_i a ha
        simp only [ha] at h
        split
        · rename_i hp
          rw [if_pos hp] at h
          split
          · rename_i hc
            rwa [if_pos hc] at h
          · rename_i hc
            rw [if_neg hc] at h
            exact ih hf h
        · rename_i hp
          rw [if_neg hp] at h
          exact ih hf h
    · rename_i hsum
      rwa [if_neg hsum] at h

/-! ## A call -/

theorem next_mono (hle : fuel ≤ fuel') (h : s.next fuel = some r) : s.next fuel' = some r := by
  induction fuel generalizing fuel' s with
  | zero => cases h
  | succ fuel ih =>
    obtain ⟨f, rfl⟩ : ∃ f, fuel' = f + 1 := ⟨fuel' - 1, by omega⟩
    have hf : fuel ≤ f := Nat.le_of_succ_le_succ hle
    rw [InterfaceBase.next] at h ⊢
    split
    · rename_i hne
      rwa [if_pos hne] at h
    · rename_i hne
      rw [if_neg hne] at h
      cases hs : scan (fuel + 1) 0 s with
      | none => rw [hs] at h; cases h
      | some x =>
        rw [scan_mono hle hs]
        rw [hs] at h
        obtain ⟨i | i, s'⟩ := x
        · exact ih hf h
        · exact h

theorem Ready.scan (hr : s.Ready) (hfuel : s.addresses.length < fuel) : s.Outcome (scan fuel 0 s) :=
  scan_spec hr (s.idx + 1) s.idx (Nat.zero_le _) (fun _ h => absurd h (Nat.not_lt_zero _)) rfl hfuel

theorem Ready.clear_counters (hr : s.Ready) : s.clear_counters.Ready := by
  have hshare : total_share s.prio (s.addresses.map (Address.set_count 0)) = total_share s.prio s.addresses := by
    unfold total_share
    rw [List.map_map]
    rfl
  refine ⟨fun a ha => ?_, hr.total.trans hshare.symm, hr.pos, fun a ha => ?_⟩
  · obtain ⟨b, hb, rfl⟩ := List.mem_map.mp ha
    exact hr.le b hb
  · obtain ⟨b, -, rfl⟩ := List.mem_map.mp ha
    exact Nat.zero_le _

/-- With all counters at zero there is something to hand out. -/
theorem Ready.not_full_clear (hr : s.Ready) : ¬ ∀ i < s.clear_counters.addresses.length, s.clear_counters.Full i := by
  intro h
  have hzero : total_share s.prio s.addresses = 0 := by
    apply List.sum_eq_zero
    intro n hn
    obtain ⟨a, ha, rfl⟩ := List.mem_map.mp hn
    obtain ⟨i, hi, hget⟩ := List.mem_iff_getElem.mp ha
    have hc : s.clear_counters.addresses[i]? = some (a.set_count 0) := by
      rw [InterfaceBase.clear_counters, List.getElem?_map, List.getElem?_eq_getElem hi, hget]
      rfl
    unfold Address.share
    split
    · rename_i hp
      have hlen : i < s.clear_counters.addresses.length := by simpa [InterfaceBase.clear_counters] using hi
      exact Nat.le_zero.mp (h i hlen _ hc hp)
    · rfl
  exact absurd hr.pos (by rw [hr.total, hzero]; exact lt_irrefl 0)

/-- A call of `next`: it hands out an address that has some of its weight left, of the counters as they
are or, when nothing is left, of the counters at zero. -/
theorem Ready.next (hr : s.Ready) :
    (∃ i < s.addresses.length, ¬ s.Full i ∧ s.next s.enough = some (some i, s.take_at i)) ∨
      (∀ i < s.addresses.length, s.Full i) ∧ ∃ i < s.addresses.length, ¬ s.clear_counters.Full i ∧
        s.next s.enough = some (some i, s.clear_counters.take_at i) := by
  obtain ⟨f, hf⟩ : ∃ f, s.enough = f + 2 := ⟨s.addresses.length + 1, rfl⟩
  have hfuel : s.addresses.length + 3 = f + 2 := hf
  rw [hf]
  have hne : s.addresses ≠ [] := List.length_pos_iff.mp hr.addresses_pos
  have hlt : s.addresses.length < f + 2 := by omega
  rcases hr.scan hlt with ⟨i, hi, hf, heq⟩ | ⟨hall, idx, heq⟩
  · refine .inl ⟨i, hi, hf, ?_⟩
    rw [InterfaceBase.next, if_neg hne, heq]
  · refine .inr ⟨hall, ?_⟩
    have hlen : s.clear_counters.addresses.length = s.addresses.length := List.length_map ..
    have hne' : s.clear_counters.addresses ≠ [] := List.length_pos_iff.mp (hlen ▸ hr.addresses_pos)
    have hlt : s.clear_counters.addresses.length < f + 1 := by omega
    rcases (hr.clear_counters.with_idx idx).scan hlt with ⟨i, hi, hf, heq'⟩ | ⟨hall', -⟩
    · refine ⟨i, hlen ▸ hi, hf, ?_⟩
      rw [InterfaceBase.next, if_neg hne, heq]
      show InterfaceBase.next (f + 1) { s.clear_counters with idx := idx } = _
      rw [InterfaceBase.next, if_neg hne', heq']
      rfl
    · exact absurd hall' hr.not_full_clear

/-! ## What a call leaves as it is -/

/-- The two differ in nothing but the counters and the place of the last call. -/
structure Frame (s s' : InterfaceBase) : Prop where
  addresses : s'.addresses.map (Address.set_count 0) = s.addresses.map (Address.set_count 0)
  rest : { s' with addresses := [], idx := 0 } = { s with addresses := [], idx := 0 }

theorem Frame.refl (s : InterfaceBase) : Frame s s := ⟨rfl, rfl⟩

theorem Frame.trans {s'' : InterfaceBase} (h : Frame s s') (h' : Frame s' s'') : Frame s s'' :=
  ⟨h'.addresses.trans h.addresses, h'.rest.trans h.rest⟩

theorem Frame.total (h : Frame s s') : s'.total = s.total := (InterfaceBase.mk.inj h.rest).2.2.2.2.2.2.1

theorem Frame.prio (h : Frame s s') : s'.prio = s.prio := (InterfaceBase.mk.inj h.rest).2.2.2.2.2.2.2

theorem Frame.length (h : Frame s s') : s'.addresses.length = s.addresses.length := by
  have := congrArg List.length h.addresses
  rwa [List.length_map, List.length_map] at this

/-- The address at a place is the same one, but for its counter. -/
theorem Frame.getElem? (h : Frame s s') (ha : s'.addresses[i]? = some a') :
    ∃ a, s.addresses[i]? = some a ∧ a'.set_count 0 = a.set_count 0 := by
  have hi := congrArg (·[i]?) h.addresses
  simp only [List.getElem?_map, ha, Option.map_some] at hi
  obtain ⟨a, hget, heq⟩ := Option.map_eq_some_iff.mp hi.symm
  exact ⟨a, hget, heq.symm⟩

theorem Frame.clear_counters (s : InterfaceBase) : Frame s s.clear_counters := by
  refine ⟨?_, rfl⟩
  unfold InterfaceBase.clear_counters
  rw [List.map_map]
  rfl

theorem Frame.take_at (s : InterfaceBase) (i : Nat) : Frame s (s.take_at i) := by
  refine ⟨?_, rfl⟩
  apply List.ext_getElem?
  intro j
  simp only [InterfaceBase.take_at, List.getElem?_map, List.getElem?_modify]
  by_cases hij : i = j
  · cases s.addresses[j]? <;> simp [hij, Address.set_count]
  · simp [hij]

/-- What is at hand stays so when a counter that is not full goes up. -/
theorem Ready.take_at (hr : s.Ready) (hf : ¬ s.Full i) : (s.take_at i).Ready := by
  have hframe := Frame.take_at s i
  have mem : ∀ a' ∈ (s.take_at i).addresses, ∃ a ∈ s.addresses, a'.set_count 0 = a.set_count 0 := by
    intro a' ha'
    obtain ⟨j, hj⟩ := List.mem_iff_getElem?.mp ha'
    obtain ⟨a, hget, heq⟩ := hframe.getElem? hj
    exact ⟨a, List.mem_of_getElem? hget, heq⟩
  have hshare : ∀ l : List Address, total_share s.prio (l.map (Address.set_count 0)) = total_share s.prio l := by
    intro l
    unfold total_share
    rw [List.map_map]
    rfl
  refine ⟨?_, ?_, hr.pos, ?_⟩
  · intro a' ha'
    obtain ⟨a, ha, heq⟩ := mem a' ha'
    have hp : (a'.set_count 0).priority = (a.set_count 0).priority := congrArg Address.priority heq
    rw [Address.set_count_priority, Address.set_count_priority] at hp
    exact hp ▸ hr.le a ha
  · show s.total = total_share s.prio _
    rw [hr.total, ← hshare s.addresses, ← hframe.addresses, hshare]
  · intro a' ha'
    obtain ⟨j, hj⟩ := List.mem_iff_getElem?.mp ha'
    simp only [InterfaceBase.take_at, List.getElem?_modify] at hj
    obtain ⟨a, hget, hlt⟩ : ∃ a, s.addresses[i]? = some a ∧ a.count < a.max := by
      obtain ⟨a, hget, -, hlt⟩ := not_full.mp hf
      exact ⟨a, hget, hlt⟩
    by_cases hij : i = j
    · subst hij
      rw [hget] at hj
      simp only [if_true] at hj
      cases hj
      exact hlt
    · simp only [if_neg hij, id_map'] at hj
      exact hr.counts a' (List.mem_of_getElem? hj)

/-- A call returns, whatever the number of turns that is enough, and after it everything is as before
but for the counters. -/
theorem Ready.next_frame (hr : s.Ready) :
    ∃ i a s', (∀ fuel, s.enough ≤ fuel → s.next fuel = some (some i, s')) ∧ s.addresses[i]? = some a ∧
      a.priority = s.prio ∧ s'.Ready ∧ Frame s s' := by
  rcases hr.next with ⟨i, -, hf, heq⟩ | ⟨-, i, -, hf, heq⟩
  · obtain ⟨a, hget, hp, -⟩ := not_full.mp hf
    exact ⟨i, a, _, fun _ h => next_mono h heq, hget, hp, hr.take_at hf, Frame.take_at s i⟩
  · obtain ⟨a', hget', hp, -⟩ := not_full.mp hf
    have hframe := Frame.clear_counters s
    obtain ⟨a, hget, hsame⟩ := hframe.getElem? hget'
    have hp' : (a'.set_count 0).priority = (a.set_count 0).priority := congrArg Address.priority hsame
    exact ⟨i, a, _, fun _ h => next_mono h heq, hget, hp'.symm.trans hp, hr.clear_counters.take_at hf,
      hframe.trans (Frame.take_at _ i)⟩

/-! ## Some calls -/

/-- Calls of `next` one after the other, and the places that they return. -/
def calls (fuel : Nat) : Nat → InterfaceBase → Option (List (Option Nat) × InterfaceBase)
  | 0, s => some ([], s)
  | k + 1, s =>
    match s.next fuel with
    | none => none
    | some (r, s) => (calls fuel k s).map fun x => (r :: x.1, x.2)

theorem calls_succ {r : Option Nat} {js : List (Option Nat)} {s'' : InterfaceBase} (h : s.next fuel = some (r, s'))
    (h' : calls fuel k s' = some (js, s'')) : calls fuel (k + 1) s = some (r :: js, s'') := by
  rw [calls, h]
  simp only [h', Option.map_some]

theorem Frame.enough (h : Frame s s') : s'.enough = s.enough := congrArg (· + 3) h.length

/-- The places of the addresses of the least priority. -/
def Candidate (s : InterfaceBase) (i : Nat) : Prop := ∃ a, s.addresses[i]? = some a ∧ a.priority = s.prio

theorem Frame.candidate (h : Frame s s') (hc : s'.Candidate i) : s.Candidate i := by
  obtain ⟨a', hget', hp⟩ := hc
  obtain ⟨a, hget, hsame⟩ := h.getElem? hget'
  have hp' : (a'.set_count 0).priority = (a.set_count 0).priority := congrArg Address.priority hsame
  exact ⟨a, hget, hp'.symm.trans (hp.trans h.prio)⟩

/-- However many calls are made, each one returns an address of the least priority. -/
theorem Ready.calls (hr : s.Ready) (k : Nat) :
    ∃ js s', (∀ fuel, s.enough ≤ fuel → InterfaceBase.calls fuel k s = some (js, s')) ∧ js.length = k ∧ s'.Ready ∧
      Frame s s' ∧ ∀ r ∈ js, ∃ i, r = some i ∧ s.Candidate i := by
  induction k generalizing s with
  | zero => exact ⟨[], s, fun _ _ => rfl, rfl, hr, Frame.refl s, by simp⟩
  | succ k ih =>
    obtain ⟨i, a, s₁, hnext, hget, hp, hr₁, hframe⟩ := hr.next_frame
    obtain ⟨js, s', hcalls, hlen, hr', hframe', hjs⟩ := ih hr₁
    refine ⟨some i :: js, s', fun fuel hfuel => ?_, by rw [List.length_cons, hlen], hr', hframe.trans hframe', ?_⟩
    · exact calls_succ (hnext fuel hfuel) (hcalls fuel (hframe.enough ▸ hfuel))
    · intro r hmem
      rcases List.mem_cons.mp hmem with rfl | hmem
      · exact ⟨i, rfl, a, hget, hp⟩
      · obtain ⟨j, rfl, hj⟩ := hjs r hmem
        exact ⟨j, rfl, hframe.candidate hj⟩

/-! ## A window -/

/-- What is handed out of the weights of the least priority. -/
def used (s : InterfaceBase) : Nat := (s.addresses.map fun a => if a.priority = s.prio then a.count else 0).sum

theorem sum_map_modify (f : Address → Address) (g : Address → Nat) (ha : l[i]? = some a)
    (hg : g (f a) = g a + 1) : ((l.modify i f).map g).sum = (l.map g).sum + 1 := by
  induction l generalizing i with
  | nil => cases ha
  | cons b l ih =>
    cases i with
    | zero =>
      cases ha
      simp [hg]
      omega
    | succ i =>
      have := ih (i := i) ha
      simp only [List.modify_succ_cons, List.map_cons, List.sum_cons, this]
      omega

theorem eq_of_sum_eq {g h : Address → Nat} (hle : ∀ a ∈ l, g a ≤ h a)
    (heq : (l.map g).sum = (l.map h).sum) : ∀ a ∈ l, g a = h a := by
  induction l with
  | nil => simp
  | cons b l ih =>
    have hb := hle b List.mem_cons_self
    have hl : (l.map g).sum ≤ (l.map h).sum :=
      List.sum_le_sum fun a ha => hle a (List.mem_cons_of_mem b ha)
    simp only [List.map_cons, List.sum_cons] at heq
    intro a ha
    rcases List.mem_cons.mp ha with rfl | ha
    · omega
    · exact ih (fun a ha => hle a (List.mem_cons_of_mem b ha)) (by omega) a ha

theorem Ready.used_le (hr : s.Ready) : ∀ a ∈ s.addresses, (if a.priority = s.prio then a.count else 0) ≤ a.share s.prio := by
  intro a ha
  unfold Address.share
  split
  · exact hr.counts a ha
  · exact le_rfl

/-- As long as some of the weight is left, some address has some of it left. -/
theorem Ready.not_full_of_used (hr : s.Ready) (h : s.used < s.total) : ¬ ∀ i < s.addresses.length, s.Full i := by
  intro hall
  have heq : s.used = s.total := by
    rw [hr.total]
    apply le_antisymm (List.sum_le_sum hr.used_le)
    apply List.sum_le_sum
    intro a ha
    obtain ⟨i, hi, hget⟩ := List.mem_iff_getElem.mp ha
    unfold Address.share
    split
    · rename_i hp
      exact hall i hi a (by rw [List.getElem?_eq_getElem hi, hget]) hp
    · exact le_rfl
  exact absurd h (by rw [heq]; exact lt_irrefl _)

/-- Within a round the counters count the calls. -/
theorem Ready.calls_used (hr : s.Ready) (hk : s.used + k ≤ s.total) :
    ∃ js s', (∀ fuel, s.enough ≤ fuel → InterfaceBase.calls fuel k s = some (js, s')) ∧ s'.Ready ∧
      Frame s s' ∧ s'.used = s.used + k ∧
      ∀ i a, s.addresses[i]? = some a → ∃ a', s'.addresses[i]? = some a' ∧ a'.count = a.count + js.count (some i) := by
  induction k generalizing s with
  | zero => exact ⟨[], s, fun _ _ => rfl, hr, Frame.refl s, rfl, fun i a h => ⟨a, h, rfl⟩⟩
  | succ k ih =>
    rcases hr.next with ⟨i, -, hf, heq⟩ | ⟨hall, -⟩
    · obtain ⟨a, hget, hp, hlt⟩ := not_full.mp hf
      have hused : (s.take_at i).used = s.used + 1 := by
        apply sum_map_modify _ _ hget
        show (if a.priority = s.prio then _ else _) = (if a.priority = s.prio then _ else _) + 1
        rw [if_pos hp, if_pos hp]
        rfl
      obtain ⟨js, s', hcalls, hr', hframe, hused', hcount⟩ := ih (hr.take_at hf) (by rw [hused]; show _ ≤ s.total; omega)
      refine ⟨some i :: js, s', fun fuel hfuel => ?_, hr', (Frame.take_at s i).trans hframe, by omega, ?_⟩
      · exact calls_succ (next_mono hfuel heq) (hcalls fuel ((Frame.take_at s i).enough ▸ hfuel))
      · intro j b hb
        have hmod : (s.take_at i).addresses[j]? = some (if i = j then b.set_count (b.count + 1) else b) := by
          simp only [InterfaceBase.take_at, List.getElem?_modify, hb]
          split <;> rfl
        obtain ⟨b', hget', hcount'⟩ := hcount j _ hmod
        refine ⟨b', hget', ?_⟩
        rw [hcount', List.count_cons]
        by_cases hij : i = j
        · simp only [hij, if_true, beq_self_eq_true, Address.set_count_count]
          omega
        · have : ¬ (some i == some j) = true := by simpa using hij
          simp only [if_neg hij, if_neg this, Nat.add_zero]
    · exact absurd hall (hr.not_full_of_used (by omega))

/-- A round of calls from counters at zero: each address of the least priority is returned as often as
its weight. -/
theorem Ready.window (hr : s.Ready) (hzero : ∀ a ∈ s.addresses, a.count = 0) :
    ∃ js s', (∀ fuel, s.enough ≤ fuel → InterfaceBase.calls fuel s.total s = some (js, s')) ∧
      ∀ i a, s.addresses[i]? = some a → a.priority = s.prio → js.count (some i) = a.max := by
  have hused : s.used = 0 := by
    apply List.sum_eq_zero
    intro n hn
    obtain ⟨a, ha, rfl⟩ := List.mem_map.mp hn
    simp [hzero a ha]
  obtain ⟨js, s', hcalls, hr', hframe, hused', hcount⟩ := hr.calls_used (k := s.total) (by omega)
  refine ⟨js, s', hcalls, fun i a hget hp => ?_⟩
  obtain ⟨a', hget', hc⟩ := hcount i a hget
  obtain ⟨b, hb, hsame⟩ := hframe.getElem? hget'
  rw [hget] at hb
  cases hb
  have hmax : (a'.set_count 0).max = (a.set_count 0).max := congrArg Address.max hsame
  have hprio : (a'.set_count 0).priority = (a.set_count 0).priority := congrArg Address.priority hsame
  rw [Address.set_count_max, Address.set_count_max] at hmax
  rw [Address.set_count_priority, Address.set_count_priority] at hprio
  have hfull := eq_of_sum_eq hr'.used_le (by
    rw [← total_share, ← hr'.total, hframe.total]
    show s'.used = _
    omega) a' (List.mem_of_getElem? hget')
  rw [Address.share, if_pos, if_pos] at hfull
  · rw [hc, hzero a (List.mem_of_getElem? hget), hmax] at hfull
    omega
  · exact hprio.trans (hp.trans hframe.prio.symm)
  · exact hprio.trans (hp.trans hframe.prio.symm)

/-! ## The list is set, and expires -/

section Weighed

variable {l : List Address}

theorem max_le_total_share {a : Address} (ha : a ∈ l) : a.max ≤ total_share a.priority l := by
  have h : a.share a.priority ≤ total_share a.priority l :=
    List.single_le_sum (fun _ _ => Nat.zero_le _) _ (List.mem_map_of_mem ha)
  rwa [Address.share, if_pos rfl] at h

theorem weighed_count (a : Address) : (a.weighed l).count = a.count := by
  unfold Address.weighed
  split <;> rfl

/-- A weight of zero is counted to zero, so a weight that becomes one still is not below its count. -/
theorem weighed_counts (hc : ∀ a ∈ l, a.count ≤ a.max) : ∀ a ∈ l, (a.weighed l).count ≤ (a.weighed l).max := by
  intro a ha
  have hle := hc a ha
  rw [weighed_count]
  unfold Address.weighed
  split
  · rename_i h
    have hmax := max_le_total_share ha
    rw [h.2, h.1] at hmax
    rw [Address.set_max_max]
    omega
  · exact hle

/-- Where no weight is zero, the weights stay as they are. -/
theorem map_weighed_of_pos (hpos : ∀ a ∈ l, a.max ≠ 0) : l.map (Address.weighed l) = l := by
  have : ∀ a ∈ l, a.weighed l = a := by
    intro a ha
    refine if_neg fun h => hpos a ha ?_
    have hmax := max_le_total_share ha
    rw [h.2, h.1] at hmax
    exact Nat.le_zero.mp hmax
  rw [List.map_congr_left this, List.map_id']

end Weighed

theorem weigh_eq (s : InterfaceBase) :
    s.weigh = { s with
      addresses := s.addresses.map (Address.weighed s.addresses)
      total := total_share (least s.addresses).prio (s.addresses.map (Address.weighed s.addresses))
      prio := (least s.addresses).prio } := by
  unfold weigh
  rw [find_weights_eq]

theorem weigh_ready (hc : ∀ a ∈ s.addresses, a.count ≤ a.max) (hne : s.addresses ≠ []) : s.weigh.Ready := by
  have hg := least_of s.addresses
  rw [weigh_eq]
  refine ⟨?_, rfl, ?_, ?_⟩
  · intro a ha
    obtain ⟨b, hb, rfl⟩ := List.mem_map.mp ha
    rw [weighed_priority]
    exact hg.le b hb
  · -- an address of the least priority, whose weight is not zero once they are found
    obtain ⟨a, ha, hp⟩ := hg.attained hne
    by_cases hz : total_share (least s.addresses).prio s.addresses = 0
    · have hmem : a.weighed s.addresses ∈ s.addresses.map (Address.weighed s.addresses) := List.mem_map_of_mem ha
      have hle := max_le_total_share hmem
      rw [weighed_priority, hp] at hle
      have hone : (a.weighed s.addresses).max = 1 := by
        rw [Address.weighed, if_pos ⟨hz, hp⟩]
        rfl
      show 0 < total_share _ _
      omega
    · have : ∀ b ∈ s.addresses, b.weighed s.addresses = b := fun b _ => if_neg fun h => hz h.1
      show 0 < total_share _ (s.addresses.map _)
      rw [List.map_congr_left this, List.map_id']
      exact Nat.pos_of_ne_zero hz
  · intro a ha
    obtain ⟨b, hb, rfl⟩ := List.mem_map.mp ha
    exact weighed_counts hc b hb

/-- What is kept of a list has no weight of zero. -/
theorem max_pos_of_keeps (h : keeps t a) : a.max ≠ 0 := by
  simp only [keeps, Bool.not_eq_true', Bool.or_eq_false_iff, beq_eq_false_iff_ne] at h
  exact h.2

/-- `expire_addresses` leaves what it keeps, as it is. -/
theorem expire_addresses_addresses (t : Int) (s : InterfaceBase) :
    (s.expire_addresses t).addresses = s.addresses.filter (keeps t) := by
  have hpos : ∀ a ∈ s.addresses.filter (keeps t), a.max ≠ 0 :=
    fun a ha => max_pos_of_keeps (List.mem_filter.mp ha).2
  have hw : (weigh { s with addresses := s.addresses.filter (keeps t) }).addresses =
      s.addresses.filter (keeps t) := by
    rw [weigh_eq]
    exact map_weighed_of_pos hpos
  unfold expire_addresses
  dsimp only
  split
  · exact hw
  · exact hw

theorem expire_addresses_ready (hc : ∀ a ∈ s.addresses, a.count ≤ a.max)
    (hne : (s.expire_addresses t).addresses ≠ []) : (s.expire_addresses t).Ready := by
  have hkeep := expire_addresses_addresses t s
  have hr : (weigh { s with addresses := s.addresses.filter (keeps t) }).Ready := by
    apply weigh_ready
    · exact fun a ha => hc a (List.mem_of_mem_filter ha)
    · exact hkeep ▸ hne
  unfold expire_addresses at hne ⊢
  dsimp only at hne ⊢
  split
  · exact ⟨hr.le, hr.total, hr.pos, hr.counts⟩
  · exact hr

/-- The callbacks that waited take an address each, and change nothing but the counters. -/
theorem Ready.call (hr : s.Ready) (alive : StreamId → Bool) (ws : List StreamId) :
    ∃ s' cs, InterfaceBase.call alive ws s = some (s', cs) ∧ s'.Ready ∧ Frame s s' := by
  induction ws generalizing s with
  | nil => exact ⟨s, [], rfl, hr, Frame.refl s⟩
  | cons w ws ih =>
    rw [InterfaceBase.call]
    split
    · obtain ⟨i, a, s₁, hnext, -, -, hr₁, hframe⟩ := hr.next_frame
      obtain ⟨s', cs, hcall, hr', hframe'⟩ := ih hr₁
      rw [hnext _ le_rfl]
      simp only [hcall, Option.map_some]
      exact ⟨s', _, rfl, hr', hframe.trans hframe'⟩
    · exact ih hr

/-- What `_resolve_callbacks` leaves beside the addresses. The protocol is forgotten with the last
address where it is to be found out anew, and the connects wait on when there is no address for them. -/
structure Resolved (before : Int) (s s' : InterfaceBase) : Prop where
  uri : s'.uri = s.uri
  protocol : s'.protocol = s.protocol ∨ s.discovered ∧ s'.protocol = []
  forgotten : s'.addresses = [] → s.discovered → s'.protocol = []
  waits : s.addresses.filter (keeps before) = [] → s'.addresses = [] ∧ s'.pending = s.pending
  called : s.addresses.filter (keeps before) ≠ [] → s'.pending = []

theorem discovered_congr (h : s'.uri = s.uri) : s'.discovered = s.discovered := by
  unfold discovered scheme
  rw [h]

theorem expire_addresses_uri (t : Int) (s : InterfaceBase) :
    (s.expire_addresses t).uri = s.uri ∧ (s.expire_addresses t).pending = s.pending := by
  unfold expire_addresses
  rw [weigh_eq]
  dsimp only
  split <;> exact ⟨rfl, rfl⟩

theorem expire_addresses_protocol (t : Int) (s : InterfaceBase) :
    (s.expire_addresses t).protocol =
      if (s.expire_addresses t).addresses = [] ∧ s.discovered then [] else s.protocol := by
  have hd : (weigh { s with addresses := s.addresses.filter (keeps t) }).discovered = s.discovered :=
    discovered_congr (by rw [weigh_eq])
  have hp : (weigh { s with addresses := s.addresses.filter (keeps t) }).protocol = s.protocol := by rw [weigh_eq]
  unfold expire_addresses
  dsimp only
  split
  · rename_i h
    exact (if_pos ⟨h.1, hd ▸ h.2⟩).symm
  · rename_i h
    exact hp.trans (if_neg fun h' => h ⟨h'.1, hd.symm ▸ h'.2⟩).symm

theorem Frame.uri (h : Frame s s') : s'.uri = s.uri ∧ s'.protocol = s.protocol ∧ s'.pending = s.pending := by
  have := InterfaceBase.mk.inj h.rest
  exact ⟨this.1, this.2.1, this.2.2.2.2.1⟩

/-- The addresses once the callbacks are done: those that are kept at both times, as they were but
for their counters. -/
theorem resolve_callbacks_spec (alive : StreamId → Bool) (now later : Int)
    (hc : ∀ a ∈ s.addresses, a.count ≤ a.max) :
    ∃ s' cs, s.resolve_callbacks alive now later = some (s', cs) ∧
      (∀ a ∈ s'.addresses, a.count ≤ a.max) ∧ (s'.addresses ≠ [] → s'.Ready) ∧
      s'.addresses.map (Address.set_count 0) =
        ((s.addresses.filter (keeps (now - HYST_WND))).filter (keeps later)).map (Address.set_count 0) ∧
      Resolved (now - HYST_WND) s s' := by
  have hkeep := expire_addresses_addresses (now - HYST_WND) s
  have huri := expire_addresses_uri (now - HYST_WND) s
  have hprotocol := expire_addresses_protocol (now - HYST_WND) s
  unfold resolve_callbacks
  dsimp only
  by_cases hne : (s.expire_addresses (now - HYST_WND)).addresses = []
  · rw [if_neg (not_not.mpr hne)]
    refine ⟨_, _, rfl, by simp [hne], fun h => absurd hne h, ?_, huri.1, ?_, ?_, fun _ => ⟨hne, huri.2⟩,
      fun h => absurd (hkeep ▸ hne) h⟩
    · rw [← hkeep, hne]
      rfl
    · rw [hprotocol]
      split
      · rename_i h
        exact .inr ⟨h.2, rfl⟩
      · exact .inl rfl
    · intro _ hd
      rw [hprotocol, if_pos ⟨hne, hd⟩]
  · rw [if_pos hne]
    have hr := expire_addresses_ready hc hne
    have hr' : Ready { s.expire_addresses (now - HYST_WND) with pending := [] } := ⟨hr.le, hr.total, hr.pos, hr.counts⟩
    obtain ⟨s₁, cs, hcall, hr₁, hframe⟩ := hr'.call alive (s.expire_addresses (now - HYST_WND)).pending
    have hlast := expire_addresses_addresses later s₁
    have huri' := expire_addresses_uri later s₁
    have hprotocol' := expire_addresses_protocol later s₁
    have hkept : s₁.uri = s.uri ∧ s₁.protocol = s.protocol ∧ s₁.pending = [] := by
      obtain ⟨hu, hp, hw⟩ := hframe.uri
      refine ⟨hu.trans huri.1, hp.trans ?_, hw⟩
      rw [hprotocol, if_neg fun h => hne h.1]
    have hd : s₁.discovered = s.discovered := discovered_congr hkept.1
    rw [hcall]
    refine ⟨_, _, rfl, ?_, fun h => expire_addresses_ready hr₁.counts h, ?_, huri'.1.trans hkept.1, ?_, ?_,
      fun h => absurd (hkeep.trans h) hne, fun _ => huri'.2.trans hkept.2.2⟩
    · intro a ha
      rw [hlast] at ha
      exact hr₁.counts a (List.mem_of_mem_filter ha)
    · have hcomm : ∀ l : List Address, (l.filter (keeps later)).map (Address.set_count 0) =
          (l.map (Address.set_count 0)).filter (keeps later) := by
        intro l
        rw [List.filter_map]
        rfl
      rw [hlast, hcomm, hframe.addresses, ← hcomm, ← hkeep]
    · rw [hprotocol', hkept.2.1, hd]
      split
      · rename_i h
        exact .inr ⟨h.2, rfl⟩
      · exact .inl rfl
    · intro hempty hdisc
      rw [hprotocol', if_pos ⟨hempty, hd.trans hdisc⟩]

/-! ## From the list that is given -/

/-- An address of the list that is given, with its weight, or one when the weights of its priority are
all zero; the counter may differ. -/
def Given (given : List Address) (a : Address) : Prop :=
  ∃ b ∈ given, (a.set_count 0).set_max 0 = (b.set_count 0).set_max 0 ∧
    a.max = if total_share b.priority given = 0 then 1 else b.max

/-- The list was set, or some of its addresses expired. -/
inductive Weighs (given : List Address) (s : InterfaceBase) : Prop
  | addresses {s₀ : InterfaceBase} {alive : StreamId → Bool} {now later : Int} {cs : List Callback} :
      s₀.set_addresses alive now later given = some (s, cs) → Weighs given s
  | expire_addresses {s₀ : InterfaceBase} {t : Int} : s₀.addresses = given → s₀.expire_addresses t = s → Weighs given s

theorem Given.set_count {given : List Address} (h : Given given a)
    (ha : a'.set_count 0 = a.set_count 0) : Given given a' := by
  obtain ⟨b, hb, hsame, hmax⟩ := h
  have hm : (a'.set_count 0).max = (a.set_count 0).max := congrArg Address.max ha
  exact ⟨b, hb, ha ▸ hsame, hm.trans hmax⟩

theorem Weighs.given {given : List Address} (hs : Weighs given s) (hc : ∀ a ∈ given, a.count ≤ a.max) :
    (s.addresses ≠ [] → s.Ready) ∧ ∀ a ∈ s.addresses, Given given a := by
  cases hs with
  | @addresses s₀ alive now later cs h =>
    have hw := weigh_eq { s₀ with addresses := given }
    have hcount : ∀ a ∈ (weigh { s₀ with addresses := given }).addresses, a.count ≤ a.max := by
      rw [hw]
      intro a ha
      obtain ⟨b, hb, rfl⟩ := List.mem_map.mp ha
      exact weighed_counts hc b hb
    obtain ⟨s', cs', heq, -, hr, hmap, -⟩ := resolve_callbacks_spec alive now later hcount
    have hsame := heq.symm.trans h
    cases hsame
    refine ⟨hr, fun a ha => ?_⟩
    have hmem : a.set_count 0 ∈ s.addresses.map (Address.set_count 0) := List.mem_map_of_mem ha
    rw [hmap] at hmem
    obtain ⟨a', ha', hsame⟩ := List.mem_map.mp hmem
    obtain ⟨hmem', hkeep⟩ := List.mem_filter.mp ((List.mem_filter.mp ha').1)
    refine Given.set_count (a := a') ?_ hsame.symm
    rw [hw] at hmem'
    obtain ⟨b, hb, rfl⟩ := List.mem_map.mp hmem'
    have hpos := max_pos_of_keeps hkeep
    refine ⟨b, hb, ?_, ?_⟩
    · unfold Address.weighed
      split <;> rfl
    · have hle : b.max ≤ total_share b.priority given := max_le_total_share hb
      unfold Address.weighed at hpos ⊢
      split at hpos
      · rename_i hz
        rw [if_pos hz, if_pos (hz.2 ▸ hz.1)]
        rfl
      · rename_i hz
        rw [if_neg hz, if_neg]
        omega
  | @expire_addresses s₀ t hg h =>
    subst hg h
    refine ⟨expire_addresses_ready hc, fun a ha => ?_⟩
    rw [expire_addresses_addresses] at ha
    obtain ⟨hmem, hkeep⟩ := List.mem_filter.mp ha
    have hpos := max_pos_of_keeps hkeep
    have hle := max_le_total_share hmem
    exact ⟨a, hmem, rfl, (if_neg (by omega)).symm⟩

/-- The addresses of the numerically smallest priority. -/
theorem Ready.candidate_iff (hr : s.Ready) (ha : a ∈ s.addresses) :
    a.priority = s.prio ↔ ∀ b ∈ s.addresses, a.priority ≤ b.priority := by
  constructor
  · intro hp b hb
    exact hp ▸ hr.le b hb
  · intro hle
    refine le_antisymm ?_ (hr.le a ha)
    by_contra hlt
    have hzero : total_share s.prio s.addresses = 0 :=
      total_share_eq_zero fun b hb hp => hlt (hp ▸ hle b hb)
    exact absurd hr.pos (by rw [hr.total, hzero]; exact lt_irrefl 0)

/-- The weighted round robin: however often `next` is called after the list was set or has expired, it
returns an address of the smallest priority, and in each round from counters at zero each of these as
often as its weight. -/
theorem weighted_round_robin_is_exact (given : List Address) (s : InterfaceBase) (hs : Weighs given s)
    (hcounts : ∀ a ∈ given, a.count ≤ a.max) (hne : s.addresses ≠ []) :
    (∀ a ∈ s.addresses, Given given a) ∧
      ∀ k, ∃ js s', (∀ fuel, s.enough ≤ fuel → calls fuel k s = some (js, s')) ∧ js.length = k ∧ Frame s s' ∧
        (∀ r ∈ js, ∃ i a, r = some i ∧ s.addresses[i]? = some a ∧ ∀ b ∈ s.addresses, a.priority ≤ b.priority) ∧
        ((∀ a ∈ s'.addresses, a.count = 0) →
          ∃ js' s'', (∀ fuel, s.enough ≤ fuel → calls fuel s'.total s' = some (js', s'')) ∧
            ∀ i a, s'.addresses[i]? = some a → (∀ b ∈ s'.addresses, a.priority ≤ b.priority) →
              js'.count (some i) = a.max) := by
  obtain ⟨hready, hgiven⟩ := hs.given hcounts
  have hr := hready hne
  refine ⟨hgiven, fun k => ?_⟩
  obtain ⟨js, s', hcalls, hlen, hr', hframe, hjs⟩ := hr.calls k
  refine ⟨js, s', hcalls, hlen, hframe, fun r hr₁ => ?_, fun hzero => ?_⟩
  · obtain ⟨i, rfl, a, hget, hp⟩ := hjs r hr₁
    exact ⟨i, a, rfl, hget, (hr.candidate_iff (List.mem_of_getElem? hget)).mp hp⟩
  · obtain ⟨js', s'', hcalls', hcount⟩ := hr'.window hzero
    refine ⟨js', s'', fun fuel hfuel => hcalls' fuel (hframe.enough ▸ hfuel), fun i a hget hle => ?_⟩
    exact hcount i a hget ((hr'.candidate_iff (List.mem_of_getElem? hget)).mpr hle)

/-- Two addresses with the weights 2 and 1, and one of a larger priority. -/
def threeAddresses : List Address :=
  [⟨[1], 16, 0, -1, ⟨2, 0, 1⟩, sockaddr_in_fits⟩, ⟨[2], 16, 0, -1, ⟨5, 0, 2⟩, sockaddr_in_fits⟩,
    ⟨[3], 16, 0, -1, ⟨1, 0, 1⟩, sockaddr_in_fits⟩]

theorem three_calls_make_a_round :
    ∃ js s'', (∀ fuel, 6 ≤ fuel → calls fuel 3 ⟨[], [], threeAddresses, [], [], 7, 3, 1⟩ = some (js, s'')) ∧
      js.count (some 0) = 2 ∧ js.count (some 2) = 1 := by
  have hset : set_addresses (fun _ => true) 0 0 threeAddresses ⟨[], [], [], [], [], 7, 0, SIZE_MAX⟩ =
      some (⟨[], [], threeAddresses, [], [], 7, 3, 1⟩, []) := by decide +kernel
  obtain ⟨-, h⟩ := weighted_round_robin_is_exact threeAddresses _ (.addresses hset) (by decide) (List.cons_ne_nil _ _)
  obtain ⟨js, s', hcalls, -, -, -, hwindow⟩ := h 0
  cases hcalls 6 le_rfl
  obtain ⟨js', s'', hcalls', hcount⟩ := hwindow (by decide)
  exact ⟨js', s'', hcalls', hcount 0 _ rfl (by decide), hcount 2 _ rfl (by decide)⟩

end cloudbus.InterfaceBase
