-- The addresses of an interface (interfaces/interfaces.cpp): their weights,
-- their expiry, and the connect callbacks that wait for an address.
import Cloudbus.Connector
import Mathlib.Algebra.Order.BigOperators.Group.List
import Mathlib.Data.List.Induction
import Mathlib.Order.Fin.Basic

namespace cloudbus

abbrev SizeT := Fin (2 ^ 64)

instance SizeT.neZero : NeZero (2 ^ 64) := ⟨by decide⟩

def SIZE_MAX : SizeT := ⟨2 ^ 64 - 1, by decide⟩

/-- `sizeof(struct sockaddr_storage)` -/
def STORAGE : Nat := 128

/-- `static_cast<socklen_t>(-1)`: the length of an address that is none. -/
def NULL_LEN : Nat := 2 ^ 32 - 1

/-- `weight_type` -/
structure Weight where
  max : Nat
  count : Nat
  priority : SizeT
deriving DecidableEq, Repr

/-- `address_type`. The TTL is a time and an interval, and a negative interval never ends. -/
structure Address where
  addr : List UInt8
  len : Nat
  time : Int
  interval : Int
  weight : Weight
  fits : len ≤ STORAGE ∨ len = NULL_LEN
deriving DecidableEq, Repr

/-- A `sockaddr_in` fits. -/
theorem sockaddr_in_le : 16 ≤ STORAGE := by decide

theorem sockaddr_in_fits : 16 ≤ STORAGE ∨ 16 = NULL_LEN := .inl sockaddr_in_le

/-- `NULLADDR` -/
def NULLADDR : Address := ⟨[], 0, 0, 0, ⟨0, 0, 0⟩, .inl (by decide)⟩

namespace Address

def max (a : Address) : Nat := a.weight.max

def count (a : Address) : Nat := a.weight.count

def priority (a : Address) : SizeT := a.weight.priority

def set_max (n : Nat) (a : Address) : Address := { a with weight := { a.weight with max := n } }

def set_count (n : Nat) (a : Address) : Address := { a with weight := { a.weight with count := n } }

/-- `interval.count() > -1 && t > time+interval` -/
def past (t : Int) (a : Address) : Bool := decide (a.interval > -1 ∧ t > a.time + a.interval)

@[simp] theorem set_max_max (n : Nat) (a : Address) : (a.set_max n).max = n := rfl
@[simp] theorem set_max_count (n : Nat) (a : Address) : (a.set_max n).count = a.count := rfl
@[simp] theorem set_max_priority (n : Nat) (a : Address) : (a.set_max n).priority = a.priority := rfl
@[simp] theorem set_max_past (n : Nat) (t : Int) (a : Address) : (a.set_max n).past t = a.past t := rfl
@[simp] theorem set_count_max (n : Nat) (a : Address) : (a.set_count n).max = a.max := rfl
@[simp] theorem set_count_count (n : Nat) (a : Address) : (a.set_count n).count = n := rfl
@[simp] theorem set_count_priority (n : Nat) (a : Address) : (a.set_count n).priority = a.priority := rfl
@[simp] theorem set_count_past (n : Nat) (t : Int) (a : Address) : (a.set_count n).past t = a.past t := rfl

end Address

/-! ## The weights -/

/-- What the loop of `find_weights` keeps: the sum of the weights of the least priority so far, that
priority, and the places of its addresses. -/
structure Least where
  weight : Nat := 0
  prio : SizeT := SIZE_MAX
  its : List Nat := []

/-- The body of the loop. -/
def Least.visit (g : Least) (x : Address × Nat) : Least :=
  let g := if x.1.priority < g.prio then { weight := 0, prio := x.1.priority, its := [] } else g
  if x.1.priority = g.prio then { g with weight := g.weight + x.1.max, its := g.its ++ [x.2] } else g

def least (l : List Address) : Least := l.zipIdx.foldl Least.visit {}

/-- `find_weights`: the addresses, the sum of the weights and the priority. -/
def find_weights (l : List Address) : List Address × Nat × SizeT :=
  let g := least l
  if g.weight = 0 then (g.its.foldl (fun l i => l.modify i (Address.set_max 1)) l, g.its.length, g.prio)
  else (l, g.weight, g.prio)

/-- What an address adds to the weight of a priority. -/
def Address.share (p : SizeT) (a : Address) : Nat := if a.priority = p then a.max else 0

def total_share (p : SizeT) (l : List Address) : Nat := (l.map (Address.share p)).sum

section FindWeights

variable {l : List Address}

theorem le_SIZE_MAX (p : SizeT) : p ≤ SIZE_MAX := Fin.le_last p

theorem total_share_append (p : SizeT) (l : List Address) (a : Address) :
    total_share p (l ++ [a]) = total_share p l + a.share p := by
  simp [total_share]

theorem total_share_eq_zero {p : SizeT} (h : ∀ a ∈ l, a.priority ≠ p) : total_share p l = 0 := by
  apply List.sum_eq_zero
  intro n hn
  obtain ⟨a, ha, rfl⟩ := List.mem_map.mp hn
  exact if_neg (h a ha)

theorem least_concat (l : List Address) (a : Address) : least (l ++ [a]) = (least l).visit (a, l.length) := by
  unfold least
  rw [List.zipIdx_append, List.foldl_append]
  simp

/-- What the loop knows of the addresses that it has seen. -/
structure Least.Of (g : Least) (l : List Address) : Prop where
  start : l = [] → g.prio = SIZE_MAX
  le : ∀ a ∈ l, g.prio ≤ a.priority
  attained : l ≠ [] → ∃ a ∈ l, a.priority = g.prio
  weight : g.weight = total_share g.prio l
  its : ∀ i, i ∈ g.its ↔ ∃ a, l[i]? = some a ∧ a.priority = g.prio
  length : g.its.length = l.countP fun a => a.priority = g.prio

section Visit

variable {g : Least} {a : Address}

theorem Least.visit_lt (h : a.priority < g.prio) (i : Nat) : g.visit (a, i) = ⟨a.max, a.priority, [i]⟩ := by
  simp [visit, h]

theorem Least.visit_eq (h : a.priority = g.prio) (i : Nat) :
    g.visit (a, i) = ⟨g.weight + a.max, g.prio, g.its ++ [i]⟩ := by
  simp [visit, h]

theorem Least.visit_gt (h : g.prio < a.priority) (i : Nat) : g.visit (a, i) = g := by
  simp [visit, not_lt_of_gt h, ne_of_gt h]

theorem mem_concat_iff {p : SizeT} {i : Nat} :
    (∃ b, (l ++ [a])[i]? = some b ∧ b.priority = p) ↔
      (∃ b, l[i]? = some b ∧ b.priority = p) ∨ i = l.length ∧ a.priority = p := by
  rcases lt_trichotomy i l.length with h | h | h
  · rw [List.getElem?_append_left h]
    simp [ne_of_lt h]
  · simp [h]
  · have hge : l.length + 1 ≤ i := h
    simp [List.getElem?_eq_none (by simpa using hge : (l ++ [a]).length ≤ i),
      List.getElem?_eq_none (le_of_lt h), ne_of_gt h]

theorem Least.Of.visit (hg : g.Of l) (a : Address) : (g.visit (a, l.length)).Of (l ++ [a]) := by
  have hle : ∀ {p : SizeT}, (∀ b ∈ l, p ≤ b.priority) → p ≤ a.priority → ∀ b ∈ l ++ [a], p ≤ b.priority := by
    intro p hl ha b hb
    rcases List.mem_append.mp hb with hb | hb
    · exact hl b hb
    · exact List.mem_singleton.mp hb ▸ ha
  rcases lt_trichotomy a.priority g.prio with h | h | h
  · -- a smaller priority: what was seen before no longer counts
    rw [visit_lt h]
    have hne : ∀ b ∈ l, b.priority ≠ a.priority := fun b hb => ne_of_gt (lt_of_lt_of_le h (hg.le b hb))
    refine ⟨by simp, hle (fun b hb => le_of_lt (lt_of_lt_of_le h (hg.le b hb))) le_rfl, fun _ => ⟨a, by simp, rfl⟩, ?_, ?_, ?_⟩
    · rw [total_share_append, total_share_eq_zero hne, zero_add]
      exact (if_pos rfl).symm
    · intro i
      rw [mem_concat_iff, List.mem_singleton]
      constructor
      · exact fun hi => .inr ⟨hi, rfl⟩
      · rintro (⟨b, hb, hp⟩ | ⟨hi, -⟩)
        · exact absurd hp (hne b (List.mem_of_getElem? hb))
        · exact hi
    · rw [List.countP_append, List.countP_eq_zero.mpr (by simpa using hne)]
      simp
  · rw [visit_eq h]
    refine ⟨by simp, hle hg.le (le_of_eq h.symm), fun _ => ⟨a, by simp, h⟩, ?_, ?_, ?_⟩
    · rw [total_share_append, ← hg.weight]
      simp [Address.share, h]
    · intro i
      rw [mem_concat_iff, List.mem_append, hg.its, List.mem_singleton]
      simp [h]
    · rw [List.length_append, List.countP_append, hg.length]
      simp [h]
  · rw [visit_gt h]
    refine ⟨by simp, hle hg.le (le_of_lt h), fun _ => ?_, ?_, ?_, ?_⟩
    · cases l with
      | nil => exact absurd (hg.start rfl ▸ h) (not_lt_of_ge (le_SIZE_MAX _))
      | cons b l =>
        obtain ⟨c, hc, hp⟩ := hg.attained (List.cons_ne_nil _ _)
        exact ⟨c, List.mem_append_left _ hc, hp⟩
    · rw [total_share_append, ← hg.weight]
      simp [Address.share, ne_of_gt h]
    · intro i
      rw [mem_concat_iff, hg.its]
      simp [ne_of_gt h]
    · rw [List.countP_append, hg.length]
      simp [ne_of_gt h]

end Visit

theorem least_of (l : List Address) : (least l).Of l := by
  induction l using List.reverseRecOn with
  | nil => exact ⟨fun _ => rfl, by simp, fun h => absurd rfl h, rfl, by simp [least], rfl⟩
  | append_singleton l a ih =>
    rw [least_concat]
    exact ih.visit a

/-- The weights after `find_weights`: the ones that are there, or one for each address of the least
priority when those are all zero. -/
def Address.weighed (l : List Address) (a : Address) : Address :=
  if total_share (least l).prio l = 0 ∧ a.priority = (least l).prio then a.set_max 1 else a

theorem weighed_priority (l : List Address) (a : Address) : (a.weighed l).priority = a.priority := by
  unfold Address.weighed
  split <;> rfl

theorem getElem?_foldl_modify (f : Address → Address) (hf : ∀ a, f (f a) = f a) (its : List Nat) (l : List Address)
    (j : Nat) :
    (its.foldl (fun l i => l.modify i f) l)[j]? = if j ∈ its then l[j]?.map f else l[j]? := by
  induction its generalizing l with
  | nil => simp
  | cons i its ih =>
    rw [List.foldl_cons, ih, List.getElem?_modify]
    by_cases hij : i = j
    · subst hij
      cases l[i]? <;> simp [hf]
    · simp [hij, Ne.symm hij]

theorem total_share_ones {p : SizeT} {f : Address → Address}
    (h : ∀ a ∈ l, (f a).share p = if a.priority = p then 1 else 0) :
    total_share p (l.map f) = l.countP fun a => a.priority = p := by
  induction l with
  | nil => rfl
  | cons a l ih =>
    have ht := ih fun b hb => h b (List.mem_cons_of_mem a hb)
    unfold total_share at ht ⊢
    rw [List.map_cons, List.map_cons, List.sum_cons, ht, h a List.mem_cons_self, List.countP_cons]
    simp [add_comm]

theorem find_weights_eq (l : List Address) :
    find_weights l =
      (l.map (Address.weighed l), total_share (least l).prio (l.map (Address.weighed l)), (least l).prio) := by
  have hg := least_of l
  unfold find_weights
  by_cases hw : (least l).weight = 0
  · have hs : total_share (least l).prio l = 0 := by rw [← hg.weight, hw]
    have hmap : (least l).its.foldl (fun l i => l.modify i (Address.set_max 1)) l = l.map (Address.weighed l) := by
      apply List.ext_getElem?
      intro j
      rw [getElem?_foldl_modify (Address.set_max 1) (fun _ => rfl), List.getElem?_map]
      cases hj : l[j]? with
      | none => simp
      | some a =>
        have hmem : j ∈ (least l).its ↔ a.priority = (least l).prio := by
          rw [hg.its, hj]
          simp
        by_cases ha : a.priority = (least l).prio
        · simp [hmem, ha, Address.weighed, hs]
        · simp [hmem, ha, Address.weighed]
    have htotal : (least l).its.length = total_share (least l).prio (l.map (Address.weighed l)) := by
      rw [hg.length, total_share_ones]
      intro a _
      by_cases ha : a.priority = (least l).prio
      · simp [Address.weighed, Address.share, hs, ha]
      · simp [Address.weighed, Address.share, ha]
    simp only [if_pos hw, hmap, htotal]
  · have hid : l.map (Address.weighed l) = l := by
      have hne : total_share (least l).prio l ≠ 0 := by rw [← hg.weight]; exact hw
      have : ∀ a ∈ l, a.weighed l = a := fun a _ => if_neg fun h => hne h.1
      rw [List.map_congr_left this, List.map_id']
    simp only [if_neg hw, hid, ← hg.weight]

end FindWeights

/-! ## The interface -/

/-- `interface_base`, as far as its addresses go. A stream is its number; the callback of a pending
connect is named by its stream. -/
structure InterfaceBase where
  uri : List Char
  protocol : List Char
  addresses : List Address
  streams : List StreamId
  pending : List StreamId
  idx : Nat
  total : Nat
  prio : SizeT
deriving DecidableEq, Repr

/-- What a connect callback is called with; `addr` is `nullptr` for an address that is none. -/
structure Callback where
  stream : StreamId
  addr : Option Address
  protocol : List Char
deriving DecidableEq, Repr

namespace InterfaceBase

def scheme (s : InterfaceBase) : List Char := (s.uri.takeWhile (· != ':')).map Char.toLower

/-- The schemes whose protocol is found out anew when the last address is gone. -/
def discovered (s : InterfaceBase) : Bool :=
  s.scheme = "srv".toList || s.scheme = "naptr".toList || s.scheme = "urn".toList

/-- `auto[weight, prio] = find_weights(_addresses)` -/
def weigh (s : InterfaceBase) : InterfaceBase :=
  let r := find_weights s.addresses
  { s with addresses := r.1, total := r.2.1, prio := r.2.2 }

/-- What `expire_addresses` keeps. -/
def keeps (t : Int) (a : Address) : Bool := !(a.past t || a.max == 0)

/-- `expire_addresses(t)`. It returns the number of addresses that are left. -/
def expire_addresses (t : Int) (s : InterfaceBase) : InterfaceBase :=
  let s := weigh { s with addresses := s.addresses.filter (keeps t) }
  if s.addresses = [] ∧ s.discovered then { s with protocol := [] } else s

/-- The loop of `next`: the place of the address that is returned, or none when the loop ends. -/
def scan : Nat → Nat → InterfaceBase → Option (Option Nat × InterfaceBase)
  | 0, _, _ => none
  | fuel + 1, sum, s =>
    if sum < s.total then
      let s := { s with idx := (s.idx + 1) % s.addresses.length }
      match s.addresses[s.idx]? with
      | none => none
      | some a =>
        if a.priority = s.prio then
          if a.count < a.max then
            some (some s.idx, { s with addresses := s.addresses.modify s.idx fun a => a.set_count (a.count + 1) })
          else scan fuel (sum + a.count) s
        else scan fuel sum s
    else some (none, s)

def clear_counters (s : InterfaceBase) : InterfaceBase :=
  { s with addresses := s.addresses.map (Address.set_count 0) }

/-- `next()`: the place of the address that is returned; `NULLADDR` has none. -/
def next : Nat → InterfaceBase → Option (Option Nat × InterfaceBase)
  | 0, _ => none
  | fuel + 1, s =>
    if s.addresses = [] then some (none, s)
    else
      match scan (fuel + 1) 0 s with
      | none => none
      | some (some i, s) => some (some i, s)
      | some (none, s) => next fuel (clear_counters s)

/-- Turns of the two loops of `next` that are always enough (`next_eq`). -/
def enough (s : InterfaceBase) : Nat := s.addresses.length + 3

/-- The loop of `_resolve_callbacks` over the connects that waited. A callback is made for a stream
that is alive and still one of the interface. -/
def call (alive : StreamId → Bool) : List StreamId → InterfaceBase → Option (InterfaceBase × List Callback)
  | [], s => some (s, [])
  | w :: ws, s =>
    if alive w then
      match s.next s.enough with
      | none => none
      | some (r, s) =>
        let a := (r.bind (s.addresses[·]?)).getD NULLADDR
        let addr := if a.len = NULL_LEN then none else some a
        (call alive ws s).map fun x => (x.1, if w ∈ s.streams then ⟨w, addr, s.protocol⟩ :: x.2 else x.2)
    else call alive ws s

def HYST_WND : Int := 300

/-- `_resolve_callbacks`, with the two times that it reads off the clock. -/
def resolve_callbacks (alive : StreamId → Bool) (now later : Int) (s : InterfaceBase) :
    Option (InterfaceBase × List Callback) :=
  let s := s.expire_addresses (now - HYST_WND)
  if s.addresses ≠ [] then
    (call alive s.pending { s with pending := [] }).map fun x => (x.1.expire_addresses later, x.2)
  else some (s, [])

/-- `addresses(addrs)` -/
def set_addresses (alive : StreamId → Bool) (now later : Int) (addrs : List Address) (s : InterfaceBase) :
    Option (InterfaceBase × List Callback) :=
  resolve_callbacks alive now later (weigh { s with addresses := addrs })

/-- `register_connect` -/
def register_connect (alive : StreamId → Bool) (now later : Int) (w : StreamId) (s : InterfaceBase) :
    Option (InterfaceBase × List Callback) :=
  resolve_callbacks alive now later { s with pending := s.pending ++ [w] }

end InterfaceBase

end cloudbus
