-- Which stream of a backend a new session gets (select_stream of the controller):
-- one without a measurement, a new one while all are loaded, or the one that
-- was used least recently. The measurements are those of all backends of the node.
import Cloudbus.Addresses
import Cloudbus.Controller
import Cloudbus.Lib.Ordered

namespace cloudbus.selection

/-- `metric_type`. The durations are signed 64 bit numbers of milliseconds. -/
structure Metric (κ : Type) where
  wp : κ
  interarrival : BitVec 64
  intercompletion : BitVec 64
  last_arrival : Int
deriving DecidableEq, Repr

/-- `lb->intercompletion > lb->interarrival/ratio`. The ratio is a `size_t`, so that the quotient is
unsigned, and so is the comparison. -/
def Metric.loaded {κ : Type} (m : Metric κ) : Bool := m.interarrival.toNat / 2 < m.intercompletion.toNat

/-- What `select_stream` returns: a stream of the interface, or the one of `sbd.make()`. -/
inductive Choice (σ : Type) where
  | use (s : σ)
  | make
deriving DecidableEq, Repr

def rescale (size : SizeT) : SizeT :=
  if size = 3 then 4
  else
    let half := size / 2
    if half ≤ SIZE_MAX / 3 then max (3 * half) 1 else size

section

variable {σ κ : Type} [LinearOrder κ] (owner : σ → κ) (measurements : List (Metric κ))

/-- The loop over the streams. `min` is the first measurement of the node at first; where the node has
none the loop returns before it is read. -/
def loop : List σ → Nat → Option (Metric κ) → σ → σ ⊕ Nat × σ
  | [], loaded, _, lru => .inr (loaded, lru)
  | s :: streams, loaded, min, lru =>
    match Ordered.get Metric.wp (owner s) measurements with
    | none => .inl s
    | some lb =>
      let loaded := if lb.loaded then loaded + 1 else loaded
      if min.any fun m => lb.last_arrival < m.last_arrival then loop streams loaded (some lb) s
      else loop streams loaded min lru

def select_stream (streams : List σ) (addresses : SizeT) : Choice σ :=
  match streams with
  | [] => .make
  | first :: _ =>
    match loop owner measurements streams 0 measurements.head? first with
    | .inl s => .use s
    | .inr (loaded, lru) =>
      if streams.length ≤ loaded ∧ streams.length < rescale addresses then .make else .use lru

/-! ## What is to be selected -/

/-- The measurement of a stream. -/
def measurement (s : σ) : Option (Metric κ) := measurements.find? fun m => m.wp = owner s

/-- `intercompletion > interarrival/2`, as numbers. -/
def Metric.Loaded {κ : Type} (m : Metric κ) : Prop := m.interarrival.toInt / 2 < m.intercompletion.toInt

/-- `rescale` without a bound on the numbers. -/
def rescaled (size : Nat) : Nat :=
  if size = 3 then 4 else if size / 2 ≤ (2 ^ 64 - 1) / 3 then max (3 * (size / 2)) 1 else size

/-- No stream was used before `s`. -/
def LeastRecent (streams : List σ) (s : σ) : Prop :=
  ∀ m, measurement owner measurements s = some m →
    ∀ r ∈ streams, ∀ m', measurement owner measurements r = some m' → m.last_arrival ≤ m'.last_arrival

/-- What may be selected for an interface with these streams and so many addresses. -/
inductive Selected (streams : List σ) (addresses : Nat) : Choice σ → Prop
  | first : streams = [] → Selected streams addresses .make
  | unmeasured {before after : List σ} {s : σ} : streams = before ++ s :: after →
      (∀ r ∈ before, (measurement owner measurements r).isSome) → measurement owner measurements s = none →
      Selected streams addresses (.use s)
  | more : streams ≠ [] → (∀ s ∈ streams, ∃ m, measurement owner measurements s = some m ∧ m.Loaded) →
      streams.length < rescaled addresses → Selected streams addresses .make
  | least {s : σ} : (∀ r ∈ streams, (measurement owner measurements r).isSome) →
      (streams.length < rescaled addresses → ∃ r ∈ streams, ∃ m, measurement owner measurements r = some m ∧ ¬ m.Loaded) →
      s ∈ streams → LeastRecent owner measurements streams s → Selected streams addresses (.use s)

end

/-! ## The arithmetic -/

/-- `rescale` never overflows. -/
theorem rescale_eq (size : SizeT) : (rescale size).val = rescaled size.val := by
  have hlt := size.isLt
  have hhalf : (size / 2).val = size.val / 2 := rfl
  have hthird : (SIZE_MAX / 3).val = (2 ^ 64 - 1) / 3 := rfl
  unfold rescale rescaled
  by_cases h3 : size = 3
  · rw [if_pos h3, if_pos (by rw [h3]; rfl)]
    rfl
  · have hne : size.val ≠ 3 := fun h => h3 (Fin.ext h)
    rw [if_neg h3, if_neg hne]
    dsimp only
    by_cases h : size.val / 2 ≤ (2 ^ 64 - 1) / 3
    · have hmul : (3 * (size / 2)).val = 3 * (size.val / 2) := by
        rw [Fin.val_mul, hhalf]
        show 3 * (size.val / 2) % 2 ^ 64 = _
        exact Nat.mod_eq_of_lt (by omega)
      rw [if_pos (show size / 2 ≤ SIZE_MAX / 3 by rw [Fin.le_def, hhalf, hthird]; exact h), if_pos h, Fin.coe_max, hmul]
      rfl
    · rw [if_neg (show ¬ size / 2 ≤ SIZE_MAX / 3 by rw [Fin.le_def, hhalf, hthird]; exact h), if_neg h]

theorem toInt_of_nonneg {x : BitVec 64} (h : 0 ≤ x.toInt) : x.toInt = x.toNat := by
  have hlt := x.isLt
  rw [BitVec.toInt_eq_toNat_cond] at h ⊢
  split at h
  · rw [if_pos (by assumption)]
  · omega

/-- Where no duration is negative, the comparison of the code is the one of the numbers. -/
theorem loaded_iff {κ : Type} {m : Metric κ} (h : 0 ≤ m.interarrival.toInt ∧ 0 ≤ m.intercompletion.toInt) :
    m.loaded = true ↔ m.Loaded := by
  unfold Metric.loaded Metric.Loaded
  rw [toInt_of_nonneg h.1, toInt_of_nonneg h.2, decide_eq_true_eq]
  omega

/-! ## The loop -/

section

variable {σ κ : Type} [LinearOrder κ] {owner : σ → κ} {measurements : List (Metric κ)}

theorem get_measurement (hs : measurements.Pairwise fun a b => a.wp ≤ b.wp) (s : σ) :
    Ordered.get Metric.wp (owner s) measurements = measurement owner measurements s :=
  Ordered.get_eq_find hs (owner s)

/-- How many of the streams are loaded. -/
def load (owner : σ → κ) (measurements : List (Metric κ)) (streams : List σ) : Nat :=
  streams.countP fun s => (measurement owner measurements s).any Metric.loaded

theorem LeastRecent.cons {streams : List σ} {r s : σ} {lb : Metric κ} (hr : measurement owner measurements r = some lb)
    (hle : ∀ m, measurement owner measurements s = some m → m.last_arrival ≤ lb.last_arrival)
    (h : LeastRecent owner measurements streams s) : LeastRecent owner measurements (r :: streams) s := by
  intro m hm
  refine List.forall_mem_cons.mpr ⟨fun m' hm' => ?_, h m hm⟩
  rw [hr] at hm'
  cases hm'
  exact hle m hm

/-- The loop, from any stream on and with any minimum so far. It returns the first stream without a
measurement; or it counts the loaded streams, and its stream is the one it came with, when no stream was
used before `min` was, or the one that was used least recently. -/
theorem loop_spec (owner : σ → κ) (hs : measurements.Pairwise fun a b => a.wp ≤ b.wp) (streams : List σ) (loaded : Nat)
    (min : Metric κ) (lru : σ) :
    (∃ before s after, loop owner measurements streams loaded (some min) lru = .inl s ∧
        streams = before ++ s :: after ∧ (∀ r ∈ before, (measurement owner measurements r).isSome) ∧
        measurement owner measurements s = none) ∨
      ∃ s, loop owner measurements streams loaded (some min) lru = .inr (loaded + load owner measurements streams, s) ∧
        (∀ r ∈ streams, (measurement owner measurements r).isSome) ∧
        (s = lru ∧ (∀ r ∈ streams, ∀ m, measurement owner measurements r = some m → min.last_arrival ≤ m.last_arrival) ∨
          s ∈ streams ∧ (∀ m, measurement owner measurements s = some m → m.last_arrival < min.last_arrival) ∧
            LeastRecent owner measurements streams s) := by
  induction streams generalizing loaded min lru with
  | nil => exact .inr ⟨lru, rfl, by simp, .inl ⟨rfl, by simp⟩⟩
  | cons r streams ih =>
    unfold loop
    rw [get_measurement hs]
    cases hr : measurement owner measurements r with
    | none => exact .inl ⟨[], r, streams, rfl, rfl, by simp, hr⟩
    | some lb =>
      have hload : (if lb.loaded then loaded + 1 else loaded) + load owner measurements streams =
          loaded + load owner measurements (r :: streams) := by
        unfold load
        rw [List.countP_cons, hr, Option.any_some]
        split <;> omega
      have hfirst : (measurement owner measurements r).isSome := by rw [hr]; rfl
      dsimp only
      -- the minimum moves to this stream, or stays where it is
      by_cases hlt : lb.last_arrival < min.last_arrival
      · rw [if_pos (by simpa using hlt)]
        rcases ih (if lb.loaded then loaded + 1 else loaded) lb r with
          ⟨before, s, after, heq, rfl, hbefore, hnone⟩ | ⟨s, heq, hall, hmin⟩
        · exact .inl ⟨r :: before, s, after, heq, rfl, List.forall_mem_cons.mpr ⟨hfirst, hbefore⟩, hnone⟩
        · refine .inr ⟨s, hload ▸ heq, List.forall_mem_cons.mpr ⟨hfirst, hall⟩, .inr ?_⟩
          have harr : ∀ m, measurement owner measurements s = some m → m.last_arrival ≤ lb.last_arrival := by
            rcases hmin with ⟨rfl, -⟩ | ⟨-, hbelow, -⟩
            · intro m hm
              rw [hr] at hm
              cases hm
              exact le_rfl
            · exact fun m hm => (hbelow m hm).le
          refine ⟨?_, fun m hm => (harr m hm).trans_lt hlt, LeastRecent.cons hr harr ?_⟩
          · rcases hmin with ⟨rfl, -⟩ | ⟨hmem, -⟩
            · exact List.mem_cons_self
            · exact List.mem_cons_of_mem r hmem
          · rcases hmin with ⟨rfl, hmin⟩ | ⟨-, -, hleast⟩
            · intro m hm
              rw [hr] at hm
              cases hm
              exact hmin
            · exact hleast
      · rw [if_neg (by simpa using hlt)]
        rcases ih (if lb.loaded then loaded + 1 else loaded) min lru with
          ⟨before, s, after, heq, rfl, hbefore, hnone⟩ | ⟨s, heq, hall, hmin⟩
        · exact .inl ⟨r :: before, s, after, heq, rfl, List.forall_mem_cons.mpr ⟨hfirst, hbefore⟩, hnone⟩
        · refine .inr ⟨s, hload ▸ heq, List.forall_mem_cons.mpr ⟨hfirst, hall⟩, ?_⟩
          rcases hmin with ⟨rfl, hmin⟩ | ⟨hmem, hbelow, hleast⟩
          · refine .inl ⟨rfl, List.forall_mem_cons.mpr ⟨fun m hm => ?_, hmin⟩⟩
            rw [hr] at hm
            cases hm
            exact not_lt.mp hlt
          · refine .inr ⟨List.mem_cons_of_mem r hmem, hbelow, LeastRecent.cons hr (fun m hm => ?_) hleast⟩
            exact ((hbelow m hm).trans_le (not_lt.mp hlt)).le

/-! ## The selection -/

/-- A stream was used before the one of the first measurement, or none was before the first stream; and
no duration is negative. -/
structure Comparable (owner : σ → κ) (measurements : List (Metric κ)) (streams : List σ) : Prop where
  signs : ∀ s ∈ streams, ∀ m, measurement owner measurements s = some m →
    0 ≤ m.interarrival.toInt ∧ 0 ≤ m.intercompletion.toInt
  minimum : (∃ s ∈ streams, ∃ m, measurement owner measurements s = some m ∧
      ∀ first ∈ measurements.head?, m.last_arrival < first.last_arrival) ∨
    ∀ s ∈ streams.head?, LeastRecent owner measurements streams s

/-- All streams are loaded, as the code counts them. -/
theorem load_eq_length {streams : List σ} (hall : ∀ r ∈ streams, (measurement owner measurements r).isSome)
    (hsigns : ∀ s ∈ streams, ∀ m, measurement owner measurements s = some m →
      0 ≤ m.interarrival.toInt ∧ 0 ≤ m.intercompletion.toInt) :
    streams.length ≤ load owner measurements streams ↔
      ∀ s ∈ streams, ∃ m, measurement owner measurements s = some m ∧ m.Loaded := by
  have hlen : load owner measurements streams = streams.length ↔
      ∀ s ∈ streams, (measurement owner measurements s).any Metric.loaded := List.countP_eq_length
  have hle : load owner measurements streams ≤ streams.length := List.countP_le_length
  rw [show streams.length ≤ load owner measurements streams ↔ load owner measurements streams = streams.length by omega,
    hlen]
  refine forall₂_congr fun s hs => ?_
  obtain ⟨m, hm⟩ := Option.isSome_iff_exists.mp (hall s hs)
  rw [hm, Option.any_some, loaded_iff (hsigns s hs m hm)]
  simp

/-- The ways that a selection can go. The last one keeps the first stream when no stream was used before
the one of the first measurement, whosever that is. -/
theorem select_stream_cases (owner : σ → κ) (hs : measurements.Pairwise fun a b => a.wp ≤ b.wp) (streams : List σ)
    (addresses : SizeT) :
    (streams = [] ∧ select_stream owner measurements streams addresses = .make) ∨
      (∃ before s after, select_stream owner measurements streams addresses = .use s ∧
        streams = before ++ s :: after ∧ (∀ r ∈ before, (measurement owner measurements r).isSome) ∧
        measurement owner measurements s = none) ∨
      (streams ≠ [] ∧ select_stream owner measurements streams addresses = .make ∧
        (∀ r ∈ streams, (measurement owner measurements r).isSome) ∧
        streams.length ≤ load owner measurements streams ∧ streams.length < rescaled addresses) ∨
      ∃ s ∈ streams, select_stream owner measurements streams addresses = .use s ∧
        (∀ r ∈ streams, (measurement owner measurements r).isSome) ∧
        ¬ (streams.length ≤ load owner measurements streams ∧ streams.length < rescaled addresses) ∧
        (s ∈ streams.head? ∧ (∃ first ∈ measurements.head?, ∀ r ∈ streams, ∀ m,
            measurement owner measurements r = some m → first.last_arrival ≤ m.last_arrival) ∨
          LeastRecent owner measurements streams s) := by
  rw [← rescale_eq]
  unfold select_stream
  cases streams with
  | nil => exact .inl ⟨rfl, rfl⟩
  | cons first streams =>
    cases measurements with
    | nil => exact .inr (.inl ⟨[], first, streams, rfl, rfl, by simp, rfl⟩)
    | cons min measurements =>
      dsimp only
      rw [List.head?_cons]
      rcases loop_spec owner hs (first :: streams) 0 min first with
        ⟨before, s, after, heq, hsplit, hbefore, hnone⟩ | ⟨s, heq, hall, hmin⟩
      · rw [heq]
        exact .inr (.inl ⟨before, s, after, rfl, hsplit, hbefore, hnone⟩)
      · rw [heq, Nat.zero_add]
        dsimp only
        split
        · rename_i hmore
          exact .inr (.inr (.inl ⟨List.cons_ne_nil _ _, rfl, hall, hmore⟩))
        · rename_i hmore
          rcases hmin with ⟨rfl, hle⟩ | ⟨hmem, -, hleast⟩
          · exact .inr (.inr (.inr ⟨s, List.mem_cons_self, rfl, hall, hmore, .inl ⟨rfl, min, rfl, hle⟩⟩))
          · exact .inr (.inr (.inr ⟨s, hmem, rfl, hall, hmore, .inr hleast⟩))

/-- A node with this backend alone: the first measurement is that of a stream, and then of the first
one that has any, since both vectors are in the order of the owners. -/
theorem comparable_of_own {measurements : List (Metric κ)} {streams : List σ}
    (hs : measurements.Pairwise fun a b => a.wp < b.wp) (ho : streams.Pairwise fun r s => owner r < owner s)
    (hsigns : ∀ m ∈ measurements, 0 ≤ m.interarrival.toInt ∧ 0 ≤ m.intercompletion.toInt)
    (hown : ∀ m ∈ measurements, ∃ s ∈ streams, owner s = m.wp) : Comparable owner measurements streams := by
  refine ⟨fun s _ m hm => hsigns m (List.mem_of_find?_eq_some hm), ?_⟩
  cases measurements with
  | nil => exact .inr fun s _ m hm => by cases hm
  | cons first measurements =>
    by_cases hex : ∃ s ∈ streams, ∃ m, measurement owner (first :: measurements) s = some m ∧
        m.last_arrival < first.last_arrival
    · obtain ⟨s, hs, m, hm, hlt⟩ := hex
      refine .inl ⟨s, hs, m, hm, fun f hf => ?_⟩
      cases hf
      exact hlt
    · refine .inr fun s hhead m hm r hr m' hm' => ?_
      -- `s` is the first stream, so that no measurement comes before its own
      have hm_first : m = first := by
        have hwp : m.wp = owner s := by simpa using List.find?_some hm
        obtain ⟨s₁, hs₁, hown₁⟩ := hown first List.mem_cons_self
        have hle : owner s ≤ owner s₁ := by
          obtain ⟨tail, rfl⟩ := List.head?_eq_some_iff.mp hhead
          rcases List.mem_cons.mp hs₁ with rfl | htail
          · exact le_rfl
          · exact ((List.pairwise_cons.mp ho).1 s₁ htail).le
        rcases List.mem_cons.mp (List.mem_of_find?_eq_some hm) with heq | hmem
        · exact heq
        · have hlt := (List.pairwise_cons.mp hs).1 m hmem
          rw [hwp, ← hown₁] at hlt
          exact absurd hlt (not_lt.mpr hle)
      subst hm_first
      by_contra hlt
      exact hex ⟨r, hr, m', hm', not_le.mp hlt⟩

/-! ## The pick of the controller -/

/-- The choice, with the answer of `connect` for a stream without a socket. -/
def Choice.pick (fd : Option Int) : Choice StreamId → controller.Pick
  | .use s => .use s fd
  | .make => .make fd

theorem select_stream_mem (hs : measurements.Pairwise fun a b => a.wp ≤ b.wp) {streams : List σ} {addresses : SizeT}
    {s : σ} (h : select_stream owner measurements streams addresses = .use s) : s ∈ streams := by
  rcases select_stream_cases owner hs streams addresses with
    ⟨-, heq⟩ | ⟨before, s', after, heq, rfl, -⟩ | ⟨-, heq, -⟩ | ⟨s', hmem, heq, -⟩
  · rw [h] at heq
    cases heq
  · rw [h] at heq
    cases heq
    exact List.mem_append_right before List.mem_cons_self
  · rw [h] at heq
    cases heq
  · rw [h] at heq
    cases heq
    exact hmem

/-- The controller goes on with the stream that was selected, or makes one. -/
theorem select_stream_pick {owner : StreamId → κ} (hs : measurements.Pairwise fun a b => a.wp ≤ b.wp) (st : Connector)
    (b : Nat) {streams : List StreamId} (hst : ∀ s ∈ streams, st.live s ∧ (st.ep s).iface = .south b)
    (addresses : SizeT) (fd : Option Int) :
    controller.select_stream b ((select_stream owner measurements streams addresses).pick fd) st =
      match select_stream owner measurements streams addresses with
      | .use s => (st, s)
      | .make => (st.make (.south b) io.BAD_SOCKET, st.next) := by
  cases h : select_stream owner measurements streams addresses with
  | use s => exact if_pos (hst s (select_stream_mem hs h))
  | make => rfl

end

/-- The measurement of a stream that is not loaded. -/
def idle (owner : Nat) (last_arrival : Int) : Metric Nat := ⟨owner, 10, 1, last_arrival⟩

end cloudbus.selection
