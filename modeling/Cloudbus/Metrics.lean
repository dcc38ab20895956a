-- What a node measures of its streams (metrics.cpp): the mean time between two
-- arrivals and between two completions, as a moving average over three of them.
-- The measurements are a vector in the order of the owners, from which streams that
-- are gone are removed when a new one comes.
import Cloudbus.Lib.Registry
import Cloudbus.Lib.Signed
import Cloudbus.Selection

namespace cloudbus.stream_metrics

open Signed

/-! ## The moving average -/

/-- `duration_type`: milliseconds. -/
abbrev Duration := BitVec 64

def duration_max : Duration := BitVec.intMax 64
def duration_min : Duration := BitVec.intMin 64

def span : Nat := 3

/-- `2*delta/denom` for a `delta` of which the double is past `limit`: what is past it is
`overflow`, and `underflow` in the source where the limit is the least number. `none` is the
overflow of a signed number. -/
def split_ewma (limit delta denom : Duration) : Option Duration := do
  let overflow ← sub delta (← rem limit delta)
  let rem1 ← rem limit denom
  let rem2 ← rem overflow denom
  add (← add (← div limit denom) (← div overflow denom)) (← div (← add rem1 rem2) denom)

def update_ewma (delta : Duration) : Option Duration := do
  let denom : Duration := BitVec.ofNat 64 (span + 1)
  if (← div duration_max 2).toInt < delta.toInt then split_ewma duration_max delta denom
  else if delta.toInt < (← div duration_min 2).toInt then split_ewma duration_min delta denom
  else div (← mul 2 delta) denom

/-! ## The measurements -/

/-- `metric_type`: what `select_stream` reads, and the time of the last completion. -/
structure Measurement (κ : Type) extends selection.Metric κ where
  last_completion : Int
deriving DecidableEq, Repr

/-- What is measured. -/
inductive Kind where
  | arrival
  | completion
deriving DecidableEq, Repr

namespace Measurement

variable {κ : Type}

def last (m : Measurement κ) : Kind → Int
  | .arrival => m.last_arrival
  | .completion => m.last_completion

def mean (m : Measurement κ) : Kind → Duration
  | .arrival => m.interarrival
  | .completion => m.intercompletion

/-- The last event was at `t`, and the mean time is `mean` now. -/
def record (m : Measurement κ) (t : Int) (mean : Duration) : Kind → Measurement κ
  | .arrival => { m with last_arrival := t, interarrival := mean }
  | .completion => { m with last_completion := t, intercompletion := mean }

/-- A measurement that begins at `t`. -/
def init (ptr : κ) (t : Int) : Measurement κ := ⟨⟨ptr, 0, 0, t⟩, t⟩

theorem wp_record (m : Measurement κ) (t : Int) (mean : Duration) (kind : Kind) :
    (m.record t mean kind).wp = m.wp := by
  cases kind <;> rfl

theorem mean_record (m : Measurement κ) (t : Int) (mean : Duration) (kind kind' : Kind) :
    (m.record t mean kind).mean kind' = if kind' = kind then mean else m.mean kind' := by
  cases kind <;> cases kind' <;> rfl

theorem last_record (m : Measurement κ) (t : Int) (mean : Duration) (kind kind' : Kind) :
    (m.record t mean kind).last kind' = if kind' = kind then t else m.last kind' := by
  cases kind <;> cases kind' <;> rfl

theorem mean_init (ptr : κ) (t : Int) (kind : Kind) : (init ptr t).mean kind = 0 := by
  cases kind <;> rfl

theorem last_init (ptr : κ) (t : Int) (kind : Kind) : (init ptr t).last kind = t := by
  cases kind <;> rfl

end Measurement

section

variable {κ : Type} [LinearOrder κ] (expired : κ → Bool)

def find_metric (measurements : List (Measurement κ)) (ptr : κ) : Option (Measurement κ) :=
  if expired ptr then none else Ordered.get (·.wp) ptr measurements

/-- The loop, with `left` elements from `get` to the end. An element that is moved from is
overwritten or erased later, so that it stays as it was here. -/
def remove_and_find_insertion_point (ptr : κ) :
    Nat → List (Measurement κ) → Nat → Nat → List (Measurement κ) × Nat × Nat
  | 0, measurements, put, get => (measurements, put, get)
  | left + 1, measurements, put, get =>
    match measurements[get]? with
    | none => (measurements, put, get)
    | some m =>
      if expired m.wp then remove_and_find_insertion_point ptr left measurements put (get + 1)
      else if ptr < m.wp then (measurements, put, get)
      else remove_and_find_insertion_point ptr left (measurements.set put m) (put + 1) (get + 1)

def insert_at_pos (measurements : List (Measurement κ)) (put get : Nat) (ptr : κ) (t : Int) :
    List (Measurement κ) :=
  if put ≠ get then
    let measurements := measurements.set put (.init ptr t)
    measurements.take (put + 1) ++ measurements.drop get
  else measurements.take put ++ .init ptr t :: measurements.drop put

def insert_metric (measurements : List (Measurement κ)) (ptr : κ) (t : Int) : List (Measurement κ) :=
  match remove_and_find_insertion_point expired ptr measurements.length measurements 0 0 with
  | (measurements, put, get) => insert_at_pos measurements put get ptr t

/-- The time points are counted in nanoseconds, and their difference is a signed number of
64 bits. `duration_cast` gives the milliseconds of it. -/
def interval (t last : Int) : Option Duration := do
  div (← fit 64 (t - last)) 1000000

/-- `add_arrival` and `add_completion`. -/
def measure (kind : Kind) (ptr : κ) (t : Int) (measurements : List (Measurement κ)) :
    Option (Duration × List (Measurement κ)) :=
  if expired ptr then some (-1, measurements)
  else
    match find_metric expired measurements ptr with
    | none => some (0, insert_metric expired measurements ptr t)
    | some m => do
      let delta ← sub (← interval t (m.last kind)) (m.mean kind)
      let mean ← add (m.mean kind) (← update_ewma delta)
      some (mean, Ordered.adjust (·.wp) ptr (fun m => m.record t mean kind) measurements)

def add_arrival (ptr : κ) (t : Int) (measurements : List (Measurement κ)) :
    Option (Duration × List (Measurement κ)) := measure expired .arrival ptr t measurements

def add_completion (ptr : κ) (t : Int) (measurements : List (Measurement κ)) :
    Option (Duration × List (Measurement κ)) := measure expired .completion ptr t measurements

end

/-! ## A life of the measurements -/

/-- A call of `add_arrival` or `add_completion`. -/
structure Call (κ : Type) where
  kind : Kind
  ptr : κ
  t : Int
deriving DecidableEq, Repr

section

variable {κ : Type} [LinearOrder κ]

def Call.apply (expired : κ → Bool) (c : Call κ) (measurements : List (Measurement κ)) :
    Option (Duration × List (Measurement κ)) :=
  match c.kind with
  | .arrival => add_arrival expired c.ptr c.t measurements
  | .completion => add_completion expired c.ptr c.t measurements

def Called (expired : κ → Bool) (c : Call κ) (measurements measurements' : List (Measurement κ)) : Prop :=
  ∃ r, c.apply expired measurements = some (r, measurements')

/-- Streams come and go, and are measured in between. -/
def Life (events : List (Registry.Event κ (Call κ))) (expired : κ → Bool) (measurements : List (Measurement κ)) : Prop :=
  ∃ expired₀, Registry.Run (·.wp) Called expired₀ [] events expired measurements

/-- The times of the calls for a stream. -/
def times (ptr : κ) (events : List (Registry.Event κ (Call κ))) : List Int :=
  events.filterMap fun
    | .call c => if c.ptr = ptr then some c.t else none
    | _ => none

end

/-! ## The average is exact -/

theorem toInt_duration_max : duration_max.toInt = 9223372036854775807 := by decide

theorem toInt_duration_min : duration_min.toInt = -9223372036854775808 := by decide

theorem toInt_range (d : Duration) : -9223372036854775808 ≤ d.toInt ∧ d.toInt < 9223372036854775808 := by
  have hlo := BitVec.le_two_mul_toInt (x := d)
  have hhi := BitVec.two_mul_toInt_lt (x := d)
  omega

variable {x d : Int}

theorem tdiv_four_range (hlo : -9223372036854775808 ≤ x) (hhi : x < 9223372036854775808) :
    (-2305843009213693952 ≤ x.tdiv 4 ∧ x.tdiv 4 < 2305843009213693952) ∧ -4 < x.tmod 4 ∧ x.tmod 4 < 4 := by
  obtain ⟨heq, hpos, hneg⟩ := tdiv_spec x (show 0 < (4 : Int) by decide)
  rcases Int.le_total 0 x with h | h
  · have := hpos h
    omega
  · have := hneg h
    omega

/-- Two numbers of the same sign are divided one after the other, and then their remainders. -/
theorem tdiv_four_add {y : Int} (h : 0 ≤ x ∧ 0 ≤ y ∨ x ≤ 0 ∧ y ≤ 0) :
    x.tdiv 4 + y.tdiv 4 + (x.tmod 4 + y.tmod 4).tdiv 4 = (x + y).tdiv 4 := by
  obtain ⟨hx, hxpos, hxneg⟩ := tdiv_spec x (show 0 < (4 : Int) by decide)
  obtain ⟨hy, hypos, hyneg⟩ := tdiv_spec y (show 0 < (4 : Int) by decide)
  obtain ⟨hr, hrpos, hrneg⟩ := tdiv_spec (x.tmod 4 + y.tmod 4) (show 0 < (4 : Int) by decide)
  obtain ⟨hs, hspos, hsneg⟩ := tdiv_spec (x + y) (show 0 < (4 : Int) by decide)
  rcases h with ⟨h1, h2⟩ | ⟨h1, h2⟩
  · have := hxpos h1
    have := hypos h2
    have := hrpos (by omega)
    have := hspos (by omega)
    omega
  · have := hxneg h1
    have := hyneg h2
    have := hrneg (by omega)
    have := hsneg (by omega)
    omega

theorem split_ewma_gives {limit delta denom : Duration} (hx : limit.toInt = x) (hd : delta.toInt = d)
    (hdenom : denom.toInt = 4) (hd0 : d ≠ 0) (hq : x.tdiv d = 1) (hlo : -9223372036854775808 ≤ 2 * d - x)
    (hhi : 2 * d - x < 9223372036854775808) (hsign : 0 ≤ x ∧ 0 ≤ 2 * d - x ∨ x ≤ 0 ∧ 2 * d - x ≤ 0) :
    Gives (split_ewma limit delta denom) ((2 * d).tdiv 4) := by
  have hrem : x.tmod d = x - d := by
    have h := Int.mul_tdiv_add_tmod x d
    rw [hq, Int.mul_one] at h
    omega
  have hsum := tdiv_four_add hsign
  rw [show x + (2 * d - x) = 2 * d by omega] at hsum
  rw [← hsum]
  have hxrange := hx ▸ toInt_range limit
  have hx4 := tdiv_four_range hxrange.1 hxrange.2
  have hover4 := tdiv_four_range hlo hhi
  have hr4 := tdiv_four_range (x := x.tmod 4 + (2 * d - x).tmod 4) (by omega) (by omega)
  clear hsum hsign
  have h64 : 0 < 64 := by decide
  unfold split_ewma
  refine (gives_rem h64 hx hd hd0 (by rw [hq]; decide) (by rw [hq]; decide)).bind fun r hr => ?_
  rw [hrem] at hr
  refine (gives_sub h64 hd hr (by omega) (by omega)).bind fun overflow hover => ?_
  rw [show d - (x - d) = 2 * d - x by omega] at hover
  refine (gives_rem h64 hx hdenom (by decide) (by omega) (by omega)).bind fun rem1 hrem1 => ?_
  refine (gives_rem h64 hover hdenom (by decide) (by omega) (by omega)).bind fun rem2 hrem2 => ?_
  refine (gives_div h64 hx hdenom (by decide) (by omega) (by omega)).bind fun q1 hq1 => ?_
  refine (gives_div h64 hover hdenom (by decide) (by omega) (by omega)).bind fun q2 hq2 => ?_
  refine (gives_add h64 hq1 hq2 (by omega) (by omega)).bind fun q hq => ?_
  refine (gives_add h64 hrem1 hrem2 (by omega) (by omega)).bind fun rem hrem => ?_
  refine (gives_div h64 hrem hdenom (by decide) (by omega) (by omega)).bind fun q3 hq3 => ?_
  exact gives_add h64 hq hq3 (by omega) (by omega)

theorem tdiv_eq_one_of_pos (h1 : d ≤ x) (h2 : x < 2 * d) : x.tdiv d = 1 := by
  rw [Int.tdiv_eq_ediv_of_nonneg (by omega)]
  exact ((Int.ediv_emod_unique (r := x - d) (by omega)).mpr ⟨by omega, by omega, by omega⟩).1

theorem tdiv_eq_one_of_neg (h1 : x ≤ d) (h2 : 2 * d < x) : x.tdiv d = 1 := by
  have h := tdiv_eq_one_of_pos (x := -x) (d := -d) (by omega) (by omega)
  rwa [Int.neg_tdiv_neg] at h

/-- Twice the difference over four, rounded toward zero, for every difference. -/
theorem update_ewma_gives (delta : Duration) : Gives (update_ewma delta) ((2 * delta.toInt).tdiv 4) := by
  have hd := toInt_range delta
  have h64 : 0 < 64 := by decide
  have htwo : (2 : Duration).toInt = 2 := by decide
  have hdenom : (BitVec.ofNat 64 (span + 1) : Duration).toInt = 4 := by decide
  unfold update_ewma
  refine (gives_div h64 toInt_duration_max htwo (by decide) (by decide) (by decide)).bind fun half hhalf => ?_
  replace hhalf : half.toInt = 4611686018427387903 := hhalf
  by_cases hlarge : half.toInt < delta.toInt
  · rw [if_pos hlarge]
    exact split_ewma_gives toInt_duration_max rfl hdenom (by omega) (tdiv_eq_one_of_pos (by omega) (by omega))
      (by omega) (by omega) (by omega)
  · rw [if_neg hlarge]
    refine (gives_div h64 toInt_duration_min htwo (by decide) (by decide) (by decide)).bind fun half' hhalf' => ?_
    replace hhalf' : half'.toInt = -4611686018427387904 := hhalf'
    by_cases hsmall : delta.toInt < half'.toInt
    · rw [if_pos hsmall]
      exact split_ewma_gives toInt_duration_min rfl hdenom (by omega) (tdiv_eq_one_of_neg (by omega) (by omega))
        (by omega) (by omega) (by omega)
    · rw [if_neg hsmall]
      have h4 := tdiv_four_range (x := 2 * delta.toInt) (by omega) (by omega)
      refine (gives_mul h64 htwo rfl (by omega) (by omega)).bind fun twice htwice => ?_
      exact gives_div h64 htwice hdenom (by decide) (by omega) (by omega)

/-- From the old mean toward the sample, and not past it. -/
theorem average_between (old sample : Int) :
    (old ≤ sample → old ≤ old + (2 * (sample - old)).tdiv 4 ∧ old + (2 * (sample - old)).tdiv 4 ≤ sample) ∧
      (sample ≤ old → sample ≤ old + (2 * (sample - old)).tdiv 4 ∧ old + (2 * (sample - old)).tdiv 4 ≤ old) := by
  obtain ⟨heq, hpos, hneg⟩ := tdiv_spec (2 * (sample - old)) (show 0 < (4 : Int) by decide)
  constructor
  · intro h
    have := hpos (by omega)
    omega
  · intro h
    have := hneg (by omega)
    omega

/-- The mean after a sample. -/
theorem average_gives {old sample delta : Duration} (h : sub sample old = some delta) :
    ∃ step new, update_ewma delta = some step ∧ add old step = some new ∧
      new.toInt = old.toInt + (2 * (sample.toInt - old.toInt)).tdiv 4 := by
  have hdelta : delta.toInt = sample.toInt - old.toInt := fit_eq_some.mp h
  obtain ⟨step, hstep, hval⟩ := update_ewma_gives delta
  rw [hdelta] at hval
  have hold := toInt_range old
  have hsample := toInt_range sample
  have hbetween := average_between old.toInt sample.toInt
  obtain ⟨new, hnew, hval'⟩ : Gives (add old step) (old.toInt + (2 * (sample.toInt - old.toInt)).tdiv 4) :=
    gives_add (by decide) rfl hval (by omega) (by omega)
  exact ⟨step, new, hstep, hnew, hval'⟩

/-! ## The vector -/

section

variable {κ : Type} [LinearOrder κ] {expired : κ → Bool} {ptr : κ}

/-- The vector up to an element that was overwritten. -/
theorem take_succ_set {α : Type} {l : List α} {i : Nat} (x : α) (h : i < l.length) :
    (l.set i x).take (i + 1) = l.take i ++ [x] := by
  rw [List.take_add_one, List.take_set_of_le (Nat.le_refl i), List.getElem?_set_self h]
  rfl

/-- What the loop makes of the vector: what it passed is `stretch`, of which the streams that are
still there are kept, and it ends before a stream after `ptr`. -/
structure Compacted (expired : κ → Bool) (ptr : κ) (v : List (Measurement κ)) (put get : Nat)
    (stretch : List (Measurement κ)) (r : List (Measurement κ) × Nat × Nat) : Prop where
  passed : v.drop get = stretch ++ r.1.drop r.2.2
  kept : r.1.take r.2.1 = v.take put ++ stretch.filter fun m => !expired m.wp
  le : r.2.1 ≤ r.2.2
  length : r.2.2 ≤ r.1.length
  before : ∀ m ∈ stretch, expired m.wp = false → ¬ ptr < m.wp
  after : ∀ m ∈ (r.1.drop r.2.2).head?, ptr < m.wp

theorem remove_and_find_insertion_point_spec (expired : κ → Bool) (ptr : κ) (left : Nat) (v : List (Measurement κ))
    (put get : Nat) (hle : put ≤ get) (hlen : get + left = v.length) : ∃ stretch,
    Compacted expired ptr v put get stretch (remove_and_find_insertion_point expired ptr left v put get) := by
  induction left generalizing v put get with
  | zero =>
    rw [remove_and_find_insertion_point]
    refine ⟨[], rfl, by simp, hle, ?_, by simp, ?_⟩
    · show get ≤ v.length
      omega
    · simp [List.drop_of_length_le (show v.length ≤ get by omega)]
  | succ left ih =>
    have hlt : get < v.length := by omega
    have hdrop : v.drop get = v[get] :: v.drop (get + 1) := List.drop_eq_getElem_cons hlt
    rw [remove_and_find_insertion_point, List.getElem?_eq_getElem hlt]
    dsimp only
    split
    · rename_i hexp
      obtain ⟨stretch, h⟩ := ih v put (get + 1) (by omega) (by omega)
      refine ⟨v[get] :: stretch, ?_, ?_, h.le, h.length, ?_, h.after⟩
      · rw [hdrop, h.passed, List.cons_append]
      · rw [h.kept, List.filter_cons, hexp]
        rfl
      · intro m hm hlive
        rcases List.mem_cons.mp hm with rfl | hm
        · rw [hexp] at hlive
          cases hlive
        · exact h.before m hm hlive
    · rename_i hlive
      split
      · rename_i hptr
        refine ⟨[], rfl, by simp, hle, by simp; omega, by simp, ?_⟩
        dsimp only
        rw [hdrop]
        rintro m ⟨⟩
        exact hptr
      · rename_i hptr
        obtain ⟨stretch, h⟩ := ih (v.set put v[get]) (put + 1) (get + 1) (by omega) (by rw [List.length_set]; omega)
        refine ⟨v[get] :: stretch, ?_, ?_, h.le, h.length, ?_, h.after⟩
        · have hset := h.passed
          rw [List.drop_set_of_lt (by omega)] at hset
          rw [hdrop, hset, List.cons_append]
        · rw [h.kept, take_succ_set _ (by omega), List.filter_cons, Bool.eq_false_iff.mpr hlive, List.append_assoc]
          rfl
        · intro m hm hl
          rcases List.mem_cons.mp hm with rfl | hm
          · exact hptr
          · exact h.before m hm hl

variable {t : Int} {kind : Kind} {r : Duration}

omit [LinearOrder κ] in
theorem insert_at_pos_eq {v : List (Measurement κ)} {put get : Nat} (t : Int) (hle : put ≤ get)
    (hlen : get ≤ v.length) : insert_at_pos v put get ptr t = v.take put ++ .init ptr t :: v.drop get := by
  unfold insert_at_pos
  split
  · rename_i hne
    dsimp only
    rw [List.drop_set_of_lt (by omega), take_succ_set _ (by omega), List.append_assoc]
    rfl
  · rename_i heq
    rw [not_not.mp heq]

/-- The new measurement stands after the streams before it that are still there. -/
theorem insert_metric_eq (expired : κ → Bool) (v : List (Measurement κ)) (ptr : κ) (t : Int) :
    ∃ stretch rest, v = stretch ++ rest ∧
      insert_metric expired v ptr t = (stretch.filter fun m => !expired m.wp) ++ .init ptr t :: rest ∧
      (∀ m ∈ stretch, expired m.wp = false → ¬ ptr < m.wp) ∧ ∀ m ∈ rest.head?, ptr < m.wp := by
  obtain ⟨stretch, h⟩ := remove_and_find_insertion_point_spec expired ptr v.length v 0 0 (by omega) (by omega)
  unfold insert_metric
  generalize remove_and_find_insertion_point expired ptr v.length v 0 0 = r at h
  obtain ⟨v', put, get⟩ := r
  refine ⟨stretch, v'.drop get, h.passed, ?_, h.before, h.after⟩
  dsimp only
  rw [insert_at_pos_eq t h.le h.length]
  have hkept := h.kept
  dsimp only at hkept
  rw [hkept, List.take_zero, List.nil_append]

theorem apply_eq (expired : κ → Bool) (c : Call κ) (v : List (Measurement κ)) :
    c.apply expired v = measure expired c.kind c.ptr c.t v := by
  unfold Call.apply
  cases c.kind <;> rfl

/-- What a call does: nothing for a stream that is gone, a new measurement for one without, and a new mean
for one with a measurement. -/
theorem measure_cases {v v' : List (Measurement κ)} (h : measure expired kind ptr t v = some (r, v')) :
    expired ptr = true ∧ v' = v ∧ r = -1 ∨
      expired ptr = false ∧ Ordered.get (·.wp) ptr v = none ∧ v' = insert_metric expired v ptr t ∧ r = 0 ∨
      expired ptr = false ∧ ∃ m sample delta, Ordered.get (·.wp) ptr v = some m ∧
        interval t (m.last kind) = some sample ∧ sub sample (m.mean kind) = some delta ∧
        r.toInt = (m.mean kind).toInt + (2 * (sample.toInt - (m.mean kind).toInt)).tdiv 4 ∧
        v' = Ordered.adjust (·.wp) ptr (fun m => m.record t r kind) v := by
  unfold measure find_metric at h
  cases hexp : expired ptr with
  | true =>
    rw [hexp, if_pos rfl] at h
    cases h
    exact .inl ⟨rfl, rfl, rfl⟩
  | false =>
    rw [hexp, if_neg (by decide), if_neg (by decide)] at h
    cases hget : Ordered.get (fun m : Measurement κ => m.wp) ptr v with
    | none =>
      rw [hget] at h
      cases h
      exact .inr (.inl ⟨rfl, rfl, rfl, rfl⟩)
    | some m =>
      rw [hget] at h
      obtain ⟨sample, hsample, h⟩ := Option.bind_eq_some_iff.mp h
      obtain ⟨delta, hdelta, h⟩ := Option.bind_eq_some_iff.mp h
      obtain ⟨step', hstep', h⟩ := Option.bind_eq_some_iff.mp h
      obtain ⟨mean, hmean, h⟩ := Option.bind_eq_some_iff.mp h
      obtain ⟨step, new, hstep, hnew, hval⟩ := average_gives hdelta
      obtain rfl : step = step' := Option.some.inj (hstep.symm.trans hstep')
      obtain rfl : new = mean := Option.some.inj (hnew.symm.trans hmean)
      cases h
      exact .inr (.inr ⟨rfl, m, sample, delta, rfl, hsample, hdelta, hval, rfl⟩)
  

theorem insert_metric_visit {v : List (Measurement κ)} (hv : Ordered.Ascending (·.wp) v)
    (hnone : Ordered.get (·.wp) ptr v = none) (t : Int) :
    Registry.Visit (·.wp) expired ptr v (insert_metric expired v ptr t) := by
  obtain ⟨before, after, rfl, heq, hbefore, hafter⟩ := insert_metric_eq expired v ptr t
  rw [heq]
  refine .insert hv rfl (fun m hm hlive => ?_) hafter
  have hne := hv.get_eq_none.mp hnone m (List.mem_append_left after hm)
  exact lt_of_le_of_ne (not_lt.mp (hbefore m hm hlive)) hne

theorem measure_visit {v v' : List (Measurement κ)} (hv : Ordered.Ascending (·.wp) v) (hlive : expired ptr = false)
    (h : measure expired kind ptr t v = some (r, v')) : Registry.Visit (·.wp) expired ptr v v' := by
  rcases measure_cases h with ⟨hexp, -⟩ | ⟨-, hnone, rfl, -⟩ | ⟨-, m, -, -, hget, -, -, -, rfl⟩
  · rw [hlive] at hexp
    cases hexp
  · exact insert_metric_visit hv hnone t
  · exact .adjust hv hget fun m => m.wp_record t r kind

theorem called_lawful : Registry.Lawful (fun m : Measurement κ => m.wp) Call.ptr Called := by
  rintro expired c v v' hv ⟨r, hr⟩
  rw [apply_eq] at hr
  cases hexp : expired c.ptr with
  | true =>
    rw [measure, hexp] at hr
    cases hr
    exact .inl rfl
  | false => exact .inr (measure_visit hv hexp hr)

theorem Life.ordered {events : List (Registry.Event κ (Call κ))} {measurements : List (Measurement κ)}
    (h : Life events expired measurements) : Ordered.Ascending (·.wp) measurements := by
  obtain ⟨expired₀, h⟩ := h
  exact h.ordered called_lawful List.Pairwise.nil

/-- What a measurement was before a call. -/
theorem mem_measure {v v' : List (Measurement κ)} {m' : Measurement κ} (hv : Ordered.Ascending (·.wp) v)
    (h : measure expired kind ptr t v = some (r, v')) (hm' : m' ∈ v') :
    m' ∈ v ∨ m' = .init ptr t ∨ ∃ m ∈ v, m.wp = ptr ∧ m' = m.record t r kind ∧ ∃ sample,
      interval t (m.last kind) = some sample ∧
      r.toInt = (m.mean kind).toInt + (2 * (sample.toInt - (m.mean kind).toInt)).tdiv 4 := by
  rcases measure_cases h with ⟨-, rfl, -⟩ | ⟨-, -, rfl, -⟩ | ⟨-, m, sample, -, hget, hsample, -, hr, rfl⟩
  · exact .inl hm'
  · obtain ⟨before, after, rfl, heq, -, -⟩ := insert_metric_eq expired v ptr t
    rw [heq] at hm'
    rcases List.mem_append.mp hm' with hm' | hm'
    · exact .inl (List.mem_append_left after (List.mem_of_mem_filter hm'))
    · rcases List.mem_cons.mp hm' with rfl | hm'
      · exact .inr (.inl rfl)
      · exact .inl (List.mem_append_right before hm')
  · obtain ⟨hm, hwp⟩ := Ordered.get_key hget
    have hkeep : ∀ a : Measurement κ, (a.record t r kind).wp = a.wp := fun a => a.wp_record t r kind
    have hgets := hv.get_adjust (k := ptr) hkeep m'.wp
    rw [(hv.adjust hkeep).get_eq.mpr ⟨hm', rfl⟩] at hgets
    split at hgets
    · rw [hget] at hgets
      exact .inr (.inr ⟨m, hm, hwp, Option.some.inj hgets, sample, hsample, hr⟩)
    · exact .inl (Ordered.get_key hgets.symm).1

/-! ## Calls are defined -/

/-- A mean is a number of milliseconds between two time points. -/
def Small (d : Duration) : Prop := -9223372036854 ≤ d.toInt ∧ d.toInt ≤ 9223372036854

theorem interval_gives {last : Int} {d : Duration} (h : fit 64 (t - last) = some d) :
    ∃ sample, interval t last = some sample ∧ sample.toInt = (t - last).tdiv 1000000 ∧ Small sample := by
  have hd : d.toInt = t - last := fit_eq_some.mp h
  have hrange := hd ▸ toInt_range d
  obtain ⟨heq, hpos, hneg⟩ := tdiv_spec (t - last) (show 0 < (1000000 : Int) by decide)
  have hsmall : -9223372036854 ≤ (t - last).tdiv 1000000 ∧ (t - last).tdiv 1000000 ≤ 9223372036854 := by
    rcases Int.le_total 0 (t - last) with h | h
    · have := hpos h
      omega
    · have := hneg h
      omega
  obtain ⟨sample, hsample, hval⟩ : Gives (div d 1000000) ((t - last).tdiv 1000000) :=
    gives_div (by decide) hd (show (1000000 : Duration).toInt = 1000000 by decide) (by decide) (by omega) (by omega)
  refine ⟨sample, ?_, hval, by rw [Small, hval]; exact hsmall⟩
  unfold interval
  rw [h]
  exact hsample

theorem interval_eq {last : Int} {sample : Duration} (h : interval t last = some sample) :
    sample.toInt = (t - last).tdiv 1000000 ∧ Small sample := by
  obtain ⟨d, hd, -⟩ := Option.bind_eq_some_iff.mp h
  obtain ⟨sample', hsample', hval⟩ := interval_gives hd
  obtain rfl : sample' = sample := Option.some.inj (hsample'.symm.trans h)
  exact hval

/-- Of two means of this size the difference is no overflow, and neither is the new mean. -/
theorem measure_defined {v : List (Measurement κ)} (hsmall : ∀ m ∈ v, Small (m.mean kind))
    (ht : ∀ m ∈ v, m.wp = ptr → ∃ d, fit 64 (t - m.last kind) = some d) :
    ∃ r v', measure expired kind ptr t v = some (r, v') := by
  unfold measure find_metric
  cases hexp : expired ptr with
  | true => exact ⟨-1, v, by rw [if_pos rfl]⟩
  | false =>
    rw [if_neg (by decide), if_neg (by decide)]
    cases hget : Ordered.get (fun m : Measurement κ => m.wp) ptr v with
    | none => exact ⟨0, _, rfl⟩
    | some m =>
      obtain ⟨hm, hwp⟩ := Ordered.get_key hget
      obtain ⟨d, hd⟩ := ht m hm hwp
      obtain ⟨sample, hsample, -, h1⟩ := interval_gives hd
      have h2 := hsmall m hm
      rw [Small] at h1 h2
      obtain ⟨delta, hdelta, -⟩ : Gives (sub sample (m.mean kind)) (sample.toInt - (m.mean kind).toInt) :=
        gives_sub (by decide) rfl rfl (by omega) (by omega)
      obtain ⟨step, new, hstep, hnew, -⟩ := average_gives hdelta
      refine ⟨new, Ordered.adjust (·.wp) ptr (fun m => m.record t new kind) v, ?_⟩
      dsimp only
      simp only [hsample, hdelta, hstep, hnew, Option.bind_eq_bind, Option.bind_some]

theorem Life.small {events : List (Registry.Event κ (Call κ))} {measurements : List (Measurement κ)}
    (h : Life events expired measurements) (kind : Kind) : ∀ m ∈ measurements, Small (m.mean kind) := by
  obtain ⟨expired₀, h⟩ := h
  induction h with
  | start => intro m hm; cases hm
  | create _ _ _ _ ih => exact ih
  | destroy _ _ ih => exact ih
  | call c hlife hc ih =>
    obtain ⟨r, hr⟩ := hc
    rw [apply_eq] at hr
    intro m' hm'
    rcases mem_measure (Life.ordered ⟨expired₀, hlife⟩) hr hm' with hm | rfl | ⟨m, hm, -, rfl, sample, hsample, hval⟩
    · exact ih m' hm
    · rw [Measurement.mean_init]
      exact ⟨by decide, by decide⟩
    · rw [Measurement.mean_record]
      split
      · rename_i hkind
        subst hkind
        have hold := ih m hm
        have hnew := (interval_eq hsample).2
        have hbetween := average_between (m.mean c.kind).toInt sample.toInt
        rw [Small] at hold hnew ⊢
        omega
      · exact ih m hm

theorem times_append (ptr : κ) (events : List (Registry.Event κ (Call κ))) (e : Registry.Event κ (Call κ)) :
    times ptr (events ++ [e]) = times ptr events ++ times ptr [e] := List.filterMap_append

/-- The times of a measurement are those of calls for its stream, and the means are not negative. -/
theorem Life.forward {events : List (Registry.Event κ (Call κ))} {measurements : List (Measurement κ)}
    (h : Life events expired measurements) (ht : ∀ ptr, (times ptr events).Pairwise (· ≤ ·)) (kind : Kind) :
    ∀ m ∈ measurements, m.last kind ∈ times m.wp events ∧ 0 ≤ (m.mean kind).toInt := by
  obtain ⟨expired₀, h⟩ := h
  induction h with
  | start => intro m hm; cases hm
  | create ptr _ _ _ ih =>
    intro m hm
    have h := ih (fun p => (List.pairwise_append.mp (times_append p _ _ ▸ ht p)).1) m hm
    exact ⟨times_append m.wp _ _ ▸ List.mem_append_left _ h.1, h.2⟩
  | destroy ptr _ ih =>
    intro m hm
    have h := ih (fun p => (List.pairwise_append.mp (times_append p _ _ ▸ ht p)).1) m hm
    exact ⟨times_append m.wp _ _ ▸ List.mem_append_left _ h.1, h.2⟩
  | call c hlife hc ih =>
    obtain ⟨r, hr⟩ := hc
    rw [apply_eq] at hr
    have hbefore := ih fun p => (List.pairwise_append.mp (times_append p _ _ ▸ ht p)).1
    have hself : times c.ptr [.call c] = [c.t] := by simp [times]
    intro m' hm'
    rcases mem_measure (Life.ordered ⟨expired₀, hlife⟩) hr hm' with hm | rfl | ⟨m, hm, hwp, rfl, sample, hsample, hval⟩
    · have h := hbefore m' hm
      exact ⟨times_append m'.wp _ _ ▸ List.mem_append_left _ h.1, h.2⟩
    · rw [Measurement.mean_init, Measurement.last_init, times_append]
      refine ⟨List.mem_append_right _ ?_, by decide⟩
      rw [show (Measurement.init c.ptr c.t).wp = c.ptr from rfl, hself]
      exact List.mem_singleton_self c.t
    · obtain ⟨hmem, hold⟩ := hbefore m hm
      rw [Measurement.mean_record, Measurement.last_record, Measurement.wp_record, hwp, times_append]
      rw [hwp] at hmem
      split
      · rename_i hkind
        subst hkind
        -- the last event was not after this one, so that the sample is not negative
        have hle : m.last c.kind ≤ c.t := by
          have hp := ht c.ptr
          rw [times_append, hself] at hp
          exact (List.pairwise_append.mp hp).2.2 _ hmem c.t (List.mem_singleton_self c.t)
        have hnew := (interval_eq hsample).1
        have hbetween := average_between (m.mean c.kind).toInt sample.toInt
        refine ⟨List.mem_append_right _ (by rw [hself]; exact List.mem_singleton_self c.t), ?_⟩
        have hsample : 0 ≤ sample.toInt := by rw [hnew]; exact Int.tdiv_nonneg (by omega) (by decide)
        omega
      · exact ⟨List.mem_append_left _ hmem, hold⟩

/-! ## The two results -/

/-- For every difference the step of the average is twice the difference over four, rounded toward zero,
without an overflow on the way. For every mean and every sample that differs from it by a number of 64 bits,
the new mean lies between the two. So the means are never negative, where the times of the calls for a stream
do not go back. -/
theorem the_average_moves_toward_the_sample :
    (∀ delta : Duration, ∃ step, update_ewma delta = some step ∧
      step.toInt = (2 * delta.toInt).tdiv ((span : Int) + 1)) ∧
    (∀ old sample delta : Duration, sub sample old = some delta →
      ∃ step new, update_ewma delta = some step ∧ add old step = some new ∧
        (old.toInt ≤ new.toInt ∧ new.toInt ≤ sample.toInt ∨ sample.toInt ≤ new.toInt ∧ new.toInt ≤ old.toInt)) ∧
    ∀ (events : List (Registry.Event κ (Call κ))) (expired : κ → Bool) (measurements : List (Measurement κ)),
      Life events expired measurements → (∀ ptr, (times ptr events).Pairwise (· ≤ ·)) →
      ∀ m ∈ measurements, 0 ≤ m.interarrival.toInt ∧ 0 ≤ m.intercompletion.toInt := by
  refine ⟨update_ewma_gives, ?_, ?_⟩
  · intro old sample delta h
    obtain ⟨step, new, hstep, hnew, hval⟩ := average_gives h
    have hbetween := average_between old.toInt sample.toInt
    exact ⟨step, new, hstep, hnew, by omega⟩
  · intro events expired measurements hlife ht m hm
    exact ⟨(hlife.forward ht .arrival m hm).2, (hlife.forward ht .completion m hm).2⟩

/-- A stream with two arrivals, 100 ms apart. -/
def twoArrivals : List (Registry.Event Nat (Call Nat)) :=
  [.call ⟨.arrival, 1, 0⟩, .call ⟨.arrival, 1, 100000000⟩]

theorem twoArrivals_life : Life twoArrivals (fun _ => false) [⟨⟨1, 50, 0, 100000000⟩, 0⟩] := by
  have first : Called (fun _ => false) ⟨.arrival, 1, 0⟩ [] [⟨⟨1, 0, 0, 0⟩, 0⟩] := ⟨0, by decide +kernel⟩
  have second : Called (fun _ => false) ⟨.arrival, 1, 100000000⟩ [⟨⟨1, 0, 0, 0⟩, 0⟩]
      [⟨⟨1, 50, 0, 100000000⟩, 0⟩] := ⟨50, by decide +kernel⟩
  exact ⟨fun _ => false, .call _ (.call _ .start first) second⟩

theorem the_mean_of_two_arrivals :
    (∃ step, update_ewma 100 = some step ∧ step.toInt = 50) ∧
      (∃ step new, update_ewma 100 = some step ∧ add 0 step = some new ∧ 0 ≤ new.toInt ∧ new.toInt ≤ 100) ∧
      Life twoArrivals (fun _ => false) [⟨⟨1, 50, 0, 100000000⟩, 0⟩] ∧ 0 ≤ (50 : Duration).toInt := by
  obtain ⟨hstep, hmean, hlife⟩ := @the_average_moves_toward_the_sample Nat _
  obtain ⟨step, new, h1, h2, h3⟩ := hmean 0 100 100 (by decide)
  refine ⟨hstep 100, ⟨step, new, h1, h2, ?_⟩, twoArrivals_life, ?_⟩
  · rcases h3 with h3 | h3
    · exact h3
    · exact absurd (le_trans h3.1 h3.2) (by decide)
  · refine (hlife twoArrivals _ _ twoArrivals_life (fun ptr => ?_) _ List.mem_cons_self).1
    by_cases h : 1 = ptr
    · subst h
      decide
    · simp [twoArrivals, times, h]

/-- Stream 1 is gone when stream 2 comes. -/
theorem goneStream_life : Life [.call ⟨.arrival, 1, 0⟩, .destroy 1]
    (Function.update (fun _ => false) 1 true) [⟨⟨1, 0, 0, 0⟩, 0⟩] := by
  have first : Called (fun _ => false) ⟨.arrival, 1, 0⟩ [] [⟨⟨1, 0, 0, 0⟩, 0⟩] := ⟨0, by decide +kernel⟩
  exact ⟨fun _ => false, .destroy 1 (.call _ .start first)⟩

end

end cloudbus.stream_metrics
