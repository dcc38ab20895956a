-- The loop of a node (node/node.cpp). What the poller found is copied to a vector
-- that the handlers work off. After some turns the poller is asked again, and what
-- it finds is merged into what is left.
import Cloudbus.Trigger
import Mathlib.Algebra.Order.Ring.Nat

namespace cloudbus.node

open cloudbus.io

/-! ## The merge -/

/-- How many of the events are ready: what `poll` returns. -/
def ready (polled : List Pollfd) : Nat := (polled.filter fun e => e.revents ≠ 0).length

/-- An event that is ready, put into the vector or joined with its entry there. -/
def merge (e : Pollfd) (events : List Pollfd) : List Pollfd :=
  match Ordered.get Pollfd.fd e.fd events with
  | none => Ordered.place Pollfd.fd e events
  | some _ => Ordered.adjust Pollfd.fd e.fd (fun x => { x with revents := x.revents ||| e.revents }) events

/-- `i--` of a `size_type`. -/
def decrement (i : Nat) : Nat := if i = 0 then 2 ^ 64 - 1 else i - 1

/-- The loop over the events of the poller, with the counter `i`. -/
def repoll : List Pollfd → List Pollfd → Nat → List Pollfd × Nat
  | [], events, i => (events, i)
  | e :: polled, events, i =>
    let events' := if e.revents ≠ 0 ∧ i ≠ 0 then merge e events else events
    let i' := if e.revents ≠ 0 then decrement i else i
    if i' = 0 then (events', i') else repoll polled events' i'

/-! ## The handlers -/

def POLLIN : BitVec 16 := 1
def POLLOUT : BitVec 16 := 4
def POLLERR : BitVec 16 := 8
def POLLNVAL : BitVec 16 := 32
def READABLE : BitVec 32 := 1
def WRITABLE : BitVec 32 := 4

/-- The triggers, and what else the handlers work on. -/
structure Env (σ : Type) where
  triggers : Trigger
  state : σ

/-- What the streams, the resolver and the timers do when they are called: they can call the triggers, and
of the events the streams change `revents` alone. -/
structure Handlers (σ : Type) where
  /-- `_handle` of the interface that has the stream of the event: the calls of the triggers, `revents`
  afterwards, and how much was handled. -/
  dispatch : σ → Pollfd → σ × List Trigger.Op × BitVec 16 × Nat
  handles : σ → List Int
  sockev : σ → Int → BitVec 32
  process_event : σ → Int → σ
  expired : σ → Bool
  erase_handles : σ → List Int → σ
  process_timeouts : σ → σ × List Trigger.Op
  signal_handler : σ → Int → σ × Int
  dispatch_fits : ∀ s e, ∀ op ∈ (dispatch s e).2.1, op.Fits
  timeouts_fit : ∀ s, ∀ op ∈ (process_timeouts s).2, op.Fits

variable {σ : Type}

def Env.call (n : Env σ) (op : Trigger.Op) : Env σ := { n with triggers := (n.triggers.apply op).1 }

def Env.calls (n : Env σ) (ops : List Trigger.Op) : Env σ := ops.foldl Env.call n

/-- `std::remove_if` of a connector's `_handle`: the events that are left, and how much was handled. -/
def connector_handle (H : Handlers σ) : List Pollfd → Env σ → List Pollfd × Nat × Env σ
  | [], n => ([], 0, n)
  | ev :: events, n =>
    if ev.revents ≠ 0 then
      let d := H.dispatch n.state ev
      let r := connector_handle H events ({ n with state := d.1 }.calls d.2.1)
      (if d.2.2.1 = 0 then r.1 else { ev with revents := d.2.2.1 } :: r.1, d.2.2.2 + r.2.1, r.2.2)
    else connector_handle H events n

/-- The calls that bring the mask of a socket of the resolver in line with what c-ares waits for. -/
def adjust_mask (fd : Int) (sockev : BitVec 32) (curr : BitVec 16) : List Trigger.Op :=
  let set := (if sockev &&& READABLE ≠ 0 ∧ curr &&& POLLIN = 0 then POLLIN else 0) |||
    (if sockev &&& WRITABLE ≠ 0 ∧ curr &&& POLLOUT = 0 then POLLOUT else 0)
  let unset := (if sockev &&& READABLE = 0 ∧ curr &&& POLLIN ≠ 0 then POLLIN else 0) |||
    (if sockev &&& WRITABLE = 0 ∧ curr &&& POLLOUT ≠ 0 then POLLOUT else 0)
  (if set ≠ 0 then [.set fd (set.setWidth 32)] else []) ++ if unset ≠ 0 then [.clear fd (unset.setWidth 32)] else []

/-- `std::remove_if` of the resolver's `_handle`, over its sockets: the events that are left, how much was
handled, and the sockets that are removed. -/
def resolver_handle (H : Handlers σ) : List Int → List Pollfd → Env σ → List Pollfd × Nat × List Int × Env σ
  | [], events, n => (events, 0, [], n)
  | fd :: handles, events, n =>
    if H.sockev n.state fd = 0 then
      let r := resolver_handle H handles events (n.call (.clear fd (BitVec.allOnes 32)))
      (r.1, r.2.1, fd :: r.2.2.1, r.2.2.2)
    else
      let found := events.find? fun e => e.fd = fd
      let due := match found with
        | some e => e.revents != 0
        | none => H.expired n.state
      let n' := if due then { n with state := H.process_event n.state fd } else n
      let sockev := H.sockev n'.state fd
      let curr := (found.map Pollfd.events).getD 0
      let r := resolver_handle H handles (events.eraseP fun e => e.fd = fd) (n'.calls (adjust_mask fd sockev curr))
      (r.1, (if due then 1 else 0) + r.2.1, if sockev = 0 then fd :: r.2.2.1 else r.2.2.1, r.2.2.2)

/-- `handle` of the node: the connector, then the resolver, then the timers. -/
def handle (H : Handlers σ) (events : List Pollfd) (n : Env σ) : List Pollfd × Nat × Env σ :=
  let c := connector_handle H events n
  let r := resolver_handle H (H.handles c.2.2.state) c.1 c.2.2
  let t := H.process_timeouts (H.erase_handles r.2.2.2.state r.2.2.1)
  (r.1, c.2.1 + r.2.1, { r.2.2.2 with state := t.1 }.calls t.2)

/-! ## The loop -/

/-- What is there of signals when somebody looks: the one that the process got, and what a read of the
notice pipe gives. -/
structure Signals where
  flag : Int
  read : Option Int

/-- `check_for_signal`: the notice and the events. `none` ends the loop. -/
def check_for_signal (pipe : Int) (sig : Signals) (notice : Int) (events : List Pollfd) :
    Option (Int × List Pollfd) :=
  if notice ≠ 0 then some (notice, events)
  else if pipe = 0 then some (sig.flag, events)
  else
    match events.find? fun e => e.fd = pipe with
    | none => some (notice, events)
    | some e =>
      if e.revents &&& (POLLERR ||| POLLNVAL) ≠ 0 then none
      else if e.revents ≠ 0 then sig.read.map fun notice => (notice, events.eraseP fun e => e.fd = pipe)
      else some (notice, events.eraseP fun e => e.fd = pipe)

def FAIRNESS : Nat := 16

/-- `trigger_type::npos` -/
def npos : Nat := 2 ^ 64 - 1

structure Loop (σ : Type) where
  env : Env σ
  events : List Pollfd
  i : Nat
  notice : Int

/-- Where the loop is: before the wait of the outer loop, or before the test of the inner one, with how
much was handled. -/
inductive Point where
  | waiting
  | handled (n : Nat)

/-- One more turn of `handle`. -/
def Loop.turn (H : Handlers σ) (l : Loop σ) : Loop σ :=
  { l with env := (handle H l.events l.env).2.2, events := (handle H l.events l.env).1 }

/-- How much a turn of `handle` handles. -/
def Loop.handles (H : Handlers σ) (l : Loop σ) : Point := .handled (handle H l.events l.env).2.1

def Loop.wait (happened : Int → BitVec 16) (l : Loop σ) : Loop σ :=
  { l with env := { l.env with triggers := l.env.triggers.wait happened } }

/-- The second look at the poller. -/
def Loop.repoll (happened : Int → BitVec 16) (l : Loop σ) : Loop σ :=
  let polled := (l.wait happened).env.triggers.events
  let r := node.repoll polled l.events (ready polled)
  { l.wait happened with events := r.1, i := r.2 }

/-- `_run`, up to any point. The handlers and the poller can do anything that is theirs. -/
inductive Reach (H : Handlers σ) (pipe : Int) : Point → Loop σ → Prop
  | start {ops : List Trigger.Op} {t : Trigger} (s : σ) :
      Trigger.Reach ops t → Reach H pipe .waiting ⟨⟨t, s⟩, [], 0, 0⟩
  | wait {l : Loop σ} (happened : Int → BitVec 16) (sig : Signals) {notice : Int} {events : List Pollfd} :
      Reach H pipe .waiting l →
      check_for_signal pipe sig l.notice
          (if ready (l.wait happened).env.triggers.events ≠ 0 then (l.wait happened).env.triggers.events else []) =
        some (notice, events) →
      Reach H pipe ({ l.wait happened with events, notice, i := 0 }.handles H)
        ({ l.wait happened with events, notice, i := 0 }.turn H)
  | again {l : Loop σ} {n : Nat} :
      Reach H pipe (.handled n) l → n ≠ 0 → n ≠ npos → l.i + 1 ≠ FAIRNESS →
      Reach H pipe ({ l with i := l.i + 1 }.handles H) ({ l with i := l.i + 1 }.turn H)
  | repoll {l : Loop σ} {n : Nat} (happened : Int → BitVec 16) (sig : Signals) {notice : Int}
      {events : List Pollfd} :
      Reach H pipe (.handled n) l → n ≠ 0 → n ≠ npos → l.i + 1 = FAIRNESS →
      check_for_signal pipe sig l.notice (l.repoll happened).events = some (notice, events) →
      Reach H pipe ({ l.repoll happened with events, notice }.handles H)
        ({ l.repoll happened with events, notice }.turn H)
  | calm {l : Loop σ} : Reach H pipe (.handled 0) l → l.notice = 0 → Reach H pipe .waiting l
  | noticed {l : Loop σ} :
      Reach H pipe (.handled 0) l → l.notice ≠ 0 → (H.signal_handler l.env.state l.notice).2 ≠ 0 →
      Reach H pipe .waiting { l with
        env := { l.env with state := (H.signal_handler l.env.state l.notice).1 }
        notice := (H.signal_handler l.env.state l.notice).2 }
  | absorbed {l : Loop σ} (sig : Signals) {notice : Int} {events : List Pollfd} :
      Reach H pipe (.handled 0) l → l.notice ≠ 0 → (H.signal_handler l.env.state l.notice).2 = 0 →
      l.notice ∉ [15, 1, 2] → check_for_signal pipe sig 0 l.events = some (notice, events) →
      Reach H pipe (.handled 0) { l with
        env := { l.env with state := (H.signal_handler l.env.state l.notice).1 }
        events, notice }

/-! ## What the merge leaves -/

/-- What happened on a descriptor, by a vector. -/
def revents_of (events : List Pollfd) (fd : Int) : BitVec 16 :=
  ((Ordered.get Pollfd.fd fd events).map Pollfd.revents).getD 0

/-- An entry with what was polled for its descriptor. -/
def joined : Option Pollfd → Option Pollfd → Option Pollfd
  | some x, p => some { x with revents := x.revents ||| (p.map Pollfd.revents).getD 0 }
  | none, some e => if e.revents ≠ 0 then some e else none
  | none, none => none

variable {events polled : List Pollfd} {e : Pollfd}

theorem joined_idle (x : Option Pollfd) (he : e.revents = 0) : joined x (some e) = x := by
  cases x with
  | none => simp [joined, he]
  | some x => simp [joined, he]

theorem joined_none (x : Option Pollfd) : joined x none = x := by
  cases x with
  | none => rfl
  | some x => simp [joined]

/-- One turn of the loop, when the counter has the ready events that are left. -/
theorem repoll_cons (e : Pollfd) (polled events : List Pollfd) :
    repoll (e :: polled) events (ready (e :: polled)) =
      repoll polled (if e.revents ≠ 0 then merge e events else events) (ready polled) := by
  -- a loop that has nothing left leaves at once
  have hstop : ∀ events, ready polled = 0 → repoll polled events 0 = (events, 0) := by
    intro events h
    cases polled with
    | nil => rfl
    | cons e' polled =>
      have he' : ¬ e'.revents ≠ 0 := by
        intro hne
        unfold ready at h
        rw [List.filter_cons_of_pos (by simpa using hne)] at h
        cases h
      simp only [repoll, he', false_and, if_false, if_true]
  have hready : ready (e :: polled) = if e.revents ≠ 0 then ready polled + 1 else ready polled := by
    unfold ready
    by_cases he : e.revents ≠ 0
    · rw [if_pos he, List.filter_cons_of_pos (by simpa using he), List.length_cons]
    · rw [if_neg he, List.filter_cons_of_neg (by simpa using he)]
  have hcounter : (if e.revents ≠ 0 then decrement (ready (e :: polled)) else ready (e :: polled)) =
      ready polled := by
    rw [hready]
    by_cases he : e.revents ≠ 0
    · simp only [if_pos he, decrement, Nat.succ_ne_zero, if_false, Nat.add_sub_cancel]
    · simp only [if_neg he]
  have hevents : (if e.revents ≠ 0 ∧ ready (e :: polled) ≠ 0 then merge e events else events) =
      if e.revents ≠ 0 then merge e events else events := by
    rw [hready]
    by_cases he : e.revents ≠ 0
    · rw [if_pos he, if_pos he, if_pos ⟨he, Nat.succ_ne_zero _⟩]
    · rw [if_neg he, if_neg he, if_neg fun h => he h.1]
  rw [repoll]
  simp only [hcounter, hevents]
  split
  · rename_i hzero
    rw [hzero, hstop _ hzero]
  · rfl

theorem ascending_merge (h : Ordered.Ascending Pollfd.fd events) : Ordered.Ascending Pollfd.fd (merge e events) := by
  unfold merge
  split
  · rename_i hnone
    exact h.place hnone
  · exact h.adjust fun _ => rfl

theorem get_merge (h : Ordered.Ascending Pollfd.fd events) (he : e.revents ≠ 0) (fd : Int) :
    Ordered.get Pollfd.fd fd (merge e events) =
      if fd = e.fd then joined (Ordered.get Pollfd.fd fd events) (some e) else Ordered.get Pollfd.fd fd events := by
  unfold merge
  cases hget : Ordered.get Pollfd.fd e.fd events with
  | none =>
    simp only [Ordered.get_place]
    by_cases hfd : fd = e.fd
    · subst hfd
      rw [if_pos rfl, if_pos rfl, hget, joined, if_pos he]
    · rw [if_neg hfd, if_neg (Ne.symm hfd)]
  | some x =>
    refine (h.get_adjust (f := fun x => { x with revents := x.revents ||| e.revents }) (fun _ => rfl) fd).trans ?_
    by_cases hfd : fd = e.fd
    · subst hfd
      rw [if_pos rfl, if_pos rfl, hget]
      rfl
    · rw [if_neg hfd, if_neg hfd]

theorem get_cons_ascending (h : Ordered.Ascending Pollfd.fd (e :: polled)) (fd : Int) :
    Ordered.get Pollfd.fd fd (e :: polled) = if fd = e.fd then some e else Ordered.get Pollfd.fd fd polled := by
  by_cases hfd : fd = e.fd
  · rw [if_pos hfd]
    exact h.get_eq.mpr ⟨List.mem_cons_self, hfd.symm⟩
  · have hrest : Ordered.Ascending Pollfd.fd polled := h.of_cons
    rw [if_neg hfd]
    ext a
    rw [h.get_eq, hrest.get_eq, List.mem_cons]
    constructor
    · rintro ⟨rfl | ha, hk⟩
      · exact absurd hk.symm hfd
      · exact ⟨ha, hk⟩
    · rintro ⟨ha, hk⟩
      exact ⟨.inr ha, hk⟩

/-- The later events have other descriptors. -/
theorem get_later (h : Ordered.Ascending Pollfd.fd (e :: polled)) : Ordered.get Pollfd.fd e.fd polled = none := by
  have hrest : Ordered.Ascending Pollfd.fd polled := h.of_cons
  refine hrest.get_eq_none.mpr fun a ha => ?_
  exact (List.rel_of_pairwise_cons h ha).ne'

/-- The whole merge: the vector stays ordered, each entry is joined with what was polled, and the counter is
at zero. -/
theorem repoll_spec (hp : Ordered.Ascending Pollfd.fd polled) (hw : Ordered.Ascending Pollfd.fd events) :
    (repoll polled events (ready polled)).2 = 0 ∧
      Ordered.Ascending Pollfd.fd (repoll polled events (ready polled)).1 ∧
      ∀ fd, Ordered.get Pollfd.fd fd (repoll polled events (ready polled)).1 =
        joined (Ordered.get Pollfd.fd fd events) (Ordered.get Pollfd.fd fd polled) := by
  induction polled generalizing events with
  | nil => exact ⟨rfl, hw, fun fd => (joined_none _).symm⟩
  | cons e polled ih =>
    rw [repoll_cons]
    have hturn : Ordered.Ascending Pollfd.fd (if e.revents ≠ 0 then merge e events else events) := by
      split
      · exact ascending_merge hw
      · exact hw
    obtain ⟨hi, hasc, hget⟩ := ih hp.of_cons hturn
    refine ⟨hi, hasc, fun fd => ?_⟩
    rw [hget, get_cons_ascending hp]
    by_cases hfd : fd = e.fd
    · subst hfd
      rw [if_pos rfl, get_later hp, joined_none]
      by_cases he : e.revents ≠ 0
      · rw [if_pos he, get_merge hw he, if_pos rfl]
      · rw [if_neg he, joined_idle _ (not_not.mp he)]
    · rw [if_neg hfd]
      by_cases he : e.revents ≠ 0
      · rw [if_pos he, get_merge hw he, if_neg hfd]
      · rw [if_neg he]

/-- What a merge leaves of a vector and of what was polled. -/
structure Merged (polled events : List Pollfd) (r : List Pollfd × Nat) : Prop where
  counter : r.2 = 0
  ordered : Ordered.Ascending Pollfd.fd r.1
  revents : ∀ fd, revents_of r.1 fd = revents_of events fd ||| revents_of polled fd
  kept : ∀ x ∈ events, ∃ y ∈ r.1, y.fd = x.fd ∧ y.events = x.events
  added : ∀ e ∈ polled, e.revents ≠ 0 → ∃ y ∈ r.1, y.fd = e.fd
  only : ∀ y ∈ r.1, (∃ x ∈ events, x.fd = y.fd) ∨ y ∈ polled ∧ y.revents ≠ 0

theorem revents_joined (x p : Option Pollfd) :
    ((joined x p).map Pollfd.revents).getD 0 =
      (x.map Pollfd.revents).getD 0 ||| (p.map Pollfd.revents).getD 0 := by
  cases x with
  | some x => rfl
  | none =>
    cases p with
    | none => simp [joined]
    | some e =>
      by_cases he : e.revents = 0
      · rw [joined_idle none he]
        simp [he]
      · rw [joined, if_pos he]
        simp

theorem merged_repoll (hp : Ordered.Ascending Pollfd.fd polled)
    (hw : Ordered.Ascending Pollfd.fd events) : Merged polled events (repoll polled events (ready polled)) := by
  obtain ⟨hi, hasc, hget⟩ := repoll_spec hp hw
  refine ⟨hi, hasc, fun fd => ?_, fun x hx => ?_, fun e he hready => ?_, fun y hy => ?_⟩
  · unfold revents_of
    rw [hget, revents_joined]
  · have hx' := hget x.fd
    rw [hw.get_eq.mpr ⟨hx, rfl⟩] at hx'
    obtain ⟨hmem, hfd⟩ := hasc.get_eq.mp hx'
    exact ⟨_, hmem, hfd, rfl⟩
  · have he' := hget e.fd
    rw [hp.get_eq.mpr ⟨he, rfl⟩] at he'
    have hsome : ∃ y, joined (Ordered.get Pollfd.fd e.fd events) (some e) = some y := by
      cases Ordered.get Pollfd.fd e.fd events with
      | none => exact ⟨e, if_pos hready⟩
      | some x => exact ⟨_, rfl⟩
    obtain ⟨y, hy⟩ := hsome
    obtain ⟨hmem, hfd⟩ := hasc.get_eq.mp (he'.trans hy)
    exact ⟨y, hmem, hfd⟩
  · have hy' := (hget y.fd).symm.trans (hasc.get_eq.mpr ⟨hy, rfl⟩)
    cases hx : Ordered.get Pollfd.fd y.fd events with
    | some x => exact .inl ⟨x, Ordered.get_key hx⟩
    | none =>
      rw [hx] at hy'
      cases he : Ordered.get Pollfd.fd y.fd polled with
      | none =>
        rw [he] at hy'
        cases hy'
      | some e =>
        rw [he, joined] at hy'
        by_cases hready : e.revents ≠ 0
        · rw [if_pos hready, Option.some_inj] at hy'
          rw [← hy']
          exact .inr ⟨(Ordered.get_key he).1, hready⟩
        · rw [if_neg hready] at hy'
          cases hy'

/-! ## What the handlers leave -/

/-- The vector is ordered by descriptor, and so is that of the poller. -/
structure Sorted (l : Loop σ) : Prop where
  events : Ordered.Ascending Pollfd.fd l.events
  mirror : l.env.triggers.Mirror

/-- A vector whose descriptors are among those of an ordered one, in their order. -/
theorem ascending_of_sublist {events' : List Pollfd} (hs : (events'.map Pollfd.fd).Sublist (events.map Pollfd.fd))
    (h : Ordered.Ascending Pollfd.fd events) : Ordered.Ascending Pollfd.fd events' :=
  Ordered.ascending_iff.mpr ((Ordered.ascending_iff.mp h).sublist hs)

theorem Env.mirror_call {n : Env σ} (hm : n.triggers.Mirror) {op : Trigger.Op} (hop : op.Fits) :
    (n.call op).triggers.Mirror :=
  (Trigger.apply_applied hm op).mirror hm hop

theorem Env.mirror_calls {ops : List Trigger.Op} (hops : ∀ op ∈ ops, op.Fits) {n : Env σ}
    (hm : n.triggers.Mirror) : (n.calls ops).triggers.Mirror := by
  induction ops generalizing n with
  | nil => exact hm
  | cons op ops ih =>
    exact ih (fun o ho => hops o (List.mem_cons_of_mem _ ho)) (mirror_call hm (hops op List.mem_cons_self))

theorem connector_handle_keeps (H : Handlers σ) (events : List Pollfd) {n : Env σ} (hm : n.triggers.Mirror) :
    ((connector_handle H events n).1.map Pollfd.fd).Sublist (events.map Pollfd.fd) ∧
      (connector_handle H events n).2.2.triggers.Mirror := by
  induction events generalizing n with
  | nil => exact ⟨List.Sublist.slnil, hm⟩
  | cons ev events ih =>
    rw [connector_handle]
    by_cases hev : ev.revents ≠ 0
    · rw [if_pos hev]
      have hcalls : ({ n with state := (H.dispatch n.state ev).1 }.calls
          (H.dispatch n.state ev).2.1).triggers.Mirror :=
        Env.mirror_calls (H.dispatch_fits _ _) hm
      obtain ⟨hsub, hmirror⟩ := ih hcalls
      refine ⟨?_, hmirror⟩
      -- an entry that is kept has its descriptor
      simp only
      split
      · exact hsub.cons _
      · exact hsub.cons_cons _
    · rw [if_neg hev]
      obtain ⟨hsub, hmirror⟩ := ih hm
      exact ⟨hsub.cons _, hmirror⟩

theorem mask_fits (p q : Prop) [Decidable p] [Decidable q] :
    ((if p then POLLIN else 0) ||| if q then POLLOUT else 0).setWidth 32 < 0x8000#32 := by
  split <;> split <;> decide

theorem adjust_mask_fits (fd : Int) (sockev : BitVec 32) (curr : BitVec 16) :
    ∀ op ∈ adjust_mask fd sockev curr, op.Fits := by
  intro op hop
  unfold adjust_mask at hop
  rcases List.mem_append.mp hop with hset | hclear
  · rw [List.mem_ite_nil_right, List.mem_singleton] at hset
    rw [hset.2]
    exact mask_fits _ _
  · rw [List.mem_ite_nil_right, List.mem_singleton] at hclear
    rw [hclear.2]
    trivial

theorem resolver_handle_keeps (H : Handlers σ) (handles : List Int) (events : List Pollfd) {n : Env σ}
    (hm : n.triggers.Mirror) :
    (resolver_handle H handles events n).1.Sublist events ∧
      (resolver_handle H handles events n).2.2.2.triggers.Mirror := by
  induction handles generalizing events n with
  | nil => exact ⟨List.Sublist.refl _, hm⟩
  | cons fd handles ih =>
    rw [resolver_handle]
    split
    · exact ih events (Env.mirror_call hm trivial)
    · simp only
      refine (ih (events.eraseP _) (Env.mirror_calls (adjust_mask_fits _ _ _) ?_)).imp_left
        fun hsub => hsub.trans List.eraseP_sublist
      rw [apply_ite Env.triggers, ite_self]
      exact hm

/-- A turn of the handlers takes entries away, and changes none of the descriptors. -/
theorem Sorted.turn {l : Loop σ} (hs : Sorted l) (H : Handlers σ) : Sorted (l.turn H) := by
  obtain ⟨hsub, hmirror⟩ := connector_handle_keeps H l.events hs.mirror
  obtain ⟨hsub', hmirror'⟩ := resolver_handle_keeps H
    (H.handles (connector_handle H l.events l.env).2.2.state) (connector_handle H l.events l.env).1 hmirror
  exact ⟨ascending_of_sublist ((hsub'.map _).trans hsub) hs.events,
    Env.mirror_calls (H.timeouts_fit _) hmirror'⟩

theorem check_for_signal_sublist {pipe notice notice' : Int} {sig : Signals} {events' : List Pollfd}
    (h : check_for_signal pipe sig notice events = some (notice', events')) : events'.Sublist events := by
  unfold check_for_signal at h
  split at h
  · cases h
    exact List.Sublist.refl _
  split at h
  · cases h
    exact List.Sublist.refl _
  split at h
  · cases h
    exact List.Sublist.refl _
  split at h
  · cases h
  split at h
  · obtain ⟨_, -, heq⟩ := Option.map_eq_some_iff.mp h
    cases heq
    exact List.eraseP_sublist
  · cases h
    exact List.eraseP_sublist

theorem Sorted.wait {l : Loop σ} (hs : Sorted l) (happened : Int → BitVec 16) : Sorted (l.wait happened) :=
  ⟨hs.events, hs.mirror.wait happened⟩

theorem Sorted.repoll {l : Loop σ} (hs : Sorted l) (happened : Int → BitVec 16) : Sorted (l.repoll happened) :=
  ⟨(repoll_spec (hs.wait happened).mirror.events_ordered hs.events).2.1, hs.mirror.wait happened⟩

/-- The vector is ordered at every point of a run. -/
theorem Reach.sorted {H : Handlers σ} {pipe : Int} {p : Point} {l : Loop σ} (hr : Reach H pipe p l) : Sorted l := by
  induction hr with
  | start s ht => exact ⟨List.Pairwise.nil, ht.mirror⟩
  | wait happened sig _ hcheck ih =>
    refine Sorted.turn ?_ H
    refine ⟨?_, (ih.wait happened).mirror⟩
    refine List.Pairwise.sublist (check_for_signal_sublist hcheck) ?_
    split
    · exact (ih.wait happened).mirror.events_ordered
    · exact List.Pairwise.nil
  | again _ _ _ _ ih =>
    refine Sorted.turn ?_ H
    exact ⟨ih.events, ih.mirror⟩
  | repoll happened sig _ _ _ _ hcheck ih =>
    have hsorted := ih.repoll happened
    refine Sorted.turn ?_ H
    exact ⟨List.Pairwise.sublist (check_for_signal_sublist hcheck) hsorted.events, hsorted.mirror⟩
  | calm _ _ ih => exact ih
  | noticed _ _ _ ih => exact ⟨ih.events, ih.mirror⟩
  | absorbed sig _ _ _ _ hcheck ih =>
    exact ⟨List.Pairwise.sublist (check_for_signal_sublist hcheck) ih.events, ih.mirror⟩

/-- The second look at the poller loses no event: of any ordered vector and any ordered events of the
poller, and so at every point of a run. -/
theorem no_event_is_lost (H : Handlers σ) (pipe : Int) :
    (∀ polled events, Ordered.Ascending Pollfd.fd polled → Ordered.Ascending Pollfd.fd events →
        Merged polled events (repoll polled events (ready polled))) ∧
      ∀ p l, Reach H pipe p l → Ordered.Ascending Pollfd.fd l.events ∧
        ∀ happened, Merged (l.wait happened).env.triggers.events l.events
          ((l.repoll happened).events, (l.repoll happened).i) := by
  refine ⟨fun _ _ hp hw => merged_repoll hp hw, fun p l hr => ?_⟩
  have hs := hr.sorted
  exact ⟨hs.events, fun happened => merged_repoll (hs.wait happened).mirror.events_ordered hs.events⟩

/-- Handlers that take each event and do nothing. -/
def idle : Handlers Unit where
  dispatch _ e := ((), [], e.revents, 1)
  handles _ := []
  sockev _ _ := 0
  process_event _ _ := ()
  expired _ := false
  erase_handles _ _ := ()
  process_timeouts _ := ((), [])
  signal_handler _ sig := ((), sig)
  dispatch_fits _ _ := nofun
  timeouts_fit _ := nofun

/-- A descriptor that waits, with one that becomes ready and one that is ready again. -/
theorem two_looks_are_joined :
    Merged [⟨4, 1, 1⟩, ⟨5, 5, 1⟩] [⟨3, 1, 1⟩, ⟨5, 5, 4⟩] ([⟨3, 1, 1⟩, ⟨4, 1, 1⟩, ⟨5, 5, 5⟩], 0) ∧
      ∃ l, Reach idle 0 (.handled 1) l ∧ l.events = [⟨3, 1, 1⟩] ∧
        Merged (l.wait fun _ => 4).env.triggers.events l.events
          ((l.repoll fun _ => 4).events, (l.repoll fun _ => 4).i) := by
  have hreach := @Reach.wait Unit idle 0 _ (fun _ => 1) ⟨0, none⟩ 0 [⟨3, 1, 1⟩]
    (.start () (.call (.set 3 1) .init (by decide))) rfl
  refine ⟨(no_event_is_lost idle 0).1 _ _ (by simp [Ordered.Ascending]) (by simp [Ordered.Ascending]), _, hreach,
    rfl, ?_⟩
  exact ((no_event_is_lost idle 0).2 _ _ hreach).2 fun _ => 4

end cloudbus.node
