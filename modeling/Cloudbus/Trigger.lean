-- The registry of poll events. A trigger keeps the events that somebody waits for
-- in a vector of its own, and tells the poller, which keeps its `pollfd`s in a
-- second one. Both are ordered by handle and searched with `std::lower_bound`,
-- and together they are a map from handles to masks.
import Cloudbus.Lib.Ordered
import Mathlib.Logic.Function.Basic
import Mathlib.Data.Int.Order.Basic

namespace cloudbus.io

/-! ## The poller -/

/-- `struct pollfd`. -/
structure Pollfd where
  fd : Int
  events : BitVec 16
  revents : BitVec 16 := 0
deriving DecidableEq, Repr

/-- `poll_t::mkevent`. The mask of a trigger has 32 bits, that of an event is a short. -/
def mkevent (handle : Int) (trigger : BitVec 32) : Pollfd := ⟨handle, trigger.setWidth 16, 0⟩

namespace poller

/-- `poller::_add`. `none` stands for `npos`. -/
def add (handle : Int) (events : List Pollfd) (event : Pollfd) : List Pollfd × Option Nat :=
  match Ordered.get Pollfd.fd handle events with
  | none =>
    let events := Ordered.place Pollfd.fd event events
    (events, some events.length)
  | some _ => (events, none)

/-- `poller::_update`. -/
def update (handle : Int) (events : List Pollfd) (event : Pollfd) : List Pollfd × Option Nat :=
  match Ordered.get Pollfd.fd handle events with
  | none => (events, none)
  | some _ =>
    let events := Ordered.adjust Pollfd.fd handle (fun e => { e with events := event.events }) events
    (events, some events.length)

/-- `poller::_del`. -/
def del (handle : Int) (events : List Pollfd) : List Pollfd × Option Nat :=
  match Ordered.get Pollfd.fd handle events with
  | none => (events, none)
  | some _ =>
    let events := Ordered.erase Pollfd.fd handle events
    (events, some events.length)

end poller

/-! ## The trigger -/

/-- `interest_type`. -/
structure Interest where
  handle : Int
  trigger : BitVec 32
deriving DecidableEq, Repr

/-- `basic_trigger`, with the events of its poller. -/
structure Trigger where
  list : List Interest := []
  events : List Pollfd := []
deriving DecidableEq, Repr

namespace Trigger

/-- `basic_trigger::set`. -/
def set (handle : Int) (trigger : BitVec 32) (t : Trigger) : Trigger × Option Nat :=
  match Ordered.get Interest.handle handle t.list with
  | none =>
    let r := poller.add handle t.events (mkevent handle trigger)
    (⟨Ordered.place Interest.handle ⟨handle, trigger⟩ t.list, r.1⟩, r.2)
  | some i =>
    if i.trigger &&& trigger ≠ trigger then
      let trig := i.trigger ||| trigger
      let r := poller.update handle t.events (mkevent handle trig)
      (⟨Ordered.adjust Interest.handle handle (fun i => { i with trigger := trig }) t.list, r.1⟩, r.2)
    else (t, some t.list.length)

/-- `basic_trigger::clear`. -/
def clear (handle : Int) (trigger : BitVec 32) (t : Trigger) : Trigger × Option Nat :=
  match Ordered.get Interest.handle handle t.list with
  | none => (t, none)
  | some i =>
    let trig := i.trigger &&& ~~~trigger
    if trig = 0 then
      let r := poller.del handle t.events
      (⟨Ordered.erase Interest.handle handle t.list, r.1⟩, r.2)
    else if trig ≠ i.trigger then
      let r := poller.update handle t.events (mkevent handle trig)
      (⟨Ordered.adjust Interest.handle handle (fun i => { i with trigger := trig }) t.list, r.1⟩, r.2)
    else (t, some t.list.length)

/-- `basic_trigger::wait`: the kernel says what happened on each handle. -/
def wait (happened : Int → BitVec 16) (t : Trigger) : Trigger :=
  { t with events := t.events.map fun e => { e with revents := happened e.fd } }

/-- A call of the registry. -/
inductive Op where
  | set (handle : Int) (trigger : BitVec 32)
  | clear (handle : Int) (trigger : BitVec 32)

def Op.handle : Op → Int
  | .set h _ => h
  | .clear h _ => h

def apply (op : Op) (t : Trigger) : Trigger × Option Nat :=
  match op with
  | .set h m => t.set h m
  | .clear h m => t.clear h m

/-- What is set fits into the 15 bits of a short that is not negative. -/
def Op.Fits : Op → Prop
  | .set _ m => m < 0x8000#32
  | .clear _ _ => True

instance (op : Op) : Decidable op.Fits :=
  match op with
  | .set _ m => inferInstanceAs (Decidable (m < 0x8000#32))
  | .clear _ _ => isTrue trivial

/-- The registry after any number of calls, with a look at the poller after any of them. -/
inductive Reach : List Op → Trigger → Prop
  | init : Reach [] {}
  | call {ops : List Op} {t : Trigger} (op : Op) : Reach ops t → op.Fits → Reach (ops ++ [op]) (t.apply op).1
  | wait {ops : List Op} {t : Trigger} (happened : Int → BitVec 16) : Reach ops t → Reach ops (t.wait happened)

/-! ## The map that it stands for -/

/-- Masks by handle. -/
abbrev Map := Int → Option (BitVec 32)

/-- Bits are added, or an entry is made. -/
def Map.set (h : Int) (m : BitVec 32) (s : Map) : Map :=
  Function.update s h (some ((s h).getD 0 ||| m))

/-- Bits are removed. An entry without a bit goes. -/
def Map.clear (h : Int) (m : BitVec 32) (s : Map) : Map :=
  match s h with
  | none => s
  | some bits => Function.update s h (if bits &&& ~~~m = 0 then none else some (bits &&& ~~~m))

def Map.apply (s : Map) : Op → Map
  | .set h m => s.set h m
  | .clear h m => s.clear h m

def Map.of (ops : List Op) : Map := ops.foldl Map.apply fun _ => none

/-! ## The two vectors -/

/-- What an entry of the list has in common with an event. -/
def interestView (i : Interest) : Int × BitVec 16 := (i.handle, i.trigger.setWidth 16)
def pollfdView (e : Pollfd) : Int × BitVec 16 := (e.fd, e.events)

theorem fst_interestView (i : Interest) : Prod.fst (interestView i) = i.handle := rfl
theorem fst_pollfdView (e : Pollfd) : Prod.fst (pollfdView e) = e.fd := rfl

/-- The list is ordered, and the poller has the same handles and masks. -/
structure Mirror (t : Trigger) : Prop where
  ordered : Ordered.Ascending Interest.handle t.list
  same : t.events.map pollfdView = t.list.map interestView
  fits : ∀ i ∈ t.list, i.trigger < 0x8000#32

/-- The mask of a handle. -/
def lookup (t : Trigger) (h : Int) : Option (BitVec 32) :=
  (Ordered.get Interest.handle h t.list).map Interest.trigger

theorem lookup_eq_none {t : Trigger} {h : Int} :
    t.lookup h = none ↔ Ordered.get Interest.handle h t.list = none := Option.map_eq_none_iff

variable {t : Trigger}

theorem Mirror.events_ordered (hm : Mirror t) : Ordered.Ascending Pollfd.fd t.events := by
  have hfd : t.events.map Pollfd.fd = t.list.map Interest.handle := by
    have := congrArg (List.map Prod.fst) hm.same
    rwa [List.map_map, List.map_map] at this
  rw [Ordered.ascending_iff, hfd]
  exact Ordered.ascending_iff.mp hm.ordered

/-- A search in one vector finds what a search in the other finds. -/
theorem Mirror.get (hm : Mirror t) (h : Int) : (Ordered.get Pollfd.fd h t.events).map pollfdView =
    (Ordered.get Interest.handle h t.list).map interestView := by
  rw [← Ordered.map_get fst_pollfdView, hm.same, Ordered.map_get fst_interestView]

theorem Mirror.get_none (hm : Mirror t) (h : Int) :
    Ordered.get Pollfd.fd h t.events = none ↔ Ordered.get Interest.handle h t.list = none := by
  rw [← Option.map_eq_none_iff, hm.get, Option.map_eq_none_iff]

theorem Mirror.get_some (hm : Mirror t) {h : Int} {i : Interest} (hi : Ordered.get Interest.handle h t.list = some i) :
    ∃ e, Ordered.get Pollfd.fd h t.events = some e := by
  apply Option.ne_none_iff_exists'.mp
  intro hnone
  rw [(hm.get_none h).mp hnone] at hi
  cases hi

theorem Mirror.add (hm : Mirror t) {h : Int} {m : BitVec 32} (hnone : Ordered.get Interest.handle h t.list = none)
    (hfit : m < 0x8000#32) :
    Mirror ⟨Ordered.place Interest.handle ⟨h, m⟩ t.list, Ordered.place Pollfd.fd (mkevent h m) t.events⟩ where
  ordered := hm.ordered.place hnone
  same := by
    dsimp only
    rw [Ordered.map_place fst_pollfdView, hm.same, Ordered.map_place fst_interestView]
    rfl
  fits i hi := by
    rcases Ordered.mem_place.mp hi with rfl | hi
    · exact hfit
    · exact hm.fits i hi

theorem Mirror.update (hm : Mirror t) {h : Int} {m : BitVec 32} (hfit : m < 0x8000#32) :
    Mirror ⟨Ordered.adjust Interest.handle h (fun i => { i with trigger := m }) t.list,
      Ordered.adjust Pollfd.fd h (fun e => { e with events := (mkevent h m).events }) t.events⟩ where
  ordered := hm.ordered.adjust fun _ => rfl
  same := by
    let f (a : Int × BitVec 16) : Int × BitVec 16 := (a.1, m.setWidth 16)
    have hevent : ∀ e : Pollfd, pollfdView { e with events := (mkevent h m).events } = f (pollfdView e) :=
      fun _ => rfl
    have hinterest : ∀ i : Interest, interestView { i with trigger := m } = f (interestView i) := fun _ => rfl
    dsimp only
    rw [Ordered.map_adjust fst_pollfdView hevent, hm.same, Ordered.map_adjust fst_interestView hinterest]
  fits i hi := by
    rcases Ordered.mem_adjust hi with hi | ⟨j, -, rfl⟩
    · exact hm.fits i hi
    · exact hfit

theorem Mirror.get_list_update (hm : Mirror t) (h j : Int) (m : BitVec 32) :
    Ordered.get Interest.handle j (Ordered.adjust Interest.handle h (fun i => { i with trigger := m }) t.list) =
      if j = h then (Ordered.get Interest.handle h t.list).map fun i => { i with trigger := m }
      else Ordered.get Interest.handle j t.list :=
  hm.ordered.get_adjust (f := fun i => { i with trigger := m }) (fun _ => rfl) j

theorem Mirror.get_events_update (hm : Mirror t) (h j : Int) (m : BitVec 16) :
    Ordered.get Pollfd.fd j (Ordered.adjust Pollfd.fd h (fun e => { e with events := m }) t.events) =
      if j = h then (Ordered.get Pollfd.fd h t.events).map fun e => { e with events := m }
      else Ordered.get Pollfd.fd j t.events :=
  hm.events_ordered.get_adjust (f := fun e => { e with events := m }) (fun _ => rfl) j

theorem Mirror.del (hm : Mirror t) (h : Int) :
    Mirror ⟨Ordered.erase Interest.handle h t.list, Ordered.erase Pollfd.fd h t.events⟩ where
  ordered := hm.ordered.erase
  same := by
    dsimp only
    rw [Ordered.map_erase fst_pollfdView, hm.same, Ordered.map_erase fst_interestView]
  fits i hi := hm.fits i (hm.ordered.mem_erase.mp hi).1

/-! ## One call -/

/-- What `set` and `clear` do, and what the poller answers. -/
inductive Applied (t : Trigger) : Op → Trigger → Option Nat → Prop
  /-- A new entry. -/
  | added (h : Int) (m : BitVec 32) (n : Nat) : Ordered.get Interest.handle h t.list = none →
      Applied t (.set h m)
        ⟨Ordered.place Interest.handle ⟨h, m⟩ t.list, Ordered.place Pollfd.fd (mkevent h m) t.events⟩ (some n)
  /-- The mask of an entry is changed. -/
  | updated (op : Op) (i : Interest) (m : BitVec 32) (n : Nat) :
      Ordered.get Interest.handle op.handle t.list = some i →
      (∀ s : Map, s op.handle = some i.trigger → s.apply op = Function.update s op.handle (some m)) →
      (op.Fits → i.trigger < 0x8000#32 → m < 0x8000#32) →
      Applied t op
        ⟨Ordered.adjust Interest.handle op.handle (fun i => { i with trigger := m }) t.list,
          Ordered.adjust Pollfd.fd op.handle (fun e => { e with events := (mkevent op.handle m).events }) t.events⟩
        (some n)
  /-- An entry that has no bit left goes. -/
  | deleted (h : Int) (m : BitVec 32) (i : Interest) (n : Nat) : Ordered.get Interest.handle h t.list = some i →
      i.trigger &&& ~~~m = 0 →
      Applied t (.clear h m) ⟨Ordered.erase Interest.handle h t.list, Ordered.erase Pollfd.fd h t.events⟩ (some n)
  /-- The entry is as it should be. -/
  | kept (op : Op) (i : Interest) (n : Nat) : Ordered.get Interest.handle op.handle t.list = some i →
      (∀ s : Map, s op.handle = some i.trigger → s.apply op = s) → Applied t op t (some n)
  /-- There is no entry to clear. -/
  | absent (h : Int) (m : BitVec 32) : Ordered.get Interest.handle h t.list = none → Applied t (.clear h m) t none

theorem or_lt {a b : BitVec 32} (ha : a < 0x8000#32) (hb : b < 0x8000#32) : a ||| b < 0x8000#32 := by
  rw [BitVec.lt_def, BitVec.toNat_or]
  exact Nat.or_lt_two_pow (n := 15) ha hb

theorem and_lt {a : BitVec 32} (ha : a < 0x8000#32) (b : BitVec 32) : a &&& b < 0x8000#32 := by
  rw [BitVec.lt_def, BitVec.toNat_and]
  exact Nat.lt_of_le_of_lt Nat.and_le_left ha

theorem or_eq_of_and_eq {a b : BitVec 32} (h : a &&& b = b) : a ||| b = a := by
  have hi : ∀ i (hi : i < 32), b[i] = (a[i] && b[i]) := fun i hi => by rw [← BitVec.getElem_and, h]
  ext i hlt
  rw [BitVec.getElem_or, hi i hlt]
  cases a[i] <;> rfl

theorem set_applied (hm : Mirror t) (h : Int) (m : BitVec 32) :
    Applied t (.set h m) (t.set h m).1 (t.set h m).2 := by
  unfold Trigger.set
  cases hget : Ordered.get Interest.handle h t.list with
  | none =>
    dsimp only
    rw [poller.add, (hm.get_none h).mpr hget]
    exact .added h m _ hget
  | some i =>
    obtain ⟨e, he⟩ := hm.get_some hget
    dsimp only
    split
    · rw [poller.update, he]
      refine .updated (.set h m) i (i.trigger ||| m) _ hget (fun s hs => ?_) fun hfit hi => or_lt hi hfit
      rw [Map.apply, Map.set, show s h = some i.trigger from hs]
      rfl
    · rename_i hsame
      refine .kept (.set h m) i _ hget fun s hs => ?_
      rw [Map.apply, Map.set, show s h = some i.trigger from hs, Option.getD_some,
        or_eq_of_and_eq (not_not.mp hsame), ← hs]
      exact Function.update_eq_self h s

theorem clear_applied (hm : Mirror t) (h : Int) (m : BitVec 32) :
    Applied t (.clear h m) (t.clear h m).1 (t.clear h m).2 := by
  unfold Trigger.clear
  cases hget : Ordered.get Interest.handle h t.list with
  | none => exact .absent h m hget
  | some i =>
    obtain ⟨e, he⟩ := hm.get_some hget
    dsimp only
    split
    · rename_i hzero
      rw [poller.del, he]
      exact .deleted h m i _ hget hzero
    · rename_i hbits
      have hclear : ∀ s : Map, s h = some i.trigger →
          s.apply (.clear h m) = Function.update s h (some (i.trigger &&& ~~~m)) := by
        intro s hs
        rw [Map.apply, Map.clear, hs]
        dsimp only
        rw [if_neg hbits]
      split
      · rw [poller.update, he]
        exact .updated (.clear h m) i _ _ hget hclear fun _ hi => and_lt hi _
      · rename_i hsame
        refine .kept (.clear h m) i _ hget fun s hs => ?_
        rw [hclear s hs, not_not.mp hsame, ← hs]
        exact Function.update_eq_self h s

theorem apply_applied (hm : Mirror t) (op : Op) : Applied t op (t.apply op).1 (t.apply op).2 := by
  cases op with
  | set h m => exact set_applied hm h m
  | clear h m => exact clear_applied hm h m

theorem Applied.mirror {op : Op} {t' : Trigger} {r : Option Nat} (ha : Applied t op t' r) (hm : Mirror t)
    (hfit : op.Fits) : Mirror t' := by
  cases ha with
  | added h m n hnone => exact hm.add hnone hfit
  | updated _ i m n hget _ hbits => exact hm.update (hbits hfit (hm.fits i (Ordered.get_key hget).1))
  | deleted h m i n _ _ => exact hm.del h
  | kept _ i n _ _ => exact hm
  | absent h m _ => exact hm

/-- A call does to the registry what it does to the map. -/
theorem Applied.lookup {op : Op} {t' : Trigger} {r : Option Nat} (ha : Applied t op t' r) (hm : Mirror t) :
    t'.lookup = Map.apply t.lookup op := by
  funext j
  cases ha with
  | added h m n hnone =>
    rw [Map.apply, Map.set, lookup_eq_none.mpr hnone, Trigger.lookup, Ordered.get_place]
    by_cases hj : j = h
    · subst hj
      rw [Function.update_self, if_pos rfl]
      simp
    · rw [Function.update_of_ne hj, if_neg (Ne.symm hj)]
      rfl
  | updated _ i m n hget hmap _ =>
    rw [hmap t.lookup (by rw [Trigger.lookup, hget]; rfl), Trigger.lookup, hm.get_list_update]
    by_cases hj : j = op.handle
    · subst hj
      rw [Function.update_self, if_pos rfl, hget]
      rfl
    · rw [Function.update_of_ne hj, if_neg hj]
      rfl
  | deleted h m i n hget hzero =>
    have hold : t.lookup h = some i.trigger := by rw [Trigger.lookup, hget]; rfl
    rw [Map.apply, Map.clear, hold, Trigger.lookup, hm.ordered.get_erase]
    dsimp only
    rw [if_pos hzero]
    by_cases hj : j = h
    · subst hj
      rw [Function.update_self, if_pos rfl]
      rfl
    · rw [Function.update_of_ne hj, if_neg hj]
      rfl
  | kept _ i n hget hmap => rw [hmap t.lookup (by rw [Trigger.lookup, hget]; rfl)]
  | absent h m hnone =>
    rw [Map.apply, Map.clear, lookup_eq_none.mpr hnone]

/-- Other events are left alone, and the kernel's word on this one. -/
theorem Applied.revents {op : Op} {t' : Trigger} {r : Option Nat} (ha : Applied t op t' r) (hm : Mirror t) :
    (∀ j, j ≠ op.handle → Ordered.get Pollfd.fd j t'.events = Ordered.get Pollfd.fd j t.events) ∧
      ∀ e e', Ordered.get Pollfd.fd op.handle t.events = some e →
        Ordered.get Pollfd.fd op.handle t'.events = some e' → e'.revents = e.revents := by
  cases ha with
  | added h m n hnone =>
    refine ⟨fun j hj => ?_, fun e e' he => ?_⟩
    · exact (Ordered.get_place j (mkevent h m) t.events).trans (if_neg (Ne.symm hj))
    · rw [show (Op.set h m).handle = h from rfl, (hm.get_none h).mpr hnone] at he
      cases he
  | updated _ i m n _ _ _ =>
    refine ⟨fun j hj => ?_, fun e e' he he' => ?_⟩
    · rw [hm.get_events_update, if_neg hj]
    · rw [hm.get_events_update, if_pos rfl, he] at he'
      cases he'
      rfl
  | deleted h m i n _ _ =>
    refine ⟨fun j hj => ?_, fun e e' _ he' => ?_⟩
    · exact (hm.events_ordered.get_erase j).trans (if_neg hj)
    · rw [show (Op.clear h m).handle = h from rfl, hm.events_ordered.get_erase, if_pos rfl] at he'
      cases he'
  | kept _ i n _ _ =>
    refine ⟨fun _ _ => rfl, fun e e' he he' => ?_⟩
    rw [he] at he'
    cases he'
    rfl
  | absent h m _ =>
    refine ⟨fun _ _ => rfl, fun e e' he he' => ?_⟩
    rw [he] at he'
    cases he'
    rfl

/-- A call fails only when there is nothing to clear. -/
theorem Applied.fails {op : Op} {t' : Trigger} {r : Option Nat} (ha : Applied t op t' r) :
    r = none ↔ ∃ h m, op = .clear h m ∧ t.lookup h = none := by
  have hthere : ∀ {i : Interest}, Ordered.get Interest.handle op.handle t.list = some i →
      ¬ ∃ h m, op = .clear h m ∧ t.lookup h = none := by
    rintro i hget ⟨h, m, rfl, hnone⟩
    rw [lookup_eq_none] at hnone
    rw [show (Op.clear h m).handle = h from rfl, hnone] at hget
    cases hget
  cases ha with
  | added h m n hnone => simp
  | updated _ i m n hget _ _ => simp only [reduceCtorEq, false_iff]; exact hthere hget
  | deleted h m i n hget _ => simp only [reduceCtorEq, false_iff]; exact hthere hget
  | kept _ i n hget _ => simp only [reduceCtorEq, false_iff]; exact hthere hget
  | absent h m hnone => simp only [true_iff]; exact ⟨h, m, rfl, lookup_eq_none.mpr hnone⟩

/-! ## Any number of calls -/

theorem Mirror.wait (hm : Mirror t) (happened : Int → BitVec 16) : Mirror (t.wait happened) where
  ordered := hm.ordered
  same := by
    rw [Trigger.wait, List.map_map]
    exact hm.same
  fits := hm.fits

theorem Reach.mirror {ops : List Op} (hr : Reach ops t) : Mirror t := by
  induction hr with
  | init => exact ⟨List.Pairwise.nil, rfl, nofun⟩
  | call op _ hfit ih => exact (apply_applied ih op).mirror ih hfit
  | wait happened _ ih => exact ih.wait happened

theorem Reach.lookup {ops : List Op} (hr : Reach ops t) : t.lookup = Map.of ops := by
  induction hr with
  | init => rfl
  | call op hprev _ ih =>
    rw [(apply_applied hprev.mirror op).lookup hprev.mirror, ih, Map.of, Map.of, List.foldl_append]
    rfl
  | wait happened _ ih => exact ih

/-- A mask of 15 bits is the same number as a short. -/
theorem toInt_setWidth {m : BitVec 32} (h : m < 0x8000#32) : (m.setWidth 16).toInt = (m.toNat : Int) := by
  have hlt : m.toNat < 32768 := h
  rw [BitVec.toInt_eq_toNat_cond, BitVec.toNat_setWidth]
  omega

theorem Mirror.masks (hm : Mirror t) : t.events.map (fun e => (e.fd, e.events.toInt)) =
    t.list.map fun i => (i.handle, (i.trigger.toNat : Int)) := by
  have hsame := congrArg (List.map fun p : Int × BitVec 16 => (p.1, p.2.toInt)) hm.same
  rw [List.map_map, List.map_map] at hsame
  refine hsame.trans (List.map_congr_left fun i hi => ?_)
  exact congrArg (Prod.mk i.handle) (toInt_setWidth (hm.fits i hi))

/-- After any calls the list and the events of the poller are ordered and have the same handles
and masks, which are those of the map. The next call fails only when it clears a handle that
is not there, and leaves what the kernel said about the events alone. -/
theorem the_registry_is_a_map {ops : List Op} (hr : Reach ops t) :
    Ordered.Ascending Interest.handle t.list ∧ Ordered.Ascending Pollfd.fd t.events ∧
      t.events.map (fun e => (e.fd, e.events.toInt)) = t.list.map (fun i => (i.handle, (i.trigger.toNat : Int))) ∧
      t.lookup = Map.of ops ∧
      ∀ op : Op, op.Fits →
        ((t.apply op).2 = none ↔ ∃ h m, op = .clear h m ∧ Map.of ops h = none) ∧
        (∀ j, j ≠ op.handle →
          Ordered.get Pollfd.fd j (t.apply op).1.events = Ordered.get Pollfd.fd j t.events) ∧
        ∀ e e', Ordered.get Pollfd.fd op.handle t.events = some e →
          Ordered.get Pollfd.fd op.handle (t.apply op).1.events = some e' → e'.revents = e.revents := by
  have hm := hr.mirror
  refine ⟨hm.ordered, hm.events_ordered, hm.masks, hr.lookup, ?_⟩
  intro op _
  have ha := apply_applied hm op
  rw [← hr.lookup]
  exact ⟨ha.fails, ha.revents hm⟩

/-- POLLIN and POLLOUT for the handle 4, POLLIN for 3, and then POLLIN of 4 is not wanted. -/
def fourCalls : List Op := [.set 4 1, .set 3 1, .set 4 4, .clear 4 1]

theorem the_registry_after_four_calls :
    ∃ t : Trigger, Reach fourCalls t ∧ t.lookup = Map.of fourCalls ∧
      t.events.map (fun e => (e.fd, e.events.toInt)) = [(3, 1), (4, 4)] := by
  have hthree : Reach [.set 4 1, .set 3 1, .set 4 4] _ :=
    .call (.set 4 4) (.call (.set 3 1) (.call (.set 4 1) .init (by decide)) (by decide)) (by decide)
  have hr : Reach fourCalls _ := .call (.clear 4 1) hthree trivial
  exact ⟨_, hr, (the_registry_is_a_map hr).2.2.2.1, by decide⟩

end Trigger

end cloudbus.io
