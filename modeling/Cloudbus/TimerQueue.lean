-- The timers of a connector (connector/connector_timerqueue.cpp): events in the order
-- of their expiry times. To arm a stream again moves its event towards the end, one swap
-- after the other.
import Mathlib.Data.List.Induction
import Mathlib.Data.List.Nodup
import Mathlib.Data.List.TakeWhile
import Mathlib.Logic.Function.Basic
import Mathlib.Order.Lattice

namespace cloudbus

/-- A stream is the control block of its `weak_ptr`. A callback can be empty. -/
structure TimeoutEvent (σ τ κ : Type) where
  callback : Option κ
  stream : σ
  expiryTime : τ
deriving DecidableEq, Repr

namespace TimerQueue

variable {σ τ κ : Type} [DecidableEq σ] [LinearOrder τ]

abbrev Events (σ τ κ : Type) := List (TimeoutEvent σ τ κ)

/-- `swap(*i, *j)` -/
def swap (l : Events σ τ κ) (i j : Nat) : Events σ τ κ :=
  match l[i]?, l[j]? with
  | some a, some b => (l.set i b).set j a
  | _, _ => l

/-- `it->expiryTime = time` -/
def expireAt (time : τ) (e : TimeoutEvent σ τ κ) : TimeoutEvent σ τ κ := { e with expiryTime := time }

/-- The loop of `addEvent`, with `n` events from `it` to the end. `found` is `match`, and `none` its end. -/
def addLoop (wp : σ) (time : τ) (func : Option κ) : Nat → Nat → Option Nat → Events σ τ κ → Events σ τ κ
  | 0, _, none, events => events ++ [⟨func, wp, time⟩]
  | 0, _, some m, events => events.modify m (expireAt time)
  | n + 1, it, found, events =>
    match events[it]? with
    | none => events
    | some e =>
      let found := if wp = e.stream then some it else found
      if time < e.expiryTime then
        match found with
        | some m => (swap events m it).modify it (expireAt time)
        | none => events.insertIdx it ⟨func, wp, time⟩
      else
        match found with
        | some m => addLoop wp time func n (it + 1) (some it) (swap events m it)
        | none => addLoop wp time func n (it + 1) none events

/-- `addEvent` -/
def addEvent (wp : σ) (time : τ) (func : Option κ) (events : Events σ τ κ) : Events σ τ κ :=
  addLoop wp time func events.length 0 none events

/-- What `processEvents` leaves, what it runs, and what it returns. -/
structure Processed (σ τ κ : Type) where
  left : Events σ τ κ
  ran : List κ
  processedCount : Nat

/-- `processEvents`. The events are erased before the first callback is run, so a callback that arms a
stream does so after this. -/
def processEvents (currentTime : τ) (events : Events σ τ κ) : Processed σ τ κ :=
  let expired := events.takeWhile fun event => !decide (event.expiryTime > currentTime)
  ⟨events.drop expired.length, expired.filterMap TimeoutEvent.callback, expired.length⟩

/-! ## The loop as a pass over the list -/

section

variable (wp : σ) (time : τ) (func : Option κ)

/-- The same loop as a pass over the events that are left. `held` is the event of the stream that was
found last: it is always the one right before them. -/
def pass : Option (TimeoutEvent σ τ κ) → Events σ τ κ → Events σ τ κ
  | held, [] => [held.elim ⟨func, wp, time⟩ (expireAt time)]
  | held, e :: rest =>
    if wp = e.stream then
      held.toList ++ if time < e.expiryTime then expireAt time e :: rest else pass (some e) rest
    else if time < e.expiryTime then
      held.elim (⟨func, wp, time⟩ :: e :: rest) fun m => e :: expireAt time m :: rest
    else e :: pass held rest

omit [DecidableEq σ] [LinearOrder τ] in
theorem swap_self (l : Events σ τ κ) (i : Nat) : swap l i i = l := by
  unfold swap
  cases h : l[i]? with
  | none => rfl
  | some a =>
    obtain ⟨hi, rfl⟩ := List.getElem?_eq_some_iff.mp h
    dsimp only
    rw [List.set_set, List.set_getElem_self]

omit [DecidableEq σ] [LinearOrder τ] in
/-- Two neighbours change their places. -/
theorem swap_next (done rest : Events σ τ κ) (m e : TimeoutEvent σ τ κ) :
    swap (done ++ m :: e :: rest) done.length (done.length + 1) = done ++ e :: m :: rest := by
  unfold swap
  simp

omit [DecidableEq σ] [LinearOrder τ] in
theorem modify_next (f : TimeoutEvent σ τ κ → TimeoutEvent σ τ κ) (done rest : Events σ τ κ)
    (e : TimeoutEvent σ τ κ) : (done ++ e :: rest).modify done.length f = done ++ f e :: rest := by
  induction done with
  | nil => rfl
  | cons d done ih => exact congrArg (d :: ·) ih

omit [DecidableEq σ] [LinearOrder τ] in
theorem insertIdx_next (done rest : Events σ τ κ) (e : TimeoutEvent σ τ κ) :
    (done ++ rest).insertIdx done.length e = done ++ e :: rest := by
  induction done with
  | nil => rfl
  | cons d done ih => exact congrArg (d :: ·) ih

theorem addLoop_eq (rest done : Events σ τ κ) (held : Option (TimeoutEvent σ τ κ)) :
    addLoop wp time func rest.length (done.length + held.toList.length) (held.map fun _ => done.length)
      (done ++ held.toList ++ rest) = done ++ pass wp time func held rest := by
  induction rest generalizing done held with
  | nil =>
    cases held with
    | none => simp [addLoop, pass]
    | some m =>
      rw [List.append_nil]
      exact modify_next _ done [] m
  | cons e rest ih =>
    have hget : (done ++ held.toList ++ e :: rest)[done.length + held.toList.length]? = some e := by
      rw [← List.length_append, List.getElem?_append_right (Nat.le_refl _), Nat.sub_self]
      rfl
    unfold addLoop pass
    simp only [List.length_cons, hget]
    by_cases hs : wp = e.stream
    · -- the event of the stream: it is swapped with itself
      rw [if_pos hs, if_pos hs]
      dsimp only
      rw [swap_self]
      split
      · rw [← List.length_append, modify_next, List.append_assoc]
      · have := ih (done ++ held.toList) (some e)
        simpa [List.append_assoc, Nat.add_assoc] using this
    · rw [if_neg hs, if_neg hs]
      cases held with
      | none =>
        dsimp only [Option.map_none, Option.toList_none, List.length_nil, Nat.add_zero, Option.elim_none]
        split
        · rw [List.append_nil, insertIdx_next]
        · have := ih (done ++ [e]) none
          simpa [List.append_assoc] using this
      | some m =>
        have hswap : swap (done ++ [m] ++ e :: rest) done.length (done.length + 1) = done ++ e :: m :: rest := by
          rw [← swap_next, List.append_assoc]
          rfl
        have hnext : done ++ e :: m :: rest = (done ++ [e]) ++ m :: rest := by simp
        dsimp only [Option.map_some, Option.toList_some, List.length_singleton, Option.elim_some]
        rw [hswap, hnext]
        split
        · rw [← List.length_singleton (a := e), ← List.length_append, modify_next]
          simp
        · have := ih (done ++ [e]) (some m)
          simpa [List.append_assoc] using this

theorem addEvent_eq (q : Events σ τ κ) : addEvent wp time func q = pass wp time func none q :=
  addLoop_eq wp time func q [] none

end

/-! ## The order of the events -/

def Sorted (q : Events σ τ κ) : Prop := q.Pairwise fun a b => a.expiryTime ≤ b.expiryTime

instance (q : Events σ τ κ) : Decidable (Sorted q) :=
  inferInstanceAs (Decidable (q.Pairwise fun a b => a.expiryTime ≤ b.expiryTime))

section

variable {wp : σ} {time : τ} {func : Option κ} {q : Events σ τ κ} {held : Option (TimeoutEvent σ τ κ)}

theorem mem_pass {x : TimeoutEvent σ τ κ} (h : x ∈ pass wp time func held q) :
    x ∈ held.toList ∨ x ∈ q ∨ x.expiryTime = time := by
  induction q generalizing held with
  | nil =>
    rw [pass, List.mem_singleton] at h
    refine .inr (.inr ?_)
    cases held with
    | none => rw [h, Option.elim_none]
    | some m => rw [h, Option.elim_some, expireAt]
  | cons e rest ih =>
    rw [pass] at h
    split at h
    · rcases List.mem_append.mp h with h | h
      · exact .inl h
      · split at h
        · rcases List.mem_cons.mp h with rfl | h
          · exact .inr (.inr rfl)
          · exact .inr (.inl (.tail _ h))
        · rcases ih h with h | h | h
          · exact .inr (.inl (Option.some_inj.mp (Option.mem_toList.mp h) ▸ .head _))
          · exact .inr (.inl (.tail _ h))
          · exact .inr (.inr h)
    · split at h
      · cases held with
        | none =>
          rcases List.mem_cons.mp h with rfl | h
          · exact .inr (.inr rfl)
          · exact .inr (.inl h)
        | some m =>
          rcases List.mem_cons.mp h with rfl | h
          · exact .inr (.inl (.head _))
          · rcases List.mem_cons.mp h with rfl | h
            · exact .inr (.inr rfl)
            · exact .inr (.inl (.tail _ h))
      · rcases List.mem_cons.mp h with rfl | h
        · exact .inr (.inl (.head _))
        · rcases ih h with h | h | h
          · exact .inl h
          · exact .inr (.inl (.tail _ h))
          · exact .inr (.inr h)

/-- When no event of the stream expires by `time`, the pass holds none of them on its way. -/
theorem Sorted.pass_none (hq : Sorted q) (hlate : ∀ e ∈ q, wp = e.stream → time < e.expiryTime) :
    Sorted (pass wp time func none q) := by
  induction q with
  | nil => exact List.pairwise_singleton _ _
  | cons e rest ih =>
    obtain ⟨hle, hrest⟩ := List.pairwise_cons.mp hq
    rw [pass]
    split
    · rename_i hs
      have hlt := hlate e (.head _) hs
      rw [if_pos hlt]
      exact List.pairwise_cons.mpr ⟨fun x hx => le_trans (le_of_lt hlt) (hle x hx), hrest⟩
    · split
      · rename_i hlt
        refine List.pairwise_cons.mpr ⟨fun x hx => ?_, hq⟩
        rcases List.mem_cons.mp hx with rfl | hx
        · exact le_of_lt hlt
        · exact le_trans (le_of_lt hlt) (hle x hx)
      · rename_i hge
        refine List.pairwise_cons.mpr ⟨fun x hx => ?_, ih hrest fun x hx => hlate x (.tail _ hx)⟩
        rcases mem_pass hx with hx | hx | hx
        · cases hx
        · exact hle x hx
        · exact hx ▸ not_lt.mp hge

/-- Where no event of the stream is left and none expires after `time`, what the pass holds goes to the end. -/
theorem pass_others (hs : ∀ e ∈ q, wp ≠ e.stream) (ht : ∀ e ∈ q, e.expiryTime ≤ time) :
    pass wp time func held q = q ++ [held.elim ⟨func, wp, time⟩ (expireAt time)] := by
  induction q with
  | nil => rfl
  | cons e rest ih =>
    rw [pass, if_neg (hs e (.head _)), if_neg (not_lt.mpr (ht e (.head _))),
      ih (fun x hx => hs x (.tail _ hx)) fun x hx => ht x (.tail _ hx)]
    rfl

/-- The one event of the stream goes to the end. -/
theorem pass_moves {a b : Events σ τ κ} {m : TimeoutEvent σ τ κ} (hm : m.stream = wp)
    (hs : ∀ e ∈ a ++ b, wp ≠ e.stream) (ht : ∀ e ∈ a ++ m :: b, e.expiryTime ≤ time) :
    pass wp time func none (a ++ m :: b) = a ++ b ++ [expireAt time m] := by
  induction a with
  | nil =>
    rw [List.nil_append] at hs ht ⊢
    rw [pass, if_pos hm.symm, if_neg (not_lt.mpr (ht m (.head _))), pass_others hs fun x hx => ht x (.tail _ hx)]
    rfl
  | cons e a ih =>
    rw [List.cons_append, pass, if_neg (hs e (by simp)), if_neg (not_lt.mpr (ht e (by simp))),
      ih (fun x hx => hs x (by simp_all)) fun x hx => ht x (by simp_all)]
    rfl

/-- `addEvent` of a stream with at most one event, at a time that no event is after: the event is new, or
it goes to the end with the callback that it has. -/
theorem addEvent_last (wp : σ) (func : Option κ) (hone : (q.filter fun e => wp = e.stream).length ≤ 1)
    (ht : ∀ e ∈ q, e.expiryTime ≤ time) :
    (∀ e ∈ q, wp ≠ e.stream) ∧ addEvent wp time func q = q ++ [⟨func, wp, time⟩] ∨
      ∃ a m b, q = a ++ m :: b ∧ m.stream = wp ∧ (∀ e ∈ a ++ b, wp ≠ e.stream) ∧
        addEvent wp time func q = a ++ b ++ [expireAt time m] := by
  rw [addEvent_eq]
  by_cases hno : ∀ e ∈ q, wp ≠ e.stream
  · exact .inl ⟨hno, pass_others hno ht⟩
  · push Not at hno
    obtain ⟨m, hmem, hm⟩ := hno
    obtain ⟨a, b, rfl⟩ := List.append_of_mem hmem
    have hrest : ∀ e ∈ a ++ b, wp ≠ e.stream := by
      intro e he hs
      rw [List.filter_append, List.filter_cons, if_pos (by simpa using hm), List.length_append,
        List.length_cons] at hone
      have hpos : 0 < ((a ++ b).filter fun e => wp = e.stream).length :=
        List.length_pos_of_mem (List.mem_filter.mpr ⟨he, by simpa using hs⟩)
      rw [List.filter_append, List.length_append] at hpos
      omega
    exact .inr ⟨a, m, b, rfl, hm.symm, hrest, pass_moves hm.symm hrest ht⟩

omit [DecidableEq σ] in
theorem Sorted.snoc (hq : Sorted q) {e : TimeoutEvent σ τ κ} (h : ∀ x ∈ q, x.expiryTime ≤ e.expiryTime) :
    Sorted (q ++ [e]) := by
  refine List.pairwise_append.mpr ⟨hq, List.pairwise_singleton _ _, fun x hx y hy => ?_⟩
  rw [List.mem_singleton.mp hy]
  exact h x hx

/-- The stream has no event that expires by `time`; or it has one event, and no event expires after `time`. -/
def Rearms (wp : σ) (time : τ) (q : Events σ τ κ) : Prop :=
  (∀ e ∈ q, wp = e.stream → time < e.expiryTime) ∨
    (q.filter fun e => wp = e.stream).length ≤ 1 ∧ ∀ e ∈ q, e.expiryTime ≤ time

instance (wp : σ) (time : τ) (q : Events σ τ κ) : Decidable (Rearms wp time q) :=
  inferInstanceAs (Decidable ((∀ e ∈ q, wp = e.stream → time < e.expiryTime) ∨
    (q.filter fun e => wp = e.stream).length ≤ 1 ∧ ∀ e ∈ q, e.expiryTime ≤ time))

theorem Sorted.addEvent (hq : Sorted q) (h : Rearms wp time q) : Sorted (addEvent wp time func q) := by
  rcases h with hlate | ⟨hone, ht⟩
  · rw [addEvent_eq]
    exact hq.pass_none hlate
  · rcases addEvent_last wp func hone ht with ⟨-, heq⟩ | ⟨a, m, b, rfl, -, -, heq⟩
    · rw [heq]
      exact hq.snoc ht
    · rw [heq]
      have hsub : (a ++ b).Sublist (a ++ m :: b) := (List.sublist_cons_self m b).append_left a
      exact Sorted.snoc (List.Pairwise.sublist hsub hq) fun x hx => ht x (hsub.subset hx)

omit [DecidableEq σ] in
/-- In a sorted list the events that have expired are the first ones. -/
theorem Sorted.takeWhile_eq (hq : Sorted q) (now : τ) :
    (q.takeWhile fun e => !decide (e.expiryTime > now)) = (q.filter fun e => e.expiryTime ≤ now) ∧
      q.drop (q.takeWhile fun e => !decide (e.expiryTime > now)).length = q.filter fun e => now < e.expiryTime := by
  induction q with
  | nil => exact ⟨rfl, rfl⟩
  | cons e rest ih =>
    obtain ⟨hle, hrest⟩ := List.pairwise_cons.mp hq
    obtain ⟨h1, h2⟩ := ih hrest
    by_cases he : e.expiryTime ≤ now
    · have htake : ((e :: rest).takeWhile fun e => !decide (e.expiryTime > now)) =
          e :: rest.takeWhile fun e => !decide (e.expiryTime > now) :=
        List.takeWhile_cons_of_pos (by simpa using he)
      rw [htake, h1]
      refine ⟨by simp [he], ?_⟩
      rw [List.length_cons, List.drop_succ_cons, ← h1, h2]
      simp [he]
    · have hnone : ((e :: rest).takeWhile fun e => !decide (e.expiryTime > now)) = [] :=
        List.takeWhile_cons_of_neg (by simpa using he)
      have hall : ∀ x ∈ e :: rest, now < x.expiryTime := by
        intro x hx
        rcases List.mem_cons.mp hx with rfl | hx
        · exact not_le.mp he
        · exact lt_of_lt_of_le (not_le.mp he) (hle x hx)
      rw [hnone]
      constructor
      · exact (List.filter_eq_nil_iff.mpr fun x hx => by simpa using hall x hx).symm
      · exact (List.filter_eq_self.mpr fun x hx => by simpa using hall x hx).symm

end

/-- A history of calls; `C` holds for each `addEvent` and the events that it finds. -/
inductive Reach (C : σ → τ → Events σ τ κ → Prop) : Events σ τ κ → Prop
  | start : Reach C []
  | addEvent {q : Events σ τ κ} (wp : σ) (time : τ) (func : Option κ) :
      Reach C q → C wp time q → Reach C (addEvent wp time func q)
  | processEvents {q : Events σ τ κ} (now : τ) : Reach C q → Reach C (processEvents now q).left

/-- `processEvents` runs the callbacks of all events that have expired, in the order of their expiry
times, and leaves the others. -/
structure RunsExpired (now : τ) (q : Events σ τ κ) : Prop where
  ran : (processEvents now q).ran = (q.filter fun e => e.expiryTime ≤ now).filterMap TimeoutEvent.callback
  order : (q.filter fun e => e.expiryTime ≤ now).Pairwise fun a b => a.expiryTime ≤ b.expiryTime
  left : (processEvents now q).left = q.filter fun e => now < e.expiryTime
  count : (processEvents now q).processedCount = (q.filter fun e => e.expiryTime ≤ now).length

omit [DecidableEq σ] in
theorem Sorted.runs {q : Events σ τ κ} (hq : Sorted q) (now : τ) : RunsExpired now q := by
  obtain ⟨h1, h2⟩ := hq.takeWhile_eq now
  refine ⟨?_, List.Pairwise.filter _ hq, h2, ?_⟩
  · unfold processEvents
    rw [h1]
  · unfold processEvents
    rw [h1]

omit [DecidableEq σ] in
theorem Sorted.processEvents {q : Events σ τ κ} (hq : Sorted q) (now : τ) : Sorted (processEvents now q).left := by
  rw [(hq.runs now).left]
  exact List.Pairwise.filter _ hq

/-- The events stay in the order of their expiry times, and each call of `processEvents` runs the ones
that have expired. -/
theorem timers_expire_in_order (q : Events σ τ κ) (hr : Reach Rearms q) :
    Sorted q ∧ ∀ now, RunsExpired now q := by
  have hsorted : Sorted q := by
    induction hr with
    | start => exact List.Pairwise.nil
    | addEvent wp time func _ hc ih => exact ih.addEvent hc
    | processEvents now _ ih => exact ih.processEvents now
  exact ⟨hsorted, hsorted.runs⟩

/-- Two streams, of which the first is armed again, for a time after all others. -/
theorem a_timer_goes_to_the_end :
    Sorted (addEvent 1 30 (some 'c') (addEvent 2 20 (some 'b') (addEvent 1 10 (some 'a') []))) ∧
      ∀ now : Nat, RunsExpired now
        (addEvent 1 30 (some 'c') (addEvent 2 20 (some 'b') (addEvent 1 10 (some 'a') []))) := by
  refine timers_expire_in_order (σ := Nat) _ (.addEvent 1 30 _ (.addEvent 2 20 _ (.addEvent 1 10 _ .start ?_) ?_) ?_)
  all_goals decide

/-- The first stream is armed again for a time before the event of the second one expires. Its event is
swapped behind that event, and its callback is not run at its time. -/
theorem a_timer_goes_behind_a_later_one :
    ∃ q : Events Nat Nat Char, Reach (fun _ _ _ => True) q ∧ ¬ Sorted q ∧
      q = [⟨some 'b', 2, 20⟩, ⟨some 'a', 1, 15⟩] ∧ (processEvents 16 q).ran = [] := by
  refine ⟨addEvent 1 15 (some 'c') (addEvent 2 20 (some 'b') (addEvent 1 10 (some 'a') [])),
    .addEvent _ _ _ (.addEvent _ _ _ (.addEvent _ _ _ .start trivial) trivial) trivial, ?_⟩
  decide

/-! ## Arming a stream again -/

inductive Call (σ τ κ : Type)
  | addEvent (wp : σ) (time : τ) (func : Option κ)
  | processEvents (now : τ)
deriving DecidableEq

def Call.step (q : Events σ τ κ) : Call σ τ κ → Events σ τ κ
  | .addEvent wp time func => TimerQueue.addEvent wp time func q
  | .processEvents now => (TimerQueue.processEvents now q).left

/-- The events after a history of calls. -/
def queue (calls : List (Call σ τ κ)) : Events σ τ κ := calls.foldl Call.step []

/-- The events that a call takes out and runs the callbacks of. -/
def Call.fires (q : Events σ τ κ) : Call σ τ κ → Events σ τ κ
  | .addEvent _ _ _ => []
  | .processEvents now => q.takeWhile fun event => !decide (event.expiryTime > now)

/-- The events that the calls of a history take out, from the events `q` on. -/
def fired (q : Events σ τ κ) : List (Call σ τ κ) → Events σ τ κ
  | [] => []
  | c :: calls => c.fires q ++ fired (c.step q) calls

/-- The times of the `addEvent` calls. -/
def addTimes (calls : List (Call σ τ κ)) : List τ :=
  calls.filterMap fun | .addEvent _ time _ => some time | .processEvents _ => none

/-- After an `addEvent` of the stream at `time`, this call leaves its deadline as it is. -/
def Call.Leaves (wp : σ) (time : τ) : Call σ τ κ → Prop
  | .addEvent s _ _ => s ≠ wp
  | .processEvents now => now < time

/-- The latest `addEvent` of the stream was at `time`, and no `processEvents` since then was at that time
or after it. -/
def ArmedAt (calls : List (Call σ τ κ)) (wp : σ) (time : τ) : Prop :=
  ∃ before func since, calls = before ++ .addEvent wp time func :: since ∧ ∀ c ∈ since, c.Leaves wp time

/-- The calls `since` arm the stream again and again: it is armed at the first of them, which finds it
not armed, and after each of them. -/
def Rearming (before : List (Call σ τ κ)) (wp : σ) (time : τ) (func : Option κ) (since : List (Call σ τ κ)) : Prop :=
  (∀ t, ¬ ArmedAt before wp t) ∧
    ∀ mid rest, since = mid ++ rest → ∃ t, ArmedAt (before ++ .addEvent wp time func :: mid) wp t

/-- The history ends in a run of re-armings of the stream that began with the callback `func`. -/
def RunOf (calls : List (Call σ τ κ)) (wp : σ) (func : Option κ) : Prop :=
  ∃ before time since, calls = before ++ .addEvent wp time func :: since ∧ Rearming before wp time func since

section

variable {calls before since : List (Call σ τ κ)} {wp s : σ} {time now t : τ} {func g : Option κ}
  {q : Events σ τ κ} {e : TimeoutEvent σ τ κ}

@[simp] theorem queue_snoc (c : Call σ τ κ) : queue (calls ++ [c]) = c.step (queue calls) := by
  rw [queue, List.foldl_append]
  rfl

theorem fired_append (a b : List (Call σ τ κ)) :
    fired q (a ++ b) = fired q a ++ fired (a.foldl Call.step q) b := by
  induction a generalizing q with
  | nil => rfl
  | cons c a ih =>
    rw [List.cons_append, fired, fired, ih, List.append_assoc]
    rfl

theorem foldl_queue (before since : List (Call σ τ κ)) :
    since.foldl Call.step (queue before) = queue (before ++ since) := by
  rw [queue, queue, List.foldl_append]

omit [DecidableEq σ] [LinearOrder τ] in
theorem snoc_eq_cons {c d : Call σ τ κ} (h : calls ++ [c] = before ++ d :: since) :
    (since = [] ∧ calls = before ∧ c = d) ∨ ∃ mid, since = mid ++ [c] ∧ calls = before ++ d :: mid := by
  rcases List.eq_nil_or_concat since with rfl | ⟨mid, x, rfl⟩
  · obtain ⟨h1, h2⟩ := List.append_inj' h rfl
    exact .inl ⟨rfl, h1, List.singleton_inj.mp h2⟩
  · rw [List.concat_eq_append, ← List.cons_append, ← List.append_assoc] at h
    obtain ⟨h1, h2⟩ := List.append_inj' h rfl
    exact .inr ⟨mid, by rw [List.concat_eq_append, List.singleton_inj.mp h2], h1⟩

omit [DecidableEq σ] in
theorem armedAt_snoc (c : Call σ τ κ) :
    ArmedAt (calls ++ [c]) wp time ↔ (∃ func, c = .addEvent wp time func) ∨ ArmedAt calls wp time ∧ c.Leaves wp time := by
  constructor
  · rintro ⟨before, func, since, heq, hl⟩
    rcases snoc_eq_cons heq with ⟨-, -, rfl⟩ | ⟨mid, rfl, rfl⟩
    · exact .inl ⟨func, rfl⟩
    · refine .inr ⟨⟨before, func, mid, rfl, fun x hx => hl x (List.mem_append_left _ hx)⟩, ?_⟩
      exact hl c (List.mem_append_right _ (.head _))
  · rintro (⟨func, rfl⟩ | ⟨⟨before, func, since, rfl, hl⟩, hc⟩)
    · exact ⟨calls, func, [], rfl, nofun⟩
    · refine ⟨before, func, since ++ [c], by simp, fun x hx => ?_⟩
      rcases List.mem_append.mp hx with hx | hx
      · exact hl x hx
      · rwa [List.mem_singleton.mp hx]

omit [DecidableEq σ] in
theorem RunOf.armed (h : RunOf calls wp func) : ∃ t, ArmedAt calls wp t := by
  obtain ⟨before, time, since, rfl, -, hall⟩ := h
  exact hall since [] (List.append_nil _).symm

omit [DecidableEq σ] in
theorem Rearming.left {c : Call σ τ κ} (h : Rearming before wp time func (since ++ [c])) :
    Rearming before wp time func since :=
  ⟨h.1, fun mid rest heq => h.2 mid (rest ++ [c]) (by rw [heq, List.append_assoc])⟩

omit [DecidableEq σ] in
theorem runOf_snoc (c : Call σ τ κ) :
    RunOf (calls ++ [c]) wp func ↔ (∃ t, ArmedAt (calls ++ [c]) wp t) ∧
      (RunOf calls wp func ∨ (∀ t, ¬ ArmedAt calls wp t) ∧ ∃ time, c = .addEvent wp time func) := by
  constructor
  · intro h
    refine ⟨h.armed, ?_⟩
    obtain ⟨before, time, since, heq, hr⟩ := h
    rcases snoc_eq_cons heq with ⟨-, rfl, rfl⟩ | ⟨mid, rfl, rfl⟩
    · exact .inr ⟨hr.1, time, rfl⟩
    · exact .inl ⟨before, time, mid, rfl, hr.left⟩
  · rintro ⟨hnow, ⟨before, time, since, rfl, hidle, hall⟩ | ⟨hidle, time, rfl⟩⟩
    · refine ⟨before, time, since ++ [c], by simp, hidle, fun mid rest heq => ?_⟩
      rcases List.eq_nil_or_concat rest with rfl | ⟨rest, x, rfl⟩
      · rw [List.append_nil] at heq
        rw [← heq, ← List.cons_append, ← List.append_assoc]
        exact hnow
      · rw [List.concat_eq_append, ← List.append_assoc] at heq
        exact hall mid rest (List.append_inj' heq rfl).1
    · refine ⟨calls, time, [], rfl, hidle, fun mid rest heq => ?_⟩
      obtain ⟨rfl, -⟩ := List.append_eq_nil_iff.mp heq.symm
      exact hnow

omit [DecidableEq σ] in
/-- Every armed stream is in a run of re-armings. -/
theorem ArmedAt.run (h : ArmedAt calls wp t) : ∃ func, RunOf calls wp func := by
  induction calls using List.reverseRecOn generalizing t with
  | nil =>
    obtain ⟨before, func, since, heq, -⟩ := h
    exact absurd heq (by simp)
  | append_singleton calls c ih =>
    simp only [runOf_snoc]
    rcases (armedAt_snoc c).mp h with ⟨func, rfl⟩ | ⟨hold, -⟩
    · by_cases hold : ∃ t, ArmedAt calls wp t
      · obtain ⟨g, hg⟩ := ih hold.choose_spec
        exact ⟨g, ⟨t, h⟩, .inl hg⟩
      · exact ⟨func, ⟨t, h⟩, .inr ⟨not_exists.mp hold, t, rfl⟩⟩
    · obtain ⟨g, hg⟩ := ih hold
      exact ⟨g, ⟨t, h⟩, .inl hg⟩

omit [LinearOrder τ] in
theorem filter_stream_le_one (wp : σ) (hone : (q.map TimeoutEvent.stream).Nodup) :
    (q.filter fun e => wp = e.stream).length ≤ 1 := by
  rw [← List.countP_eq_length_filter]
  have hcount := List.nodup_iff_count_le_one.mp hone wp
  rw [List.count, List.countP_map] at hcount
  refine le_trans (le_of_eq (List.countP_congr fun e _ => ?_)) hcount
  rw [decide_eq_true_iff, Function.comp_apply, beq_iff_eq, eq_comm]

/-- What `addEvent` does at a time that no event is after: the event of the stream gets the time and keeps
its callback, or it is a new one. -/
theorem mem_addEvent (hone : (q.map TimeoutEvent.stream).Nodup) (ht : ∀ e ∈ q, e.expiryTime ≤ time) :
    e ∈ addEvent wp time func q ↔ e ∈ q ∧ wp ≠ e.stream ∨ (∃ m ∈ q, m.stream = wp ∧ e = expireAt time m) ∨
      (∀ m ∈ q, wp ≠ m.stream) ∧ e = ⟨func, wp, time⟩ := by
  rcases addEvent_last wp func (filter_stream_le_one wp hone) ht with ⟨hno, heq⟩ | ⟨a, m, b, rfl, hm, hs, heq⟩
  · rw [heq, List.mem_append, List.mem_singleton]
    constructor
    · rintro (he | rfl)
      · exact .inl ⟨he, hno e he⟩
      · exact .inr (.inr ⟨hno, rfl⟩)
    · rintro (⟨he, -⟩ | ⟨m, hm, hs, -⟩ | ⟨-, rfl⟩)
      · exact .inl he
      · exact absurd hs.symm (hno m hm)
      · exact .inr rfl
  · have hmem : ∀ x, x ∈ a ++ m :: b ↔ x = m ∨ x ∈ a ++ b := by
      intro x
      simp only [List.mem_append, List.mem_cons]
      exact or_left_comm
    rw [heq, List.mem_append, List.mem_singleton]
    simp only [hmem]
    constructor
    · rintro (he | rfl)
      · exact .inl ⟨.inr he, hs e he⟩
      · exact .inr (.inl ⟨m, .inl rfl, hm, rfl⟩)
    · rintro (⟨rfl | he, hne⟩ | ⟨x, rfl | hx, hxs, rfl⟩ | ⟨hno, -⟩)
      · exact absurd hm.symm hne
      · exact .inl he
      · exact .inr rfl
      · exact absurd hxs.symm (hs x hx)
      · exact absurd hm.symm (hno m (.inl rfl))

theorem nodup_addEvent (hone : (q.map TimeoutEvent.stream).Nodup) (ht : ∀ e ∈ q, e.expiryTime ≤ time) :
    ((addEvent wp time func q).map TimeoutEvent.stream).Nodup := by
  have hsnoc : ∀ {l : Events σ τ κ} {x : TimeoutEvent σ τ κ}, (l.map TimeoutEvent.stream).Nodup →
      (∀ e ∈ l, wp ≠ e.stream) → x.stream = wp → ((l ++ [x]).map TimeoutEvent.stream).Nodup := by
    intro l x hl hs hx
    rw [List.map_append, List.map_singleton, hx]
    refine List.nodup_append.mpr ⟨hl, List.nodup_singleton _, fun y hy z hz => ?_⟩
    obtain ⟨e, he, rfl⟩ := List.mem_map.mp hy
    rw [List.mem_singleton.mp hz]
    exact (hs e he).symm
  rcases addEvent_last wp func (filter_stream_le_one wp hone) ht with ⟨hno, heq⟩ | ⟨a, m, b, rfl, hm, hs, heq⟩
  · rw [heq]
    exact hsnoc hone hno rfl
  · rw [heq]
    have hsub : (a ++ b).Sublist (a ++ m :: b) := (List.sublist_cons_self m b).append_left a
    exact hsnoc (hone.sublist (hsub.map _)) hs hm

/-- What the events are after a history. -/
structure Single (calls : List (Call σ τ κ)) : Prop where
  sorted : Sorted (queue calls)
  one : ((queue calls).map TimeoutEvent.stream).Nodup
  times : ∀ e ∈ queue calls, e.expiryTime ∈ addTimes calls
  mem : ∀ e, e ∈ queue calls ↔ ArmedAt calls e.stream e.expiryTime ∧ RunOf calls e.stream e.callback

namespace Single

theorem armed (h : Single calls) : (∃ t, ArmedAt calls wp t) ↔ ∃ m ∈ queue calls, m.stream = wp := by
  constructor
  · rintro ⟨t, ht⟩
    obtain ⟨g, hg⟩ := ht.run
    exact ⟨⟨g, wp, t⟩, (h.mem _).mpr ⟨ht, hg⟩, rfl⟩
  · rintro ⟨m, hm, rfl⟩
    exact ⟨_, ((h.mem m).mp hm).1⟩

theorem addEvent (h : Single calls) (ht : ∀ t ∈ addTimes calls, t ≤ time) :
    Single (calls ++ [.addEvent wp time func]) := by
  have hle : ∀ e ∈ queue calls, e.expiryTime ≤ time := fun e he => ht _ (h.times e he)
  have htimes : addTimes (calls ++ [.addEvent wp time func]) = addTimes calls ++ [time] := List.filterMap_append
  refine ⟨?_, ?_, fun e he => ?_, fun e => ?_⟩
  · rw [queue_snoc]
    exact h.sorted.addEvent (.inr ⟨filter_stream_le_one wp h.one, hle⟩)
  · rw [queue_snoc]
    exact nodup_addEvent h.one hle
  · rw [queue_snoc] at he
    rw [htimes, List.mem_append, List.mem_singleton]
    rcases (mem_addEvent h.one hle).mp he with ⟨he, -⟩ | ⟨m, -, -, rfl⟩ | ⟨-, rfl⟩
    · exact .inl (h.times e he)
    · exact .inr rfl
    · exact .inr rfl
  · rw [queue_snoc, Call.step, mem_addEvent h.one hle, runOf_snoc, armedAt_snoc]
    by_cases hs : wp = e.stream
    · subst hs
      have hnow : ∃ t, ArmedAt (calls ++ [.addEvent e.stream time func]) e.stream t :=
        ⟨time, (armedAt_snoc _).mpr (.inl ⟨func, rfl⟩)⟩
      constructor
      · rintro (⟨-, hne⟩ | ⟨m, hm, hms, he⟩ | ⟨hno, he⟩)
        · exact absurd rfl hne
        · have hrun := ((h.mem m).mp hm).2
          refine ⟨.inl ⟨func, ?_⟩, hnow, .inl ?_⟩
          · rw [he, expireAt]
          · rw [← hms, he]
            exact hrun
        · refine ⟨.inl ⟨func, ?_⟩, hnow, .inr ⟨fun t hat => ?_, time, ?_⟩⟩
          · rw [he]
          · obtain ⟨m, hm, hms⟩ := h.armed.mp ⟨t, hat⟩
            exact hno m hm hms.symm
          · rw [he]
      · rintro ⟨htime, -, hrun⟩
        have htime : e.expiryTime = time := by
          rcases htime with ⟨g, hg⟩ | ⟨-, hne⟩
          · injection hg with _ hg _
            exact hg.symm
          · exact absurd rfl hne
        rcases hrun with hrun | ⟨hidle, t, hc⟩
        · obtain ⟨t, hat⟩ := hrun.armed
          refine .inr (.inl ⟨⟨e.callback, e.stream, t⟩, (h.mem _).mpr ⟨hat, hrun⟩, rfl, ?_⟩)
          rw [expireAt, ← htime]
        · refine .inr (.inr ⟨fun m hm hms => ?_, ?_⟩)
          · exact hidle _ (hms ▸ ((h.mem m).mp hm).1)
          · injection hc with _ _ hc
            rw [hc, ← htime]
    · have hother : ∀ (t : τ) (g : Option κ), Call.addEvent wp time func ≠ .addEvent e.stream t g := by
        intro t g heq
        injection heq with heq
        exact hs heq
      constructor
      · rintro (⟨he, -⟩ | ⟨m, -, hms, rfl⟩ | ⟨-, rfl⟩)
        · obtain ⟨hat, hrun⟩ := (h.mem e).mp he
          exact ⟨.inr ⟨hat, hs⟩, ⟨_, (armedAt_snoc _).mpr (.inr ⟨hat, hs⟩)⟩, .inl hrun⟩
        · exact absurd hms.symm hs
        · exact absurd rfl hs
      · rintro ⟨hat | ⟨hat, -⟩, -, hrun | ⟨-, t, hc⟩⟩
        · exact absurd hat.choose_spec (hother _ _)
        · exact absurd hc (hother _ _)
        · exact .inl ⟨(h.mem e).mpr ⟨hat, hrun⟩, hs⟩
        · exact absurd hc (hother _ _)

theorem processEvents (h : Single calls) : Single (calls ++ [.processEvents now]) := by
  have hleft : queue (calls ++ [.processEvents now]) = (queue calls).filter fun e => now < e.expiryTime := by
    rw [queue_snoc]
    exact (h.sorted.runs now).left
  have htimes : addTimes (calls ++ [.processEvents now]) = addTimes calls := by
    rw [addTimes, List.filterMap_append]
    exact List.append_nil _
  refine ⟨?_, ?_, fun e he => ?_, fun e => ?_⟩
  · rw [hleft]
    exact List.Pairwise.filter _ h.sorted
  · rw [hleft]
    exact h.one.sublist (List.filter_sublist.map _)
  · rw [hleft] at he
    rw [htimes]
    exact h.times e (List.mem_of_mem_filter he)
  · rw [hleft, List.mem_filter, decide_eq_true_iff, h.mem, runOf_snoc, armedAt_snoc]
    constructor
    · rintro ⟨⟨hat, hrun⟩, hlt⟩
      exact ⟨.inr ⟨hat, hlt⟩, ⟨_, (armedAt_snoc _).mpr (.inr ⟨hat, hlt⟩)⟩, .inl hrun⟩
    · rintro ⟨⟨_, hc⟩ | ⟨hat, hlt⟩, -, hrun | ⟨-, t, hc⟩⟩
      · cases hc
      · cases hc
      · exact ⟨⟨hat, hrun⟩, hlt⟩
      · cases hc

end Single

theorem single_of_nondecreasing (hmono : (addTimes calls).Pairwise (· ≤ ·)) : Single calls := by
  induction calls using List.reverseRecOn with
  | nil =>
    refine ⟨List.Pairwise.nil, List.nodup_nil, nofun, fun e => ⟨nofun, ?_⟩⟩
    rintro ⟨⟨before, func, since, heq, -⟩, -⟩
    exact absurd heq (by simp)
  | append_singleton calls c ih =>
    rw [addTimes, List.filterMap_append] at hmono
    obtain ⟨hold, -, hle⟩ := List.pairwise_append.mp hmono
    cases c with
    | addEvent wp time func => exact (ih hold).addEvent fun t ht => hle t ht time (.head _)
    | processEvents now => exact (ih hold).processEvents

/-- The processing of a run takes out the event of the stream at its end and not before. -/
theorem Rearming.fires_nothing (hmono : (addTimes (before ++ .addEvent wp time func :: since)).Pairwise (· ≤ ·))
    (hr : Rearming before wp time func since) :
    ((fired (queue before) (.addEvent wp time func :: since)).filter fun e => wp = e.stream) = [] := by
  induction since using List.reverseRecOn with
  | nil => rfl
  | append_singleton since c ih =>
    have hpre : (addTimes (before ++ .addEvent wp time func :: since)).Pairwise (· ≤ ·) := by
      rw [← List.cons_append, ← List.append_assoc, addTimes, List.filterMap_append] at hmono
      exact (List.pairwise_append.mp hmono).1
    have hsingle := single_of_nondecreasing hpre
    rw [← List.cons_append, fired_append, List.filter_append, ih hpre hr.left, List.nil_append, foldl_queue, fired,
      fired, List.append_nil]
    cases c with
    | addEvent s t g => rfl
    | processEvents now =>
      rw [Call.fires, (hsingle.sorted.takeWhile_eq now).1, List.filter_eq_nil_iff]
      intro e he hs
      obtain ⟨he, hle⟩ := List.mem_filter.mp he
      rw [decide_eq_true_iff] at hle hs
      -- the stream is armed after this call too, so its deadline is later
      obtain ⟨t, hat⟩ := hr.2 (since ++ [.processEvents now]) [] (List.append_nil _).symm
      rw [← List.cons_append, ← List.append_assoc, armedAt_snoc] at hat
      rcases hat with ⟨g, hg⟩ | ⟨hat, hlt⟩
      · cases hg
      · obtain ⟨g, hg⟩ := hat.run
        have hmem : (⟨g, wp, t⟩ : TimeoutEvent σ τ κ) ∈ queue (before ++ .addEvent wp time func :: since) :=
          (hsingle.mem _).mpr ⟨hat, hg⟩
        have heq : e = ⟨g, wp, t⟩ := List.inj_on_of_nodup_map hsingle.one he hmem hs.symm
        rw [heq] at hle
        exact absurd hle (not_le.mpr hlt)

omit [LinearOrder τ] in
/-- In events with one for each stream the one of a stream is all that is of it. -/
theorem filter_stream_eq (hone : (q.map TimeoutEvent.stream).Nodup) (he : e ∈ q) :
    (q.filter fun x => e.stream = x.stream) = [e] := by
  have hle := filter_stream_le_one e.stream hone
  have hmem : e ∈ q.filter fun x => e.stream = x.stream := List.mem_filter.mpr ⟨he, decide_eq_true rfl⟩
  obtain ⟨x, hx⟩ := List.length_eq_one_iff.mp (Nat.le_antisymm hle (List.length_pos_of_mem hmem))
  rw [hx, List.mem_singleton] at hmem
  rw [hx, hmem]

end

/-! ### The map from streams to deadlines -/

/-- The deadline of each armed stream, with its callback. -/
abbrev Deadlines (σ τ κ : Type) := σ → Option (τ × Option κ)

/-- A stream that is armed keeps its callback. -/
def Deadlines.arm (d : Deadlines σ τ κ) (wp : σ) (time : τ) (func : Option κ) : Deadlines σ τ κ :=
  Function.update d wp (some (time, (d wp).elim func Prod.snd))

def Deadlines.expire (d : Deadlines σ τ κ) (now : τ) : Deadlines σ τ κ :=
  fun s => (d s).filter fun x => now < x.1

/-- The map that the events stand for. -/
def deadlines (q : Events σ τ κ) : Deadlines σ τ κ :=
  fun s => (q.find? fun e => e.stream = s).map fun e => (e.expiryTime, e.callback)

section

variable {q q' : Events σ τ κ} {wp s : σ} {time now t : τ} {func f : Option κ}

omit [LinearOrder τ] in
theorem deadlines_eq_some (hone : (q.map TimeoutEvent.stream).Nodup) :
    deadlines q s = some (t, f) ↔ ⟨f, s, t⟩ ∈ q := by
  constructor
  · intro h
    obtain ⟨e, he, heq⟩ := Option.map_eq_some_iff.mp h
    have hs := List.find?_some he
    obtain ⟨rfl, rfl⟩ := Prod.mk.inj heq
    rw [decide_eq_true_iff] at hs
    rw [← hs]
    exact List.mem_of_find?_eq_some he
  · intro h
    cases hf : q.find? fun e => e.stream = s with
    | none => exact absurd (decide_eq_true rfl) (List.find?_eq_none.mp hf _ h)
    | some e =>
      have hs := List.find?_some hf
      rw [decide_eq_true_iff] at hs
      have heq : e = ⟨f, s, t⟩ := List.inj_on_of_nodup_map hone (List.mem_of_find?_eq_some hf) h hs
      rw [deadlines, hf, heq]
      rfl

omit [LinearOrder τ] in
theorem deadlines_eq_none : deadlines q s = none ↔ ∀ e ∈ q, s ≠ e.stream := by
  rw [deadlines, Option.map_eq_none_iff, List.find?_eq_none]
  simp [eq_comm]

theorem deadlines_addEvent (hone : (q.map TimeoutEvent.stream).Nodup) (ht : ∀ e ∈ q, e.expiryTime ≤ time) :
    deadlines (addEvent wp time func q) = (deadlines q).arm wp time func := by
  funext s
  refine Option.ext fun ⟨t, f⟩ => ?_
  rw [deadlines_eq_some (nodup_addEvent hone ht), mem_addEvent hone ht, Deadlines.arm]
  by_cases hs : s = wp
  · subst hs
    rw [Function.update_self, Option.some.injEq, Prod.mk.injEq]
    cases hd : deadlines q s with
    | none =>
      have hno := deadlines_eq_none.mp hd
      constructor
      · rintro (⟨-, hne⟩ | ⟨m, hm, hms, -⟩ | ⟨-, heq⟩)
        · exact absurd rfl hne
        · exact absurd hms.symm (hno m hm)
        · injection heq with h1 h2 h3
          exact ⟨h3.symm, h1.symm⟩
      · rintro ⟨rfl, rfl⟩
        exact .inr (.inr ⟨hno, rfl⟩)
    | some x =>
      have hx := (deadlines_eq_some hone).mp hd
      constructor
      · rintro (⟨-, hne⟩ | ⟨m, hm, hms, heq⟩ | ⟨hno, -⟩)
        · exact absurd rfl hne
        · have hmx : m = ⟨x.2, s, x.1⟩ := List.inj_on_of_nodup_map hone hm hx hms
          rw [hmx, expireAt] at heq
          injection heq with h1 h2 h3
          exact ⟨h3.symm, h1.symm⟩
        · exact absurd rfl (hno _ hx)
      · rintro ⟨rfl, rfl⟩
        exact .inr (.inl ⟨_, hx, rfl, rfl⟩)
  · rw [Function.update_of_ne hs, deadlines_eq_some hone]
    constructor
    · rintro (⟨hm, -⟩ | ⟨m, -, hms, heq⟩ | ⟨-, heq⟩)
      · exact hm
      · injection heq with _ heq _
        exact absurd (heq.trans hms) hs
      · injection heq with _ heq _
        exact absurd heq hs
    · intro hm
      exact .inl ⟨hm, Ne.symm hs⟩

theorem deadlines_processEvents (hq : Sorted q) (hone : (q.map TimeoutEvent.stream).Nodup) :
    deadlines (processEvents now q).left = (deadlines q).expire now := by
  rw [(hq.runs now).left]
  funext s
  refine Option.ext fun ⟨t, f⟩ => ?_
  rw [deadlines_eq_some (hone.sublist (List.filter_sublist.map _)), List.mem_filter, decide_eq_true_iff,
    Deadlines.expire, Option.filter_eq_some_iff, deadlines_eq_some hone, decide_eq_true_iff]

end

/-- What a queue does with streams that are armed again. -/
structure Refines (calls : List (Call σ τ κ)) : Prop where
  one : ((queue calls).map TimeoutEvent.stream).Nodup
  event : ∀ e, e ∈ queue calls ↔ ArmedAt calls e.stream e.expiryTime ∧ RunOf calls e.stream e.callback
  start : deadlines (queue ([] : List (Call σ τ κ))) = fun _ => none
  arm : ∀ before since wp time func, calls = before ++ .addEvent wp time func :: since →
    deadlines (queue (before ++ [.addEvent wp time func])) = (deadlines (queue before)).arm wp time func
  expire : ∀ before since now, calls = before ++ .processEvents now :: since →
    deadlines (queue (before ++ [.processEvents now])) = (deadlines (queue before)).expire now ∧
      RunsExpired now (queue before)
  once : ∀ before wp time func since now t rest,
    calls = before ++ .addEvent wp time func :: since ++ .processEvents now :: rest →
      Rearming before wp time func since → ArmedAt (before ++ .addEvent wp time func :: since) wp t → t ≤ now →
        ((fired (queue before) (.addEvent wp time func :: since ++ [.processEvents now])).filter
          fun e => wp = e.stream) = [⟨func, wp, t⟩]

theorem rearmed_streams_expire_once (calls : List (Call σ τ κ)) (hmono : (addTimes calls).Pairwise (· ≤ ·)) :
    Refines calls := by
  have hsingle := single_of_nondecreasing hmono
  -- every history that this one begins with
  have hbefore : ∀ {a b : List (Call σ τ κ)}, calls = a ++ b → (addTimes a).Pairwise (· ≤ ·) := by
    rintro a b rfl
    rw [addTimes, List.filterMap_append] at hmono
    exact (List.pairwise_append.mp hmono).1
  refine ⟨hsingle.one, hsingle.mem, rfl, ?_, ?_, ?_⟩
  · intro before since wp time func heq
    have hb := single_of_nondecreasing (hbefore heq)
    rw [queue_snoc]
    refine deadlines_addEvent hb.one fun e he => ?_
    rw [heq, addTimes, List.filterMap_append] at hmono
    exact (List.pairwise_append.mp hmono).2.2 _ (hb.times e he) time (.head _)
  · intro before since now heq
    have hb := single_of_nondecreasing (hbefore heq)
    rw [queue_snoc]
    exact ⟨deadlines_processEvents hb.sorted hb.one, hb.sorted.runs now⟩
  · intro before wp time func since now t rest heq hr hat hle
    have hpre := hbefore heq
    have hs := single_of_nondecreasing hpre
    have hmem : (⟨func, wp, t⟩ : TimeoutEvent σ τ κ) ∈ queue (before ++ .addEvent wp time func :: since) :=
      (hs.mem _).mpr ⟨hat, before, time, since, rfl, hr⟩
    have hlast := filter_stream_eq hs.one hmem
    rw [fired_append, List.filter_append, hr.fires_nothing hpre, List.nil_append, foldl_queue, fired, fired,
      List.append_nil, Call.fires, (hs.sorted.takeWhile_eq now).1, List.filter_comm, hlast]
    exact List.filter_eq_self.mpr fun e he => by simpa [List.mem_singleton.mp he] using hle

/-- A stream is armed, armed again before its time, and its callback is run by the processing after its
new deadline. -/
theorem a_rearmed_stream_expires_once :
    Refines [.addEvent 1 10 (some 'a'), .processEvents 5, .addEvent 2 20 (some 'b'), .addEvent 1 30 (some 'c'),
        .processEvents 25, .processEvents (40 : Nat)] ∧
      fired [] [.addEvent 1 10 (some 'a'), .processEvents 5, .addEvent 2 20 (some 'b'), .addEvent 1 30 (some 'c'),
        .processEvents 25, .processEvents (40 : Nat)] = [⟨some 'b', 2, 20⟩, ⟨some 'a', (1 : Nat), 30⟩] := by
  refine ⟨rearmed_streams_expire_once _ ?_, ?_⟩
  · decide
  · decide

end TimerQueue

end cloudbus
