-- The interest in poll events. A stream that has bytes to send must be polled for
-- output, and a stream whose input waits must be polled for input again when
-- there is room. Each function is followed once: which interest it clears, and
-- which streams it writes.
import Cloudbus.ControllerTurns
import Cloudbus.SegmentTurns

namespace cloudbus

open cloudbus.io cloudbus.messages Connector

/-! ## Handles of streams -/

theorem io.stream_write_handle {σ : Type} [Istream σ] (fuel : Nat) (os : Sockstream) (is : σ) :
    (stream_write fuel os is).1.native_handle = os.native_handle := by
  induction fuel generalizing os is with
  | zero => rfl
  | succ fuel ih =>
    unfold stream_write
    split
    · rfl
    · rename_i b bs is' _
      have hw := (os.write_pushed (b :: bs)).handle
      dsimp only
      split
      · exact hw
      · rw [ih, hw]

theorem io.stream_write_upto_handle {σ : Type} [Istream σ] (fuel : Nat) (os : Sockstream) (is : σ)
    (maxlen : Nat) : (stream_write_upto fuel os is maxlen).1.native_handle = os.native_handle := by
  induction fuel generalizing os is maxlen with
  | zero => rfl
  | succ fuel ih =>
    unfold stream_write_upto
    split
    · rfl
    · split
      · rfl
      · rename_i b bs is' _
        have hw := (os.write_pushed (b :: bs)).handle
        dsimp only
        split
        · exact hw
        · rw [ih, hw]

theorem io.Sockstream.flush_nil {s : Sockstream} (h : s.parea = []) : s.flush.parea = [] := by
  have hle := s.flush_parea
  rw [h] at hle
  exact List.length_eq_zero_iff.mp (Nat.le_zero.mp hle)

/-! ## The interest of one stream -/

namespace Connector

variable (st : Connector) (i j : StreamId) (m : Mask)

theorem interest_setTrigger :
    (st.setTrigger i m).interest.get j = if j = i then (st.interest.get i).union m else st.interest.get j :=
  st.interest.get_modify i j _

theorem interest_clearTrigger :
    (st.clearTrigger i m).interest.get j =
      if j = i then (st.interest.get i).without m else st.interest.get j :=
  st.interest.get_modify i j _

theorem interest_clearTriggers :
    (st.clearTriggers i).interest.get j = if j = i then {} else st.interest.get j :=
  st.interest.get_set i j _

theorem interest_deferInput :
    (st.deferInput i).interest.get j =
      if j = i then (st.interest.get i).without (Mask.POLLIN.union Mask.POLLHUP) else st.interest.get j :=
  st.interest.get_modify i j _

end Connector

/-- The stream is polled for output. One without a socket is, once it has one. -/
def Armed (st : Connector) (i : StreamId) : Prop :=
  (st.sock i).native_handle = BAD_SOCKET ∨ (st.interest.get i).pollout

/-- The stream has bytes to send, and nothing will make it send them. -/
structure Stranded (st : Connector) (i : StreamId) : Prop where
  live : st.live i
  waits : (st.sock i).parea ≠ []
  unarmed : ¬ Armed st i

theorem armed_setTrigger (st : Connector) (i : StreamId) {m : Mask} (hm : m.pollout) :
    Armed (st.setTrigger i m) i := by
  right
  rw [interest_setTrigger, if_pos rfl]
  simp [Mask.union, hm]

theorem armed_setTriggerOpen (st : Connector) (i : StreamId) {m : Mask} (hm : m.pollout) :
    Armed (st.setTriggerOpen i m) i := by
  unfold setTriggerOpen
  split
  · exact .inl ‹_›
  · exact armed_setTrigger st i hm

/-- What a handler of the stream `i` leaves of the interest: other streams are still polled
for input, and no stream is stranded by it. -/
structure Polled (i : StreamId) (st st' : Connector) : Prop where
  pollin : ∀ j, j ≠ i → (st.interest.get j).pollin → (st'.interest.get j).pollin
  stranded : ∀ j, Stranded st' j → Stranded st j

/-- A part of a handler that clears no interest in output. -/
structure Arming (i : StreamId) (st st' : Connector) : Prop extends Polled i st st' where
  armed : ∀ j, Armed st j → Armed st' j

namespace Polled

variable {i : StreamId} {st st' st'' : Connector}

theorem trans (h : Polled i st st') (h' : Polled i st' st'') : Polled i st st'' :=
  ⟨fun j hj hp => h'.pollin j hj (h.pollin j hj hp), fun j hs => h.stranded j (h'.stranded j hs)⟩

/-- The stream of the handler goes away. -/
theorem erased {a : Connector} (he : a.eps = st.eps)
    (hi : ∀ j, j ≠ i → a.interest.get j = st.interest.get j) (cs : List Connection) :
    Polled i st (a.erase i cs) := by
  refine ⟨fun j hj hp => ?_, fun j hs => ?_⟩
  · show (a.interest.get j).pollin = true
    rw [hi j hj]
    exact hp
  · have hl := hs.live
    rw [live_erase] at hl
    by_cases hj : j = i
    · rw [if_pos hj] at hl
      cases hl
    · rw [if_neg hj, live, ep, he] at hl
      have hsock : (a.erase i cs).sock j = st.sock j := by
        rw [sock_erase, sock, sock, ep, ep, he]
      refine ⟨hl, hsock ▸ hs.waits, fun ha => hs.unarmed ?_⟩
      rw [Armed, hsock]
      show _ ∨ (a.interest.get j).pollout = true
      rw [hi j hj]
      exact ha

/-- The stream of the handler goes away, and its interest with it. -/
theorem gone (i : StreamId) (st : Connector) (cs : List Connection) :
    Polled i st ((st.clearTriggers i).erase i cs) := by
  have hi : ∀ j, j ≠ i → (st.clearTriggers i).interest.get j = st.interest.get j :=
    fun j hj => (interest_clearTriggers st i j).trans (if_neg hj)
  have he : (st.clearTriggers i).eps = st.eps := rfl
  exact erased he hi cs

end Polled

namespace Arming

variable {i : StreamId} {st st' st'' : Connector}

theorem trans (h : Arming i st st') (h' : Arming i st' st'') : Arming i st st'' :=
  ⟨h.toPolled.trans h'.toPolled, fun j ha => h'.armed j (h.armed j ha)⟩

/-- Handles stay, no put area starts to fill, and the interest only grows. -/
theorem of_less (hl : ∀ j, st'.live j = st.live j)
    (hh : ∀ j, (st'.sock j).native_handle = (st.sock j).native_handle)
    (hp : ∀ j, (st.sock j).parea = [] → (st'.sock j).parea = [])
    (hin : ∀ j, j ≠ i → (st.interest.get j).pollin → (st'.interest.get j).pollin)
    (hout : ∀ j, (st.interest.get j).pollout → (st'.interest.get j).pollout) : Arming i st st' := by
  have harm : ∀ j, Armed st j → Armed st' j := by
    rintro j (hb | ho)
    · exact .inl ((hh j).trans hb)
    · exact .inr (hout j ho)
  refine ⟨⟨hin, fun j hs => ⟨hl j ▸ hs.live, fun h => hs.waits (hp j h), fun ha => hs.unarmed (harm j ha)⟩⟩,
    harm⟩

theorem of_same (hl : ∀ j, st'.live j = st.live j) (hs : ∀ j, st'.sock j = st.sock j)
    (hi : st'.interest = st.interest) : Arming i st st' :=
  of_less hl (fun j => by rw [hs]) (fun j h => by rw [hs]; exact h) (fun j _ h => by rw [hi]; exact h)
    (fun j h => by rw [hi]; exact h)

theorem of_eps (he : st'.eps = st.eps) (hi : st'.interest = st.interest) : Arming i st st' :=
  of_same (fun j => by rw [live, live, ep, ep, he]) (fun j => by rw [sock, sock, ep, ep, he]) hi

theorem refl (i : StreamId) (st : Connector) : Arming i st st := of_eps rfl rfl

variable {d : StreamId}

/-- Whatever happens to one stream, when it is polled for output in the end. -/
theorem of_one (hs : ∀ j, j ≠ d → st'.sock j = st.sock j) (hl : ∀ j, j ≠ d → st'.live j = st.live j)
    (hi : ∀ j, j ≠ d → st'.interest.get j = st.interest.get j)
    (hin : (st.interest.get d).pollin → (st'.interest.get d).pollin) (ha : Armed st' d) : Arming i st st' := by
  have hsame : ∀ j, j ≠ d → (Armed st' j ↔ Armed st j) := fun j hj => by
    rw [Armed, Armed, hs j hj, hi j hj]
  refine ⟨⟨fun j _ hp => ?_, fun j h => ?_⟩, fun j h => ?_⟩
  · by_cases hj : j = d
    · subst hj
      exact hin hp
    · rw [hi j hj]
      exact hp
  · by_cases hj : j = d
    · subst hj
      exact absurd ha h.unarmed
    · exact ⟨hl j hj ▸ h.live, hs j hj ▸ h.waits, fun hj' => h.unarmed ((hsame j hj).mpr hj')⟩
  · by_cases hj : j = d
    · subst hj
      exact ha
    · exact (hsame j hj).mpr h

/-- A stream that is polled may be written. -/
theorem setSock {s : Sockstream} (hh : s.native_handle = (st.sock d).native_handle)
    (ha : Armed st d) : Arming i st (st.setSock d s) := by
  refine of_one (d := d) (fun j hj => ?_) (fun j _ => live_setSock st d j s) (fun _ _ => rfl) id ?_
  · rw [sock_setSock, if_neg hj]
  · rw [Armed, sock_setSock, if_pos rfl, hh]
    exact ha

/-- Any stream may be flushed or read. -/
theorem setSock_less {s : Sockstream} (hh : s.native_handle = (st.sock d).native_handle)
    (hp : (st.sock d).parea = [] → s.parea = []) : Arming i st (st.setSock d s) := by
  refine of_less (fun j => live_setSock st d j s) (fun j => ?_) (fun j h => ?_) (fun _ _ h => h) (fun _ h => h)
  · rw [sock_setSock]
    split
    · rename_i hj
      rw [hj, hh]
    · rfl
  · rw [sock_setSock]
    split
    · rename_i hj
      exact hp (hj ▸ h)
    · exact h

theorem flushSock (i : StreamId) (st : Connector) (d : StreamId) : Arming i st (st.flushSock d) :=
  setSock_less (st.sock d).flush_pushed.handle Sockstream.flush_nil

theorem setFrame (i : StreamId) (st : Connector) (d : StreamId) (x : Xmsgstream) :
    Arming i st (st.setFrame d x) :=
  of_same (fun j => live_setFrame st d j x) (fun j => sock_setFrame st d j x) rfl

theorem setChunk (i : StreamId) (st : Connector) (d : StreamId) (c : Stringstream) :
    Arming i st (st.setChunk d c) :=
  of_same (fun j => live_setChunk st d j c) (fun j => sock_setChunk st d j c) rfl

theorem note (i : StreamId) (st : Connector) (o : Obs) : Arming i st (st.note o) := of_eps rfl rfl

theorem setConn (i : StreamId) (st : Connector) (k : Nat) (c : Connection) :
    Arming i st (st.setConn k c) := of_eps rfl rfl

theorem setTrigger (i : StreamId) (st : Connector) (d : StreamId) (m : Mask) :
    Arming i st (st.setTrigger d m) := by
  refine of_less (fun _ => rfl) (fun _ => rfl) (fun _ h => h) (fun j _ h => ?_) (fun j h => ?_)
  · rw [interest_setTrigger]
    split
    · rename_i hj
      rw [hj] at h
      simp [Mask.union, h]
    · exact h
  · rw [interest_setTrigger]
    split
    · rename_i hj
      rw [hj] at h
      simp [Mask.union, h]
    · exact h

theorem setTriggerOpen (i : StreamId) (st : Connector) (d : StreamId) (m : Mask) :
    Arming i st (st.setTriggerOpen d m) := by
  unfold Connector.setTriggerOpen
  split
  · exact refl i st
  · exact setTrigger i st d m

/-- The handler of `i` may stop to read it. -/
theorem deferInput (i : StreamId) (st : Connector) : Arming i st (st.deferInput i) := by
  refine of_less (fun _ => rfl) (fun _ => rfl) (fun _ h => h) (fun j hj h => ?_) (fun j h => ?_)
  · rw [interest_deferInput, if_neg hj]
    exact h
  · rw [interest_deferInput]
    split
    · rename_i hj
      rw [hj] at h
      simp [Mask.without, Mask.union, Mask.POLLIN, Mask.POLLHUP, h]
    · exact h

theorem clearInput (i : StreamId) (st : Connector) : Arming i st (st.clearTrigger i Mask.POLLIN) := by
  refine of_less (fun _ => rfl) (fun _ => rfl) (fun _ h => h) (fun j hj h => ?_) (fun j h => ?_)
  · rw [interest_clearTrigger, if_neg hj]
    exact h
  · rw [interest_clearTrigger]
    split
    · rename_i hj
      rw [hj] at h
      simp [Mask.without, Mask.POLLIN, h]
    · exact h

/-- A new stream without a socket. -/
theorem make (i : StreamId) (st : Connector) (f : Iface) : Arming i st (st.make f BAD_SOCKET) := by
  refine of_one (d := st.next) (fun j hj => ?_) (fun j hj => ?_) (fun _ _ => rfl) id (.inl ?_)
  · rw [sock_make, if_neg hj]
  · rw [live_make, if_neg hj]
  · rw [sock_make, if_pos rfl]
    rfl

/-- A stream got its socket. -/
theorem dial (i : StreamId) (st : Connector) (d : StreamId) (s : Sockstream) :
    Arming i st ((st.setSock d s).setTrigger d (Mask.POLLIN.union Mask.POLLOUT)) := by
  refine of_one (d := d) (fun j hj => ?_) (fun j _ => live_setSock st d j s) (fun j hj => ?_) (fun h => ?_)
    (armed_setTrigger _ d rfl)
  · show (st.setSock d s).sock j = st.sock j
    rw [sock_setSock, if_neg hj]
  · rw [interest_setTrigger, if_neg hj]
    rfl
  · rw [interest_setTrigger, if_pos rfl]
    simp [Mask.union, Mask.POLLIN]

/-- A header without payload goes to a stream that is polled from then on. -/
theorem header (i : StreamId) (st : Connector) (cid : Option Nat) (d : StreamId) (eid : Uuid) (t : Msgtype) :
    Arming i st ((st.writeHeader cid d eid t).setTrigger d Mask.POLLOUT) := by
  refine of_one (d := d) (fun j hj => ?_) (fun j _ => live_setSock st d j _) (fun j hj => ?_) (fun h => ?_)
    (armed_setTrigger _ d rfl)
  · show (st.setSock d _).sock j = st.sock j
    rw [sock_setSock, if_neg hj]
  · rw [interest_setTrigger, if_neg hj]
    rfl
  · rw [interest_setTrigger, if_pos rfl]
    show ((st.interest.get d).union Mask.POLLOUT).pollin = true
    simp [Mask.union, h]

/-- The stream `d` was read. -/
theorem read {bs : List UInt8} (hl : ∀ j, st'.live j = st.live j) (hs : ∀ j, j ≠ d → st'.sock j = st.sock j)
    (hp : Pulled (st.sock d) bs (st'.sock d)) (hi : st'.interest = st.interest) : Arming i st st' := by
  refine of_less hl (fun j => ?_) (fun j h => ?_) (fun j _ h => by rw [hi]; exact h) fun j h => by rw [hi]; exact h
  · by_cases hj : j = d
    · rw [hj, hp.handle]
    · rw [hs j hj]
  · by_cases hj : j = d
    · rw [hj, hp.parea, ← hj]
      exact h
    · rw [hs j hj]
      exact h

theorem foldl {α : Type} {turn : Connector → α → Connector} (h : ∀ st a, Arming i st (turn st a))
    (l : List α) (st : Connector) : Arming i st (l.foldl turn st) := by
  induction l generalizing st with
  | nil => exact refl i st
  | cons a l ih => exact (h st a).trans (ih (turn st a))

theorem takeErrors (i : StreamId) (st : Connector) (d : StreamId) : Arming i st (st.takeErrors d) := by
  unfold Connector.takeErrors
  split
  · exact setSock_less rfl id
  · exact refl i st

theorem enter (i : StreamId) (st : Connector) (d : StreamId) (m : Mask) : Arming i st (st.enter d m) := by
  unfold Connector.enter
  split
  · refine (of_eps rfl rfl : Arming i st (st.setRevents m)).trans (foldl (fun a c => ?_) _ _)
    unfold wakeTurn
    split
    · exact setTrigger i a _ _
    · exact refl i a
  · exact of_eps rfl rfl

end Arming

theorem interest_dropInput (st : Connector) (i : StreamId) : (st.dropInput i).interest = st.interest := by
  unfold dropInput
  split <;> rfl

variable {i : StreamId} {st : Connector}

/-- A stream that was accepted has nothing to send yet. -/
theorem Stranded.of_accept {fd : Int}
    (h : Stranded ((st.make .north fd).setTrigger st.next Mask.POLLIN) i) : Stranded st i := by
  obtain ⟨hl, hw, ha⟩ := h
  have hsock : ((st.make .north fd).setTrigger st.next Mask.POLLIN).sock i = (st.make .north fd).sock i := rfl
  have hi : i ≠ st.next := by
    rintro rfl
    rw [hsock, sock_make, if_pos rfl] at hw
    exact hw rfl
  rw [hsock, sock_make, if_neg hi] at hw
  refine ⟨?_, hw, fun h => ha ?_⟩
  · have hl' : (st.make .north fd).live i := hl
    rwa [live_make, if_neg hi] at hl'
  · rw [Armed, hsock, sock_make, if_neg hi, interest_setTrigger, if_neg hi]
    exact h

theorem Stranded.of_pushRx {d : StreamId} {r : Recv} (h : Stranded (st.pushRx d r) i) : Stranded st i := by
  have hpush : Arming i st (st.pushRx d r) := .setSock_less rfl id
  exact hpush.stranded i h

theorem Stranded.of_pushTx {d : StreamId} {a : Send} (h : Stranded (st.pushTx d a) i) : Stranded st i := by
  have hpush : Arming i st (st.pushTx d a) := .setSock_less rfl id
  exact hpush.stranded i h

theorem Connector.finishOut_sock (st : Connector) (i j : StreamId) : (st.finishOut i).sock j = st.sock j := by
  unfold finishOut
  split <;> rfl

theorem Connector.interest_finishOut (st : Connector) {j : StreamId} (hj : j ≠ i) :
    (st.finishOut i).interest.get j = st.interest.get j := by
  unfold finishOut
  split
  · exact (interest_clearTrigger st i j _).trans (if_neg hj)
  · rfl

/-- The stream was flushed, and there was no error. -/
theorem Connector.pollout_ok (st : Connector) (i : StreamId) {a : Connector}
    (h : st.pollout_handler i = (a, false)) : a.sock i = (st.sock i).flush ∧ (a.sock i).fail = false := by
  unfold pollout_handler at h
  dsimp only at h
  split at h
  · cases h
  · rename_i hfail
    rw [Prod.mk.injEq] at h
    have hsock : a.sock i = ((st.takeErrors i).flushSock i).sock i := by
      rw [← h.1, finishOut_sock]
    rw [hsock]
    refine ⟨?_, by simpa using hfail⟩
    -- a stream with an error is bad, and the flush does not change that
    have herr : st.takeErrors i = st := by
      by_contra hne
      refine hfail ?_
      have hbad : ((st.takeErrors i).sock i).bad := by
        unfold takeErrors at hne ⊢
        split at hne
        · rw [if_pos ‹_›, sock_setSock, if_pos rfl]
          rfl
        · exact absurd rfl hne
      rw [flushSock, sock_setSock, if_pos rfl]
      have hbad' := ((st.takeErrors i).sock i).flush_pushed.badbit hbad
      rw [Sockstream.fail, Iostate.fail, Bool.or_eq_true]
      exact .inr hbad'
    rw [herr, flushSock, sock_setSock, if_pos rfl]

/-- A stream is polled for output until it has nothing to send. -/
theorem pollout_polled (i : StreamId) (st : Connector) : Polled i st (st.pollout_handler i).1 := by
  have hflush : Arming i st ((st.takeErrors i).flushSock i) :=
    (Arming.takeErrors i st i).trans (.flushSock i _ i)
  unfold pollout_handler
  dsimp only
  generalize (st.takeErrors i).flushSock i = a at hflush ⊢
  split
  · exact hflush.toPolled
  · rename_i hfail
    refine hflush.toPolled.trans ?_
    unfold finishOut
    by_cases hp : (a.sock i).tellp = 0
    · rw [if_pos hp]
      have hnil : (a.sock i).parea = [] := by
        rw [Sockstream.tellp, if_neg hfail] at hp
        exact List.length_eq_zero_iff.mp (Int.ofNat_eq_zero.mp hp)
      have hother : ∀ j, j ≠ i → (a.clearTrigger i Mask.POLLOUT).interest.get j = a.interest.get j :=
        fun j hj => (interest_clearTrigger a i j _).trans (if_neg hj)
      refine ⟨fun j hj h => ?_, fun j hs => ⟨hs.live, hs.waits, fun ha => hs.unarmed ?_⟩⟩
      · show ((a.clearTrigger i Mask.POLLOUT).interest.get j).pollin = true
        rw [hother j hj]
        exact h
      · have hj : j ≠ i := by
          rintro rfl
          exact hs.waits hnil
        show (a.sock j).native_handle = BAD_SOCKET ∨ ((a.clearTrigger i Mask.POLLOUT).interest.get j).pollout = true
        rw [hother j hj]
        exact ha
    · rw [if_neg hp]
      exact Arming.toPolled (.of_eps rfl rfl)

end cloudbus

/-! ## The controller -/

namespace cloudbus.controller

open cloudbus.io cloudbus.messages Connector

variable (i : StreamId)

theorem write_prepare_arming (n : StreamId) (p : Nat) (cs : List Connection) (st : Connector) :
    Arming i st (write_prepare n p cs st).1 := by
  induction cs generalizing st with
  | nil => exact .refl i st
  | cons c cs ih =>
    unfold write_prepare
    split
    · dsimp only
      split
      · exact ih st
      · have hflush : Arming i st (if (MAX_BUFSIZE : Int) - (p + HDRLEN : Nat) ≤ (st.sock c.south).tellp then
            st.flushSock c.south else st) := by
          split
          · exact .flushSock i st c.south
          · exact .refl i st
        generalize (if (MAX_BUFSIZE : Int) - (p + HDRLEN : Nat) ≤ (st.sock c.south).tellp then
            st.flushSock c.south else st) = st1 at hflush ⊢
        split
        · exact hflush.trans (ih st1)
        · split
          · exact hflush
          · exact hflush.trans (ih st1)
    · exact ih st

theorem writeChunk_handle (n : StreamId) (st : Connector) (c : Connection) (type : Msgtype) :
    (stream_write_upto (st.chunk n).tellp
      ((st.sock c.south).write (Msgheader.of c.uuid (st.chunk n).tellp type).encode)
      (st.chunk n).rewindg (st.chunk n).tellp).1.native_handle = (st.sock c.south).native_handle := by
  rw [stream_write_upto_handle, (Sockstream.write_pushed _ _).handle]

variable {st : Connector} {j : StreamId}

theorem writeChunk_arming (n : StreamId) (type : Msgtype) {c : Connection}
    (ha : Armed st c.south) : Arming i st (writeChunk n type st c) :=
  ((Arming.setSock (writeChunk_handle n st c type) ha).trans (.setChunk i _ n _)).trans (.note i _ _)

theorem send_arming (n : StreamId) (type : Msgtype) (st : Connector) (k : Nat) :
    Arming i st (send n type st k) := by
  unfold send
  split
  · rename_i c _
    split
    · refine Arming.trans ?_ (.setConn i _ k _)
      -- the write comes before the interest, so the two are one step
      have hsock : ∀ j, ((writeChunk n type st c).setTriggerOpen c.south Mask.POLLOUT).sock j =
          (writeChunk n type st c).sock j := fun j => by
        unfold setTriggerOpen
        split <;> rfl
      have hlive : ∀ j, ((writeChunk n type st c).setTriggerOpen c.south Mask.POLLOUT).live j = st.live j :=
        fun j => by
          unfold setTriggerOpen
          split <;> exact (writeChunk_spec n type st c).keeps.live j
      refine .of_one (d := c.south) (fun j hj => ?_) (fun j _ => hlive j) (fun j hj => ?_) (fun h => ?_)
        (armed_setTriggerOpen _ c.south rfl)
      · rw [hsock]
        unfold writeChunk
        dsimp only
        rw [sock_note, sock_setChunk, sock_setSock, if_neg hj]
      · unfold setTriggerOpen
        split
        · rfl
        · rw [interest_setTrigger, if_neg hj]
          rfl
      · unfold setTriggerOpen
        split
        · exact h
        · rw [interest_setTrigger, if_pos rfl]
          show ((st.interest.get c.south).union Mask.POLLOUT).pollin = true
          simp [Mask.union, h]
    · exact .refl i st
  · exact .refl i st

theorem select_stream_arming (b : Nat) (p : Pick) (st : Connector) :
    Arming i st (select_stream b p st).1 := by
  unfold select_stream
  split
  · split
    · exact .refl i st
    · exact .make i st _
  · exact .make i st _

theorem prepareStream_arming (n s : StreamId) (fd : Option Int) (st : Connector) :
    Arming i st (prepareStream n s fd st) ∧ Armed (prepareStream n s fd st) s := by
  unfold prepareStream
  split
  · have ha := armed_setTrigger st s (m := Mask.POLLIN.union Mask.POLLOUT) rfl
    have hset : Arming i (st.setTrigger s (Mask.POLLIN.union Mask.POLLOUT))
        ((st.setTrigger s (Mask.POLLIN.union Mask.POLLOUT)).setSock s (st.sock s).clear_failbit) :=
      .setSock rfl ha
    exact ⟨(Arming.setTrigger i st s _).trans hset, hset.armed s ha⟩
  · rename_i hbad
    cases fd with
    | some fd => exact ⟨.dial i st s _, armed_setTrigger _ s rfl⟩
    | none => exact ⟨.of_eps rfl rfl, .inl (not_not.mp hbad)⟩

/-- The transports of a new session may be written. -/
theorem connectLoop_arming (n : StreamId) (b : Nat) (ps : List Pick) (eid : Uuid) (st : Connector) :
    Arming i st (connectLoop n b ps eid st).1 ∧
      ∀ c ∈ (connectLoop n b ps eid st).2, Armed (connectLoop n b ps eid st).1 c.south := by
  induction ps generalizing b eid st with
  | nil => exact ⟨.refl i st, nofun⟩
  | cons p ps ih =>
    unfold connectLoop
    dsimp only
    have hsel := select_stream_arming i b p st
    obtain ⟨hprep, ha⟩ := prepareStream_arming i n (select_stream b p st).2 p.fd (select_stream b p st).1
    generalize prepareStream n (select_stream b p st).2 p.fd (select_stream b p st).1 = st1 at hprep ha ⊢
    have hnext : Arming i st1 { st1 with ncid := st1.ncid + 1 } := .of_eps rfl rfl
    obtain ⟨hrest, hall⟩ := ih (b + 1) (bumpEid st1.mode eid) { st1 with ncid := st1.ncid + 1 }
    refine ⟨((hsel.trans hprep).trans hnext).trans hrest, fun c hc => ?_⟩
    rcases List.mem_cons.mp hc with rfl | hc
    · exact hrest.armed _ (hnext.armed _ ha)
    · exact hall c hc

theorem sendInit_arming (n : StreamId) (type : Msgtype) (cs : List Connection) (st : Connector)
    (ha : ∀ c ∈ cs, Armed st c.south) : Arming i st (cs.foldl (sendInit n type) st) := by
  induction cs generalizing st with
  | nil => exact .refl i st
  | cons c cs ih =>
    have hone : Arming i st (sendInit n type st c) := by
      unfold sendInit
      split
      · exact writeChunk_arming i n type (ha c (.head _))
      · exact .refl i st
    exact hone.trans (ih _ fun d hd => hone.armed _ (ha d (.tail _ hd)))

theorem north_connect_arming (o : Oracle) (n : StreamId) (st : Connector) :
    Arming i st (north_connect o n st).1 := by
  unfold north_connect
  split
  · exact .refl i st
  · dsimp only
    obtain ⟨hloop, ha⟩ := connectLoop_arming i n 0 o.picks o.eid st
    generalize connectLoop n 0 o.picks o.eid st = r at hloop ha ⊢
    have hprep := write_prepare_arming i n (r.1.chunk n).tellp r.2 r.1
    generalize write_prepare n (r.1.chunk n).tellp r.2 r.1 = w at hprep ⊢
    obtain ⟨a, full⟩ := w
    have hins : ∀ b : Connector, Arming i b (insert b r.2) := fun b => .of_eps rfl rfl
    cases full with
    | true => exact (hloop.trans hprep).trans (hins a)
    | false =>
      have hsend := sendInit_arming i n (if (r.1.sock n).eof then ⟨STOP, INIT⟩ else ⟨DATA, INIT⟩) r.2 a
        fun c hc => hprep.armed _ (ha c hc)
      exact ((hloop.trans hprep).trans hsend).trans (hins _)

theorem finishNorth_arming (n : StreamId) (st : Connector) : Arming n st (finishNorth n st) := by
  unfold finishNorth
  split
  · exact (Arming.setTrigger n st n _).trans (.clearInput n _)
  · exact .refl n st

theorem route_north_arming (o : Oracle) (n : StreamId) (st : Connector) :
    Arming n st (route_north o n st).1 := by
  unfold route_north
  dsimp only
  split
  · have hprep := write_prepare_arming n n (st.chunk n).tellp st.connections st
    generalize write_prepare n (st.chunk n).tellp st.connections st = w at hprep ⊢
    obtain ⟨a, full⟩ := w
    cases full with
    | true => exact hprep.trans (.deferInput n a)
    | false =>
      dsimp only
      have hsend : ∀ type, Arming n st (sendAll n type a) := fun type =>
        hprep.trans (.foldl (send_arming n n type) _ a)
      have hsent := hsend ⟨if (st.sock n).eof then STOP else DATA, 0⟩
      generalize sendAll n ⟨if (st.sock n).eof then STOP else DATA, 0⟩ a = b at hsent ⊢
      split
      · have hconn := hsent.trans (north_connect_arming n o n b)
        generalize north_connect o n b = r at hconn ⊢
        obtain ⟨c, status⟩ := r
        dsimp only at hconn ⊢
        split
        · exact hconn
        · split
          · exact hconn.trans (.deferInput n c)
          · exact hconn.trans (finishNorth_arming n c)
      · exact hsent.trans (finishNorth_arming n b)
  · exact finishNorth_arming n st

theorem south_write_arming (s n : StreamId) (cid : Nat) (ha : Armed st n) : Arming i st (south_write s n cid st).1 := by
  unfold south_write
  dsimp only
  split
  · exact .refl i st
  · have hflush : Arming i st (if (MAX_BUFSIZE : Int) - ((st.frame s).tellp - (st.frame s).tellg : Nat) ≤
        (st.sock n).tellp then st.flushSock n else st) := by
      split
      · exact .flushSock i st n
      · exact .refl i st
    generalize (if (MAX_BUFSIZE : Int) - ((st.frame s).tellp - (st.frame s).tellg : Nat) ≤
      (st.sock n).tellp then st.flushSock n else st) = a at hflush ⊢
    split
    · exact hflush
    · split
      · exact ((hflush.trans (.setSock (stream_write_handle _ _ _) (hflush.armed n ha))).trans
          (.setFrame i _ s _)).trans (.note i _ _)
      · exact hflush

theorem latch_arming (s : StreamId) (eid : Uuid) (st : Connector) : Arming i st (latch s eid st) := by
  refine .foldl (fun a k => ?_) _ st
  unfold latchTurn
  split
  · rename_i c _
    split
    · exact (Arming.header i a (some c.cid) c.south eid abortType).trans (.setConn i _ k _)
    · exact .refl i a
  · exact .refl i a

theorem refuse_arming (s : StreamId) (f : Frame) (st : Connector) : Arming i st (refuse s f st) := by
  have hgot : Arming i st ((st.mark s).note (.got none s f.eid f.type f.payload)) :=
    (Arming.setFrame i st s _).trans (.note i _ _)
  unfold refuse
  dsimp only
  split
  · exact hgot.trans (.header i _ none s f.eid abortType)
  · exact hgot

theorem deliver_arming (s : StreamId) (f : Frame) (k : Nat) (c : Connection) (st : Connector) :
    Arming s st (deliver s f k c st).1 := by
  unfold deliver
  dsimp only
  generalize hseek : (if (st.frame s).tellg ≤ HDRLEN then HDRLEN else (st.frame s).tellg) = seekpos
  generalize hw : (if (st.frame s).tellp > seekpos then south_write s c.north c.cid
      ((st.setTrigger c.north Mask.POLLOUT).setFrame s
        (((st.setTrigger c.north Mask.POLLOUT).frame s).seekg seekpos))
    else (st.setTrigger c.north Mask.POLLOUT, true)) = w
  have htrigger := Arming.setTrigger s st c.north Mask.POLLOUT
  have ha := armed_setTrigger st c.north (m := Mask.POLLOUT) rfl
  have hwrite : Arming s st w.1 := by
    rw [← hw]
    split
    · have hframe := Arming.setFrame s (st.setTrigger c.north Mask.POLLOUT) s
        (((st.setTrigger c.north Mask.POLLOUT).frame s).seekg seekpos)
      exact (htrigger.trans hframe).trans (south_write_arming s s c.north c.cid (hframe.armed _ ha))
    · exact htrigger
  obtain ⟨a, b⟩ := w
  cases b with
  | false => exact hwrite.trans (.deferInput s a)
  | true =>
    have hgot : Arming s st ((a.setConn k (state_update c f.type)).note
        (.got (some c.cid) s f.eid f.type f.payload)) := (hwrite.trans (.setConn s a k _)).trans (.note s _ _)
    dsimp only
    split
    · exact (hgot.trans (latch_arming s s f.eid _)).trans (.setFrame s _ s _)
    · exact hgot.trans (.setFrame s _ s _)

theorem route_south_arming (s : StreamId) (st : Connector) : Arming s st (route_south s st).1 := by
  unfold route_south
  dsimp only
  split
  · exact .refl s st
  · rename_i f _
    split
    · exact refuse_arming s s f st
    · rename_i k _
      split
      · exact refuse_arming s s f st
      · rename_i c _
        split
        · exact refuse_arming s s f st
        · split
          · exact (Arming.setFrame s st s _).trans (.note s _ _)
          · split
            · exact refuse_arming s s f st
            · have hd := deliver_arming s f k c st
              generalize deliver s f k c st = r at hd
              obtain ⟨a, b⟩ := r
              cases b with
              | true => exact hd
              | false => exact hd

theorem north_err_handler_polled (n : StreamId) (st : Connector) :
    Polled n st (north_err_handler n st) := by
  have hloop : Arming n st (st.connections.foldl (abortTurn n) st) := by
    refine .foldl (fun a c => ?_) _ st
    unfold abortTurn
    split
    · have htrigger := Arming.setTrigger n a c.south Mask.POLLOUT
      dsimp only
      split
      · exact htrigger.trans ((Arming.setSock (Sockstream.write_pushed _ _).handle
          (armed_setTrigger a c.south rfl)).trans (.note n _ _))
      · exact htrigger
    · exact .refl n a
  unfold north_err_handler
  dsimp only
  refine Polled.trans (Arming.toPolled (hloop.trans ?_)) (.gone n _ _)
  exact .of_eps rfl rfl

theorem south_err_handler_polled (s : StreamId) (st : Connector) :
    Polled s st (south_err_handler s st) := by
  have hloop : Arming s st ((List.range st.connections.length).foldl (failTurn s) st) := by
    refine .foldl (fun a k => ?_) _ st
    unfold failTurn
    split
    · rename_i c _
      split
      · exact ((Arming.setConn s a k _).trans (.setTrigger s _ c.north _)).trans (.note s _ _)
      · exact .refl s a
    · exact .refl s a
  unfold south_err_handler
  dsimp only
  refine Polled.trans (Arming.toPolled (hloop.trans ?_)) (.gone s _ _)
  exact .of_eps rfl rfl

theorem north_state_handler_polled (n : StreamId) (st : Connector) :
    Polled n st (north_state_handler n st) := by
  unfold north_state_handler
  split
  · exact north_err_handler_polled n st
  · exact Arming.toPolled (.of_eps rfl rfl)
  · exact (Arming.refl n st).toPolled

/-- The handler of an idle transport clears all its interest. -/
theorem south_state_handler_other {s : StreamId} (st : Connector) (hj : j ≠ s) :
    (south_state_handler s st).interest.get j = st.interest.get j := by
  unfold south_state_handler
  split
  · rfl
  · exact (interest_clearTriggers st s j).trans (if_neg hj)

/-- A transport without a session must have nothing left to send. -/
theorem south_state_handler_stranded {s : StreamId}
    (h : (∀ c ∈ st.connections, c.south = s → c.state = .CLOSED) → (st.sock s).parea = [])
    (hs : Stranded (south_state_handler s st) j) : Stranded st j := by
  have hother := south_state_handler_other (s := s) (j := j) st
  unfold south_state_handler at hs hother
  split at hs
  · exact hs
  · rename_i hany
    rw [if_neg hany] at hother
    have hnil := h fun c hc hsouth => by
      by_contra hst
      refine hany (List.any_eq_true.mpr ⟨c, hc, ?_⟩)
      rw [Bool.and_eq_true, beq_iff_eq, decide_eq_true_iff]
      exact ⟨hsouth, by cases hc' : c.state <;> simp_all [ConnState.rank]⟩
    have hj : j ≠ s := by
      rintro rfl
      exact hs.waits hnil
    refine ⟨hs.live, hs.waits, fun ha => hs.unarmed ?_⟩
    rw [Armed, hother hj]
    exact ha

/-! ### Calls -/

/-- Only the handler of an idle transport can strand a stream. -/
theorem callOut_polled (i : StreamId) (st : Connector) :
    Polled i st (callOut i st) ∨ ∃ a, st.pollout_handler i = (a, false) ∧ (st.ep i).iface ≠ .north ∧
      callOut i st = south_state_handler i a := by
  have hout := pollout_polled i st
  unfold callOut
  cases hif : (st.ep i).iface with
  | north =>
    left
    dsimp only
    generalize st.pollout_handler i = r at hout
    obtain ⟨a, failed⟩ := r
    cases failed with
    | true => exact hout.trans (north_err_handler_polled i a)
    | false => exact hout.trans (north_state_handler_polled i a)
  | south b =>
    dsimp only
    cases ho : st.pollout_handler i with
    | mk a failed =>
      rw [ho] at hout
      cases failed with
      | true => exact .inl (hout.trans (south_err_handler_polled i a))
      | false => exact .inr ⟨a, rfl, nofun, rfl⟩

theorem callOut_pollin {i : StreamId} (hj : j ≠ i)
    (h : (st.interest.get j).pollin) : ((callOut i st).interest.get j).pollin := by
  rcases callOut_polled i st with hp | ⟨a, ho, _, heq⟩
  · exact hp.pollin j hj h
  · have hout := pollout_polled i st
    rw [ho] at hout
    rw [heq, south_state_handler_other a hj]
    exact hout.pollin j hj h

/-- A transport without a session that is flushed has nothing left to send. -/
def Drains (i : StreamId) (st : Connector) : Prop :=
  (st.ep i).iface ≠ .north → (∀ c ∈ st.connections, c.south = i → c.state = .CLOSED) →
    (st.sock i).flush.fail = false → (st.sock i).flush.parea = []

theorem callOut_stranded {i : StreamId} (hd : Drains i st) (h : Stranded (callOut i st) j) : Stranded st j := by
  rcases callOut_polled i st with hp | ⟨a, ho, hif, heq⟩
  · exact hp.stranded j h
  · have hout := pollout_polled i st
    obtain ⟨hsock, hfail⟩ := st.pollout_ok i ho
    rw [ho] at hout
    rw [heq] at h
    refine hout.stranded j (south_state_handler_stranded (fun hidle => ?_) h)
    rw [hsock]
    refine hd hif ?_ (hsock ▸ hfail)
    rwa [(Same.pollout ho).connections] at hidle

theorem callIn_polled {i : StreamId} {o : Oracle} (hb : Base st) : Polled i st (callIn i o st) := by
  unfold callIn
  cases (st.ep i).iface with
  | north =>
    dsimp only
    obtain ⟨bs, hr⟩ := readClient_spec i st (hb.chunk i)
    have hread : Arming i st ((readClient i st).dropInput i) :=
      .read hr.live hr.socks hr.chunked.pulled (interest_dropInput _ i)
    have hroute := hread.trans (route_north_arming o i _)
    unfold north_pollin_handler
    generalize route_north o i ((readClient i st).dropInput i) = r at hroute ⊢
    obtain ⟨a, failed⟩ := r
    cases failed with
    | true => exact hroute.toPolled.trans (north_err_handler_polled i a)
    | false => exact hroute.toPolled
  | south b =>
    dsimp only
    obtain ⟨bs, hr⟩ := readTransport_spec i st (hb.frame i)
    have hread : Arming i st ((readTransport i st).dropInput i) :=
      .read hr.live hr.socks hr.reads.pulled (interest_dropInput _ i)
    have hroute := hread.trans (route_south_arming i _)
    unfold south_pollin_handler
    generalize route_south i ((readTransport i st).dropInput i) = r at hroute ⊢
    obtain ⟨a, failed⟩ := r
    cases failed with
    | true => exact hroute.toPolled.trans (south_err_handler_polled i a)
    | false => exact hroute.toPolled

theorem resolve_stranded {j : Nat} {fd : Option Int} {i : StreamId}
    (h : Stranded (resolve j fd st) i) : Stranded st i := by
  unfold resolve at h
  split at h
  · rename_i s n _
    have hpend : Arming i st { st with pending := st.pending.eraseIdx j } := .of_eps rfl rfl
    refine hpend.stranded i ?_
    generalize { st with pending := st.pending.eraseIdx j } = a at h
    unfold connectCallback at h
    split at h
    · cases fd with
      | some fd =>
        refine Polled.stranded (i := i) ?_ i h
        dsimp only
        split
        · exact (Arming.dial i a s _).toPolled
        · exact (Arming.setTrigger i a s _).toPolled
      | none =>
        dsimp only at h
        unfold erase_connect at h
        dsimp only at h
        have htrigger : Arming n a (if a.connections.any (·.south == s) then a.setTriggerOpen s Mask.POLLOUT
            else a) := by
          split
          · exact .setTriggerOpen n a s _
          · exact .refl n a
        generalize (if a.connections.any (·.south == s) then a.setTriggerOpen s Mask.POLLOUT else a) = b
          at h htrigger
        have hkeep : Arming n a (b.keepConns fun c => c.south != s) := htrigger.trans (.of_eps rfl rfl)
        split at h
        · exact (hkeep.toPolled.trans (.gone n _ _)).stranded i h
        · exact hkeep.stranded i h
    · exact h
  · exact h

theorem callEnv_stranded {e : Env} {i : StreamId} (h : Stranded (callEnv e st) i) : Stranded st i := by
  cases e with
  | accept fd => exact .of_accept h
  | connected j fd => exact resolve_stranded h
  | refused j => exact resolve_stranded h
  | timeout j =>
    unfold callEnv at h
    dsimp only at h
    split at h
    · rename_i s _
      have htimer : Arming i st { st with timers := st.timers.eraseIdx j } := .of_eps rfl rfl
      refine (htimer.trans ?_).stranded i h
      unfold idleTimeout
      split
      · refine Arming.trans ?_ (.setTrigger i _ s _)
        exact .setSock_less rfl id
      · exact .refl i _
    · exact h
  | rx d r => exact .of_pushRx h
  | tx d a => exact .of_pushTx h

/-- Another stream is still polled for input after an event of `i`. -/
theorem poll_pollin {i : StreamId} {m : Mask} {o : Oracle} (hb : Base st) (hj : j ≠ i)
    (h : ((st.enter i m).interest.get j).pollin) : ((handle (.poll i m o) st).interest.get j).pollin := by
  have hbase := ((base_preserved fun _ _ => True).afterOut (base_preserved _) hb hb
    (i := i) (m := m) (o := o) fun _ _ => trivial).2
  unfold handle
  dsimp only
  generalize st.enter i m = st0 at h hbase ⊢
  have hout : ((afterOut i st0).interest.get j).pollin := by
    unfold afterOut call
    dsimp only
    split
    · split
      · exact callOut_pollin hj h
      · exact h
    · exact h
  generalize afterOut i st0 = st1 at hout hbase ⊢
  unfold call
  dsimp only
  split
  · split
    · exact (callIn_polled hbase).pollin j hj hout
    · exact hout
  · exact hout

/-- One event strands no stream, when the transport that it makes idle is drained. -/
theorem handle_stranded {ev : Event} (hb : Base st)
    (hc : ∀ p ∈ calls ev st, ∀ i, p.1 = .out i → Drains i p.2) (h : Stranded (handle ev st) j) : Stranded st j := by
  cases ev with
  | env e => exact callEnv_stranded h
  | poll i m o =>
    have hbase := ((base_preserved fun _ _ => True).afterOut (base_preserved _) hb hb
      (i := i) (m := m) (o := o) fun _ _ => trivial).2
    have henter := Arming.enter i st i m
    have hdrain : (st.enter i m).revents.isOut → Drains i (st.enter i m) := fun ho =>
      hc (.out i, st.enter i m) (by simp [calls, ho]) i rfl
    unfold handle at h
    dsimp only at h
    generalize st.enter i m = st0 at h hbase henter hdrain
    refine henter.stranded j ?_
    have hout : Stranded (afterOut i st0) j → Stranded st0 j := by
      unfold afterOut call
      dsimp only
      split
      · split
        · exact callOut_stranded (hdrain ‹_›)
        · exact id
      · exact id
    refine hout ?_
    generalize afterOut i st0 = st1 at h hbase
    unfold call at h
    dsimp only at h
    split at h
    · split at h
      · exact (callIn_polled hbase).stranded j h
      · exact h
    · exact h

end cloudbus.controller

/-! ## The segment -/

namespace cloudbus.segment

open cloudbus.io cloudbus.messages Connector

variable (i : StreamId)

variable {st : Connector} {fd : Option Int}

theorem north_write_arming (t v : StreamId) (cid : Nat) (ha : Armed st v) : Arming i st (north_write t v cid st).1 := by
  unfold north_write
  dsimp only
  generalize decide ((MAX_BUFSIZE : Int) - ((st.frame t).tellp - (st.frame t).tellg : Nat) ≤
    (st.sock v).tellp) = flushed
  have hflush : Arming i st (if flushed = true then st.flushSock v else st) := by
    split
    · exact .flushSock i st v
    · exact .refl i st
  generalize (if flushed = true then st.flushSock v else st) = a at hflush ⊢
  split
  · exact hflush
  · split
    · exact ((hflush.trans (.setSock (stream_write_handle _ _ _) (hflush.armed v ha))).trans
        (.setFrame i _ t _)).trans (.note i _ _)
    · exact hflush

theorem north_connect_arming (t : StreamId) (f : Frame) (fd : Option Int) (st : Connector) :
    Arming i st (north_connect t f fd st).1 := by
  have hmake := Arming.make i st (.south 0)
  have ha : Armed (st.make (.south 0) BAD_SOCKET) st.next := by
    left
    rw [sock_make, if_pos rfl]
    rfl
  -- the connection is inserted, and then the service is written
  have hwrite : ∀ (a : Connector) (c : Connection) (log : List Obs), Arming i st a → Armed a st.next →
      Arming i st (north_write t st.next c.cid
        { a with connections := a.connections ++ [c], ncid := a.ncid + 1, log := log }).1 := by
    intro a c log hst harm
    have hins : Arming i a { a with connections := a.connections ++ [c], ncid := a.ncid + 1, log := log } :=
      .of_eps rfl rfl
    exact (hst.trans hins).trans (north_write_arming i t _ _ (hins.armed _ harm))
  unfold north_connect
  dsimp only
  cases fd with
  | none =>
    have hpend : Arming i (st.make (.south 0) BAD_SOCKET)
        { st.make (.south 0) BAD_SOCKET with
          pending := (st.make (.south 0) BAD_SOCKET).pending ++ [(st.next, t)] } := .of_eps rfl rfl
    exact hwrite _ _ _ (hmake.trans hpend) (hpend.armed _ ha)
  | some fd => exact hwrite _ _ _ (hmake.trans (.dial i _ st.next _)) (armed_setTrigger _ st.next rfl)

theorem unmatched_arming (fd : Option Int) (t : StreamId) (f : Frame) (st : Connector) :
    Arming t st (unmatched fd t f st).1 := by
  have hmark : Arming t st (st.mark t) := .setFrame t st t _
  unfold unmatched
  dsimp only
  split
  · exact hmark.trans (.note t _ _)
  · split
    · have hc := (hmark.trans (.setFrame t _ t (((st.mark t).frame t).seekg HDRLEN))).trans
        (north_connect_arming t t f fd _)
      generalize north_connect t f fd ((st.mark t).setFrame t (((st.mark t).frame t).seekg HDRLEN)) = r at hc
      obtain ⟨a, answer⟩ := r
      cases answer with
      | none => exact hc
      | some room =>
        cases room with
        | true => exact hc
        | false => exact hc.trans (.deferInput t a)
    · have hgot := hmark.trans (.note t _ (.got none t f.eid f.type f.payload))
      split
      · exact hgot.trans (.header t _ none t f.eid abortType)
      · exact hgot

theorem deliver_arming (t : StreamId) (f : Frame) (k : Nat) (c : Connection) (st : Connector) :
    Arming t st (deliver t f k c st).1 := by
  unfold deliver
  dsimp only
  generalize hseek : (if (st.frame t).tellg ≤ HDRLEN then HDRLEN else (st.frame t).tellg) = seekpos
  generalize hw : (if (st.frame t).tellp > seekpos then north_write t c.south c.cid
      ((st.setTriggerOpen c.south Mask.POLLOUT).setFrame t
        (((st.setTriggerOpen c.south Mask.POLLOUT).frame t).seekg seekpos))
    else (st.setTriggerOpen c.south Mask.POLLOUT, some true)) = w
  have htrigger := Arming.setTriggerOpen t st c.south Mask.POLLOUT
  have ha := armed_setTriggerOpen st c.south (m := Mask.POLLOUT) rfl
  have hwrite : Arming t st w.1 := by
    rw [← hw]
    split
    · have hframe := Arming.setFrame t (st.setTriggerOpen c.south Mask.POLLOUT) t
        (((st.setTriggerOpen c.south Mask.POLLOUT).frame t).seekg seekpos)
      exact (htrigger.trans hframe).trans (north_write_arming t t c.south c.cid (hframe.armed _ ha))
    · exact htrigger
  obtain ⟨a, answer⟩ := w
  have hdone : Arming t st ((((if f.type.has ABORT then a.setSock c.south (a.sock c.south).set_badbit
      else a).setConn k (state_update c f.type)).note (.got (some c.cid) t f.eid f.type f.payload)).mark t) := by
    refine (((hwrite.trans ?_).trans (.setConn t _ k _)).trans (.note t _ _)).trans (.setFrame t _ t _)
    split
    · exact .setSock_less rfl id
    · exact .refl t a
  cases answer with
  | none => exact hdone
  | some room =>
    cases room with
    | true => exact hdone
    | false => exact hwrite.trans (.deferInput t a)

theorem route_north_arming (fd : Option Int) (t : StreamId) (st : Connector) :
    Arming t st (route_north fd t st).1 := by
  unfold route_north
  dsimp only
  split
  · exact .refl t st
  · rename_i f _
    split
    · exact unmatched_arming fd t f st
    · rename_i k _
      split
      · exact unmatched_arming fd t f st
      · rename_i c _
        split
        · exact unmatched_arming fd t f st
        · split
          · exact ((Arming.setConn t st k _).trans (.note t _ _)).trans (.setFrame t _ t _)
          · have hd := deliver_arming t f k c st
            generalize deliver t f k c st = r at hd
            obtain ⟨a, b⟩ := r
            cases b with
            | true => exact hd
            | false => exact hd

theorem south_write_arming (v : StreamId) {c : Connection} (ha : Armed st c.north) :
    Arming i st (south_write v c st).1 := by
  unfold south_write
  dsimp only
  generalize decide ((MAX_BUFSIZE : Int) - (HDRLEN + (st.chunk v).tellp : Nat) ≤
    (st.sock c.north).tellp) = flushed
  generalize (⟨if !st.live v || (st.sock v).eof then STOP else DATA, 0⟩ : Msgtype) = type
  have hflush : Arming i st (if flushed = true then st.flushSock c.north else st) := by
    split
    · exact .flushSock i st c.north
    · exact .refl i st
  generalize (if flushed = true then st.flushSock c.north else st) = a at hflush ⊢
  have ha' := hflush.armed _ ha
  have hhead := ((a.sock c.north).write_pushed (Msgheader.of c.uuid (st.chunk v).tellp type).encode).handle
  split
  · exact hflush.trans (.note i _ _)
  · split
    · exact hflush
    · split
      · exact (hflush.trans (.setSock hhead ha')).trans (.note i _ _)
      · refine ((hflush.trans (.setSock ?_ ha')).trans (.setChunk i _ v _)).trans (.note i _ _)
        rw [stream_write_upto_handle, hhead]

theorem route_south_arming (v : StreamId) (st : Connector) : Arming v st (route_south v st).1 := by
  unfold route_south
  dsimp only
  split
  · exact .refl v st
  · split
    · exact .refl v st
    · rename_i k _ _ c _
      generalize hw : (if ((st.sock v).eof || decide ((st.chunk v).tellp > 0)) = true then
        south_write v c ((st.setChunk v (st.chunk v).rewindg).setTrigger c.north Mask.POLLOUT)
        else (st, true)) = w
      have hwrite : Arming v st w.1 := by
        rw [← hw]
        split
        · exact ((Arming.setChunk v st v _).trans (.setTrigger v _ c.north _)).trans
            (south_write_arming v v (armed_setTrigger _ c.north rfl))
        · exact .refl v st
      obtain ⟨a, b⟩ := w
      cases b with
      | false => exact hwrite.trans (.deferInput v a)
      | true =>
        refine hwrite.trans ?_
        dsimp only
        split
        · exact (Arming.setConn v a k _).trans (.clearInput v _)
        · exact .setConn v a k _

theorem north_err_handler_polled (t : StreamId) (st : Connector) :
    Polled t st (north_err_handler t st) := by
  have hloop : Arming t st ((List.range st.connections.length).foldl (failTurn t) st) := by
    refine .foldl (fun a k => ?_) _ st
    unfold failTurn
    split
    · rename_i c _
      split
      · exact ((Arming.setConn t a k _).trans (.setTrigger t _ c.south _)).trans (.note t _ _)
      · exact .refl t a
    · exact .refl t a
  unfold north_err_handler
  dsimp only
  refine Polled.trans (Arming.toPolled (hloop.trans ?_)) (.gone t _ _)
  exact .of_eps rfl rfl

theorem south_err_handler_polled (v : StreamId) (st : Connector) :
    Polled v st (south_err_handler v st) := by
  have hloop : Arming v st (st.connections.foldl (abortTurn v) st) := by
    refine .foldl (fun a c => ?_) _ st
    unfold abortTurn
    split
    · exact .header v a (some c.cid) c.north c.uuid abortType
    · exact .refl v a
  unfold south_err_handler
  dsimp only
  refine Polled.trans (Arming.toPolled (hloop.trans ?_)) (.gone v _ _)
  exact .of_eps rfl rfl

theorem south_state_handler_polled (v : StreamId) (st : Connector) :
    Polled v st (south_state_handler v st) := by
  unfold south_state_handler
  split
  · exact (Arming.refl v st).toPolled
  · split
    · exact south_err_handler_polled v st
    · exact Arming.toPolled (.of_eps rfl rfl)
    · exact (Arming.refl v st).toPolled

/-! ### Calls -/

theorem callOut_polled (st : Connector) : Polled i st (callOut i st) := by
  have hout := pollout_polled i st
  unfold callOut
  generalize st.pollout_handler i = r at hout
  obtain ⟨a, failed⟩ := r
  cases (st.ep i).iface with
  | north =>
    cases failed with
    | true => exact hout.trans (north_err_handler_polled i a)
    | false => exact hout
  | south b =>
    cases failed with
    | true => exact hout.trans (south_err_handler_polled i a)
    | false => exact hout.trans (south_state_handler_polled i a)

theorem callIn_polled {i : StreamId} (hr : Ready st) (hl : st.live i) : Polled i st (callIn i fd st) := by
  unfold callIn
  cases (st.ep i).iface with
  | north =>
    dsimp only
    obtain ⟨bs, hread⟩ := readTransport_spec i st (hr.frames i (.inl hl))
    have hroute := (Arming.read hread.live hread.socks hread.reads.pulled (interest_dropInput _ i)).trans
      (route_north_arming fd i _)
    unfold north_pollin_handler
    generalize route_north fd i ((readTransport i st).dropInput i) = r at hroute ⊢
    obtain ⟨a, failed⟩ := r
    cases failed with
    | true => exact hroute.toPolled.trans (north_err_handler_polled i a)
    | false => exact hroute.toPolled
  | south b =>
    dsimp only
    obtain ⟨bs, hread⟩ := readService_spec i st (hr.chunk i)
    have hroute := (Arming.read hread.live hread.socks hread.chunked.pulled (interest_dropInput _ i)).trans
      (route_south_arming i _)
    unfold south_pollin_handler
    generalize route_south i ((readService i st).dropInput i) = r at hroute ⊢
    obtain ⟨a, failed⟩ := r
    cases failed with
    | true => exact hroute.toPolled.trans (south_err_handler_polled i a)
    | false => exact hroute.toPolled

theorem erase_connect_polled (v t : StreamId) (st : Connector) : Polled v st (erase_connect v t st) := by
  have hloop : Arming v st (st.connections.foldl (refuseTurn v t) st) := by
    refine .foldl (fun a c => ?_) _ st
    unfold refuseTurn
    split
    · exact .header v a (some c.cid) t c.uuid abortType
    · exact .refl v a
  unfold erase_connect
  dsimp only
  refine Polled.trans (Arming.toPolled (hloop.trans ?_)) (.erased rfl (fun _ _ => rfl) _)
  exact .of_eps rfl rfl

theorem resolve_stranded {j : Nat} {i : StreamId} (h : Stranded (resolve j fd st) i) : Stranded st i := by
  unfold resolve at h
  split at h
  · rename_i v t _
    have hpend : Arming v st { st with pending := st.pending.eraseIdx j } := .of_eps rfl rfl
    refine hpend.stranded i ?_
    generalize { st with pending := st.pending.eraseIdx j } = a at h
    unfold connectCallback at h
    split at h
    · cases fd with
      | some fd =>
        refine Polled.stranded (i := i) ?_ i h
        dsimp only
        split
        · exact (Arming.dial i a v _).toPolled
        · exact (Arming.setTrigger i a v _).toPolled
      | none => exact (erase_connect_polled v t a).stranded i h
    · exact h
  · exact h

theorem callEnv_stranded {e : Env} {i : StreamId} (h : Stranded (callEnv e st) i) : Stranded st i := by
  cases e with
  | accept fd => exact .of_accept h
  | connected j fd => exact resolve_stranded h
  | refused j => exact resolve_stranded h
  | rx d r => exact .of_pushRx h
  | tx d a => exact .of_pushTx h

theorem poll_polled {i : StreamId} {m : Mask} (hr : Ready st) : Polled i (st.enter i m) (handle (.poll i m fd) st) := by
  have hready := (@Preserved.afterOut _ _ (base_preserved fun _ _ => True) i m fd st hr hr.toBase
    fun _ _ => trivial).2
  unfold handle
  dsimp only
  generalize st.enter i m = st0 at hready ⊢
  have hout : Polled i st0 (afterOut i st0) := by
    unfold afterOut call
    dsimp only
    split
    · split
      · exact callOut_polled i st0
      · exact (Arming.refl i st0).toPolled
    · exact (Arming.refl i st0).toPolled
  generalize afterOut i st0 = st1 at hout hready ⊢
  refine hout.trans ?_
  unfold call
  dsimp only
  split
  · split
    · exact callIn_polled hready ‹_›
    · exact (Arming.refl i st1).toPolled
  · exact (Arming.refl i st1).toPolled

/-- One event strands no stream. -/
theorem handle_stranded {ev : Event} (hr : Ready st) {j : StreamId}
    (h : Stranded (handle ev st) j) : Stranded st j := by
  cases ev with
  | env e => exact callEnv_stranded h
  | poll i m fd => exact ((Arming.enter i st i m).toPolled.trans (poll_polled hr)).stranded j h

end cloudbus.segment
