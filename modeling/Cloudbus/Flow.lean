-- Nothing waits for ever. Bytes in a put area wait for POLLOUT, and input that was
-- put off waits for POLLIN: whoever has one of them must be polled for it.
import Cloudbus.HalfClose
import Cloudbus.Interest
import Cloudbus.Orphans

namespace cloudbus

open cloudbus.io cloudbus.messages Connector

/-! ## Output -/

/-- Every stream with a socket and bytes to send is polled for output. -/
def OutputPolled (st : Connector) : Prop :=
  ∀ i, st.live i → (st.sock i).native_handle ≠ BAD_SOCKET → (st.sock i).parea ≠ [] →
    (st.interest.get i).pollout

variable {st : Connector} {y x : StreamId} {c : Connection}

theorem OutputPolled.of_stranded (h : ∀ i, ¬ Stranded st i) : OutputPolled st := by
  intro i hl hh hp
  by_contra ho
  refine h i ⟨hl, hp, ?_⟩
  rintro (hb | hout)
  · exact hh hb
  · exact ho hout

/-- In a state that no handler ran in, there is no stream. -/
theorem not_stranded_init (mode : Mode) (i : StreamId) : ¬ Stranded { mode := mode } i := fun h => nomatch h.live

namespace controller

/-- A transport that is flushed while it has no session is flushed to the end. -/
def DrainsIdle : Call → Connector → Prop
  | .out i, st => Drains i st
  | .inn _ _, _ => True
  | .env _, _ => True

instance (c : Call) (st : Connector) : Decidable (DrainsIdle c st) :=
  match c with
  | .out i => inferInstanceAs (Decidable ((st.ep i).iface ≠ .north →
      (∀ c ∈ st.connections, c.south = i → c.state = .CLOSED) → (st.sock i).flush.fail = false →
        (st.sock i).flush.parea = []))
  | .inn _ _ => inferInstanceAs (Decidable True)
  | .env _ => inferInstanceAs (Decidable True)

theorem Run.not_stranded {st : Connector} (hr : Run DrainsIdle st) : ∀ i, ¬ Stranded st i := by
  induction hr with
  | init mode => exact not_stranded_init mode
  | step ev hrun hc ih =>
    intro i hs
    refine ih i (handle_stranded ((base_preserved DrainsIdle).run base_init hrun).2 ?_ hs)
    rintro ⟨c, st⟩ hp i rfl
    exact hc _ hp

end controller

theorem segment.Run.not_stranded {C : segment.Call → Connector → Prop}
    (hr : segment.Run C st) : ∀ i, ¬ Stranded st i := by
  induction hr with
  | init mode => exact not_stranded_init mode
  | step ev hrun hc ih =>
    intro i hs
    have hready := ((segment.base_preserved C).run (fun mode => (segment.ready_init mode).toBase) hrun).2
    exact ih i (segment.handle_stranded hready hs)

/-- The client fails, and the ABORT for its session is all that its transport has to send. -/
def clientFails : List controller.Event :=
  clientSpeaks ++ [.env (.tx 1 (.accept 100)), .poll 1 Mask.POLLOUT {}, .poll 0 { pollerr := true } {}]

/-- The input of the client or service `y` waits for room on the connection `c`. -/
inductive ChunkWaits (st : Connector) (c : Connection) (y : StreamId) : Prop
  /-- A chunk was not forwarded. The last chunk of a stream goes with its STOP. -/
  | chunk : (st.chunk y).pending ≠ [] →
      ((st.sock y).eof → c.state ≠ .CLOSED ∧ ¬ SentStop c.cid st.log) → ChunkWaits st c y
  /-- The stream is at its end, and the STOP was not sent. -/
  | stop : (st.sock y).eof → c.state ≠ .CLOSED → ¬ SentStop c.cid st.log → ChunkWaits st c y

theorem ChunkWaits.unsent (h : ChunkWaits st c y)
    (he : (st.sock y).eof) : c.state ≠ .CLOSED ∧ ¬ SentStop c.cid st.log := by
  cases h with
  | chunk _ h => exact h he
  | stop _ hst hno => exact ⟨hst, hno⟩

/-- A frame of the transport `y` came whole and was not forwarded. -/
def FrameWaits (st : Connector) (y : StreamId) : Prop :=
  ∃ f, frameOf (st.frame y) = some f ∧ (st.frame y).eof = false

/-- From `st` to `st'` every stream whose input waits for `x` is polled for input again. -/
structure Resumes (own via : Connection → StreamId) (x : StreamId) (st st' : Connector) : Prop where
  chunk : ∀ c ∈ st.connections, via c = x → st.live (own c) → ChunkWaits st c (own c) →
    (st'.interest.get (own c)).pollin
  frame : ∀ c ∈ st.connections, own c = x → st.live (via c) → FrameWaits st (via c) →
    (st'.interest.get (via c)).pollin

theorem wakeTurn_pollin (c : Connection) (h : (st.interest.get y).pollin) :
    ((wakeTurn x st c).interest.get y).pollin := by
  unfold wakeTurn
  split
  · rw [interest_setTrigger]
    split
    · rename_i hy
      rw [hy] at h
      simp [Mask.union, h]
    · exact h
  · exact h

theorem wakeTurns_pollin (cs : List Connection)
    (h : (st.interest.get y).pollin) : ((cs.foldl (wakeTurn x) st).interest.get y).pollin := by
  induction cs generalizing st with
  | nil => exact h
  | cons c cs ih => exact ih (wakeTurn_pollin c h)

/-- A peer that is not at its end is polled for input. -/
theorem wakeTurns_wake {x : StreamId} {c : Connection} (hx : c.south = x ∨ c.north = x)
    (cs : List Connection) (hc : c ∈ cs) {st : Connector} (hl : st.live (c.peer x))
    (he : (st.sock (c.peer x)).eof = false) :
    ((cs.foldl (wakeTurn x) st).interest.get (c.peer x)).pollin := by
  induction cs generalizing st with
  | nil => cases hc
  | cons d cs ih =>
    rcases List.mem_cons.mp hc with rfl | hc
    · refine wakeTurns_pollin cs ?_
      unfold wakeTurn
      rw [if_pos ⟨hx, hl, by rw [he]; rfl⟩, interest_setTrigger, if_pos rfl]
      simp [Mask.union, Mask.POLLIN]
    · -- a turn changes the interest only
      have heps : (wakeTurn x st d).eps = st.eps := by
        unfold wakeTurn
        split <;> rfl
      refine ih hc ?_ ?_
      · rw [Connector.live, Connector.ep, heps]
        exact hl
      · rw [Connector.sock, Connector.ep, heps]
        exact he

theorem enter_wakes {m : Mask} (hm : m.pollout) (hc : c ∈ st.connections) (hx : c.south = x ∨ c.north = x)
    (hl : st.live (c.peer x))
    (he : (st.sock (c.peer x)).eof = false) : ((st.enter x m).interest.get (c.peer x)).pollin := by
  unfold Connector.enter
  rw [if_pos (by rw [hm, Bool.true_or])]
  exact @wakeTurns_wake x c hx st.connections hc (st.setRevents m) hl he

/-- There is room for a frame with `p` bytes, once the stream is flushed. -/
def Fits (s : Sockstream) (p : Nat) : Prop := s.flush.tellp + (p + HDRLEN : Nat) ≤ MAX_BUFSIZE

theorem io.Sockstream.flush_tellp (s : Sockstream) : s.flush.tellp ≤ s.tellp := by
  by_cases hf : s.fail
  · have hflush : s.flush = s := by
      rw [Sockstream.flush, Sockstream.not_good_of_fail hf, if_neg (by simp)]
    exact hflush.symm ▸ Int.le_refl _
  · have htell : s.tellp = s.parea.length := by rw [Sockstream.tellp, if_neg hf]
    have h1 := s.flush.tellp_le
    have h2 := s.flush_parea
    omega

/-- A flush of any stream leaves the room that there is. -/
theorem Fits.flushSock {i : StreamId} {p : Nat} (h : Fits (st.sock i) p) (d : StreamId) :
    Fits ((st.flushSock d).sock i) p := by
  rw [Connector.flushSock, sock_setSock]
  split
  · rename_i hi
    subst hi
    have hle := (st.sock i).flush.flush_tellp
    unfold Fits at h ⊢
    omega
  · exact h

variable {st' : Connector}

/-- A read that ends with a complete frame did not come to the end of the stream. -/
theorem FrameRead.eof_of_complete {s : StreamId} {bs : List UInt8} {f : Frame} (h : FrameRead s st st' bs)
    (hf : frameOf (st'.frame s) = some f) : (st'.sock s).eof = (st.sock s).eof := by
  rcases h.reads.stop with ⟨-, hst, -⟩ | ⟨hp, -⟩
  · rw [Sockstream.eof, Sockstream.eof, hst]
  · rw [frameOf_eq_none hp] at hf
    cases hf

namespace controller

variable {C : Call → Connector → Prop} {st st' : Connector}

variable {i s : StreamId} {P : StreamId → Prop} {failed : Bool} {m : Mask}

/-- A stream is at its end when it was before, or is read. -/
theorem Act.eof (act : Act C st st') (hi : i < st'.next) (he : (st'.sock i).eof) :
    i < st.next ∧ (st.sock i).eof ∨ ∃ o, C (.inn i o) st := by
  have same : ∀ {a b : Connector}, b.next = a.next → (∀ i, (b.sock i).eof = (a.sock i).eof) →
      i < b.next → (b.sock i).eof → i < a.next ∧ (a.sock i).eof := fun hn hs hi he =>
    ⟨hn ▸ hi, (hs i).symm.trans he⟩
  have keeps : Keeps st st' → i < st.next ∧ (st.sock i).eof ∨ ∃ o, C (.inn i o) st := fun hk =>
    .inl (same hk.next (fun i => (hk.kept i).eof) hi he)
  have dialed : ∀ {b : Connector}, Dialed st b → i < b.next → (b.sock i).eof →
      i < st.next ∧ (st.sock i).eof := by
    intro b hd hi he
    by_cases hlt : i < st.next
    · exact ⟨hlt, (hd.eof hlt).symm.trans he⟩
    · obtain ⟨fd, rx, tx, hnew⟩ := hd.born i (Nat.le_of_not_lt hlt) hi
      rw [hnew] at he
      cases he
  cases act with
  | quiet hq => exact keeps hq.keeps
  | errors => exact .inl (same (Same.takeErrors st _).next (Same.takeErrors st _).eof hi he)
  | @clientRead n o _ _ _ hc _ _ hr =>
    by_cases hn : i = n
    · subst hn
      exact .inr ⟨o, hc⟩
    · exact .inl ⟨hr.next ▸ hi, by rwa [hr.socks i hn] at he⟩
  | @transportRead s o _ _ _ _ hc _ _ hr =>
    by_cases hs : i = s
    · subst hs
      exact .inr ⟨o, hc⟩
    · exact .inl ⟨hr.next ▸ hi, by rwa [hr.socks i hs] at he⟩
  | sentAll _ _ _ _ _ hs => exact keeps hs.keeps
  | opened _ _ _ _ _ _ _ _ ho _ =>
    obtain ⟨st1, hd, hk, -⟩ := ho.dials
    obtain ⟨hi1, he1⟩ := same hk.next (fun i => (hk.kept i).eof) hi he
    exact .inl (dialed hd.dialed hi1 he1)
  | refused _ _ _ _ _ hd _ => exact keeps hd.keeps
  | orphan _ _ _ _ _ _ _ _ hd => exact keeps hd.keeps
  | deferred _ _ _ hd => exact keeps hd.keeps
  | delivered _ _ _ _ _ _ _ _ _ hd => exact keeps hd.keeps
  | clientGone _ hg => exact .inl (same hg.next (fun i => (hg.kept i).eof) hi he)
  | transportGone _ hg => exact .inl (same hg.next (fun i => (hg.kept i).eof) hi he)
  | shut => exact .inl ⟨hi, he⟩
  | dialed hd _ _ => exact .inl (dialed hd hi he)
  | connectLost _ _ _ _ _ hl => exact .inl (same hl.next (fun i => (hl.kept i).eof) hi he)
  | pushRx => exact .inl (same (Same.pushRx st _ _).next (Same.pushRx st _ _).eof hi he)
  | pushTx => exact .inl (same (Same.pushTx st _ _).next (Same.pushTx st _ _).eof hi he)

/-- What is known of the streams at their ends, those in `P` apart: the end of a client was
sent to all its connections, and a transport at its end is gone. -/
structure Ends (P : StreamId → Prop) (st : Connector) : Prop where
  sent : ∀ c ∈ st.connections, ¬ P c.north → st.live c.north → st.live c.south → c.state ≠ .CLOSED →
    (st.sock c.north).eof → SentStop c.cid st.log
  transport : ∀ s, ¬ P s → st.live s → (st.ep s).iface ≠ .north → (st.sock s).eof = false

theorem Ends.mono {Q : StreamId → Prop} (h : Ends P st) (hPQ : ∀ i, P i → Q i) : Ends Q st :=
  ⟨fun c hc hQ => h.sent c hc fun hP => hQ (hPQ _ hP), fun s hQ => h.transport s fun hP => hQ (hPQ _ hP)⟩

theorem ends_lawful (hC : ∀ i o st, C (.inn i o) st → P i) : Lawful C (Ends P) := by
  intro st st' obs act hs ht h
  have hg := act.grows
  have hsound := act.sound hs ht
  have heof : ∀ i, ¬ P i → i < st'.next → (st'.sock i).eof → i < st.next ∧ (st.sock i).eof :=
    fun i hP hi he => (act.eof hi he).resolve_right fun ⟨o, ho⟩ => hP (hC i o st ho)
  refine ⟨fun c hc hP hn hsouth hst he => ?_, fun s hP hl hif => ?_⟩
  · obtain ⟨hlt, he0⟩ := heof c.north hP (hsound.norths c hc) he
    rcases (ht.turn c hc).origin with ⟨d, hd, s, rfl, hrank⟩ | ⟨-, -, -, hopen, -⟩
    · rw [ht.log]
      refine exists_about_mono (h.sent d hd hP (hg.was_live hlt hn)
        (hg.was_live (hs.souths d hd) hsouth) (fun hd' => hst ?_) he0)
      dsimp only
      rw [hd'] at hrank
      cases s with
      | CLOSED => rfl
      | _ => exact absurd hrank (by decide)
    · rw [hopen] at he0
      cases he0
  · by_contra he
    obtain ⟨hlt, he0⟩ := heof s hP (hsound.used s hl) (by simpa using he)
    rw [h.transport s hP (hg.was_live hlt hl) (by rwa [← hg.iface s hlt])] at he0
    cases he0

variable {n : StreamId} {o : Oracle} {c : Connection}

theorem write_prepare_fits {p : Nat} (cs : List Connection)
    (h : ∀ c ∈ cs, c.north = n → st.live c.south → Fits (st.sock c.south) p) : (write_prepare n p cs st).2 = false := by
  induction cs generalizing st with
  | nil => rfl
  | cons c cs ih =>
    have htail := ih fun d hd => h d (.tail _ hd)
    unfold write_prepare
    split
    · rename_i hif
      dsimp only
      split
      · exact htail
      · have hfits := h c (.head _) hif.1 hif.2
        generalize hst1 : (if (MAX_BUFSIZE : Int) - (p + HDRLEN : Nat) ≤ (st.sock c.south).tellp then
          st.flushSock c.south else st) = st1
        -- after the flush of one transport the others have room as before
        have hrest : (write_prepare n p cs st1).2 = false := by
          refine ih fun d hd hn hl => ?_
          rw [← hst1] at hl ⊢
          split at hl
          · rename_i hpos
            rw [if_pos hpos]
            rw [flushSock, live_setSock] at hl
            exact (h d (.tail _ hd) hn hl).flushSock c.south
          · rename_i hpos
            rw [if_neg hpos]
            exact h d (.tail _ hd) hn hl
        split
        · exact hrest
        · split
          · rename_i hfull
            exfalso
            rw [← hst1] at hfull
            unfold Fits at hfits
            split at hfull
            · rw [flushSock, sock_setSock, if_pos rfl] at hfull
              omega
            · omega
          · exact hrest
    · exact htail

/-- When the read of a client comes to its end, its transports have room for the last frame. -/
def EndFits : Call → Connector → Prop
  | .inn n _, st => (st.ep n).iface = .north → ((readClient n st).sock n).eof →
      ∀ c ∈ st.connections, c.north = n → st.live c.south →
        Fits ((readClient n st).sock c.south) ((readClient n st).chunk n).tellp
  | .out _, _ => True
  | .env _, _ => True

instance (c : Call) (st : Connector) : Decidable (EndFits c st) :=
  match c with
  | .inn n _ => inferInstanceAs (Decidable ((st.ep n).iface = .north → ((readClient n st).sock n).eof →
      ∀ c ∈ st.connections, c.north = n → st.live c.south →
        ((readClient n st).sock c.south).flush.tellp +
          (((readClient n st).chunk n).tellp + HDRLEN : Nat) ≤ MAX_BUFSIZE))
  | .out _ => inferInstanceAs (Decidable True)
  | .env _ => inferInstanceAs (Decidable True)

/-- The end of a client goes to all its connections, when there is room. -/
theorem route_north_end (he : (st.sock n).eof)
    (hroom : (write_prepare n (st.chunk n).tellp st.connections st).2 = false) :
    ∃ a b obs, Quiet st a ∧ SentAll n ⟨STOP, 0⟩ a b obs ∧ Quiet b (route_north o n st).1 ∧
      (route_north o n st).2 = false := by
  have hq := write_prepare_quiet n (st.chunk n).tellp st.connections st
  unfold route_north
  dsimp only
  rw [if_pos (by rw [he, Bool.true_or])]
  generalize write_prepare n (st.chunk n).tellp st.connections st = w at hroom hq
  obtain ⟨a, full⟩ := w
  cases hroom
  dsimp only
  rw [if_neg (by rw [he]; simp), he, if_pos rfl]
  obtain ⟨⟨obs, hcopy⟩, hconn⟩ := sendAll_spec n ⟨STOP, 0⟩ a
  exact ⟨a, _, obs, hq, ⟨hcopy, hconn⟩, finishNorth_quiet n _, rfl⟩

theorem SentAll.sentStop {obs : List Obs} (h : SentAll n ⟨STOP, 0⟩ st st' obs) (hc : c ∈ st'.connections)
    (hn : c.north = n) (hl : st.live c.south) (hst : c.state ≠ .CLOSED) : SentStop c.cid st'.log := by
  rw [h.connections, List.mem_map] at hc
  obtain ⟨d, hd, rfl⟩ := hc
  have hact : active n st d := by
    by_contra hna
    rw [if_neg hna] at hn hl hst
    exact hna (active_iff.mpr ⟨hn, hl, hst⟩)
  rw [if_pos hact]
  obtain ⟨o, ho, ok, rfl⟩ := exists_of_forall₂ (List.Forall₂.flip h.sent) (List.mem_filter.mpr ⟨hd, hact⟩)
  rw [h.effect.log]
  exact ⟨_, mem_about.mpr ⟨List.mem_append_right _ ho, rfl⟩, rfl⟩

theorem NorthRouted.eof (h : NorthRouted o n st st' failed)
    (hn : n < st.next) : (st'.sock n).eof = (st.sock n).eof := by
  have hopened : ∀ {a b : Connector} {cs : List Connection} {obs : List Obs}, Quiet st a →
      Opened n o.eid a b cs obs → Quiet b st' → (st'.sock n).eof = (st.sock n).eof := by
    intro a b cs obs ha ho hb
    obtain ⟨st1, hd, hk, -⟩ := ho.dials
    rw [(hb.keeps.kept n).eof, (hk.kept n).eof, hd.dialed.eof (by rw [ha.keeps.next]; exact hn),
      (ha.keeps.kept n).eof]
  cases h with
  | quiet _ hq => exact (hq.keeps.kept n).eof
  | sent a b _ obs _ ha hs hb _ =>
    rw [(hb.keeps.kept n).eof, (hs.keeps.kept n).eof, (ha.keeps.kept n).eof]
  | noEid _ _ _ ha _ _ => exact (ha.keeps.kept n).eof
  | deferred a b _ cs _ _ ha _ _ ho _ _ hb => exact hopened ha ho hb
  | opened a b _ cs obs _ _ ha _ _ ho _ hb => exact hopened ha ho hb

/-- After the call a client at its end has sent it. -/
theorem callIn_sent (hb : Base st) (hl : st.live n) (hif : (st.ep n).iface = .north)
    (hfits : EndFits (.inn n o) st) (hc : c ∈ (callIn n o st).connections) (hn : c.north = n)
    (hln : (callIn n o st).live n) (hls : (callIn n o st).live c.south)
    (hst : c.state ≠ .CLOSED) (he : ((callIn n o st).sock n).eof) : SentStop c.cid (callIn n o st).log := by
  obtain ⟨bs, hr⟩ := readClient_spec n st (hb.chunk n)
  have hused : IdsUsed ((readClient n st).dropInput n) := fun j hj => by
    rw [hr.next]
    exact hb.used j (by rw [← hr.live]; exact hj)
  have hroute := route_north_spec o hused (hused n (by rw [hr.live]; exact hl))
  rw [callIn_north o hif] at hc hln hls he ⊢
  by_cases hend : (((readClient n st).dropInput n).sock n).eof
  · -- the client is at its end: the STOP went to its active connections
    have hroom : (write_prepare n (((readClient n st).dropInput n).chunk n).tellp
        ((readClient n st).dropInput n).connections ((readClient n st).dropInput n)).2 = false := by
      refine write_prepare_fits _ fun d hd hdn hdl => ?_
      rw [dropInput_sock, (dropInput_quiet _ n).chunk]
      rw [dropInput_sock] at hend
      rw [hr.connections] at hd
      rw [hr.live] at hdl
      exact hfits hif hend d hd hdn hdl
    obtain ⟨a, b, obs, ha, hs, hb', hok⟩ := route_north_end (o := o) hend hroom
    generalize route_north o n ((readClient n st).dropInput n) = r at hc hls hb' hok ⊢
    obtain ⟨st2, failed⟩ := r
    cases hok
    dsimp only at hc hls hb' ⊢
    rw [hb'.connections] at hc
    rw [hb'.log]
    exact hs.sentStop hc hn (by rw [← hs.keeps.live, ← hb'.live]; exact hls) hst
  · have heof := hroute.eof (hused n (by rw [hr.live]; exact hl))
    generalize route_north o n ((readClient n st).dropInput n) = r at hln he heof
    obtain ⟨st2, failed⟩ := r
    cases failed with
    | true =>
      obtain ⟨obs, hg⟩ := north_err_handler_spec n st2
      rw [hg.live, if_pos rfl] at hln
      cases hln
    | false =>
      dsimp only at he heof
      rw [heof] at he
      exact absurd he hend

/-- A transport that stays is not at its end, or its frame is complete. -/
theorem SouthRouted.stays (h : SouthRouted s st st' failed)
    (hok : failed = false) : (st.sock s).eof = false ∨ ∃ f, frameOf (st.frame s) = some f := by
  cases h with
  | idle => exact .inl hok
  | refused => exact .inl hok
  | orphan => exact .inl hok
  | deferred f k c _ hf _ _ _ hd => exact .inr ⟨f, hf⟩
  | delivered => exact .inl hok

/-- After the call a transport that is still there is not at its end. -/
theorem callIn_open (hb : Base st) (hif : (st.ep s).iface ≠ .north) (he : (st.sock s).eof = false)
    (hl : (callIn s o st).live s) : ((callIn s o st).sock s).eof = false := by
  obtain ⟨bs, hr⟩ := readTransport_spec s st (hb.frame s)
  obtain ⟨hok, hnew⟩ := hr.frameOk (hb.frame s)
  have hroute := route_south_spec hok hnew
  rw [callIn_south o hif] at hl ⊢
  generalize route_south s ((readTransport s st).dropInput s) = r at hl hroute ⊢
  obtain ⟨st2, failed⟩ := r
  cases failed with
  | true =>
    obtain ⟨obs, hg⟩ := south_err_handler_spec s st2
    rw [hg.live, if_pos rfl] at hl
    cases hl
  | false =>
    dsimp only at hroute ⊢
    rw [(hroute.keeps.kept s).eof]
    rcases hroute.stays rfl with h | ⟨f, hf⟩
    · exact h
    · -- the frame is complete, so no read found the end
      exact hr.toFrameRead.eof_of_complete hf ▸ he

theorem iface_preserved (C : Call → Connector → Prop) (i : StreamId) (f : Iface) :
    Preserved C fun st => i < st.next ∧ (st.ep i).iface = f := fun _ _ act ⟨hi, hf⟩ =>
  ⟨Nat.lt_of_lt_of_le hi act.grows.next, (act.grows.iface i hi).trans hf⟩

theorem callIn_ends (hs : Sound st) (hl : st.live i) (h : Ends (fun _ => False) st)
    (hfits : EndFits (.inn i o) st) : Ends (fun _ => False) (callIn i o st) := by
  have hpart : Lawful (fun c _ => c = .inn i o) (Ends (· = i)) := ends_lawful fun j o' _ heq => by
    cases heq
    rfl
  have hrest := (hpart.preserved.callIn hs.toBase rfl hl ⟨hs, h.mono fun _ => False.elim⟩).2
  have hiface := ((iface_preserved (fun _ _ => True) i _).callIn (o := o) hs.toBase trivial hl
    ⟨hs.used i hl, rfl⟩).2
  refine ⟨fun c hc _ hn hsouth hst he => ?_, fun s _ hls hif => ?_⟩
  · by_cases hi : c.north = i
    · subst hi
      by_cases hif : (st.ep c.north).iface = .north
      · exact callIn_sent hs.toBase hl hif hfits hc rfl hn hsouth hst he
      · rw [callIn_open hs.toBase hif (h.transport _ id hl hif) hn] at he
        cases he
    · exact hrest.sent c hc hi hn hsouth hst he
  · by_cases hi : s = i
    · subst hi
      rw [hiface] at hif
      exact callIn_open hs.toBase hif (h.transport s id hl hif) hls
    · exact hrest.transport s hi hls hif

/-- Between two events the end of a client was sent to all its connections, and no transport
is at its end. -/
theorem Run.ends (hr : Run EndFits st) : Ends (fun _ => False) st := by
  have hlaw : CallLaw EndFits (Ends fun _ => False) :=
    ⟨ends_lawful fun i o _ h => h.1 i o rfl, fun hs hl hc h => callIn_ends hs hl h hc⟩
  exact hlaw.run (fun mode => ⟨nofun, fun _ _ => nofun⟩) hr

/-- A peer of `x` that is not at its end is polled for input after the event. -/
theorem Run.wakes (hr : Run C st) (o : Oracle) (hm : m.pollout) (hc : c ∈ st.connections)
    (hx : c.south = x ∨ c.north = x) (hl : st.live (c.peer x)) (he : (st.sock (c.peer x)).eof = false) :
    ((handle (.poll x m o) st).interest.get (c.peer x)).pollin := by
  have hsides : c.north ≠ c.south := by
    intro h
    have hn := hr.sides.north c hc
    obtain ⟨b, hb⟩ := hr.sides.south c hc
    rw [h, hb] at hn
    cases hn
  have hne : c.peer x ≠ x := by
    unfold Connection.peer
    split
    · rename_i hs
      rw [← hs]
      exact hsides
    · exact fun hs => absurd hs ‹_›
  exact poll_pollin hr.sound.toBase hne (enter_wakes hm hc hx hl he)

theorem Run.resumes (hr : Run EndFits st) (o : Oracle) (hl : st.live x)
    (hm : m.pollout) : Resumes Connection.north Connection.south x st (handle (.poll x m o) st) := by
  have hends := hr.ends
  refine ⟨fun c hc hx hlive hw => ?_, fun c hc hx hlive hw => ?_⟩
  · have hpeer : c.peer x = c.north := if_pos hx
    have he : (st.sock c.north).eof = false := by
      by_contra he
      rw [Bool.not_eq_false] at he
      obtain ⟨hst, hno⟩ := hw.unsent he
      exact hno (hends.sent c hc id hlive (hx ▸ hl) hst he)
    have hwake := hr.wakes o hm hc (.inl hx) (by rwa [hpeer]) (by rwa [hpeer])
    rwa [hpeer] at hwake
  · obtain ⟨b, hb⟩ := hr.sides.south c hc
    have hpeer : c.peer x = c.south := by
      refine if_neg fun h => ?_
      have hn := hr.sides.north c hc
      rw [hx, ← h, hb] at hn
      cases hn
    have he := hends.transport c.south id hlive (by rw [hb]; nofun)
    have hwake := hr.wakes o hm hc (.inr hx) (by rwa [hpeer]) (by rwa [hpeer])
    rwa [hpeer] at hwake

end controller

namespace segment

variable {C : Call → Connector → Prop} {st st' : Connector}

variable {i : StreamId} {P : StreamId → Prop} {m : Mask}

/-- A stream is at its end when it was before, or is read. -/
theorem Act.eof (act : Act C st st') (hi : i < st'.next) (he : (st'.sock i).eof) :
    i < st.next ∧ (st.sock i).eof ∨ ∃ fd, C (.inn i fd) st := by
  have same : st'.next = st.next → (∀ i, (st'.sock i).eof = (st.sock i).eof) →
      i < st.next ∧ (st.sock i).eof ∨ ∃ fd, C (.inn i fd) st := fun hn hs =>
    .inl ⟨hn ▸ hi, (hs i).symm.trans he⟩
  have keeps : Keeps st st' → i < st.next ∧ (st.sock i).eof ∨ ∃ fd, C (.inn i fd) st := fun hk =>
    same hk.next fun i => (hk.kept i).eof
  cases act with
  | quiet hq => exact keeps hq.keeps
  | errors => exact same (Same.takeErrors st _).next (Same.takeErrors st _).eof
  | @frameRead t fd _ _ _ hc _ _ hr =>
    by_cases ht : i = t
    · subst ht
      exact .inr ⟨fd, hc⟩
    · exact .inl ⟨hr.next ▸ hi, by rwa [hr.socks i ht] at he⟩
  | @chunkRead v fd _ _ _ _ hc _ _ hr =>
    by_cases hv : i = v
    · subst hv
      exact .inr ⟨fd, hc⟩
    · exact .inl ⟨hr.next ▸ hi, by rwa [hr.socks i hv] at he⟩
  | refused _ _ _ _ _ hd _ => exact keeps hd.keeps
  | opened _ _ _ _ _ _ _ _ _ ho =>
    by_cases hnew : i = st.next
    · obtain ⟨fd, rx, tx, hk, -⟩ := ho.born
      rw [hnew, hk.eof] at he
      cases he
    · refine .inl ⟨?_, (ho.kept i hnew).eof.symm.trans he⟩
      rw [ho.next] at hi
      exact Nat.lt_of_le_of_ne (Nat.le_of_lt_succ hi) hnew
  | deferred _ _ _ hd => exact keeps hd.keeps
  | delivered _ _ _ _ _ _ _ hd => exact same hd.next hd.eof
  | idle _ _ _ _ _ _ _ hl _ => exact keeps hl.keeps
  | full _ _ _ hw => exact keeps hw.keeps
  | sent _ _ _ _ _ _ hs hl _ => exact keeps (hs.keeps.trans hl.keeps)
  | transportGone _ hg => exact same hg.next fun i => (hg.kept i).eof
  | serviceGone _ hg => exact same hg.next fun i => (hg.kept i).eof
  | shut => exact .inl ⟨hi, he⟩
  | dialed hd _ _ =>
    by_cases hlt : i < st.next
    · exact .inl ⟨hlt, (hd.eof hlt).symm.trans he⟩
    · obtain ⟨fd, rx, tx, hnew⟩ := hd.born i (Nat.le_of_not_lt hlt) hi
      rw [hnew] at he
      cases he
  | connectLost _ _ _ hg => exact same hg.next fun i => (hg.kept i).eof
  | pushRx => exact same (Same.pushRx st _ _).next (Same.pushRx st _ _).eof
  | pushTx => exact same (Same.pushTx st _ _).next (Same.pushTx st _ _).eof

/-- What is known of the streams at their ends, those in `P` apart: the end of a service was
sent to its transport, and a transport at its end is gone. -/
structure Ends (P : StreamId → Prop) (st : Connector) : Prop where
  sent : ∀ c ∈ st.connections, ¬ P c.south → st.live c.south → st.live c.north →
    (st.sock c.south).eof → SentStop c.cid st.log
  transport : ∀ t, ¬ P t → st.live t → (st.ep t).iface = .north → (st.sock t).eof = false

theorem Ends.mono {Q : StreamId → Prop} (h : Ends P st) (hPQ : ∀ i, P i → Q i) : Ends Q st :=
  ⟨fun c hc hQ => h.sent c hc fun hP => hQ (hPQ _ hP), fun s hQ => h.transport s fun hP => hQ (hPQ _ hP)⟩

theorem ends_lawful (hC : ∀ i fd st, C (.inn i fd) st → P i) : Lawful C (Ends P) := by
  intro st st' obs act hs ht h
  have hg := act.grows
  have hsound := act.sound hs ht
  have heof : ∀ i, ¬ P i → i < st'.next → (st'.sock i).eof → i < st.next ∧ (st.sock i).eof :=
    fun i hP hi he => (act.eof hi he).resolve_right fun ⟨fd, ho⟩ => hP (hC i fd st ho)
  refine ⟨fun c hc hP hsouth hn he => ?_, fun t hP hl hif => ?_⟩
  · obtain ⟨hlt, he0⟩ := heof c.south hP (hsound.souths c hc) he
    rcases (ht.turn c hc).origin with ⟨d, hd, s, rfl, -⟩ | ⟨-, -, f, -, -, -, -, -, -, -, heq, -⟩
    · rw [ht.log]
      exact exists_about_mono (h.sent d hd hP (hg.was_live hlt hsouth) (hg.was_live (hs.norths d hd) hn) he0)
    · -- the service stream of a new connection is new
      rw [heq] at hlt
      exact absurd hlt (Nat.lt_irrefl _)
  · by_contra he
    obtain ⟨hlt, he0⟩ := heof t hP (hsound.used t hl) (by simpa using he)
    rw [h.transport t hP (hg.was_live hlt hl) (by rwa [← hg.iface t hlt])] at he0
    cases he0

theorem south_write_fits {v : StreamId} {c : Connection} {st : Connector}
    (h : Fits (st.sock c.north) (st.chunk v).tellp) : (south_write v c st).2 = true := by
  have hroom : ¬ ((MAX_BUFSIZE : Int) - (HDRLEN + (st.chunk v).tellp : Nat) <
      ((if decide ((MAX_BUFSIZE : Int) - (HDRLEN + (st.chunk v).tellp : Nat) ≤ (st.sock c.north).tellp) = true
        then st.flushSock c.north else st).sock c.north).tellp) := by
    unfold Fits at h
    split
    · rw [flushSock, sock_setSock, if_pos rfl]
      omega
    · rename_i hpos
      rw [decide_eq_true_iff] at hpos
      omega
  unfold south_write
  dsimp only
  generalize (if decide ((MAX_BUFSIZE : Int) - (HDRLEN + (st.chunk v).tellp : Nat) ≤
    (st.sock c.north).tellp) = true then st.flushSock c.north else st) = a at hroom ⊢
  generalize (⟨if !st.live v || (st.sock v).eof then STOP else DATA, 0⟩ : Msgtype) = type
  split
  · rfl
  · split <;> rfl

/-- When the read of a service comes to its end, its transport has room for the last frame. -/
def EndFits : Call → Connector → Prop
  | .inn v _, st => (st.ep v).iface ≠ .north → ((readService v st).sock v).eof →
      ∀ c ∈ st.connections, c.south = v → st.live c.north →
        Fits ((readService v st).sock c.north) ((readService v st).chunk v).tellp
  | .out _, _ => True
  | .env _, _ => True

variable {c : Connection} {v t : StreamId} {failed : Bool} {fd : Option Int}

/-- The end of a service goes to its transport, when there is room. -/
theorem route_south_end {st : Connector} {k : Nat} (he : (st.sock v).eof) (hk : findSouth v st = some k)
    (hget : st.connections[k]? = some c)
    (hfits : Fits (st.sock c.north) (st.chunk v).tellp) : SentStop c.cid (route_south v st).1.log := by
  have hch : ((st.setChunk v (st.chunk v).rewindg).setTrigger c.north Mask.POLLOUT).chunk v =
      (st.chunk v).rewindg := (chunk_setChunk st v v _).trans (if_pos rfl)
  have hsock : ∀ i, ((st.setChunk v (st.chunk v).rewindg).setTrigger c.north Mask.POLLOUT).sock i =
      st.sock i := fun i => sock_setChunk st v i _
  have hroom := @south_write_fits v c ((st.setChunk v (st.chunk v).rewindg).setTrigger c.north Mask.POLLOUT)
    (by rw [hch, hsock]; exact hfits)
  have hspec := @south_write_spec v c
    ((st.setChunk v (st.chunk v).rewindg).setTrigger c.north Mask.POLLOUT) (by rw [hch]; rfl)
  have htype : serviceType v ((st.setChunk v (st.chunk v).rewindg).setTrigger c.north Mask.POLLOUT) =
      ⟨STOP, 0⟩ := by
    rw [serviceType, hsock, he, Bool.or_true, if_pos rfl]
  rw [htype] at hspec
  unfold route_south
  dsimp only
  rw [hk]
  dsimp only
  rw [hget]
  dsimp only
  rw [if_pos (by rw [he, Bool.true_or])]
  generalize south_write v c ((st.setChunk v (st.chunk v).rewindg).setTrigger c.north Mask.POLLOUT) = w
    at hroom hspec ⊢
  obtain ⟨st1, b⟩ := w
  cases hroom
  obtain ⟨hno, -⟩ | ⟨-, ok, hs⟩ := hspec
  · cases hno
  · have hlog : ∀ a : Connector, a.log = st1.log → SentStop c.cid a.log := by
      intro a ha
      rw [ha, hs.effect.log]
      exact ⟨_, mem_about.mpr ⟨List.mem_append_right _ (.head _), rfl⟩, rfl⟩
    dsimp only
    rw [if_pos he]
    exact hlog _ rfl

/-- The connections of a service are those it had, and all have one number. -/
theorem SouthRouted.cid (h : SouthRouted v st st' failed)
    (halone : ∀ c ∈ st.connections, ∀ d ∈ st.connections, c.south = d.south → c.cid = d.cid) (he : (st.sock v).eof)
    (hc : c ∈ st'.connections) (hv : c.south = v) (hl : st.live c.north) :
    ∃ k d, findSouth v st = some k ∧ st.connections[k]? = some d ∧ d.cid = c.cid := by
  cases h with
  | lost hk =>
    unfold findSouth at hk
    rw [List.findIdx?_eq_none_iff] at hk
    have := hk c hc
    simp [hv, hl] at this
  | idle k d _ _ _ he' _ _ _ =>
    rw [he] at he'
    cases he'
  | full k d _ hk hget _ hw =>
    rw [hw.connections] at hc
    exact ⟨k, d, hk, hget, halone d (List.mem_of_getElem? hget) c hc
      ((south_of_findSouth hk hget).1.trans hv.symm)⟩
  | sent k d mid _ ok hk hget _ hs hl' hconn =>
    refine ⟨k, d, hk, hget, ?_⟩
    rw [hconn] at hc
    rcases List.mem_or_eq_of_mem_set hc with hc | rfl
    · exact halone d (List.mem_of_getElem? hget) c hc ((south_of_findSouth hk hget).1.trans hv.symm)
    · rfl

/-- After the call a service at its end has sent it. -/
theorem callIn_sent (hs : Sound st) (hl : st.live v) (hif : (st.ep v).iface ≠ .north)
    (hfits : EndFits (.inn v fd) st) (hc : c ∈ (callIn v fd st).connections) (hv : c.south = v)
    (hlv : (callIn v fd st).live v) (hln : (callIn v fd st).live c.north) (he : ((callIn v fd st).sock v).eof) :
    SentStop c.cid (callIn v fd st).log := by
  obtain ⟨bs, hr⟩ := readService_spec v st (hs.chunk v)
  have hroute := @route_south_spec v ((readService v st).dropInput v) (by rw [hr.live]; exact hl)
  have hcall := callIn_south fd hif
  have hend : ∀ {k : Nat} {d : Connection}, (((readService v st).dropInput v).sock v).eof →
      findSouth v ((readService v st).dropInput v) = some k →
      ((readService v st).dropInput v).connections[k]? = some d →
      SentStop d.cid (route_south v ((readService v st).dropInput v)).1.log := by
    intro k d he hk hget
    obtain ⟨hdv, hdl⟩ := south_of_findSouth hk hget
    refine route_south_end he hk hget ?_
    rw [dropInput_sock] at he ⊢
    rw [(dropInput_quiet _ v).chunk]
    rw [hr.connections] at hget
    rw [hr.live] at hdl
    exact hfits hif he d (List.mem_of_getElem? hget) hdv hdl
  rw [hcall] at hc hlv hln he ⊢
  have hkeeps := hroute.keeps
  generalize route_south v ((readService v st).dropInput v) = r at *
  obtain ⟨st2, failed⟩ := r
  cases failed with
  | true =>
    obtain ⟨obs, hg⟩ := south_err_handler_spec v st2
    rw [hg.live, if_pos rfl] at hlv
    cases hlv
  | false =>
    dsimp only at *
    rw [(hkeeps.kept v).eof] at he
    obtain ⟨k, d, hk, hget, hcid⟩ := hroute.cid (by rw [hr.connections]; exact hs.alone) he hc hv
      (by rw [← hkeeps.live]; exact hln)
    rw [← hcid]
    exact hend he hk hget

theorem NorthRouted.eof (h : NorthRouted t st st' failed) (ht : t < st.next) : (st'.sock t).eof = (st.sock t).eof := by
  cases h with
  | idle => rfl
  | refused _ _ _ _ _ hd _ => exact (hd.keeps.kept t).eof
  | opened _ _ _ _ _ _ _ ho => exact (ho.kept t (Nat.ne_of_lt ht)).eof
  | deferred _ _ _ _ _ _ _ _ hd => exact (hd.keeps.kept t).eof
  | delivered _ _ _ _ _ _ _ _ _ hd => exact hd.eof t

/-- A transport that stays is not at its end, or its frame is complete. -/
theorem NorthRouted.stays (h : NorthRouted t st st' failed)
    (hok : failed = false) : (st.sock t).eof = false ∨ ∃ f, frameOf (st.frame t) = some f := by
  cases h with
  | idle => exact .inl hok
  | refused => exact .inl hok
  | opened f _ hf => exact .inr ⟨f, hf⟩
  | deferred f _ _ _ hf => exact .inr ⟨f, hf⟩
  | delivered => exact .inl hok

/-- After the call a transport that is still there is not at its end. -/
theorem callIn_open (hready : Ready st) (hlt : st.live t) (hif : (st.ep t).iface = .north)
    (he : (st.sock t).eof = false) (hl : (callIn t fd st).live t) : ((callIn t fd st).sock t).eof = false := by
  have hok0 := hready.frames t (.inl hlt)
  obtain ⟨bs, hr⟩ := readTransport_spec t st hok0
  obtain ⟨hok, hnew⟩ := hr.frameOk hok0
  have hroute := @route_north_spec fd _ _ hok hnew
  rw [callIn_north fd hif] at hl ⊢
  have heof := hroute.eof (by rw [hr.next]; exact hready.used t hlt)
  have hstays := hroute.stays
  generalize route_north fd t ((readTransport t st).dropInput t) = r at hl heof hstays ⊢
  obtain ⟨st2, failed⟩ := r
  cases failed with
  | true =>
    obtain ⟨obs, hg⟩ := north_err_handler_spec t st2
    rw [hg.live, if_pos rfl] at hl
    cases hl
  | false =>
    dsimp only at heof ⊢
    rw [heof]
    rcases hstays rfl with h | ⟨f, hf⟩
    · exact h
    · -- the frame is complete, so no read found the end
      exact hr.toFrameRead.eof_of_complete hf ▸ he

theorem iface_preserved (C : Call → Connector → Prop) (i : StreamId) (f : Iface) :
    Preserved C fun st => i < st.next ∧ (st.ep i).iface = f := fun _ _ act ⟨hi, hf⟩ =>
  ⟨Nat.lt_of_lt_of_le hi act.grows.next, (act.grows.iface i hi).trans hf⟩

theorem callIn_ends (hs : Sound st) (hready : Ready st) (hl : st.live i) (h : Ends (fun _ => False) st)
    (hfits : EndFits (.inn i fd) st) : Ends (fun _ => False) (callIn i fd st) := by
  have hpart : Lawful (fun c _ => c = .inn i fd) (Ends (· = i)) := ends_lawful fun j fd' _ heq => by
    cases heq
    rfl
  have hrest := (hpart.preserved.callIn hready rfl hl ⟨hs, h.mono fun _ => False.elim⟩).2
  have hiface := (@Preserved.callIn _ _ (iface_preserved (fun _ _ => True) i _) i fd st hready trivial hl
    ⟨hs.used i hl, rfl⟩).2
  refine ⟨fun c hc _ hsouth hn he => ?_, fun t _ hlt hif => ?_⟩
  · by_cases hi : c.south = i
    · subst hi
      by_cases hif : (st.ep c.south).iface = .north
      · rw [callIn_open hready hl hif (h.transport _ id hl hif) hsouth] at he
        cases he
      · exact callIn_sent hs hl hif hfits hc rfl hsouth hn he
    · exact hrest.sent c hc hi hsouth hn he
  · by_cases hi : t = i
    · subst hi
      rw [hiface] at hif
      exact callIn_open hready hl hif (h.transport t id hl hif) hlt
    · exact hrest.transport t hi hlt hif

/-- Between two events the end of a service was sent to its transport, and no transport is at
its end. -/
theorem Run.ends (hr : Run EndFits st) : Ends (fun _ => False) st := by
  have hlaw : CallLaw EndFits (Ends fun _ => False) :=
    ⟨ends_lawful fun i fd _ h => h.1 i fd rfl, fun hs hready hl hc h => callIn_ends hs hready hl h hc⟩
  exact hlaw.run (fun mode => ⟨nofun, fun _ _ => nofun⟩) hr

/-- A peer of `x` that is not at its end is polled for input after the event. -/
theorem Run.wakes (hr : Run C st) (fd : Option Int) (hm : m.pollout) (hc : c ∈ st.connections)
    (hx : c.south = x ∨ c.north = x) (hl : st.live (c.peer x)) (he : (st.sock (c.peer x)).eof = false) :
    ((handle (.poll x m fd) st).interest.get (c.peer x)).pollin := by
  obtain ⟨hs, hready⟩ := hr.sound
  have hsides : c.north ≠ c.south := by
    intro h
    obtain ⟨hn, hsouth⟩ := hs.sides c hc
    rw [h, hsouth] at hn
    cases hn
  have hne : c.peer x ≠ x := by
    unfold Connection.peer
    split
    · rename_i hs
      rw [← hs]
      exact hsides
    · exact fun hs => absurd hs ‹_›
  exact (poll_polled hready).pollin _ hne (enter_wakes hm hc hx hl he)

theorem Run.resumes (hr : Run EndFits st) (fd : Option Int) (hl : st.live x)
    (hm : m.pollout) : Resumes Connection.south Connection.north x st (handle (.poll x m fd) st) := by
  have hends := hr.ends
  have hsides := hr.sound.1.sides
  refine ⟨fun c hc hx hlive hw => ?_, fun c hc hx hlive hw => ?_⟩
  · have hpeer : c.peer x = c.south := by
      refine if_neg fun h => ?_
      obtain ⟨hn, hsouth⟩ := hsides c hc
      rw [hx, ← h, hsouth] at hn
      cases hn
    have he : (st.sock c.south).eof = false := by
      by_contra he
      rw [Bool.not_eq_false] at he
      exact (hw.unsent he).2 (hends.sent c hc id hlive (hx ▸ hl) he)
    have hwake := hr.wakes fd hm hc (.inr hx) (by rwa [hpeer]) (by rwa [hpeer])
    rwa [hpeer] at hwake
  · have hpeer : c.peer x = c.north := if_pos hx
    have he := hends.transport c.north id hlive (hsides c hc).1
    have hwake := hr.wakes fd hm hc (.inl hx) (by rwa [hpeer]) (by rwa [hpeer])
    rwa [hpeer] at hwake

end segment

/-- After a POLLOUT event of a stream, every stream whose input waits for it is polled for
input again: a chunk, a frame, or the end of a client or service whose STOP was not sent.
This holds as long as the end of a client or service finds room for its last frame. -/
theorem deferred_input_is_resumed (st : Connector) :
    (controller.Run controller.EndFits st → ∀ x (m : Mask) o, st.live x → m.pollout →
      Resumes Connection.north Connection.south x st (controller.handle (.poll x m o) st)) ∧
      (segment.Run segment.EndFits st → ∀ x (m : Mask) fd, st.live x → m.pollout →
        Resumes Connection.south Connection.north x st (segment.handle (.poll x m fd) st)) :=
  ⟨fun hr _ _ o hl hm => hr.resumes o hl hm, fun hr _ _ fd hl hm => hr.resumes fd hl hm⟩

/-! ## A transport that is full -/

/-- A stream without a socket takes whatever is written. -/
theorem io.Sockstream.sputn_offline (s : Sockstream) (bs : List UInt8) (hh : s.native_handle = BAD_SOCKET) :
    (s.sputn bs).2 = true ∧ (s.sputn bs).1.parea = s.parea ++ bs ∧ (s.sputn bs).1.rdstate = s.rdstate ∧
      (s.sputn bs).1.native_handle = BAD_SOCKET ∧ (s.sputn bs).1.tx = s.tx := by
  induction bs generalizing s with
  | nil => exact ⟨rfl, by simp [sputn], rfl, hh, rfl⟩
  | cons b bs ih =>
    have hone : (s.sputc b).2 = true ∧ (s.sputc b).1.parea = s.parea ++ [b] ∧
        (s.sputc b).1.rdstate = s.rdstate ∧ (s.sputc b).1.native_handle = BAD_SOCKET ∧
        (s.sputc b).1.tx = s.tx := by
      unfold sputc sync
      rw [if_pos hh]
      split
      · exact ⟨rfl, rfl, rfl, hh, rfl⟩
      · exact ⟨rfl, rfl, rfl, hh, rfl⟩
    unfold sputn
    generalize s.sputc b = r at hone
    obtain ⟨s', ok⟩ := r
    obtain ⟨hok, hp, hr, hh', htx⟩ := hone
    cases hok
    obtain ⟨i1, i2, i3, i4, i5⟩ := ih s' hh'
    refine ⟨i1, ?_, i3.trans hr, i4, i5.trans htx⟩
    rw [i2, hp, List.append_assoc]
    rfl

theorem io.Sockstream.write_offline (s : Sockstream) (bs : List UInt8) (hg : s.good)
    (hh : s.native_handle = BAD_SOCKET) :
    (s.write bs).parea = s.parea ++ bs ∧ (s.write bs).rdstate = s.rdstate ∧
      (s.write bs).native_handle = BAD_SOCKET ∧ (s.write bs).tx = s.tx := by
  have h := s.sputn_offline bs hh
  unfold write
  rw [if_pos hg]
  generalize s.sputn bs = r at h
  obtain ⟨s', ok⟩ := r
  obtain ⟨hok, h⟩ := h
  cases hok
  exact h

/-- One byte is read, and then nothing more, or the end. -/
theorem readChunk_byte (buf : Stringstream) (s : Sockstream) (b : UInt8) (rest : List Recv)
    (hbuf : buf.gpos = buf.ppos) (hg : s.good) (hh : s.native_handle ≠ BAD_SOCKET) (hga : s.garea = [])
    (hrx : s.rx = .data b [] :: rest) (hrest : rest = [] ∨ rest = [.eof]) :
    readChunk false buf s = (buf.rewindg.rewindp.write [b],
      { s with
        rdstate.eofbit := rest != []
        rx := rest
        taken := s.taken ++ [b]
        gcount := 0 }) := by
  have hfuel : MAXCHUNK + 1 = (MAXCHUNK - 1) + 1 + 1 := by simp [MAXCHUNK, UINT16_MAX, HDRLEN]
  unfold readChunk copyChunk Stringstream.tellg Stringstream.tellp
  rw [if_pos hbuf, hfuel]
  have hfirst : s.readsome (min MAXCHUNK 256) = ([b], { s with rx := rest, taken := s.taken ++ [b], gcount := 1 }) := by
    unfold Sockstream.readsome Sockstream.in_avail Sockstream.recv
    rw [if_pos hg, if_pos hga, if_neg hh, hrx]
    simp [hga, MAXCHUNK, UINT16_MAX, HDRLEN]
  have hsecond : ({ s with rx := rest, taken := s.taken ++ [b], gcount := 1 } : Sockstream).readsome
      (min (MAXCHUNK - 1) 256) = ([], { s with
        rdstate.eofbit := rest != []
        rx := rest
        taken := s.taken ++ [b]
        gcount := 0 }) := by
    have hg' : ({ s with rx := rest, taken := s.taken ++ [b], gcount := 1 } : Sockstream).good := hg
    have heof : s.rdstate.eofbit = false := by
      simp only [Sockstream.good, Iostate.good, Bool.not_eq_true', Bool.or_eq_false_iff] at hg
      exact hg.1.1
    unfold Sockstream.readsome Sockstream.in_avail Sockstream.recv
    rw [if_pos hg']
    rcases hrest with rfl | rfl
    · simp [hga, hh, ← heof]
    · simp [hga, hh, Sockstream.set_eofbit]
  unfold copyLoop
  rw [hfirst]
  dsimp only
  rw [if_neg (by simp)]
  unfold copyLoop
  rw [show MAXCHUNK - [b].length = MAXCHUNK - 1 from rfl, hsecond]

theorem stream_write_byte (s : Sockstream) (buf : Stringstream) (h : buf.ppos = 1) :
    ∃ b buf', stream_write_upto 1 s buf.rewindg 1 = (s.write [b], buf') ∧ buf'.gpos = buf'.ppos := by
  have hle := buf.ppos_le
  rw [h] at hle
  obtain ⟨b, bs, hd⟩ := List.exists_cons_of_length_pos hle
  have hread : Istream.readsome buf.rewindg (min 1 256) = ([b], (buf.rewindg.readsome 1).2) := by
    simp [Istream.readsome, Stringstream.readsome, Stringstream.rewindg, hd]
  refine ⟨b, (buf.rewindg.readsome 1).2, ?_, ?_⟩
  · unfold stream_write_upto
    rw [if_neg Nat.one_ne_zero, hread]
    dsimp only
    split
    · rfl
    · rfl
  · simp [Stringstream.readsome, Stringstream.rewindg, hd, h]

theorem ChunkWaits.of_same (h : ChunkWaits st c y) (hchunk : st'.chunk y = st.chunk y) (hsock : st'.sock y = st.sock y)
    (hlog : st'.log = st.log) : ChunkWaits st' c y := by
  cases h with
  | chunk hp hstop => exact .chunk (by rwa [hchunk]) (by rwa [hsock, hlog])
  | stop he hst hno => exact .stop (by rwa [hsock]) hst (by rwa [hlog])

namespace controller

/-- The client 0 and its transport 1, which has no socket yet and `k` frames of one byte in its
put area. -/
structure Pipe (k : Nat) (st : Connector) : Prop where
  conn : ∃ c, st.connections = [c] ∧ c.north = 0 ∧ c.south = 1 ∧ (c.state = .HALF_OPEN ∨ c.state = .OPEN)
  client : st.live 0 ∧ (st.ep 0).iface = .north
  transport : st.live 1 ∧ (st.ep 1).iface = .south 0
  good : (st.sock 1).good
  offline : (st.sock 1).native_handle = BAD_SOCKET
  bytes : (st.sock 1).parea.length = 25 * k
  tx : (st.sock 1).tx = []
  pending : st.pending = [(1, 0)]
  log : ∀ o ∈ st.log, o.sendsStop = false

/-- The last chunk of the client was forwarded, and the kernel will answer `rx`. -/
structure Idle (rx : List Recv) (st : Connector) : Prop where
  state : (st.sock 0).rdstate = {}
  handle : (st.sock 0).native_handle = 10
  garea : (st.sock 0).garea = []
  rx : (st.sock 0).rx = rx
  chunk : (st.chunk 0).gpos = (st.chunk 0).ppos

/-- A byte of the client is in its chunk buffer, and the client is at its end if `rx` says so. -/
structure Loaded (rx : List Recv) (st : Connector) : Prop where
  state : (st.sock 0).rdstate = { eofbit := rx != [] }
  handle : (st.sock 0).native_handle = 10
  garea : (st.sock 0).garea = []
  rx : (st.sock 0).rx = rx
  gpos : (st.chunk 0).gpos = 0
  ppos : (st.chunk 0).ppos = 1

variable {st : Connector} {k : Nat} {rx : List Recv} {c : Connection}

variable {st' : Connector} {rest : List Recv}

/-- What is done to the client alone does not change the rest. -/
theorem Pipe.of_client (h : Pipe k st) (hc : st'.connections = st.connections) (hl : ∀ i, st'.live i = st.live i)
    (hi : ∀ i, (st'.ep i).iface = (st.ep i).iface) (hs : st'.sock 1 = st.sock 1) (hp : st'.pending = st.pending)
    (hlog : st'.log = st.log) : Pipe k st' where
  conn := by rw [hc]; exact h.conn
  client := by rw [hl, hi]; exact h.client
  transport := by rw [hl, hi]; exact h.transport
  good := by rw [hs]; exact h.good
  offline := by rw [hs]; exact h.offline
  bytes := by rw [hs]; exact h.bytes
  tx := by rw [hs]; exact h.tx
  pending := by rw [hp]; exact h.pending
  log := by rw [hlog]; exact h.log

theorem Pipe.pushRx (h : Pipe k st) (r : Recv) : Pipe k (st.pushRx 0 r) := by
  refine h.of_client rfl (fun i => ?_) (fun i => ?_) ?_ rfl rfl
  · exact live_setSock st 0 i _
  · exact iface_setSock st 0 i _
  · exact (sock_setSock st 0 1 _).trans (if_neg Nat.one_ne_zero)

theorem Idle.pushRx (h : Idle rx st) (r : Recv) : Idle (rx ++ [r]) (st.pushRx 0 r) := by
  have hsock : (st.pushRx 0 r).sock 0 = { st.sock 0 with rx := (st.sock 0).rx ++ [r] } :=
    (sock_setSock st 0 0 _).trans (if_pos rfl)
  have hchunk : (st.pushRx 0 r).chunk 0 = st.chunk 0 := chunk_setSock st 0 0 _
  refine ⟨?_, ?_, ?_, ?_, ?_⟩
  · rw [hsock]; exact h.state
  · rw [hsock]; exact h.handle
  · rw [hsock]; exact h.garea
  · rw [hsock]; exact congrArg (· ++ [r]) h.rx
  · rw [hchunk]; exact h.chunk

/-- The read takes the byte, and finds nothing more, or the end. -/
theorem Idle.load {b : UInt8} (hp : Pipe k st) (h : Idle (.data b [] :: rest) st) (hrest : rest = [] ∨ rest = [.eof]) :
    Pipe k ((readClient 0 st).dropInput 0) ∧ Loaded rest ((readClient 0 st).dropInput 0) ∧
      ((readClient 0 st).dropInput 0).interest = st.interest := by
  have hread := readChunk_byte (st.chunk 0) (st.sock 0) b rest h.chunk (by simp [Sockstream.good, Iostate.good, h.state])
    (by rw [h.handle]; decide) h.garea h.rx hrest
  have hform : readClient 0 st = (st.setChunk 0 ((st.chunk 0).rewindg.rewindp.write [b])).setSock 0
      { st.sock 0 with
        rdstate.eofbit := rest != []
        rx := rest
        taken := (st.sock 0).taken ++ [b]
        gcount := 0 } := by
    unfold readClient unmarshal
    rw [hread]
  have hdrop : ∀ st' : Connector, (st'.sock 0).gcount = 0 → st'.dropInput 0 =
      st'.setRevents (st'.revents.without (Mask.POLLIN.union Mask.POLLHUP)) := fun st' h0 => if_pos h0
  rw [hform, hdrop _ (by rw [sock_setSock, if_pos rfl])]
  refine ⟨hp.of_client rfl (fun i => ?_) (fun i => ?_) ?_ rfl rfl, ⟨?_, ?_, ?_, ?_, ?_, ?_⟩, rfl⟩
  · exact (live_setSock _ 0 i _).trans (live_setChunk st 0 i _)
  · exact (iface_setSock _ 0 i _).trans (iface_setChunk st 0 i _)
  · exact ((sock_setSock _ 0 1 _).trans (if_neg Nat.one_ne_zero)).trans (sock_setChunk st 0 1 _)
  all_goals
    first
      | rw [show ∀ st' m, (setRevents st' m).sock 0 = st'.sock 0 from fun _ _ => rfl, sock_setSock, if_pos rfl]
      | rw [show ∀ st' m, (setRevents st' m).chunk 0 = st'.chunk 0 from fun _ _ => rfl, chunk_setSock,
          chunk_setChunk, if_pos rfl]
  · dsimp only
    rw [h.state]
  · exact h.handle
  · exact h.garea
  · rfl
  · rfl

/-- A transport without a socket takes the header and the byte. -/
theorem Loaded.written (hp : Pipe k st) (h : Loaded rx st) (t : Msgtype) (hs : c.south = 1) :
    ∃ s buf, writeChunk 0 t st c = ((st.setSock 1 s).setChunk 0 buf).note
        (.sent (some c.cid) 1 c.uuid t (st.chunk 0).chunk (st.sock 1).good) ∧
      s.parea.length = 25 * (k + 1) ∧ s.rdstate = (st.sock 1).rdstate ∧ s.native_handle = BAD_SOCKET ∧
      s.tx = [] ∧ buf.gpos = buf.ppos := by
  obtain ⟨w1, w2, w3, w4⟩ := (st.sock 1).write_offline (Msgheader.of c.uuid 1 t).encode hp.good hp.offline
  have hg : ((st.sock 1).write (Msgheader.of c.uuid 1 t).encode).good := by
    rw [Sockstream.good_of_rdstate w2]
    exact hp.good
  obtain ⟨b, buf, hw, hbuf⟩ :=
    stream_write_byte ((st.sock 1).write (Msgheader.of c.uuid 1 t).encode) (st.chunk 0) h.ppos
  obtain ⟨v1, v2, v3, v4⟩ := Sockstream.write_offline _ [b] hg w3
  have htell : (st.chunk 0).tellp = 1 := h.ppos
  refine ⟨_, buf, ?_, ?_, v2.trans w2, v3, v4.trans (w4.trans hp.tx), hbuf⟩
  · unfold writeChunk
    dsimp only
    rw [hs, htell, hw]
  · rw [v1, w1]
    simp [hp.bytes, HDRLEN]
    omega

theorem Pipe.tellp (h : Pipe k st) : (st.sock 1).tellp = 25 * k := by
  unfold Sockstream.tellp
  rw [Sockstream.fail_of_good h.good, h.bytes]
  simp

/-- The chunk of one byte finds room. -/
theorem Pipe.write_prepare_room (h : Pipe k st) (hroom : 25 * (k + 1) < MAX_BUFSIZE) :
    write_prepare 0 1 st.connections st = (st, false) := by
  obtain ⟨c, hc, hn, hs, -⟩ := h.conn
  have hpos : ¬ (MAX_BUFSIZE : Int) - (1 + HDRLEN : Nat) ≤ (st.sock 1).tellp := by
    rw [h.tellp]
    simp only [MAX_BUFSIZE, HDRLEN] at *
    omega
  have hlt : ¬ (MAX_BUFSIZE : Int) - (1 + HDRLEN : Nat) < (st.sock 1).tellp := fun h => hpos (Int.le_of_lt h)
  rw [hc]
  unfold write_prepare
  rw [if_pos ⟨hn, by rw [hs]; exact h.transport.1⟩, hs, Sockstream.fail_of_good h.good]
  simp only [if_neg hpos, if_neg hlt, Sockstream.bad_of_good h.good]
  rfl

/-- The chunk of one byte finds no room. -/
theorem Pipe.write_prepare_full (h : Pipe k st) (hfull : MAX_BUFSIZE < 25 * (k + 1)) :
    write_prepare 0 1 st.connections st = (st.flushSock 1, true) := by
  obtain ⟨c, hc, hn, hs, -⟩ := h.conn
  have hflush : (st.sock 1).flush = (st.sock 1).resizewbuf := by
    unfold Sockstream.flush Sockstream.sync
    rw [if_pos h.good, if_pos h.offline]
  have hsock : (st.flushSock 1).sock 1 = (st.sock 1).resizewbuf := by
    rw [flushSock, sock_setSock, if_pos rfl, hflush]
  have hlt : (MAX_BUFSIZE : Int) - (1 + HDRLEN : Nat) < (st.sock 1).tellp := by
    rw [h.tellp]
    simp only [MAX_BUFSIZE, HDRLEN] at *
    omega
  have htell : ((st.flushSock 1).sock 1).tellp = (st.sock 1).tellp := by rw [hsock]; rfl
  have hbad : ((st.flushSock 1).sock 1).bad = false := by
    rw [hsock]
    exact Sockstream.bad_of_good h.good
  rw [hc]
  unfold write_prepare
  rw [if_pos ⟨hn, by rw [hs]; exact h.transport.1⟩, hs, Sockstream.fail_of_good h.good]
  simp only [if_pos (Int.le_of_lt hlt), hbad, htell, if_pos hlt]
  rfl

/-- With room in the put area, the chunk goes to the transport. -/
theorem Loaded.forward (hp : Pipe k st) (h : Loaded [] st) (hroom : 25 * (k + 1) < MAX_BUFSIZE) :
    Pipe (k + 1) (route_north {} 0 st).1 ∧ Idle [] (route_north {} 0 st).1 ∧
      (route_north {} 0 st).2 = false := by
  obtain ⟨c, hc, hn, hs, hstate⟩ := hp.conn
  obtain ⟨s, buf, hw, hbytes, hrd, hh, htx, hbuf⟩ := h.written hp ⟨DATA, 0⟩ hs
  have heof : (st.sock 0).eof = false := by simp [Sockstream.eof, h.state]
  have hclosed : c.state ≠ .CLOSED := by
    rcases hstate with h | h <;> simp [h]
  have hall : sendAll 0 ⟨DATA, 0⟩ st = (((st.setSock 1 s).setChunk 0 buf).note
      (.sent (some c.cid) 1 c.uuid ⟨DATA, 0⟩ (st.chunk 0).chunk (st.sock 1).good)).setConn 0
        (state_update c ⟨DATA, 0⟩) := by
    have hone : sendAll 0 ⟨DATA, 0⟩ st = send 0 ⟨DATA, 0⟩ st 0 := by
      unfold sendAll
      rw [hc]
      rfl
    rw [hone]
    unfold send
    simp only [hc, List.getElem?_cons_zero]
    rw [if_pos ⟨hn, by rw [hs]; exact hp.transport.1, hclosed⟩, hw, hs]
    unfold setTriggerOpen
    rw [if_pos (by simpa using hh)]
  have hconns : (sendAll 0 ⟨DATA, 0⟩ st).connections = [state_update c ⟨DATA, 0⟩] := by
    rw [hall]
    change st.connections.set 0 _ = _
    rw [hc]
    rfl
  have hlive : ∀ i, (sendAll 0 ⟨DATA, 0⟩ st).live i = st.live i := fun i => by rw [hall]; simp
  have hiface : ∀ i, ((sendAll 0 ⟨DATA, 0⟩ st).ep i).iface = (st.ep i).iface := fun i => by
    rw [hall]
    exact (iface_setChunk _ 0 i buf).trans (iface_setSock st 1 i s)
  have hclient : (sendAll 0 ⟨DATA, 0⟩ st).sock 0 = st.sock 0 := by rw [hall]; simp
  have htrans : (sendAll 0 ⟨DATA, 0⟩ st).sock 1 = s := by rw [hall]; simp
  have hchunk : (sendAll 0 ⟨DATA, 0⟩ st).chunk 0 = buf := by
    rw [hall]
    exact (chunk_setChunk _ 0 0 buf).trans (if_pos rfl)
  have hlog : (sendAll 0 ⟨DATA, 0⟩ st).log = st.log ++
      [.sent (some c.cid) 1 c.uuid ⟨DATA, 0⟩ (st.chunk 0).chunk (st.sock 1).good] := by
    rw [hall]
    rfl
  have hpend : (sendAll 0 ⟨DATA, 0⟩ st).pending = st.pending := by rw [hall]; rfl
  have hroute : route_north {} 0 st = (sendAll 0 ⟨DATA, 0⟩ st, false) := by
    have htell : (st.chunk 0).tellp = 1 := h.ppos
    have hconn : connected 0 (sendAll 0 ⟨DATA, 0⟩ st) = true := by
      unfold connected
      rw [hconns]
      simp [hlive, state_update, hn, hs, hp.transport.1]
    have hfin : finishNorth 0 (sendAll 0 ⟨DATA, 0⟩ st) =
        sendAll 0 ⟨DATA, 0⟩ st := if_neg (by rw [hclient, heof]; exact Bool.false_ne_true)
    unfold route_north
    simp only [heof, htell, hp.write_prepare_room hroom]
    simp [hconn, hfin]
  rw [hroute]
  refine ⟨⟨⟨_, hconns, hn, hs, .inr ?_⟩, ?_, ?_, ?_, ?_, ?_, ?_, hpend.trans hp.pending, ?_⟩, ⟨?_, ?_, ?_, ?_, ?_⟩, rfl⟩
  · rcases hstate with h | h <;> simp [state_update, ConnState.update, h, DATA, STOP]
  · exact ⟨(hlive 0).trans hp.client.1, (hiface 0).trans hp.client.2⟩
  · exact ⟨(hlive 1).trans hp.transport.1, (hiface 1).trans hp.transport.2⟩
  · rw [htrans, Sockstream.good_of_rdstate hrd]
    exact hp.good
  · rw [htrans]
    exact hh
  · rw [htrans]
    exact hbytes
  · rw [htrans]
    exact htx
  · intro o ho
    rw [hlog, List.mem_append, List.mem_singleton] at ho
    rcases ho with ho | rfl
    · exact hp.log o ho
    · rfl
  all_goals first | rw [hclient] | rw [hchunk]
  · exact h.state
  · exact h.handle
  · exact h.garea
  · exact h.rx
  · exact hbuf

/-- With a full put area, the chunk stays and the client is not polled for input. -/
theorem Loaded.defer (hp : Pipe k st) (h : Loaded rx st) (hfull : MAX_BUFSIZE < 25 * (k + 1)) :
    route_north {} 0 st = ((st.flushSock 1).deferInput 0, false) := by
  have htell : (st.chunk 0).tellp = 1 := h.ppos
  unfold route_north
  simp only [htell, hp.write_prepare_full hfull]
  simp

theorem Pipe.setRevents (h : Pipe k st) (m : Mask) : Pipe k (st.setRevents m) :=
  h.of_client rfl (fun _ => rfl) (fun _ => rfl) rfl rfl rfl

/-- The client is read. -/
theorem Pipe.poll_client (h : Pipe k st) :
    handle (.poll 0 Mask.POLLIN {}) st =
      callIn 0 {} (st.setRevents Mask.POLLIN) ∧
      calls (.poll 0 Mask.POLLIN {}) st = [(.inn 0 {}, st.setRevents Mask.POLLIN)] := by
  refine ⟨?_, rfl⟩
  change (if st.live 0 then callIn 0 {} (st.setRevents Mask.POLLIN) else _) = _
  exact if_pos h.client.1

theorem Pipe.called (h : Pipe k st) (hok : (route_north {} 0 ((readClient 0 st).dropInput 0)).2 = false) :
    callIn 0 {} st = (route_north {} 0 ((readClient 0 st).dropInput 0)).1 := by
  unfold callIn north_pollin_handler
  rw [h.client.2]
  dsimp only
  generalize route_north {} 0 ((readClient 0 st).dropInput 0) = r at hok
  obtain ⟨st', ok⟩ := r
  cases hok
  rfl

theorem Idle.setRevents (h : Idle rx st) (m : Mask) : Idle rx (st.setRevents m) :=
  ⟨h.state, h.handle, h.garea, h.rx, h.chunk⟩

/-- A byte comes from the client, and its read is not the last one. -/
theorem Idle.spoken (h : Idle [] st) (hp : Pipe k st) (hr : Run EndFits st) :
    Run EndFits (st.pushRx 0 (.data 1 [])) ∧
      EndFits (.inn 0 {}) ((st.pushRx 0 (.data 1 [])).setRevents Mask.POLLIN) := by
  refine ⟨hr.step (.env (.rx 0 (.data 1 []))) fun p hmem => ?_, fun _ he => ?_⟩
  · rw [List.mem_singleton.mp hmem]
    trivial
  · obtain ⟨-, h2, -⟩ := ((h.pushRx (.data 1 [])).setRevents Mask.POLLIN).load
      ((hp.pushRx (.data 1 [])).setRevents Mask.POLLIN) (.inl rfl)
    rw [← dropInput_sock _ 0] at he
    simp [Sockstream.eof, h2.state] at he

/-- One more byte of the client goes to the put area of the transport. -/
theorem Pipe.grow (hr : Run EndFits st) (hp : Pipe k st) (h : Idle [] st) (hroom : 25 * (k + 1) < MAX_BUFSIZE) :
    ∃ st', Run EndFits st' ∧ Pipe (k + 1) st' ∧ Idle [] st' := by
  have hp1 := (hp.pushRx (.data 1 [])).setRevents Mask.POLLIN
  obtain ⟨hp2, h2, -⟩ := ((h.pushRx (.data 1 [])).setRevents Mask.POLLIN).load hp1 (.inl rfl)
  obtain ⟨hp3, h3, hok⟩ := h2.forward hp2 hroom
  obtain ⟨hhandle, hcalls⟩ := (hp.pushRx (.data 1 [])).poll_client
  obtain ⟨hrun1, hfits⟩ := h.spoken hp hr
  have hrun2 := hrun1.step (.poll 0 Mask.POLLIN {}) fun p hmem => by
    rw [hcalls, List.mem_singleton] at hmem
    rw [hmem]
    exact hfits
  rw [hhandle, hp1.called hok] at hrun2
  exact ⟨_, hrun2, hp3, h3⟩

/-- The client fills the put area. -/
theorem Pipe.filled (k : Nat) (hroom : 25 * (k + 1) < MAX_BUFSIZE) :
    ∃ st, Run EndFits st ∧ Pipe (k + 1) st ∧ Idle [] st := by
  induction k with
  | zero =>
    refine ⟨play (dialing [.make none]) {}, (Run.init _).after (by decide +kernel), ?_, ?_⟩
    · refine ⟨⟨_, rfl, rfl, rfl, .inl rfl⟩, ?_, ?_, ?_, ?_, ?_, ?_, ?_, ?_⟩
      all_goals decide +kernel
    · refine ⟨?_, ?_, ?_, ?_, ?_⟩
      all_goals decide +kernel
  | succ k ih =>
    obtain ⟨st, hr, hp, h⟩ := ih (by omega)
    exact hp.grow hr h hroom

theorem Pipe.flushed (h : Pipe k st) : Pipe k ((st.flushSock 1).deferInput 0) := by
  have hsock : ((st.flushSock 1).deferInput 0).sock 1 = (st.sock 1).resizewbuf := by
    change (st.setSock 1 (st.sock 1).flush).sock 1 = _
    rw [sock_setSock, if_pos rfl]
    unfold Sockstream.flush Sockstream.sync
    rw [if_pos h.good, if_pos h.offline]
  have hlive : ∀ i, ((st.flushSock 1).deferInput 0).live i = st.live i := fun i => live_setSock st 1 i _
  have hiface : ∀ i, (((st.flushSock 1).deferInput 0).ep i).iface = (st.ep i).iface := fun i => iface_setSock st 1 i _
  refine ⟨h.conn, ?_, ?_, ?_, ?_, ?_, ?_, h.pending, h.log⟩
  · rw [hlive, hiface]
    exact h.client
  · rw [hlive, hiface]
    exact h.transport
  all_goals rw [hsock]
  · exact h.good
  · exact h.offline
  · exact h.bytes
  · exact h.tx

/-- The byte that has no room stays in the chunk buffer of the client. -/
theorem Pipe.deferred {C : Call → Connector → Prop} {k : Nat} {st : Connector} {rest : List Recv}
    (hr : Run C st) (hp : Pipe k st) (h : Idle (.data 1 [] :: rest) st)
    (hrest : rest = [] ∨ rest = [.eof]) (hfull : MAX_BUFSIZE < 25 * (k + 1))
    (hC : C (.inn 0 {}) (st.setRevents Mask.POLLIN)) :
    ∃ st', Run C st' ∧ Pipe k st' ∧ Loaded rest st' ∧ (st'.interest.get 0).pollin = false := by
  have hp1 := hp.setRevents Mask.POLLIN
  obtain ⟨hp2, h2, -⟩ := (h.setRevents Mask.POLLIN).load hp1 hrest
  have hroute := h2.defer hp2 hfull
  obtain ⟨hhandle, hcalls⟩ := hp.poll_client
  have hrun := hr.step (.poll 0 Mask.POLLIN {}) fun p hmem => by
    rw [hcalls, List.mem_singleton] at hmem
    rw [hmem]
    exact hC
  rw [hhandle, hp1.called (by rw [hroute]), hroute] at hrun
  refine ⟨_, hrun, hp2.flushed, ?_, ?_⟩
  · have hsock : ∀ st : Connector, ((st.flushSock 1).deferInput 0).sock 0 = st.sock 0 := fun st =>
      (sock_setSock st 1 0 _).trans (if_neg Nat.zero_ne_one)
    have hchunk : ∀ st : Connector, ((st.flushSock 1).deferInput 0).chunk 0 = st.chunk 0 := fun st =>
      chunk_setSock st 1 0 _
    refine ⟨?_, ?_, ?_, ?_, ?_, ?_⟩
    all_goals first | rw [hsock] | rw [hchunk]
    · exact h2.state
    · exact h2.handle
    · exact h2.garea
    · exact h2.rx
    · exact h2.gpos
    · exact h2.ppos
  · rw [interest_deferInput, if_pos rfl]
    simp [Mask.without, Mask.union, Mask.POLLIN]

theorem Loaded.waits (hp : Pipe k st) (h : Loaded rest st) (hc : st.connections = [c]) : ChunkWaits st c 0 := by
  obtain ⟨d, hd, -, -, hstate⟩ := hp.conn
  rw [hc] at hd
  cases hd
  refine .chunk ?_ fun _ => ⟨?_, ?_⟩
  · have hlen := congrArg List.length (show (st.chunk 0).pending = (st.chunk 0).chunk from if_neg (by simp [h.gpos, h.ppos]))
    have hle := (st.chunk 0).ppos_le
    rw [h.ppos] at hle
    intro hnil
    rw [hnil, Stringstream.chunk, List.length_take, h.ppos] at hlen
    simp only [List.length_nil] at hlen
    omega
  · rcases hstate with h | h <;> simp [h]
  · rintro ⟨o, ho, hstop⟩
    rw [hp.log o (List.mem_of_mem_filter ho)] at hstop
    cases hstop

/-- The frames that fill the put area of a transport. -/
theorem Pipe.full : 25 * (10737417 + 1) < MAX_BUFSIZE ∧ MAX_BUFSIZE < 25 * (10737418 + 1) := by
  unfold MAX_BUFSIZE
  omega

/-- A POLLOUT event of a transport whose client is at its end. -/
theorem poll_transport (hc : st.connections = [c]) (hn : c.north = 0) (hs : c.south = 1)
    (hstate : c.state = .HALF_OPEN ∨ c.state = .OPEN) (hl : st.live 1) (hif : (st.ep 1).iface = .south 0)
    (heof : (st.sock 0).eof) (hok : (st.sock 1).flush.fail = false) :
    handle (.poll 1 Mask.POLLOUT {}) st =
      ((st.setRevents Mask.POLLOUT).flushSock 1).finishOut 1 := by
  have hpeer : c.peer 1 = 0 := (if_pos hs).trans hn
  have henter : st.enter 1 Mask.POLLOUT = st.setRevents Mask.POLLOUT := by
    change (st.connections.foldl (wakeTurn 1) (st.setRevents Mask.POLLOUT)) = _
    rw [hc]
    refine if_neg fun h => ?_
    rw [hpeer] at h
    simp [show (st.setRevents Mask.POLLOUT).sock 0 = st.sock 0 from rfl, heof] at h
  have hflush : ((st.setRevents Mask.POLLOUT).flushSock 1).sock 1 = (st.sock 1).flush :=
    (sock_setSock _ 1 1 _).trans (if_pos rfl)
  have hout : callOut 1 (st.setRevents Mask.POLLOUT) =
      ((st.setRevents Mask.POLLOUT).flushSock 1).finishOut 1 := by
    have hpoll : (st.setRevents Mask.POLLOUT).pollout_handler 1 =
        (((st.setRevents Mask.POLLOUT).flushSock 1).finishOut 1, false) := if_neg (by
      change ¬ ((((st.setRevents Mask.POLLOUT).flushSock 1).sock 1).fail = true)
      rw [hflush, hok]
      exact Bool.false_ne_true)
    unfold callOut
    rw [show ((st.setRevents Mask.POLLOUT).ep 1).iface = .south 0 from hif]
    dsimp only
    rw [hpoll]
    refine if_pos ?_
    have hconns : (((st.setRevents Mask.POLLOUT).flushSock 1).finishOut 1).connections = [c] :=
      (finishOut_quiet _ 1).connections.trans hc
    rw [hconns]
    rcases hstate with h | h <;> simp [hs, h, ConnState.rank]
  have hafter : afterOut 1 (st.setRevents Mask.POLLOUT) =
      ((st.setRevents Mask.POLLOUT).flushSock 1).finishOut 1 := (if_pos hl).trans hout
  change (if (afterOut 1 (st.enter 1 Mask.POLLOUT)).revents.isIn then _ else _) = _
  rw [henter, hafter]
  exact if_neg (show ¬ (Mask.POLLOUT.without { pollout := true, pollerr := true, pollnval := true }).isIn by decide)

/-- The transport gets its socket, and the kernel will take `n` bytes. -/
def online (st : Connector) (n : Nat) : Connector :=
  play [.env (.connected 0 20), .env (.tx 1 (.accept n))] st

/-- Only the transport is not as it was. -/
structure Online (n : Nat) (st st' : Connector) : Prop where
  live : ∀ i, st'.live i = st.live i
  iface : ∀ i, (st'.ep i).iface = (st.ep i).iface
  client : st'.sock 0 = st.sock 0
  transport : st'.sock 1 = { st.sock 1 with native_handle := 20, tx := [.accept n] }
  chunk : st'.chunk 0 = st.chunk 0
  connections : st'.connections = st.connections
  interest : st'.interest.get 0 = st.interest.get 0
  log : st'.log = st.log

theorem Pipe.online (h : Pipe k st) (n : Nat) : Online n st (controller.online st n) := by
  have hcall : connectCallback 1 0 (some 20) { st with pending := [] } =
      (({ st with pending := [] } : Connector).setSock 1 { st.sock 1 with native_handle := 20 }).setTrigger 1
        (Mask.POLLIN.union Mask.POLLOUT) := by
    unfold connectCallback
    rw [if_pos (show ({ st with pending := [] } : Connector).live 1 from h.transport.1)]
    exact congrArg (Connector.setTrigger · 1 _) (if_pos h.offline)
  have hform : controller.online st n = (connectCallback 1 0 (some 20) { st with pending := [] }).pushTx 1
      (.accept n) := by
    change (resolve 0 (some 20) st).pushTx 1 _ = _
    unfold resolve
    rw [h.pending]
    rfl
  rw [hform, hcall]
  refine ⟨fun i => ?_, fun i => ?_, ?_, ?_, ?_, rfl, ?_, rfl⟩
  · exact (live_setSock _ 1 i _).trans (live_setSock _ 1 i _)
  · exact (iface_setSock _ 1 i _).trans (iface_setSock _ 1 i _)
  · exact ((sock_setSock _ 1 0 _).trans (if_neg Nat.zero_ne_one)).trans
      ((sock_setSock _ 1 0 _).trans (if_neg Nat.zero_ne_one))
  · have hset : ((({ st with pending := [] } : Connector).setSock 1 { st.sock 1 with native_handle := 20 }).setTrigger 1
        (Mask.POLLIN.union Mask.POLLOUT)).sock 1 = { st.sock 1 with native_handle := 20 } :=
      (sock_setSock _ 1 1 _).trans (if_pos rfl)
    unfold Connector.pushTx
    rw [sock_setSock, if_pos rfl, hset, h.tx]
    rfl
  · exact (chunk_setSock _ 1 0 _).trans (chunk_setSock _ 1 0 _)
  · exact (interest_setTrigger _ 1 0 _).trans (if_neg Nat.zero_ne_one)

/-- All that waits in the put area goes to the kernel. -/
theorem Online.flush {n : Nat} (h : Online n st st') (hp : Pipe k st) (hk : 0 < k)
    (hn : 25 * k ≤ n) : (st'.sock 1).flush.parea = [] ∧ (st'.sock 1).flush.fail = false := by
  have hg : (st'.sock 1).good := by
    rw [h.transport]
    exact hp.good
  have hdrop : (st.sock 1).parea.drop n = [] := List.drop_eq_nil_of_le (by rw [hp.bytes]; exact hn)
  have hne : (st.sock 1).parea ≠ [] := by
    intro hnil
    have hlen := hp.bytes
    rw [hnil, List.length_nil] at hlen
    omega
  rw [h.transport] at hg ⊢
  unfold Sockstream.flush Sockstream.sync
  rw [if_pos hg, if_neg (show (20 : Int) ≠ BAD_SOCKET by decide), if_neg hne]
  exact ⟨hdrop, Sockstream.fail_of_good hg⟩

end controller

/-- A byte finds no room. Its client is polled again when the transport can be written. -/
theorem a_byte_waits_for_room :
    ∃ st c, controller.Run controller.EndFits st ∧ st.connections = [c] ∧ ChunkWaits st c 0 ∧
      (st.interest.get 0).pollin = false ∧
      ((controller.handle (.poll 1 Mask.POLLOUT {}) st).interest.get 0).pollin := by
  obtain ⟨st, hr, hp, h⟩ := controller.Pipe.filled 10737417 controller.Pipe.full.1
  obtain ⟨hrun, hfits⟩ := h.spoken hp hr
  obtain ⟨st', hr', hp', h', hpoll⟩ :=
    (hp.pushRx (.data 1 [])).deferred hrun (h.pushRx (.data 1 [])) (.inl rfl) controller.Pipe.full.2 hfits
  obtain ⟨c, hc, hn, hs, -⟩ := hp'.conn
  have hwaits := h'.waits hp' hc
  refine ⟨st', c, hr', hc, hwaits, hpoll, ?_⟩
  have := ((deferred_input_is_resumed st').1 hr' 1 Mask.POLLOUT {} hp'.transport.1 rfl).chunk c (by simp [hc]) hs
    (by rw [hn]; exact hp'.client.1) (by rw [hn]; exact hwaits)
  rwa [hn] at this

/-- The last byte of a client and its end are read together and find no room. When the transport
has sent everything, the client is not polled for input: its last byte and its STOP stay. -/
theorem the_end_of_a_client_is_not_resumed :
    ∃ st c, controller.Run (fun _ _ => True) st ∧ st.connections = [c] ∧ c.north = 0 ∧ c.south = 1 ∧ st.live 0 ∧
      st.live 1 ∧ (st.sock 1).native_handle = 20 ∧ ChunkWaits st c 0 ∧
      ((controller.handle (.poll 1 Mask.POLLOUT {}) st).sock 1).parea = [] ∧
      ((controller.handle (.poll 1 Mask.POLLOUT {}) st).interest.get 0).pollin = false := by
  obtain ⟨st, hr, hp, h⟩ := controller.Pipe.filled 10737417 controller.Pipe.full.1
  have hrun : controller.Run (fun _ _ => True) ((st.pushRx 0 (.data 1 [])).pushRx 0 .eof) :=
    ((hr.weaken fun _ _ _ => trivial).step (.env (.rx 0 (.data 1 []))) fun _ _ => trivial).step
      (.env (.rx 0 .eof)) fun _ _ => trivial
  obtain ⟨a, hra, hpa, ha, hpoll⟩ := ((hp.pushRx (.data 1 [])).pushRx .eof).deferred hrun
    ((h.pushRx (.data 1 [])).pushRx .eof) (.inr rfl) controller.Pipe.full.2 trivial
  obtain ⟨c, hc, hn, hs, hstate⟩ := hpa.conn
  have hrb : controller.Run (fun _ _ => True) (controller.online a MAX_BUFSIZE) :=
    (hra.step (.env (.connected 0 20)) fun _ _ => trivial).step (.env (.tx 1 (.accept MAX_BUFSIZE)))
      fun _ _ => trivial
  have hb := hpa.online MAX_BUFSIZE
  obtain ⟨hsent, hok⟩ := hb.flush hpa (by omega) (Nat.le_of_lt controller.Pipe.full.1)
  generalize controller.online a MAX_BUFSIZE = b at hrb hb hsent hok
  have heof : (b.sock 0).eof := by
    rw [hb.client, Sockstream.eof, ha.state]
    rfl
  have hevent := controller.poll_transport (hb.connections.trans hc) hn hs hstate ((hb.live 1).trans hpa.transport.1)
    ((hb.iface 1).trans hpa.transport.2) heof hok
  refine ⟨b, c, hrb, hb.connections.trans hc, hn, hs, (hb.live 0).trans hpa.client.1,
    (hb.live 1).trans hpa.transport.1, by rw [hb.transport], ?_, ?_, ?_⟩
  · exact (ha.waits hpa hc).of_same hb.chunk hb.client hb.log
  · rw [hevent, finishOut_sock]
    exact (congrArg Sockstream.parea ((sock_setSock _ 1 1 _).trans (if_pos rfl))).trans hsent
  · rw [hevent, interest_finishOut _ Nat.zero_ne_one]
    exact (congrArg Mask.pollin hb.interest).trans hpoll

end cloudbus
