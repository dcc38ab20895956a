-- What any handler can do to the streams and the log, said once. A handler is a
-- chain of small operations, each with an effect, and effects compose. So the
-- bytes on every stream are always those of the log.
import Cloudbus.Connector
import Cloudbus.Lib.Loop
import Mathlib.Data.List.Forall2

namespace cloudbus

open cloudbus.io cloudbus.messages

/-! ## One stream -/

namespace io

/-- The stream `s` was used and is `s'` now. The bytes `bs` were written while it was
good: all of them are on it, unless it went bad. -/
structure Ran (s : Sockstream) (bs : List UInt8) (s' : Sockstream) : Prop where
  bad : s.bad → s'.bad
  eof : s.eof → s'.eof
  some : ∃ k, s'.written = s.written ++ bs.take k
  all : s'.bad = false → s'.written = s.written ++ bs
  none : s.bad → bs = []
  taken : s.taken <+: s'.taken
  total : s'.taken ++ s'.avail = s.taken ++ s.avail
  kernel : s.kernel <+: s'.kernel
  tx : s'.tx <:+ s.tx

namespace Ran

variable {s s' s'' : Sockstream} {bs cs : List UInt8}

theorem refl (s : Sockstream) : Ran s [] s :=
  ⟨id, id, ⟨0, by simp⟩, fun _ => by simp, fun _ => rfl, List.prefix_refl _, rfl,
    List.prefix_refl _, List.suffix_refl _⟩

theorem trans (h : Ran s bs s') (h' : Ran s' cs s'') : Ran s (bs ++ cs) s'' where
  bad hb := h'.bad (h.bad hb)
  eof he := h'.eof (h.eof he)
  some := by
    obtain ⟨k, hk⟩ := h'.some
    cases hb : s'.bad with
    | false => exact ⟨bs.length + k, by rw [hk, h.all hb, List.append_assoc, List.take_length_add_append]⟩
    | true =>
      obtain ⟨j, hj⟩ := h.some
      refine ⟨j, ?_⟩
      rw [h'.none hb, List.append_nil]
      rw [hk, h'.none hb, List.take_nil, List.append_nil, hj]
  all hb := by
    cases hb' : s'.bad with
    | false => rw [h'.all hb, h.all hb', List.append_assoc]
    | true => rw [h'.bad hb'] at hb; cases hb
  none hb := by rw [h.none hb, h'.none (h.bad hb)]; rfl
  taken := h.taken.trans h'.taken
  total := h'.total.trans h.total
  kernel := h.kernel.trans h'.kernel
  tx := h'.tx.trans h.tx

/-- Nothing but the bits that block the stream, or its socket, is changed. -/
theorem of_same (hb : s.bad → s'.bad) (he : s.eof → s'.eof) (hk : s'.kernel = s.kernel)
    (hp : s'.parea = s.parea) (ht : s'.taken = s.taken) (hg : s'.garea = s.garea)
    (hr : s'.rx = s.rx) (hx : s'.tx = s.tx) : Ran s [] s' where
  bad := hb
  eof := he
  some := ⟨0, by simp [Sockstream.written, hk, hp]⟩
  all _ := by simp [Sockstream.written, hk, hp]
  none _ := rfl
  taken := ht ▸ List.prefix_refl _
  total := by rw [ht, Sockstream.avail, Sockstream.avail, hg, hr]
  kernel := hk ▸ List.prefix_refl _
  tx := hx ▸ List.suffix_refl _

theorem healthy (h : Ran s bs s') (hs : s.Healthy) : s'.Healthy := fun a ha => hs a (h.tx.subset ha)

theorem written_nil (h : Ran s [] s') : s'.written = s.written := by
  obtain ⟨k, hk⟩ := h.some
  rw [hk, List.take_nil, List.append_nil]

theorem avail (h : Ran s bs s') : s'.avail <:+ s.avail := by
  obtain ⟨r, hr⟩ := h.taken
  have ht := h.total
  rw [← hr, List.append_assoc, List.append_cancel_left_eq] at ht
  exact ⟨r, ht⟩

end Ran

variable {s s' : Sockstream} {bs : List UInt8}

theorem Pulled.ran (h : Pulled s bs s') : Ran s [] s' where
  bad hb := by unfold Sockstream.bad at *; rw [h.badbit]; exact hb
  eof := h.eofbit
  some := ⟨0, by simp [h.written]⟩
  all _ := by simp [h.written]
  none _ := rfl
  taken := ⟨bs, h.taken.symm⟩
  total := by rw [h.taken, List.append_assoc, h.avail]
  kernel := h.kernel ▸ List.prefix_refl _
  tx := h.tx ▸ List.suffix_refl _

/-- The bytes that a stream takes: those of a good stream. -/
def accepted (s : Sockstream) (bs : List UInt8) : List UInt8 := if s.good then bs else []

theorem Pushed.ran (h : Pushed s bs s') :
    Ran s (accepted s bs) s' where
  bad := h.badbit
  eof he := by unfold Sockstream.eof at *; rw [h.eofbit]; exact he
  some := by
    unfold accepted
    split
    · exact h.some
    · rename_i hg
      exact ⟨0, by simp [(h.none (by simpa using hg)).1]⟩
  all hb := by
    unfold accepted
    split
    · rename_i hg
      exact h.all hg hb
    · rename_i hg
      simp [(h.none (by simpa using hg)).1]
  none hb := by simp [accepted, Sockstream.not_good_of_bad hb]
  taken := h.taken ▸ List.prefix_refl _
  total := by rw [h.taken, h.avail]
  kernel := h.kernel
  tx := h.tx

/-- A flush leaves no more in the put area than there was. -/
theorem Sockstream.flush_parea (s : Sockstream) : s.flush.parea.length ≤ s.parea.length := by
  obtain ⟨k, hk⟩ := s.flush_pushed.some
  obtain ⟨bs, hb⟩ := s.flush_pushed.kernel
  have := congrArg List.length hk
  rw [List.take_nil, List.append_nil, Sockstream.written, Sockstream.written, ← hb] at this
  simp only [List.length_append] at this
  omega

/-- A stream that went bad may have a part of what should be written. -/
theorem Pushed.ran_of_bad (h : Pushed s bs s') (hb : s'.bad) (cs : List UInt8) : Ran s (accepted s (bs ++ cs)) s' := by
  have hr := h.ran
  refine ⟨hr.bad, hr.eof, ?_, fun hn => absurd hb (by simp [hn]), fun hs => ?_, hr.taken, hr.total,
    hr.kernel, hr.tx⟩
  · unfold accepted
    split
    · obtain ⟨k, hk⟩ := h.some
      refine ⟨min k bs.length, ?_⟩
      rw [hk, List.take_append_of_le_length (Nat.min_le_right _ _), ← List.take_take, List.take_length]
    · rename_i hg
      exact ⟨0, by simp [(h.none (by simpa using hg)).1]⟩
  · simp [accepted, Sockstream.not_good_of_bad hs]

theorem Sockstream.flush_ran (s : Sockstream) : Ran s [] s.flush := by
  have h := s.flush_pushed.ran
  rwa [show accepted s [] = [] from by simp [accepted]] at h

/-- The stream was written at most: its reading half is as it was, and it goes bad only
when the kernel answers with an error. -/
structure Kept (s s' : Sockstream) : Prop where
  eof : s'.eof = s.eof
  taken : s'.taken = s.taken
  tx : s'.tx <:+ s.tx
  bad : s.Healthy → s'.bad = s.bad
  worse : s.bad → s'.bad
  stuck : s.good = false → s'.good = false

namespace Kept

variable {s s' s'' : Sockstream} {bs : List UInt8}

/-- The bits that block the stream are as they were, or its failbit was set. -/
theorem of_same (he : s'.eof = s.eof) (ht : s'.taken = s.taken) (hx : s'.tx = s.tx)
    (hb : s'.bad = s.bad) (hg : s.good = false → s'.good = false) : Kept s s' :=
  ⟨he, ht, hx ▸ List.suffix_refl _, fun _ => hb, by rw [hb]; exact id, hg⟩

theorem refl (s : Sockstream) : Kept s s := of_same rfl rfl rfl rfl id

theorem healthy (h : Kept s s') (hs : s.Healthy) : s'.Healthy := fun a ha => hs a (h.tx.subset ha)

theorem trans (h : Kept s s') (h' : Kept s' s'') : Kept s s'' :=
  ⟨h'.eof.trans h.eof, h'.taken.trans h.taken, h'.tx.trans h.tx,
    fun hs => (h'.bad (h.healthy hs)).trans (h.bad hs), fun hs => h'.worse (h.worse hs),
    fun hs => h'.stuck (h.stuck hs)⟩

end Kept

theorem Pushed.kept (h : Pushed s bs s') : Kept s s' :=
  ⟨h.eofbit, h.taken, h.tx, h.healthy, h.badbit, fun hs => by rw [h.good_eq, hs, Bool.false_and]⟩

end io

/-! ## What the primitives of the connector leave alone -/

namespace Connector

variable (st : Connector) (i j : StreamId)

@[simp] theorem sock_setSock (s : Sockstream) :
    (st.setSock i s).sock j = if j = i then s else st.sock j := by
  simp only [setSock, sock, ep, Table.get_modify]
  split <;> rfl

@[simp] theorem live_setSock (s : Sockstream) : (st.setSock i s).live j = st.live j :=
  st.eps.get_modify_field i j _ Endpoint.live rfl

@[simp] theorem iface_setSock (s : Sockstream) : ((st.setSock i s).ep j).iface = (st.ep j).iface :=
  st.eps.get_modify_field i j _ Endpoint.iface rfl

@[simp] theorem chunk_setSock (s : Sockstream) : (st.setSock i s).chunk j = st.chunk j :=
  st.eps.get_modify_field i j _ Endpoint.chunk rfl

@[simp] theorem frame_setSock (s : Sockstream) : (st.setSock i s).frame j = st.frame j :=
  st.eps.get_modify_field i j _ Endpoint.frame rfl

@[simp] theorem sock_setChunk (c : Stringstream) : (st.setChunk i c).sock j = st.sock j :=
  st.eps.get_modify_field i j _ Endpoint.sock rfl

@[simp] theorem live_setChunk (c : Stringstream) : (st.setChunk i c).live j = st.live j :=
  st.eps.get_modify_field i j _ Endpoint.live rfl

@[simp] theorem iface_setChunk (c : Stringstream) :
    ((st.setChunk i c).ep j).iface = (st.ep j).iface :=
  st.eps.get_modify_field i j _ Endpoint.iface rfl

@[simp] theorem chunk_setChunk (c : Stringstream) :
    (st.setChunk i c).chunk j = if j = i then c else st.chunk j := by
  simp only [setChunk, chunk, ep, Table.get_modify]
  split <;> rfl

@[simp] theorem frame_setChunk (c : Stringstream) : (st.setChunk i c).frame j = st.frame j :=
  st.eps.get_modify_field i j _ Endpoint.frame rfl

@[simp] theorem sock_setFrame (x : Xmsgstream) : (st.setFrame i x).sock j = st.sock j :=
  st.eps.get_modify_field i j _ Endpoint.sock rfl

@[simp] theorem live_setFrame (x : Xmsgstream) : (st.setFrame i x).live j = st.live j :=
  st.eps.get_modify_field i j _ Endpoint.live rfl

@[simp] theorem iface_setFrame (x : Xmsgstream) :
    ((st.setFrame i x).ep j).iface = (st.ep j).iface :=
  st.eps.get_modify_field i j _ Endpoint.iface rfl

@[simp] theorem chunk_setFrame (x : Xmsgstream) : (st.setFrame i x).chunk j = st.chunk j :=
  st.eps.get_modify_field i j _ Endpoint.chunk rfl

@[simp] theorem frame_setFrame (x : Xmsgstream) :
    (st.setFrame i x).frame j = if j = i then x else st.frame j := by
  simp only [setFrame, frame, ep, Table.get_modify]
  split <;> rfl

@[simp] theorem sock_erase (cs : List Connection) : (st.erase i cs).sock j = st.sock j :=
  st.eps.get_modify_field i j _ Endpoint.sock rfl

@[simp] theorem live_erase (cs : List Connection) :
    (st.erase i cs).live j = if j = i then false else st.live j := by
  simp only [erase, live, ep, Table.get_modify]
  split <;> rfl

@[simp] theorem iface_erase (cs : List Connection) :
    ((st.erase i cs).ep j).iface = (st.ep j).iface :=
  st.eps.get_modify_field i j _ Endpoint.iface rfl

@[simp] theorem chunk_erase (cs : List Connection) : (st.erase i cs).chunk j = st.chunk j :=
  st.eps.get_modify_field i j _ Endpoint.chunk rfl

@[simp] theorem frame_erase (cs : List Connection) : (st.erase i cs).frame j = st.frame j :=
  st.eps.get_modify_field i j _ Endpoint.frame rfl

@[simp] theorem sock_make (f : Iface) (fd : Int) :
    (st.make f fd).sock j =
      if j = st.next then Connector.newborn fd (st.sock j).rx (st.sock j).tx else st.sock j := by
  simp only [make, sock, ep, Table.get_modify]
  split
  · rename_i h
    rw [h]
  · rfl

@[simp] theorem live_make (f : Iface) (fd : Int) :
    (st.make f fd).live j = if j = st.next then true else st.live j := by
  simp only [make, live, ep, Table.get_modify]
  split <;> rfl

theorem iface_make (f : Iface) (fd : Int) :
    ((st.make f fd).ep j).iface = if j = st.next then f else (st.ep j).iface := by
  simp only [make, ep, Table.get_modify]
  split <;> rfl

@[simp] theorem chunk_make (f : Iface) (fd : Int) : (st.make f fd).chunk j = st.chunk j :=
  st.eps.get_modify_field st.next j _ Endpoint.chunk rfl

@[simp] theorem frame_make (f : Iface) (fd : Int) : (st.make f fd).frame j = st.frame j :=
  st.eps.get_modify_field st.next j _ Endpoint.frame rfl

@[simp] theorem sock_note (o : Obs) : (st.note o).sock i = st.sock i := rfl
@[simp] theorem live_note (o : Obs) : (st.note o).live i = st.live i := rfl
@[simp] theorem chunk_note (o : Obs) : (st.note o).chunk i = st.chunk i := rfl
@[simp] theorem frame_note (o : Obs) : (st.note o).frame i = st.frame i := rfl
@[simp] theorem iface_note (o : Obs) : ((st.note o).ep i).iface = (st.ep i).iface := rfl
@[simp] theorem sock_setConn (k : Nat) (c : Connection) : (st.setConn k c).sock i = st.sock i := rfl
@[simp] theorem sock_keepConns (p : Connection → Bool) : (st.keepConns p).sock i = st.sock i := rfl
@[simp] theorem live_keepConns (p : Connection → Bool) : (st.keepConns p).live i = st.live i := rfl
@[simp] theorem live_setConn (k : Nat) (c : Connection) : (st.setConn k c).live i = st.live i := rfl

end Connector

/-! ## Effects -/

/-- The bytes that an entry of the log put on the stream `i`. -/
def Obs.bytes (i : StreamId) : Obs → List UInt8
  | .sent _ dst eid type payload ok =>
    if dst = i ∧ ok then (Msgheader.of eid payload.length type).encode ++ payload else []
  | .fed _ _ dst payload ok => if dst = i ∧ ok then payload else []
  | _ => []

def outBytes (i : StreamId) (obs : List Obs) : List UInt8 := obs.flatMap (Obs.bytes i)

@[simp] theorem outBytes_nil (i : StreamId) : outBytes i [] = [] := rfl

@[simp] theorem outBytes_append (i : StreamId) (a b : List Obs) :
    outBytes i (a ++ b) = outBytes i a ++ outBytes i b := List.flatMap_append

@[simp] theorem outBytes_singleton (i : StreamId) (o : Obs) : outBytes i [o] = o.bytes i := by
  simp [outBytes]

/-- The connector went from `st` to `st'` and logged `obs` on the way. A stream that
is gone does not come back, and new streams have new ids. -/
structure Effect (st st' : Connector) (obs : List Obs) : Prop where
  mode : st'.mode = st.mode
  log : st'.log = st.log ++ obs
  next : st.next ≤ st'.next
  ncid : st.ncid ≤ st'.ncid
  live : ∀ i, st'.live i → st.live i ∨ st.next ≤ i
  iface : ∀ i, i < st.next → (st'.ep i).iface = (st.ep i).iface
  ran : ∀ i, i < st.next → Ran (st.sock i) (outBytes i obs) (st'.sock i)
  /-- Nothing came in, also for a stream that is made now. -/
  avail : ∀ i, (st'.sock i).avail <:+ (st.sock i).avail

namespace Effect

variable {st st' st'' : Connector} {obs obs' : List Obs}

theorem trans (h : Effect st st' obs) (h' : Effect st' st'' obs') : Effect st st'' (obs ++ obs') where
  mode := h'.mode.trans h.mode
  log := by rw [h'.log, h.log, List.append_assoc]
  next := Nat.le_trans h.next h'.next
  ncid := Nat.le_trans h.ncid h'.ncid
  live i hi := by
    rcases h'.live i hi with h1 | h1
    · exact h.live i h1
    · exact .inr (Nat.le_trans h.next h1)
  iface i hi := (h'.iface i (Nat.lt_of_lt_of_le hi h.next)).trans (h.iface i hi)
  ran i hi := by
    rw [outBytes_append]
    exact (h.ran i hi).trans (h'.ran i (Nat.lt_of_lt_of_le hi h.next))
  avail i := (h'.avail i).trans (h.avail i)

theorem trans_nil (h : Effect st st' []) (h' : Effect st' st'' obs) : Effect st st'' obs := by
  simpa using h.trans h'

theorem nil_trans (h : Effect st st' obs) (h' : Effect st' st'' []) : Effect st st'' obs := by
  simpa using h.trans h'

/-- No stream is touched: triggers, timers, `revents` and connections may change. -/
theorem of_eps (he : st'.eps = st.eps) (hm : st'.mode = st.mode) (hl : st'.log = st.log ++ obs)
    (hn : st'.next = st.next) (hc : st.ncid ≤ st'.ncid) (ho : ∀ i, outBytes i obs = []) :
    Effect st st' obs where
  mode := hm
  log := hl
  next := Nat.le_of_eq hn.symm
  ncid := hc
  live i hi := by
    left
    rw [Connector.live, Connector.ep, he] at hi
    exact hi
  iface i _ := by rw [Connector.ep, he]; rfl
  ran i _ := by
    have hs : st'.sock i = st.sock i := by simp [Connector.sock, Connector.ep, he]
    rw [ho i, hs]
    exact Ran.refl _
  avail i := by
    have hs : st'.sock i = st.sock i := by simp [Connector.sock, Connector.ep, he]
    exact hs ▸ List.suffix_refl _

theorem refl (st : Connector) : Effect st st [] :=
  of_eps rfl rfl (by simp) rfl (Nat.le_refl _) fun _ => rfl

/-- Only the bytes of the streams are touched. -/
theorem of_socks (hm : st'.mode = st.mode) (hl : st'.log = st.log ++ obs) (hn : st'.next = st.next)
    (hc : st'.ncid = st.ncid) (hv : ∀ i, st'.live i = st.live i)
    (hi : ∀ i, (st'.ep i).iface = (st.ep i).iface)
    (hr : ∀ i, Ran (st.sock i) (outBytes i obs) (st'.sock i)) : Effect st st' obs :=
  ⟨hm, hl, Nat.le_of_eq hn.symm, Nat.le_of_eq hc.symm, fun i h => .inl (by rw [← hv i]; exact h),
    fun i _ => hi i, fun i _ => hr i, fun i => (hr i).avail⟩

variable {s : Sockstream} {o : Obs}

theorem setSock {i : StreamId} (h : Ran (st.sock i) [] s) : Effect st (st.setSock i s) [] :=
  of_socks rfl (by simp [Connector.setSock]) rfl rfl (by simp) (by simp) fun j => by
    rw [Connector.sock_setSock]
    split
    · rename_i hj
      rw [hj]
      exact h
    · exact Ran.refl _

theorem setChunk (st : Connector) (i : StreamId) (c : Stringstream) :
    Effect st (st.setChunk i c) [] :=
  of_socks rfl (by simp [Connector.setChunk]) rfl rfl (by simp) (by simp) fun j => by
    rw [Connector.sock_setChunk]
    exact Ran.refl _

theorem setFrame (st : Connector) (i : StreamId) (x : Xmsgstream) :
    Effect st (st.setFrame i x) [] :=
  of_socks rfl (by simp [Connector.setFrame]) rfl rfl (by simp) (by simp) fun j => by
    rw [Connector.sock_setFrame]
    exact Ran.refl _

theorem make (st : Connector) (f : Iface) (fd : Int) : Effect st (st.make f fd) [] where
  mode := rfl
  log := by simp [Connector.make]
  next := Nat.le_succ _
  ncid := Nat.le_refl _
  live i hi := by
    rw [Connector.live_make] at hi
    split at hi
    · rename_i h
      exact .inr (Nat.le_of_eq h.symm)
    · exact .inl hi
  iface i hi := by
    rw [Connector.iface_make, if_neg (Nat.ne_of_lt hi)]
  ran i hi := by
    rw [Connector.sock_make, if_neg (Nat.ne_of_lt hi)]
    exact Ran.refl _
  avail i := by
    rw [Connector.sock_make]
    split
    · exact List.suffix_append _ _
    · exact List.suffix_refl _

theorem erase (st : Connector) (i : StreamId) (cs : List Connection) :
    Effect st (st.erase i cs) [.erased i cs (st.sock i)] where
  mode := rfl
  log := rfl
  next := Nat.le_refl _
  ncid := Nat.le_refl _
  live j hj := by
    rw [Connector.live_erase] at hj
    split at hj
    · cases hj
    · exact .inl hj
  iface j _ := by simp
  ran j _ := by
    rw [Connector.sock_erase]
    exact Ran.refl _
  avail j := by
    have hs : (st.erase i cs).sock j = st.sock j := Connector.sock_erase st i j cs
    exact hs ▸ List.suffix_refl _

theorem note (h : ∀ i, o.bytes i = []) : Effect st (st.note o) [o] :=
  of_eps rfl rfl rfl rfl (Nat.le_refl _) fun i => by simp [h i]

/-- A write to one stream and its entry in the log. -/
theorem wrote {d : StreamId} (hr : Ran (st.sock d) (o.bytes d) s)
    (ho : ∀ i, i ≠ d → o.bytes i = []) : Effect st ((st.setSock d s).note o) [o] :=
  of_socks rfl rfl rfl rfl (fun i => st.live_setSock d i s) (fun i => st.iface_setSock d i s)
    fun i => by
      rw [outBytes_singleton, show ((st.setSock d s).note o).sock i = (st.setSock d s).sock i from rfl,
        Connector.sock_setSock]
      split
      · rename_i hi
        rw [hi]
        exact hr
      · rename_i hi
        rw [ho i hi]
        exact Ran.refl _

end Effect

/-! ## Quiet steps

Most operations only move bytes inside the streams, or change triggers, timers and
`revents`. -/

/-- No stream was made, read or erased, and no connection made. -/
structure Keeps (st st' : Connector) : Prop where
  next : st'.next = st.next
  ncid : st'.ncid = st.ncid
  live : ∀ i, st'.live i = st.live i
  kept : ∀ i, Kept (st.sock i) (st'.sock i)
  pending : st'.pending = st.pending

namespace Keeps

variable {st st' st'' : Connector}

theorem trans (h : Keeps st st') (h' : Keeps st' st'') : Keeps st st'' :=
  ⟨h'.next.trans h.next, h'.ncid.trans h.ncid, fun i => (h'.live i).trans (h.live i),
    fun i => (h.kept i).trans (h'.kept i), h'.pending.trans h.pending⟩

theorem of_eps (he : st'.eps = st.eps) (hn : st'.next = st.next) (hc : st'.ncid = st.ncid)
    (hp : st'.pending = st.pending) : Keeps st st' :=
  ⟨hn, hc, fun i => by simp [Connector.live, Connector.ep, he], fun i => by
    rw [show st'.sock i = st.sock i from by simp [Connector.sock, Connector.ep, he]]
    exact .refl _, hp⟩

theorem refl (st : Connector) : Keeps st st := of_eps rfl rfl rfl rfl

theorem setSock {i : StreamId} {s : Sockstream} (h : Kept (st.sock i) s) :
    Keeps st (st.setSock i s) :=
  ⟨rfl, rfl, by simp, fun j => by
    rw [Connector.sock_setSock]
    split
    · rename_i hj
      rw [hj]
      exact h
    · exact .refl _, rfl⟩

theorem setChunk (st : Connector) (i : StreamId) (c : Stringstream) : Keeps st (st.setChunk i c) :=
  ⟨rfl, rfl, by simp, fun j => by rw [Connector.sock_setChunk]; exact .refl _, rfl⟩

theorem setFrame (st : Connector) (i : StreamId) (x : Xmsgstream) : Keeps st (st.setFrame i x) :=
  ⟨rfl, rfl, by simp, fun j => by rw [Connector.sock_setFrame]; exact .refl _, rfl⟩

theorem note (st : Connector) (o : Obs) : Keeps st (st.note o) := of_eps rfl rfl rfl rfl

end Keeps

structure Quiet (st st' : Connector) : Prop where
  effect : Effect st st' []
  keeps : Keeps st st'
  connections : st'.connections = st.connections
  chunk : ∀ i, st'.chunk i = st.chunk i
  frame : ∀ i, st'.frame i = st.frame i

namespace Quiet

variable {st st' st'' : Connector}

theorem log (h : Quiet st st') : st'.log = st.log := by simpa using h.effect.log

theorem live (h : Quiet st st') (i : StreamId) : st'.live i = st.live i := h.keeps.live i

theorem trans (h : Quiet st st') (h' : Quiet st' st'') : Quiet st st'' :=
  ⟨h.effect.trans_nil h'.effect, h.keeps.trans h'.keeps, h'.connections.trans h.connections,
    fun i => (h'.chunk i).trans (h.chunk i), fun i => (h'.frame i).trans (h.frame i)⟩

/-- Triggers, timers and `revents` are not part of any law. -/
theorem of_rest (he : st'.eps = st.eps) (hm : st'.mode = st.mode) (hl : st'.log = st.log)
    (hn : st'.next = st.next) (hc : st'.ncid = st.ncid) (hs : st'.connections = st.connections)
    (hp : st'.pending = st.pending) : Quiet st st' where
  effect := .of_eps he hm (by simp [hl]) hn (Nat.le_of_eq hc.symm) fun _ => rfl
  keeps := .of_eps he hn hc hp
  connections := hs
  chunk i := by simp [Connector.chunk, Connector.ep, he]
  frame i := by simp [Connector.frame, Connector.ep, he]

theorem refl (st : Connector) : Quiet st st := of_rest rfl rfl rfl rfl rfl rfl rfl

theorem setSock {i : StreamId} {s : Sockstream} (h : Ran (st.sock i) [] s)
    (hk : Kept (st.sock i) s) : Quiet st (st.setSock i s) :=
  ⟨.setSock h, .setSock hk, rfl, by simp, by simp⟩

theorem foldl {α : Type} {f : Connector → α → Connector} (h : ∀ st a, Quiet st (f st a))
    (l : List α) (st : Connector) : Quiet st (l.foldl f st) := by
  induction l generalizing st with
  | nil => exact .refl st
  | cons a l ih => exact (h st a).trans (ih (f st a))

end Quiet

/-! ## Loops over the connections -/

/-- Only bytes on the streams, and the log. -/
structure Logs (st st' : Connector) (obs : List Obs) : Prop where
  effect : Effect st st' obs
  keeps : Keeps st st'
  chunk : ∀ i, st'.chunk i = st.chunk i
  frame : ∀ i, st'.frame i = st.frame i

namespace Logs

variable {st st' st'' : Connector} {obs obs' : List Obs}

theorem refl (st : Connector) : Logs st st [] := ⟨.refl st, .refl st, fun _ => rfl, fun _ => rfl⟩

theorem trans (h : Logs st st' obs) (h' : Logs st' st'' obs') : Logs st st'' (obs ++ obs') :=
  ⟨h.effect.trans h'.effect, h.keeps.trans h'.keeps, fun i => (h'.chunk i).trans (h.chunk i),
    fun i => (h'.frame i).trans (h.frame i)⟩

theorem nil_trans (h : Logs st st' obs) (h' : Logs st' st'' []) : Logs st st'' obs := by
  simpa using h.trans h'

theorem trans_nil (h : Logs st st' []) (h' : Logs st' st'' obs) : Logs st st'' obs := by
  simpa using h.trans h'

theorem setConn (st : Connector) (k : Nat) (c : Connection) : Logs st (st.setConn k c) [] :=
  ⟨.of_eps rfl rfl (by simp [Connector.setConn]) rfl (Nat.le_refl _) fun _ => rfl,
    .of_eps rfl rfl rfl rfl, fun _ => rfl, fun _ => rfl⟩

theorem keepConns (st : Connector) (p : Connection → Bool) : Logs st (st.keepConns p) [] :=
  ⟨.of_eps rfl rfl (by simp [Connector.keepConns]) rfl (Nat.le_refl _) fun _ => rfl,
    .of_eps rfl rfl rfl rfl, fun _ => rfl, fun _ => rfl⟩

theorem note (st : Connector) {o : Obs} (h : ∀ i, o.bytes i = []) : Logs st (st.note o) [o] :=
  ⟨.note h, .note st o, fun _ => rfl, fun _ => rfl⟩

/-- A loop over the places of the table. Each connection that satisfies `p` is
logged and updated. -/
theorem sweep (turn : Connector → Nat → Connector) (p : Connection → Bool)
    (upd : Connection → Connection) (R : Connection → Obs → Prop) (st : Connector)
    (hit : ∀ s k c, Keeps st s → s.connections[k]? = some c → p c →
      ∃ o, Logs s (turn s k) [o] ∧ R c o ∧ (turn s k).connections = s.connections.set k (upd c))
    (miss : ∀ s k c, Keeps st s → s.connections[k]? = some c → p c = false → turn s k = s) :
    ∃ obs, Logs st ((List.range st.connections.length).foldl turn st) obs ∧
      List.Forall₂ R (st.connections.filter p) obs ∧
      ((List.range st.connections.length).foldl turn st).connections =
        st.connections.map fun c => if p c then upd c else c := by
  have h := Loop.foldl_range st.connections.length turn st
    (fun k s => ∃ obs, Logs st s obs ∧
      List.Forall₂ R ((st.connections.take k).filter p) obs ∧
      s.connections = Loop.done (fun c => if p c then upd c else c) st.connections k)
    ⟨[], .refl st, .nil, by simp⟩ fun k s hk h => by
      obtain ⟨obs, hl, hr, hc⟩ := h
      have hget : st.connections[k]? = some st.connections[k] := List.getElem?_eq_getElem hk
      generalize st.connections[k] = c at hget
      have hget' : s.connections[k]? = some c := by rw [hc, Loop.done_get, hget]
      rw [Loop.filter_take_succ p hget]
      cases hp : p c with
      | true =>
        obtain ⟨o, h1, h2, h3⟩ := hit s k c hl.keeps hget' hp
        refine ⟨obs ++ [o], hl.trans h1, List.rel_append hr (.cons h2 .nil), ?_⟩
        rw [h3, hc, ← Loop.done_succ hget, hp, if_pos rfl]
      | false =>
        rw [miss s k c hl.keeps hget' hp, if_neg (by simp), List.append_nil]
        refine ⟨obs, hl, hr, ?_⟩
        rw [hc]
        exact Loop.done_succ_of_eq hget (by simp [hp])
  rwa [List.take_length, Loop.done_length] at h

/-- A loop over the connections that leaves the table alone. -/
theorem visit (turn : Connector → Connection → Connector) (p : Connection → Bool)
    (R : Connection → Obs → Prop) (st : Connector)
    (hit : ∀ s c, Keeps st s → p c → ∃ o, Logs s (turn s c) [o] ∧ R c o ∧
      (turn s c).connections = s.connections)
    (miss : ∀ s c, Keeps st s → p c = false → Quiet s (turn s c)) (cs : List Connection) :
    ∃ obs, Logs st (cs.foldl turn st) obs ∧ List.Forall₂ R (cs.filter p) obs ∧
      (cs.foldl turn st).connections = st.connections := by
  suffices h : ∀ (cs : List Connection) (s : Connector), Keeps st s →
      ∃ obs, Logs s (cs.foldl turn s) obs ∧ List.Forall₂ R (cs.filter p) obs ∧
        (cs.foldl turn s).connections = s.connections from h cs st (.refl st)
  intro cs
  induction cs with
  | nil => exact fun s _ => ⟨[], .refl s, .nil, rfl⟩
  | cons c cs ih =>
    intro s hk
    rw [List.foldl_cons, List.filter_cons]
    cases hp : p c with
    | true =>
      obtain ⟨o, h1, h2, h3⟩ := hit s c hk hp
      obtain ⟨obs, i1, i2, i3⟩ := ih (turn s c) (hk.trans h1.keeps)
      exact ⟨o :: obs, h1.trans i1, by rw [if_pos rfl]; exact .cons h2 i2, i3.trans h3⟩
    | false =>
      have hq := miss s c hk hp
      obtain ⟨obs, i1, i2, i3⟩ := ih (turn s c) (hk.trans hq.keeps)
      have hl : Logs s (turn s c) [] := ⟨hq.effect, hq.keeps, hq.chunk, hq.frame⟩
      exact ⟨obs, hl.trans_nil i1, by rw [if_neg (by simp)]; exact i2, i3.trans hq.connections⟩

end Logs

variable {st st' : Connector} {obs : List Obs}

theorem Quiet.logs (h : Quiet st st') : Logs st st' [] :=
  ⟨h.effect, h.keeps, h.chunk, h.frame⟩

namespace Connector

variable (st : Connector) (i : StreamId)

theorem setTrigger_quiet (m : Mask) : Quiet st (st.setTrigger i m) :=
  .of_rest rfl rfl rfl rfl rfl rfl rfl

theorem clearTrigger_quiet (m : Mask) : Quiet st (st.clearTrigger i m) :=
  .of_rest rfl rfl rfl rfl rfl rfl rfl

theorem clearTriggers_quiet : Quiet st (st.clearTriggers i) := .of_rest rfl rfl rfl rfl rfl rfl rfl

theorem setTriggerOpen_quiet (m : Mask) : Quiet st (st.setTriggerOpen i m) := by
  unfold setTriggerOpen
  split
  · exact .refl st
  · exact st.setTrigger_quiet i m

theorem setRevents_quiet (m : Mask) : Quiet st (st.setRevents m) := .of_rest rfl rfl rfl rfl rfl rfl rfl

theorem deferInput_quiet : Quiet st (st.deferInput i) := .of_rest rfl rfl rfl rfl rfl rfl rfl

theorem flushSock_quiet : Quiet st (st.flushSock i) :=
  .setSock (st.sock i).flush_ran (st.sock i).flush_pushed.kept

theorem finishOut_quiet : Quiet st (st.finishOut i) := by
  unfold finishOut
  split
  · exact .of_rest rfl rfl rfl rfl rfl rfl rfl
  · exact .of_rest rfl rfl rfl rfl rfl rfl rfl

theorem pollout_handler_quiet : Quiet (st.takeErrors i) (st.pollout_handler i).1 := by
  have h := (st.takeErrors i).flushSock_quiet i
  unfold pollout_handler
  dsimp only
  split
  · exact h
  · exact h.trans (finishOut_quiet _ i)

theorem dropInput_quiet : Quiet st (st.dropInput i) := by
  unfold dropInput
  split
  · exact st.setRevents_quiet _
  · exact .refl st

theorem wakePeers_quiet : Quiet st (st.wakePeers i) := by
  refine Quiet.foldl (fun st c => ?_) st.connections st
  unfold wakeTurn
  split
  · exact st.setTrigger_quiet _ _
  · exact .refl st

theorem enter_quiet (m : Mask) : Quiet st (st.enter i m) := by
  unfold enter
  split
  · exact (st.setRevents_quiet m).trans (wakePeers_quiet _ i)
  · exact st.setRevents_quiet m

theorem takeErrors_effect : Effect st (st.takeErrors i) [] := by
  unfold takeErrors
  split
  · exact .setSock (.of_same (fun _ => rfl) id rfl rfl rfl rfl rfl rfl)
  · exact .refl st

theorem takeErrors_pending : (st.takeErrors i).pending = st.pending := by
  unfold takeErrors
  split <;> rfl

theorem pollout_pending {st' : Connector} {failed : Bool} (h : st.pollout_handler i = (st', failed)) :
    st'.pending = st.pending := by
  have hq := (st.pollout_handler_quiet i).keeps.pending
  rw [h] at hq
  exact hq.trans (st.takeErrors_pending i)

/-! ## Steps that are logged -/

theorem shutdown_effect : Effect st (st.shutdown i) [.shut i (st.connsOf i) (st.sock i)] :=
  .note fun _ => rfl

theorem writeHeader_effect (cid : Option Nat) (eid : Uuid) (type : Msgtype) :
    Effect st (st.writeHeader cid i eid type) [.sent cid i eid type [] (st.sock i).good] := by
  refine .wrote ?_ fun j hj => by simp [Obs.bytes, Ne.symm hj]
  have h := ((st.sock i).write_pushed (Msgheader.of eid 0 type).encode).ran
  rwa [show accepted (st.sock i) (Msgheader.of eid 0 type).encode =
    Obs.bytes i (.sent cid i eid type [] (st.sock i).good) from by simp [accepted, Obs.bytes]] at h

theorem writeHeader_logs (cid : Option Nat) (eid : Uuid) (type : Msgtype) :
    Logs st (st.writeHeader cid i eid type) [.sent cid i eid type [] (st.sock i).good] :=
  ⟨st.writeHeader_effect i cid eid type,
    (Keeps.setSock ((st.sock i).write_pushed _).kept).trans (.note _ _),
    fun j => st.chunk_setSock i j _, fun j => st.frame_setSock i j _⟩

end Connector

/-! ## A stream that goes away -/

/-- The stream `i` was erased. The connections in `hit` were logged and updated, and
those not in `keep` removed. -/
structure Gone (i : StreamId) (hit : Connection → Bool) (upd : Connection → Connection)
    (keep : Connection → Bool) (R : Connection → Obs → Prop) (st st' : Connector) (obs : List Obs) :
    Prop where
  effect : Effect st st' (obs ++ [.erased i (st.connsOf i) (st'.sock i)])
  logged : List.Forall₂ R (st.connections.filter hit) obs
  connections : st'.connections =
    (st.connections.map fun c => if hit c then upd c else c).filter keep
  live : ∀ j, st'.live j = if j = i then false else st.live j
  next : st'.next = st.next
  ncid : st'.ncid = st.ncid
  kept : ∀ j, Kept (st.sock j) (st'.sock j)
  pending : st'.pending = st.pending
  chunk : ∀ j, st'.chunk j = st.chunk j
  frame : ∀ j, st'.frame j = st.frame j

variable {i src dst : StreamId} {hit : Connection → Bool} {upd : Connection → Connection}
  {R : Connection → Obs → Prop} {s a : Connector} {payload : List UInt8}

/-- The end of the handlers that erase a stream, after their loop. -/
theorem Gone.of_erase {keep : Connection → Bool}
    (hl : Logs st s obs)
    (hr : List.Forall₂ R (st.connections.filter hit) obs)
    (hc : s.connections = st.connections.map fun c => if hit c then upd c else c)
    (hq : Quiet (s.keepConns keep) a) : Gone i hit upd keep R st (a.erase i (st.connsOf i)) obs where
  effect := by
    refine hl.effect.trans (((Logs.keepConns s keep).effect.trans_nil hq.effect).trans_nil ?_)
    simpa using Effect.erase _ i (st.connsOf i)
  logged := hr
  connections := by
    show a.connections = _
    rw [hq.connections]
    show s.connections.filter keep = _
    rw [hc]
  live j := by
    rw [Connector.live_erase, hq.live]
    show (if j = i then false else s.live j) = _
    rw [hl.keeps.live]
  next := hq.keeps.next.trans hl.keeps.next
  ncid := hq.keeps.ncid.trans hl.keeps.ncid
  kept j := by
    rw [Connector.sock_erase]
    exact (hl.keeps.kept j).trans (hq.keeps.kept j)
  pending := hq.keeps.pending.trans hl.keeps.pending
  chunk j := by
    rw [Connector.chunk_erase, hq.chunk]
    exact hl.chunk j
  frame j := by
    rw [Connector.frame_erase, hq.frame]
    exact hl.frame j

/-- The end of the four error handlers. -/
theorem Gone.of_loop (keep : Connection → Bool) (hl : Logs st s obs)
    (hr : List.Forall₂ R (st.connections.filter hit) obs)
    (hc : s.connections = st.connections.map fun c => if hit c then upd c else c) :
    Gone i hit upd keep R st
      ((((s.keepConns keep).setRevents {}).clearTriggers i).erase i (st.connsOf i)) obs :=
  .of_erase hl hr hc ((Connector.setRevents_quiet _ {}).trans (Connector.clearTriggers_quiet _ i))

/-! ## What a law about sessions looks at -/

/-- All is as it was, but for the output of the streams and what the kernel will answer. -/
structure Same (st st' : Connector) : Prop where
  mode : st'.mode = st.mode
  log : st'.log = st.log
  next : st'.next = st.next
  ncid : st'.ncid = st.ncid
  connections : st'.connections = st.connections
  live : ∀ i, st'.live i = st.live i
  iface : ∀ i, i < st.next → (st'.ep i).iface = (st.ep i).iface
  eof : ∀ i, (st'.sock i).eof = (st.sock i).eof
  taken : ∀ i, (st'.sock i).taken = (st.sock i).taken
  chunk : ∀ i, st'.chunk i = st.chunk i
  frame : ∀ i, st'.frame i = st.frame i

theorem Same.of_eps (he : st'.eps = st.eps) (hm : st'.mode = st.mode) (hl : st'.log = st.log) (hn : st'.next = st.next)
    (hc : st'.ncid = st.ncid) (hs : st'.connections = st.connections) : Same st st' :=
  ⟨hm, hl, hn, hc, hs, fun i => by simp [Connector.live, Connector.ep, he],
    fun i _ => by simp [Connector.ep, he], fun i => by simp [Connector.sock, Connector.ep, he],
    fun i => by simp [Connector.sock, Connector.ep, he], fun i => by simp [Connector.chunk, Connector.ep, he],
    fun i => by simp [Connector.frame, Connector.ep, he]⟩

theorem Quiet.same (h : Quiet st st') : Same st st' :=
  ⟨h.effect.mode, h.log, h.keeps.next, h.keeps.ncid, h.connections, h.live, h.effect.iface,
    fun i => (h.keeps.kept i).eof, fun i => (h.keeps.kept i).taken, h.chunk, h.frame⟩

namespace Same

variable {st st' st'' : Connector}

theorem refl (st : Connector) : Same st st := (Quiet.refl st).same

theorem trans (h : Same st st') (h' : Same st' st'') : Same st st'' :=
  ⟨h'.mode.trans h.mode, h'.log.trans h.log, h'.next.trans h.next, h'.ncid.trans h.ncid,
    h'.connections.trans h.connections, fun i => (h'.live i).trans (h.live i),
    fun i hi => (h'.iface i (by rw [h.next]; exact hi)).trans (h.iface i hi),
    fun i => (h'.eof i).trans (h.eof i), fun i => (h'.taken i).trans (h.taken i),
    fun i => (h'.chunk i).trans (h.chunk i), fun i => (h'.frame i).trans (h.frame i)⟩

variable {i : StreamId}

theorem setSock {s : Sockstream} (he : s.eof = (st.sock i).eof)
    (ht : s.taken = (st.sock i).taken) : Same st (st.setSock i s) :=
  ⟨rfl, rfl, rfl, rfl, rfl, by simp, fun j _ => by simp,
    fun j => by
      rw [Connector.sock_setSock]
      split
      · rename_i hj
        rw [hj, he]
      · rfl,
    fun j => by
      rw [Connector.sock_setSock]
      split
      · rename_i hj
        rw [hj, ht]
      · rfl,
    by simp, by simp⟩

theorem takeErrors (st : Connector) (i : StreamId) : Same st (st.takeErrors i) := by
  unfold Connector.takeErrors
  split
  · exact setSock rfl rfl
  · exact .refl st

theorem pushRx (st : Connector) (i : StreamId) (r : Recv) : Same st (st.pushRx i r) := setSock rfl rfl

theorem pushTx (st : Connector) (i : StreamId) (a : Send) : Same st (st.pushTx i a) := setSock rfl rfl

theorem pollout {st st' : Connector} {failed : Bool} (h : st.pollout_handler i = (st', failed)) : Same st st' := by
  have hq := (st.pollout_handler_quiet i).same
  rw [h] at hq
  exact (takeErrors st i).trans hq

end Same

/-! ## Feeding a payload -/

/-- What is logged when the payload of a frame of `src` is for `dst`: it is written, unless
there is none, or `dst` failed before, or is gone. -/
inductive Feed (cid : Nat) (src dst : StreamId) (payload : List UInt8) (st st' : Connector) :
    List Obs → Prop
  | none : payload = [] ∨ (st'.sock dst).good = false ∨ st'.live dst = false →
      Feed cid src dst payload st st' []
  | fed (ok : Bool) : payload ≠ [] → (ok = true → (st.sock dst).good) →
      (ok = false → (st'.sock dst).good = false) →
      Feed cid src dst payload st st' [.fed cid src dst payload ok]

/-- Steps may come before and after. -/
theorem Feed.widen {cid : Nat} {b : Connector} (h : Feed cid src dst payload st st' obs)
    (hs : (a.sock dst).good = false → (st.sock dst).good = false)
    (hs' : (st'.sock dst).good = false → (b.sock dst).good = false) (hl : b.live dst = st'.live dst) :
    Feed cid src dst payload a b obs := by
  cases h with
  | none h => exact .none (h.imp_right (Or.imp hs' fun h => hl.trans h))
  | fed ok hp hg hb =>
    refine .fed ok hp (fun hok => ?_) fun hok => hs' (hb hok)
    by_contra hne
    rw [hs (by simpa using hne)] at hg
    exact absurd (hg hok) (by simp)

theorem Feed.cid {cid : Nat} (h : Feed cid src dst payload st st' obs) :
    ∀ o ∈ obs, ∃ p ok, o = .fed cid src dst p ok := by
  cases h with
  | none => simp
  | fed ok => exact fun o ho => ⟨payload, ok, List.mem_singleton.mp ho⟩

end cloudbus
