-- What each function of the controller does, in closed form: which frames it
-- logs and how it changes the table of connections. The loops of the source are
-- maps of the table here.
import Cloudbus.Acts
import Cloudbus.Controller

namespace cloudbus.controller

open cloudbus.io cloudbus.messages Connector

/-! ## From a client to the transports -/

theorem write_prepare_quiet (n : StreamId) (p : Nat) (cs : List Connection) (st : Connector) :
    Quiet st (write_prepare n p cs st).1 := by
  induction cs generalizing st with
  | nil => exact .refl st
  | cons c cs ih =>
    unfold write_prepare
    split
    · dsimp only
      split
      · exact ih st
      · have hflush : Quiet st (if (MAX_BUFSIZE : Int) - (p + HDRLEN : Nat) ≤ (st.sock c.south).tellp then
            st.flushSock c.south else st) := by
          split
          · exact st.flushSock_quiet c.south
          · exact .refl st
        generalize (if (MAX_BUFSIZE : Int) - (p + HDRLEN : Nat) ≤ (st.sock c.south).tellp then
            st.flushSock c.south else st) = st1 at hflush ⊢
        split
        · exact hflush.trans (ih st1)
        · split
          · exact hflush
          · exact hflush.trans (ih st1)
    · exact ih st

/-- When `write_prepare` stops, a transport has no room for the chunk. -/
theorem write_prepare_full (n : StreamId) (p : Nat) (cs : List Connection) (st : Connector)
    (h : (write_prepare n p cs st).2 = true) :
    ∃ c ∈ cs, MAX_BUFSIZE < (st.sock c.south).parea.length + p + HDRLEN := by
  induction cs generalizing st with
  | nil => cases h
  | cons c cs ih =>
    have hle : ∀ i, ((if (MAX_BUFSIZE : Int) - (p + HDRLEN : Nat) ≤ (st.sock c.south).tellp then
        st.flushSock c.south else st).sock i).parea.length ≤ (st.sock i).parea.length := by
      intro i
      split
      · rw [flushSock, sock_setSock]
        split
        · rename_i hi
          rw [hi]
          exact (st.sock c.south).flush_parea
        · exact Nat.le_refl _
      · exact Nat.le_refl _
    unfold write_prepare at h
    dsimp only at h
    generalize (if (MAX_BUFSIZE : Int) - (p + HDRLEN : Nat) ≤ (st.sock c.south).tellp then
      st.flushSock c.south else st) = st1 at h hle
    -- what holds for a later connection in `st1` holds in `st`, where more may wait
    have later : (write_prepare n p cs st1).2 = true →
        ∃ d ∈ c :: cs, MAX_BUFSIZE < (st.sock d.south).parea.length + p + HDRLEN := fun h => by
      obtain ⟨d, hd, hlt⟩ := ih st1 h
      exact ⟨d, .tail _ hd, by have := hle d.south; omega⟩
    have here : (write_prepare n p cs st).2 = true →
        ∃ d ∈ c :: cs, MAX_BUFSIZE < (st.sock d.south).parea.length + p + HDRLEN := fun h => by
      obtain ⟨d, hd, hlt⟩ := ih st h
      exact ⟨d, .tail _ hd, hlt⟩
    split at h
    · split at h
      · exact here h
      · split at h
        · exact later h
        · split at h
          · rename_i hpos
            refine ⟨c, .head _, ?_⟩
            have h1 := hle c.south
            have h2 := (st1.sock c.south).tellp_le
            omega
          · exact later h
    · exact here h

/-- The entry of the log for a chunk that goes to a connection. -/
def chunkSent (type : Msgtype) (payload : List UInt8) (c : Connection) (o : Obs) : Prop :=
  ∃ ok, o = .sent (some c.cid) c.south c.uuid type payload ok

/-- Only the bytes of one transport and the get position of the chunk change. -/
structure WroteChunk (n : StreamId) (type : Msgtype) (c : Connection) (st st' : Connector) : Prop where
  effect : Effect st st'
    [.sent (some c.cid) c.south c.uuid type (st.chunk n).chunk (st.sock c.south).good]
  keeps : Keeps st st'
  connections : st'.connections = st.connections
  frame : ∀ i, st'.frame i = st.frame i
  chunk : ∀ i, (st'.chunk i).data = (st.chunk i).data ∧ (st'.chunk i).ppos = (st.chunk i).ppos
  others : ∀ i, i ≠ n → st'.chunk i = st.chunk i
  whole : (st'.sock c.south).bad = false ∨ (st.chunk n).ppos ≤ 256 → (st'.chunk n).gpos = (st.chunk n).ppos
  ok : ChunkOk (st'.chunk n)

/-- A chunk is copied from its start: its bytes go out, unless the stream goes bad. -/
theorem stream_write_chunk (os : Sockstream) (buf : Stringstream) :
    Pushed os buf.chunk (stream_write_upto buf.tellp os buf.rewindg buf.tellp).1 ∧
      (stream_write_upto buf.tellp os buf.rewindg buf.tellp).2.data = buf.data ∧
      (stream_write_upto buf.tellp os buf.rewindg buf.tellp).2.ppos = buf.ppos ∧
      ((stream_write_upto buf.tellp os buf.rewindg buf.tellp).1.bad = false ∨ buf.ppos ≤ 256 →
        (stream_write_upto buf.tellp os buf.rewindg buf.tellp).2.gpos = buf.ppos) ∧
      (buf.tellp = 0 → (stream_write_upto buf.tellp os buf.rewindg buf.tellp).2.gpos = 0) := by
  obtain ⟨hcopy, hdata, hppos, hgpos⟩ := stream_write_upto_spec buf.tellp os buf.rewindg buf.tellp (Nat.le_refl _) (by
    simp only [Stringstream.rewindg, Stringstream.tellp, Nat.zero_add]
    exact buf.ppos_le)
  have hbytes : (buf.rewindg.data.drop buf.rewindg.gpos).take buf.tellp = buf.chunk := by
    simp [Stringstream.rewindg, Stringstream.chunk, Stringstream.tellp]
  rw [hbytes] at hcopy
  refine ⟨hcopy, hdata, hppos, fun hb => ?_, fun h0 => ?_⟩
  · rw [hgpos hb]
    simp [Stringstream.rewindg, Stringstream.tellp]
  · rw [h0]
    rfl

/-- The bytes of the frame with a chunk for a connection. -/
def frameBytes (type : Msgtype) (payload : List UInt8) (c : Connection) : List UInt8 :=
  (Msgheader.of c.uuid payload.length type).encode ++ payload

theorem writeChunk_sock (n : StreamId) (type : Msgtype) (st : Connector) (c : Connection) :
    Pushed (st.sock c.south) (frameBytes type (st.chunk n).chunk c) ((writeChunk n type st c).sock c.south) ∧
      ∀ i, i ≠ c.south → (writeChunk n type st c).sock i = st.sock i := by
  have hhead := (st.sock c.south).write_pushed (Msgheader.of c.uuid (st.chunk n).tellp type).encode
  have hcopy := (stream_write_chunk ((st.sock c.south).write (Msgheader.of c.uuid (st.chunk n).tellp type).encode)
    (st.chunk n)).1
  constructor
  · have hpushed := hhead.trans hcopy
    unfold frameBytes
    rw [Stringstream.chunk_length]
    simpa [writeChunk, Stringstream.tellp] using hpushed
  · intro i hi
    simp [writeChunk, hi]

theorem writeChunk_spec (n : StreamId) (type : Msgtype) (st : Connector) (c : Connection) :
    WroteChunk n type c st (writeChunk n type st c) := by
  have hhead := (st.sock c.south).write_pushed (Msgheader.of c.uuid (st.chunk n).tellp type).encode
  obtain ⟨hcopy, hdata, hppos, hgpos, hzero⟩ := stream_write_chunk
    ((st.sock c.south).write (Msgheader.of c.uuid (st.chunk n).tellp type).encode) (st.chunk n)
  have hlen : (st.chunk n).chunk.length = (st.chunk n).tellp := (st.chunk n).chunk_length
  have hran := (hhead.trans hcopy).ran
  have hobs : accepted (st.sock c.south)
      ((Msgheader.of c.uuid (st.chunk n).tellp type).encode ++ (st.chunk n).chunk) =
      Obs.bytes c.south (.sent (some c.cid) c.south c.uuid type (st.chunk n).chunk
        (st.sock c.south).good) := by
    simp [accepted, Obs.bytes, hlen]
  rw [hobs] at hran
  unfold writeChunk
  dsimp only
  generalize stream_write_upto (st.chunk n).tellp
    ((st.sock c.south).write (Msgheader.of c.uuid (st.chunk n).tellp type).encode)
    (st.chunk n).rewindg (st.chunk n).tellp = r at *
  have hsock : ∀ i, (((st.setSock c.south r.1).setChunk n r.2).note
      (.sent (some c.cid) c.south c.uuid type (st.chunk n).chunk (st.sock c.south).good)).sock i =
      if i = c.south then r.1 else st.sock i := by
    simp
  have hchunk : ∀ i, (((st.setSock c.south r.1).setChunk n r.2).note
      (.sent (some c.cid) c.south c.uuid type (st.chunk n).chunk (st.sock c.south).good)).chunk i =
      if i = n then r.2 else st.chunk i := by
    simp
  have hkept : Keeps st (((st.setSock c.south r.1).setChunk n r.2).note
      (.sent (some c.cid) c.south c.uuid type (st.chunk n).chunk (st.sock c.south).good)) :=
    (Keeps.setSock (hhead.trans hcopy).kept).trans ((Keeps.setChunk _ n r.2).trans (.note _ _))
  refine ⟨.of_socks rfl rfl rfl rfl (by simp) (by simp) (fun i => ?_), hkept,
    rfl, by simp, fun i => ?_, fun i hi => ?_, fun hb => ?_, fun hp => ?_⟩
  · rw [hsock, outBytes_singleton]
    split
    · rename_i hi
      rw [hi]
      exact hran
    · rename_i hi
      rw [show Obs.bytes i (.sent (some c.cid) c.south c.uuid type (st.chunk n).chunk
        (st.sock c.south).good) = [] from by simp [Obs.bytes, Ne.symm hi]]
      exact Ran.refl _
  · rw [hchunk]
    split
    · rename_i hi
      rw [hi, hdata, hppos]
      exact ⟨rfl, rfl⟩
    · exact ⟨rfl, rfl⟩
  · rw [hchunk, if_neg hi]
  · rw [hsock, if_pos rfl] at hb
    rw [hchunk, if_pos rfl, hgpos hb]
  · rw [hchunk, if_pos rfl] at hp ⊢
    exact hzero (hppos.symm.trans hp)

/-- The connections that a chunk of the client goes to. -/
def active (n : StreamId) (st : Connector) (c : Connection) : Bool :=
  c.north == n && st.live c.south && c.state != .CLOSED

variable {st st' : Connector} {n s : StreamId} {obs : List Obs} {c : Connection} {type : Msgtype} {k : Nat}

theorem active_iff : active n st c ↔ c.north = n ∧ st.live c.south ∧ c.state ≠ .CLOSED := by
  simp [active, and_assoc]

theorem active_congr (h : Keeps st st') (c : Connection) : active n st' c = active n st c := by
  simp only [active, h.live]

/-- The chunk of the client was written to the transports of the connections `cs`, one
after the other. The get position is that of the last copy. -/
structure Copied (n : StreamId) (type : Msgtype) (cs : List Connection) (st st' : Connector)
    (obs : List Obs) : Prop where
  effect : Effect st st' obs
  keeps : Keeps st st'
  sent : List.Forall₂ (chunkSent type (st.chunk n).chunk) cs obs
  frame : ∀ i, st'.frame i = st.frame i
  chunk : ∀ i, (st'.chunk i).data = (st.chunk i).data ∧ (st'.chunk i).ppos = (st.chunk i).ppos
  others : ∀ i, i ≠ n → st'.chunk i = st.chunk i
  untouched : cs = [] → st'.chunk n = st.chunk n
  whole : ∀ c, cs.getLast? = some c → (st'.sock c.south).bad = false ∨ (st.chunk n).ppos ≤ 256 →
    (st'.chunk n).gpos = (st.chunk n).ppos
  ok : ChunkOk (st.chunk n) → ChunkOk (st'.chunk n)

namespace Copied

variable {n : StreamId} {type : Msgtype} {cs : List Connection} {st s s' : Connector} {obs : List Obs}

theorem nil (n : StreamId) (type : Msgtype) (st : Connector) : Copied n type [] st st [] :=
  ⟨.refl st, .refl st, .nil, fun _ => rfl, fun _ => ⟨rfl, rfl⟩, fun _ _ => rfl, fun _ => rfl, by simp, id⟩

/-- Steps that move no byte of a chunk can follow. -/
theorem quiet (h : Copied n type cs st s obs) (he : Effect s s' []) (hk : Keeps s s')
    (hf : ∀ i, s'.frame i = s.frame i) (hc : ∀ i, s'.chunk i = s.chunk i) :
    Copied n type cs st s' obs where
  effect := h.effect.nil_trans he
  keeps := h.keeps.trans hk
  sent := h.sent
  frame i := (hf i).trans (h.frame i)
  chunk i := by rw [hc]; exact h.chunk i
  others i hi := (hc i).trans (h.others i hi)
  untouched hn := (hc n).trans (h.untouched hn)
  whole c hl hb := by
    rw [hc]
    refine h.whole c hl (hb.imp_left fun hb => ?_)
    cases hb' : (s.sock c.south).bad with
    | false => rfl
    | true => rw [(hk.kept c.south).worse hb'] at hb; cases hb
  ok hn := by rw [hc]; exact h.ok hn

theorem snoc (h : Copied n type cs st s obs) (c : Connection) :
    ∃ o, Copied n type (cs ++ [c]) st (writeChunk n type s c) (obs ++ [o]) := by
  have hw := writeChunk_spec n type s c
  refine ⟨_, h.effect.trans hw.effect, h.keeps.trans hw.keeps, ?_, fun i => ?_, fun i => ?_,
    fun i hi => ?_, by simp, fun c' hl hb => ?_, fun _ => hw.ok⟩
  · refine List.rel_append h.sent (.cons ⟨(s.sock c.south).good, ?_⟩ .nil)
    rw [Stringstream.chunk_congr (h.chunk n).1 (h.chunk n).2]
  · exact (hw.frame i).trans (h.frame i)
  · rw [(hw.chunk i).1, (hw.chunk i).2]
    exact h.chunk i
  · exact (hw.others i hi).trans (h.others i hi)
  · obtain rfl : c = c' := by simpa using hl
    rw [hw.whole (by rw [(h.chunk n).2]; exact hb), (h.chunk n).2]

end Copied

/-- The state after `k` turns of the loop of `_route`. -/
theorem send_copied {s : Connector}
    (hk : k < st.connections.length)
    (h : Copied n type ((st.connections.take k).filter (active n st)) st s obs)
    (hconn : s.connections =
      Loop.done (fun c => if active n st c then state_update c type else c) st.connections k) :
    (∃ obs', Copied n type ((st.connections.take (k + 1)).filter (active n st)) st (send n type s k) obs') ∧
      (send n type s k).connections =
        Loop.done (fun c => if active n st c then state_update c type else c) st.connections (k + 1) := by
  have hget : st.connections[k]? = some st.connections[k] := List.getElem?_eq_getElem hk
  generalize st.connections[k] = c at hget
  have hget' : s.connections[k]? = some c := by rw [hconn, Loop.done_get, hget]
  have hact := active_congr (n := n) h.keeps c
  rw [Loop.filter_take_succ (active n st) hget]
  unfold send
  rw [hget']
  dsimp only
  by_cases hc : c.north = n ∧ s.live c.south ∧ c.state ≠ .CLOSED
  · have hact' : active n st c = true := by rw [← hact]; exact active_iff.mpr hc
    rw [hact', if_pos rfl, if_pos hc]
    obtain ⟨o, hw⟩ := h.snoc c
    have hsame := (writeChunk_spec n type s c).connections
    have hq := (writeChunk n type s c).setTriggerOpen_quiet c.south Mask.POLLOUT
    generalize writeChunk n type s c = s1 at hw hq hsame ⊢
    generalize s1.setTriggerOpen c.south Mask.POLLOUT = s2 at hq ⊢
    have hset : Effect s2 (s2.setConn k (state_update c type)) [] :=
      .of_eps rfl rfl (by simp [setConn]) rfl (Nat.le_refl _) fun _ => rfl
    refine ⟨⟨_, (hw.quiet hq.effect hq.keeps hq.frame hq.chunk).quiet hset (.of_eps rfl rfl rfl rfl)
      (fun _ => rfl) fun _ => rfl⟩, ?_⟩
    rw [← Loop.done_succ hget, if_pos hact']
    show s2.connections.set k _ = _
    rw [hq.connections, hsame, hconn]
  · have hact' : active n st c = false := by
      rw [← hact]
      exact Bool.eq_false_iff.mpr fun ht => hc (active_iff.mp ht)
    rw [hact', if_neg (by simp), List.append_nil, if_neg hc]
    refine ⟨⟨obs, h⟩, ?_⟩
    rw [hconn]
    exact Loop.done_succ_of_eq hget (by simp [hact'])

/-- The chunk, or the end of the file, goes to all active connections. -/
theorem sendAll_spec (n : StreamId) (type : Msgtype) (st : Connector) :
    (∃ obs, Copied n type (st.connections.filter (active n st)) st (sendAll n type st) obs) ∧
      (sendAll n type st).connections =
        st.connections.map fun c => if active n st c then state_update c type else c := by
  have h := Loop.foldl_range st.connections.length (send n type) st
    (fun k s => (∃ obs, Copied n type ((st.connections.take k).filter (active n st)) st s obs) ∧
      s.connections =
        Loop.done (fun c => if active n st c then state_update c type else c) st.connections k)
    ⟨⟨[], .nil n type st⟩, by simp⟩ fun k s hk h => by
      obtain ⟨⟨obs, h1⟩, h2⟩ := h
      exact send_copied hk h1 h2
  rwa [List.take_length, Loop.done_length] at h

/-! ## A new session -/

theorem consumed_of_dialed (h : Dialed st st') (hn : n < st.next) : consumed st' n = consumed st n := by
  simp only [consumed, h.taken hn, h.chunk]

theorem select_stream_spec (b : Nat) (p : Pick) (st : Connector) :
    Dialed st (select_stream b p st).1 ∧
      (select_stream b p st).1.live (select_stream b p st).2 ∧
      ((select_stream b p st).1.ep (select_stream b p st).2).iface = .south b ∧
      (select_stream b p st).1.ncid = st.ncid ∧ (select_stream b p st).1.pending = st.pending := by
  have hmake : Dialed st (st.make (.south b) BAD_SOCKET) ∧
      (st.make (.south b) BAD_SOCKET).live st.next ∧
      ((st.make (.south b) BAD_SOCKET).ep st.next).iface = .south b ∧
      (st.make (.south b) BAD_SOCKET).ncid = st.ncid ∧
      (st.make (.south b) BAD_SOCKET).pending = st.pending :=
    ⟨.make st _ _, by simp, by rw [iface_make, if_pos rfl], rfl, rfl⟩
  unfold select_stream
  split
  · split
    · rename_i hs
      exact ⟨.refl st, hs.1, hs.2, rfl, rfl⟩
    · exact hmake
  · exact hmake

theorem prepareStream_spec (n s : StreamId) (fd : Option Int) (st : Connector)
    (hs : (st.ep s).iface ≠ .north) :
    Dialed st (prepareStream n s fd st) ∧ (prepareStream n s fd st).ncid = st.ncid ∧
      ∀ p ∈ (prepareStream n s fd st).pending, p ∈ st.pending ∨ p = (s, n) := by
  unfold prepareStream
  split
  · refine ⟨@Dialed.trans _ (st.setTrigger s (Mask.POLLIN.union Mask.POLLOUT)) _ ?_ ?_, rfl,
      fun p hp => .inl hp⟩
    · exact .of_eps rfl rfl rfl rfl (Nat.le_refl _) rfl
    · exact .setSock (.cleared (st.sock s).native_handle) fun h => absurd h hs
  · split
    · exact ⟨(Dialed.handle st s _).trans (.of_eps rfl rfl rfl rfl (Nat.le_refl _) rfl), rfl,
        fun p hp => .inl hp⟩
    · refine ⟨.of_eps rfl rfl rfl rfl (Nat.le_refl _) rfl, rfl, fun p hp => ?_⟩
      rcases List.mem_append.mp hp with hp | hp
      · exact .inl hp
      · exact .inr (List.mem_singleton.mp hp)

theorem bumpEid_node (m : Mode) (eid : Uuid) : (bumpEid m eid).node = eid.node := by
  unfold bumpEid
  split
  · rfl
  · split <;> rfl

/-- The new connections of a session, one for each backend from `b` on. -/
structure Dials (n : StreamId) (b : Nat) (eid : Uuid) (st st' : Connector) (cs : List Connection) : Prop where
  dialed : Dialed st st'
  ncid : st'.ncid = st.ncid + cs.length
  cids : cs.map (·.cid) = List.range' st.ncid cs.length
  north : ∀ c ∈ cs, c.north = n
  live : ∀ c ∈ cs, st'.live c.south
  souths : ∀ c ∈ cs, c.south < st'.next
  state : ∀ c ∈ cs, c.state = if (st.sock n).eof then .HALF_CLOSED else .HALF_OPEN
  base : ∀ c ∈ cs, c.base = consumed st n
  node : ∀ c ∈ cs, c.uuid.node = eid.node
  half : st.mode = .HALF_DUPLEX → ∀ c ∈ cs, c.uuid = eid
  ifaces : cs.map (fun c => (st'.ep c.south).iface) = (List.range' b cs.length).map Iface.south
  pending : ∀ p ∈ st'.pending, p ∈ st.pending ∨ p.2 = n ∧ st'.live p.1

theorem connectLoop_spec {n : StreamId} (b : Nat) (ps : List Pick) (eid : Uuid) {st : Connector}
    (hu : IdsUsed st) (hn : n < st.next) :
    Dials n b eid st (connectLoop n b ps eid st).1 (connectLoop n b ps eid st).2 := by
  induction ps generalizing b eid st with
  | nil => exact ⟨.refl st, rfl, rfl, by simp [connectLoop], by simp [connectLoop],
      by simp [connectLoop], by simp [connectLoop], by simp [connectLoop], by simp [connectLoop],
      by simp [connectLoop], rfl, fun p hp => .inl hp⟩
  | cons p ps ih =>
    obtain ⟨h1, hlive, hiface, hncid, hpend⟩ := select_stream_spec b p st
    unfold connectLoop
    generalize select_stream b p st = r at *
    obtain ⟨st1, s⟩ := r
    dsimp only at *
    obtain ⟨h2, hncid2, hpend2⟩ := prepareStream_spec n s p.fd st1 (by rw [hiface]; simp)
    generalize prepareStream n s p.fd st1 = st2 at *
    have hd := h1.trans h2
    have hcount : Dialed st2 { st2 with ncid := st2.ncid + 1 } :=
      .of_eps rfl rfl rfl rfl (Nat.le_succ _) rfl
    have hn1 : n < st2.next := Nat.lt_of_lt_of_le hn hd.effect.next
    have hs : s < st1.next := h1.used hu s hlive
    have hs3 := Nat.lt_of_lt_of_le hs h2.effect.next
    have hr := @ih (b + 1) (bumpEid st2.mode eid) { st2 with ncid := st2.ncid + 1 }
      (hcount.used (hd.used hu)) hn1
    generalize connectLoop n (b + 1) ps (bumpEid st2.mode eid) { st2 with ncid := st2.ncid + 1 } = r
      at *
    obtain ⟨st3, cs⟩ := r
    dsimp only at *
    have hd2 := hd.trans hcount
    refine ⟨hd2.trans hr.dialed, ?_, ?_, ?_, ?_, ?_, ?_, ?_, ?_, ?_, ?_, ?_⟩
    · rw [hr.ncid, List.length_cons]
      show st2.ncid + 1 + cs.length = _
      omega
    · rw [List.map_cons, hr.cids, List.length_cons, List.range'_succ]
      show st2.ncid :: List.range' (st2.ncid + 1) cs.length = _
      rw [hncid2, hncid]
    · simpa using hr.north
    · simp only [List.mem_cons, forall_eq_or_imp]
      exact ⟨hr.dialed.live s (hcount.live s (h2.live s hlive)), hr.live⟩
    · simp only [List.mem_cons, forall_eq_or_imp]
      exact ⟨Nat.lt_of_lt_of_le hs3 (hcount.trans hr.dialed).effect.next, hr.souths⟩
    · simp only [List.mem_cons, forall_eq_or_imp]
      refine ⟨by rw [hd.eof hn], fun c hc => ?_⟩
      rw [hr.state c hc, hd2.eof hn]
    · simp only [List.mem_cons, forall_eq_or_imp]
      refine ⟨consumed_of_dialed hd hn, fun c hc => ?_⟩
      rw [hr.base c hc, consumed_of_dialed hd2 hn]
    · simp only [List.mem_cons, forall_eq_or_imp]
      refine ⟨bumpEid_node _ _, fun c hc => ?_⟩
      rw [hr.node c hc, bumpEid_node]
    · intro hm
      have hm2 : st2.mode = .HALF_DUPLEX := hd.effect.mode.trans hm
      have hb : bumpEid st2.mode eid = eid := by rw [hm2]; rfl
      simp only [List.mem_cons, forall_eq_or_imp]
      refine ⟨hb, fun c hc => ?_⟩
      rw [hr.half hm2 c hc, hb]
    · rw [List.map_cons, hr.ifaces, List.length_cons, List.range'_succ, List.map_cons]
      congr 1
      rw [(hcount.trans hr.dialed).effect.iface s hs3,
        h2.effect.iface s hs, hiface]
    · intro q hq
      rw [← hpend]
      rcases hr.pending q hq with hq | hq
      · refine (hpend2 q hq).imp id ?_
        rintro rfl
        exact ⟨rfl, hr.dialed.live s (hcount.live s (h2.live s hlive))⟩
      · exact .inr hq

/-- The frames with INIT go to all new connections. -/
theorem sendInit_spec (n : StreamId) (type : Msgtype) (cs : List Connection) (st : Connector)
    (hl : ∀ c ∈ cs, st.live c.south) :
    (∃ obs, Copied n type cs st (cs.foldl (sendInit n type) st) obs) ∧
      (cs.foldl (sendInit n type) st).connections = st.connections := by
  suffices h : ∀ (done rest : List Connection) (s : Connector) (obs : List Obs),
      (∀ c ∈ rest, st.live c.south) → Copied n type done st s obs → s.connections = st.connections →
      (∃ obs', Copied n type (done ++ rest) st (rest.foldl (sendInit n type) s) obs') ∧
        (rest.foldl (sendInit n type) s).connections = st.connections from
    h [] cs st [] hl (.nil n type st) rfl
  intro done rest
  induction rest generalizing done with
  | nil =>
    intro s obs _ h hs
    rw [List.append_nil]
    exact ⟨⟨obs, h⟩, hs⟩
  | cons c rest ih =>
    intro s obs hl h hs
    have hlive : s.live c.south = true := by
      rw [h.keeps.live]
      exact hl c (by simp)
    obtain ⟨o, hw⟩ := h.snoc c
    have := ih (done ++ [c]) (writeChunk n type s c) _ (fun c hc => hl c (by simp [hc])) hw
      ((writeChunk_spec n type s c).connections.trans hs)
    rw [List.append_assoc] at this
    rw [List.foldl_cons, sendInit, if_pos hlive]
    exact this

/-- What `_north_connect` did, when it had an eid: streams were dialed, the frames
`obs` were sent and the connections `cs` inserted. -/
structure Opened (n : StreamId) (eid : Uuid) (st st' : Connector) (cs : List Connection)
    (obs : List Obs) : Prop where
  dials : ∃ st1, Dials n 0 eid st st1 cs ∧ Keeps st1 st' ∧
    Effect st1 st' (obs ++ cs.map fun c => .opened c.north c.cid)
  connections : st'.connections = st.connections ++ cs
  frame : ∀ i, st'.frame i = st.frame i
  chunk : ∀ i, (st'.chunk i).data = (st.chunk i).data ∧ (st'.chunk i).ppos = (st.chunk i).ppos
  others : ∀ i, i ≠ n → st'.chunk i = st.chunk i
  ok : ChunkOk (st.chunk n) → ChunkOk (st'.chunk n)

/-- The INIT frames were sent. -/
structure SentInit (n : StreamId) (type : Msgtype) (st st' : Connector) (cs : List Connection)
    (obs : List Obs) : Prop where
  sent : List.Forall₂ (chunkSent type (st.chunk n).chunk) cs obs
  untouched : cs = [] → st'.chunk n = st.chunk n
  whole : ∀ c, cs.getLast? = some c → (st'.sock c.south).bad = false ∨ (st.chunk n).ppos ≤ 256 →
    (st'.chunk n).gpos = (st.chunk n).ppos

def initType (st : Connector) (n : StreamId) : Msgtype :=
  if (st.sock n).eof then ⟨STOP, INIT⟩ else ⟨DATA, INIT⟩

theorem insert_effect (st : Connector) (cs : List Connection) :
    Effect st (insert st cs) (cs.map fun c => .opened c.north c.cid) :=
  .of_eps rfl rfl rfl rfl (Nat.le_refl _) fun i => by
    simp [outBytes, Obs.bytes]

/-- A transport of the new connections has no room for the chunk of the client. -/
def Full (n : StreamId) (st : Connector) (cs : List Connection) : Prop :=
  ∃ c ∈ cs, MAX_BUFSIZE < (if c.south < st.next then (st.sock c.south).parea.length else 0) +
    (st.chunk n).tellp + HDRLEN

theorem north_connect_spec (o : Oracle) {n : StreamId} {st : Connector} (hu : IdsUsed st)
    (hn : n < st.next) :
    (o.eid = Uuid.nil ∧ north_connect o n st = (st, -1)) ∨
      ∃ cs obs, Opened n o.eid st (north_connect o n st).1 cs obs ∧
        ((north_connect o n st).2 = 0 ∧ obs = [] ∧ (north_connect o n st).1.chunk n = st.chunk n ∧
            Full n st cs ∨
          0 < (north_connect o n st).2 ∧
            SentInit n (initType st n) st (north_connect o n st).1 cs obs) ∧
        cs = (connectLoop n 0 o.picks o.eid st).2 ∧
          Keeps (connectLoop n 0 o.picks o.eid st).1 (north_connect o n st).1 := by
  unfold north_connect
  split
  · rename_i h
    exact .inl ⟨h, rfl⟩
  · right
    have hd := connectLoop_spec 0 o.picks o.eid hu hn
    generalize connectLoop n 0 o.picks o.eid st = r at hd
    obtain ⟨st1, cs⟩ := r
    dsimp only at hd ⊢
    have hq := write_prepare_quiet n (st1.chunk n).tellp cs st1
    have hfull := write_prepare_full n (st1.chunk n).tellp cs st1
    generalize write_prepare n (st1.chunk n).tellp cs st1 = w at hq hfull
    obtain ⟨st2, full⟩ := w
    have hinsert : ∀ s, Keeps s (insert s cs) := fun s => .of_eps rfl rfl rfl rfl
    cases full with
    | true =>
      refine ⟨cs, [], ⟨⟨st1, hd, hq.keeps.trans (hinsert st2), hq.effect.trans (insert_effect st2 cs)⟩,
        ?_, fun i => ?_, fun i => ?_, fun i _ => ?_, fun hn => ?_⟩, .inl ⟨rfl, rfl, ?_, ?_⟩, rfl,
        hq.keeps.trans (hinsert st2)⟩
      · show st2.connections ++ cs = _
        rw [hq.connections, hd.dialed.connections]
      · exact (hq.frame i).trans (hd.dialed.frame i)
      · show (st2.chunk i).data = _ ∧ (st2.chunk i).ppos = _
        rw [hq.chunk, hd.dialed.chunk]
        exact ⟨rfl, rfl⟩
      · exact (hq.chunk i).trans (hd.dialed.chunk i)
      · show ChunkOk (st2.chunk n)
        rw [hq.chunk, hd.dialed.chunk]
        exact hn
      · exact (hq.chunk n).trans (hd.dialed.chunk n)
      · obtain ⟨c, hc, hlt⟩ := hfull rfl
        rw [hd.dialed.chunk] at hlt
        refine ⟨c, hc, ?_⟩
        split
        · rename_i hold
          rwa [(hd.dialed.sock c.south hold).parea] at hlt
        · rename_i hnew
          obtain ⟨fd, rx, tx, hs⟩ := hd.dialed.born c.south (Nat.le_of_not_lt hnew) (hd.souths c hc)
          rwa [hs] at hlt
    | false =>
      have htype : initType st n =
          (if (st1.sock n).eof then ⟨STOP, INIT⟩ else ⟨DATA, INIT⟩ : Msgtype) := by
        rw [initType, hd.dialed.eof hn]
      rw [← htype]
      obtain ⟨⟨obs, hs⟩, hsame⟩ := sendInit_spec n (initType st n) cs st2 fun c hc => by
        rw [hq.live]
        exact hd.live c hc
      dsimp only
      generalize cs.foldl (sendInit n (initType st n)) st2 = st3 at hs hsame ⊢
      have hchunk : ∀ i, st2.chunk i = st.chunk i := fun i => (hq.chunk i).trans (hd.dialed.chunk i)
      have hlen : (0 : Int) < (HDRLEN + (st1.chunk n).tellp : Nat) := by
        simp only [HDRLEN]
        omega
      refine ⟨cs, obs, ⟨⟨st1, hd, (hq.keeps.trans hs.keeps).trans (hinsert st3),
        (hq.effect.trans_nil hs.effect).trans (insert_effect st3 cs)⟩, ?_, fun i => ?_, fun i => ?_,
        fun i hi => ?_, fun hn => hs.ok (by rw [hchunk]; exact hn)⟩,
        .inr ⟨hlen, ?_, fun hn => ?_, fun c hc hb => ?_⟩, rfl,
        (hq.keeps.trans hs.keeps).trans (hinsert st3)⟩
      · show st3.connections ++ cs = _
        rw [hsame, hq.connections, hd.dialed.connections]
      · exact (hs.frame i).trans ((hq.frame i).trans (hd.dialed.frame i))
      · show (st3.chunk i).data = _ ∧ (st3.chunk i).ppos = _
        rw [(hs.chunk i).1, (hs.chunk i).2, hchunk]
        exact ⟨rfl, rfl⟩
      · exact (hs.others i hi).trans (hchunk i)
      · rw [← hchunk n]
        exact hs.sent
      · exact (hs.untouched hn).trans (hchunk n)
      · rw [← hchunk n] at hb ⊢
        exact hs.whole c hc hb

/-! ## The loops that abort -/

/-- The entry of the log for an ABORT to a connection. -/
def abortSent (c : Connection) (o : Obs) : Prop :=
  ∃ eid ok, o = .sent (some c.cid) c.south eid abortType [] ok ∧ eid = c.uuid

/-- The connections that the latch aborts. -/
def latched (s : StreamId) (eid : Uuid) (st : Connector) (c : Connection) : Bool :=
  c.uuid == eid && decide (c.state.rank < ConnState.HALF_CLOSED.rank) && c.south != s && st.live c.south

theorem latch_spec (s : StreamId) (eid : Uuid) (st : Connector) :
    ∃ obs, Logs st (latch s eid st) obs ∧
      List.Forall₂ abortSent (st.connections.filter (latched s eid st)) obs ∧
      (latch s eid st).connections = st.connections.map fun c =>
        if latched s eid st c then state_update c abortType else c := by
  refine Logs.sweep _ _ _ _ st (fun s' k c hk hget hp => ?_) (fun s' k c hk hget hp => ?_)
  · simp only [latched, Bool.and_eq_true, beq_iff_eq, decide_eq_true_eq, bne_iff_ne] at hp
    obtain ⟨⟨⟨h1, h2⟩, h3⟩, h4⟩ := hp
    have hlive : s'.live c.south = true := by rw [hk.live]; exact h4
    unfold latchTurn
    rw [hget]
    dsimp only
    rw [if_pos ⟨h1, h2, h3, hlive⟩]
    refine ⟨_, ((s'.writeHeader_logs c.south (some c.cid) eid abortType).nil_trans
      (setTrigger_quiet _ c.south _).logs).nil_trans (.setConn _ k _), ⟨eid, _, rfl, h1.symm⟩, rfl⟩
  · unfold latchTurn
    rw [hget]
    dsimp only
    rw [if_neg]
    rintro ⟨h1, h2, h3, h4⟩
    rw [hk.live] at h4
    simp [latched, h1, h2, h3, h4] at hp

/-- The connections that an error of the transport closes. -/
def failing (s : StreamId) (st : Connector) (c : Connection) : Bool := c.south == s && st.live c.north

theorem failAll_spec (s : StreamId) (st : Connector) :
    ∃ obs, Logs st ((List.range st.connections.length).foldl (failTurn s) st) obs ∧
      List.Forall₂ (fun c o => o = .failed c.cid) (st.connections.filter (failing s st)) obs ∧
      ((List.range st.connections.length).foldl (failTurn s) st).connections =
        st.connections.map fun c => if failing s st c then state_update c abortType else c := by
  refine Logs.sweep _ _ _ _ st (fun s' k c hk hget hp => ?_) (fun s' k c hk hget hp => ?_)
  · simp only [failing, Bool.and_eq_true, beq_iff_eq] at hp
    have hlive : s'.live c.north = true := by rw [hk.live]; exact hp.2
    unfold failTurn
    rw [hget]
    dsimp only
    rw [if_pos ⟨hp.1, hlive⟩]
    exact ⟨_, ((Logs.setConn s' k _).trans_nil (setTrigger_quiet _ c.north _).logs).trans_nil
      (.note _ fun _ => rfl), rfl, rfl⟩
  · unfold failTurn
    rw [hget]
    dsimp only
    rw [if_neg]
    rintro ⟨h1, h2⟩
    rw [hk.live] at h2
    simp [failing, h1, h2] at hp

/-- The connections that are aborted when the client goes away. -/
def aborting (n : StreamId) (st : Connector) (c : Connection) : Bool :=
  c.north == n && st.live c.south && decide (c.state.rank < ConnState.CLOSED.rank)

theorem abortAll_spec (n : StreamId) (st : Connector) :
    ∃ obs, Logs st (st.connections.foldl (abortTurn n) st) obs ∧
      List.Forall₂ abortSent (st.connections.filter (aborting n st)) obs ∧
      (st.connections.foldl (abortTurn n) st).connections = st.connections := by
  refine Logs.visit _ _ _ st (fun s c hk hp => ?_) (fun s c hk hp => ?_) st.connections
  · simp only [aborting, Bool.and_eq_true, beq_iff_eq, decide_eq_true_eq] at hp
    obtain ⟨⟨h1, h2⟩, h3⟩ := hp
    have hlive : s.live c.south = true := by rw [hk.live]; exact h2
    unfold abortTurn
    rw [if_pos ⟨h1, hlive⟩]
    dsimp only
    rw [if_pos h3]
    exact ⟨_, (s.setTrigger_quiet c.south _).logs.trans_nil (writeHeader_logs _ c.south _ _ _),
      ⟨c.uuid, _, rfl, rfl⟩, rfl⟩
  · unfold abortTurn
    split
    · rename_i h
      dsimp only
      rw [if_neg]
      · exact s.setTrigger_quiet c.south _
      · intro h3
        have h2 := h.2
        rw [hk.live] at h2
        simp [aborting, h.1, h2, h3] at hp
    · exact .refl s

/-- A client was erased: its connections were aborted and removed. -/
abbrev ClientGone (n : StreamId) (st st' : Connector) (obs : List Obs) : Prop :=
  Gone n (aborting n st) id (fun c => c.north != n) abortSent st st' obs

theorem north_err_handler_spec (n : StreamId) (st : Connector) :
    ∃ obs, ClientGone n st (north_err_handler n st) obs := by
  obtain ⟨obs, h1, h2, h3⟩ := abortAll_spec n st
  exact ⟨obs, .of_loop _ h1 h2 (by simpa using h3)⟩

/-- A transport was erased: its connections are closed, or removed when their client
is gone too. -/
abbrev TransportGone (s : StreamId) (st st' : Connector) (obs : List Obs) : Prop :=
  Gone s (failing s st) (state_update · abortType) (fun c => !(c.south == s && !st.live c.north))
    (fun c o => o = Obs.failed c.cid) st st' obs

theorem south_err_handler_spec (s : StreamId) (st : Connector) :
    ∃ obs, TransportGone s st (south_err_handler s st) obs := by
  obtain ⟨obs, h1, h2, h3⟩ := failAll_spec s st
  unfold south_err_handler
  simp only [h1.keeps.live]
  exact ⟨obs, .of_loop _ h1 h2 h3⟩

/-! ## From a transport to a client -/

/-- `_south_write` left the frame for later, or it is done with it: the payload went to
the client, or the client failed before it could. -/
theorem south_write_spec {s n : StreamId} {cid : Nat} {f : Frame} {st : Connector}
    (hr : (st.frame s).Ready) (hp : f.payload ≠ [])
    (hd : (st.frame s).contents.drop (st.frame s).tellg = f.payload) :
    ((south_write s n cid st).2 = false ∧ Quiet st (south_write s n cid st).1) ∨
      ((south_write s n cid st).2 = true ∧ ∃ obs, Offered s n cid f st (south_write s n cid st).1 obs) := by
  have hfail : (st.frame s).rdstate.fail = false := by
    have := hr.good
    simp only [Iostate.good, Bool.not_eq_true', Bool.or_eq_false_iff] at this
    simp [Iostate.fail, this]
  unfold south_write
  split
  · rename_i hn
    exact .inr ⟨rfl, [], .of_quiet hfail (.refl st) (.inr (.inl (Sockstream.not_good_of_fail hn)))⟩
  · dsimp only
    have hflush : Quiet st (if (MAX_BUFSIZE : Int) - ((st.frame s).tellp - (st.frame s).tellg : Nat) ≤
        (st.sock n).tellp then st.flushSock n else st) := by
      split
      · exact st.flushSock_quiet n
      · exact .refl st
    generalize (if (MAX_BUFSIZE : Int) - ((st.frame s).tellp - (st.frame s).tellg : Nat) ≤
        (st.sock n).tellp then st.flushSock n else st) = st1 at hflush ⊢
    rw [← hflush.frame s] at hr hd ⊢
    split
    · rename_i hb
      rw [hflush.frame] at *
      exact .inr ⟨rfl, [], .of_quiet hfail hflush (.inr (.inl (Sockstream.not_good_of_bad hb)))⟩
    · split
      · exact .inr ⟨rfl, _, .after hflush (.of_write hr hp hd)⟩
      · exact .inl ⟨rfl, hflush⟩

/-- The table after a frame for the connection `c` at `k`, when the latch does not
close, or closes. -/
def latching (f : Frame) (c : Connection) (st : Connector) : Bool :=
  st.mode == .HALF_DUPLEX && c.state == .HALF_OPEN && (state_update c f.type).state != .HALF_OPEN &&
    f.payload != []

/-- The frame `f` of the transport `s` was delivered to the connection `c` at `k`. -/
structure Delivered (s : StreamId) (f : Frame) (k : Nat) (c : Connection) (st st' : Connector)
    (fed aborts : List Obs) : Prop where
  effect : Effect st st' (fed ++ .got (some c.cid) s f.eid f.type f.payload :: aborts)
  fed : Feed c.cid s c.north f.payload st st' fed
  aborts : if latching f c st then
      List.Forall₂ abortSent
        ((st.connections.set k (state_update c f.type)).filter (latched s f.eid st)) aborts
    else aborts = []
  connections : st'.connections =
    if latching f c st then (st.connections.set k (state_update c f.type)).map fun c =>
      if latched s f.eid st c then state_update c abortType else c
    else st.connections.set k (state_update c f.type)
  keeps : Keeps st st'
  chunk : ∀ i, st'.chunk i = st.chunk i
  others : ∀ i, i ≠ s → st'.frame i = st.frame i
  contents : (st'.frame s).contents = (st.frame s).contents
  frame : (st'.frame s).rdstate.fail = false ∧ (st'.frame s).eof = true

/-- The last part of `deliver`, after the payload was written. -/
theorem deliver_finish {f : Frame} {st1 : Connector} (h : Offered s c.north c.cid f st st1 obs) :
    ∃ aborts, Delivered s f k c st
      ((if latching f c st then
          latch s f.eid ((st1.setConn k (state_update c f.type)).note
            (.got (some c.cid) s f.eid f.type f.payload))
        else (st1.setConn k (state_update c f.type)).note
          (.got (some c.cid) s f.eid f.type f.payload)).mark s) obs aborts := by
  have hgot : Logs st1 ((st1.setConn k (state_update c f.type)).note
      (.got (some c.cid) s f.eid f.type f.payload)) [.got (some c.cid) s f.eid f.type f.payload] :=
    (Logs.setConn st1 k _).trans_nil (.note _ fun _ => rfl)
  have hconn : ((st1.setConn k (state_update c f.type)).note
      (.got (some c.cid) s f.eid f.type f.payload)).connections =
      st.connections.set k (state_update c f.type) := by
    show st1.connections.set k _ = _
    rw [h.connections]
  generalize (st1.setConn k (state_update c f.type)).note
    (.got (some c.cid) s f.eid f.type f.payload) = st2 at hgot hconn ⊢
  have hlatched : latched s f.eid st2 = latched s f.eid st := by
    funext c'
    simp only [latched, hgot.keeps.live, h.keeps.live]
  -- the latch changes the log and the table, and the mark only the frame buffer
  obtain ⟨aborts, st3, hst3, hlog, hab, hcs⟩ : ∃ aborts st3,
      (if latching f c st then latch s f.eid st2 else st2) = st3 ∧ Logs st2 st3 aborts ∧
      (if latching f c st then
        List.Forall₂ abortSent
          ((st.connections.set k (state_update c f.type)).filter (latched s f.eid st)) aborts
        else aborts = []) ∧
      st3.connections = if latching f c st then
        (st.connections.set k (state_update c f.type)).map fun c =>
          if latched s f.eid st c then state_update c abortType else c
        else st.connections.set k (state_update c f.type) := by
    cases hl : latching f c st with
    | true =>
      obtain ⟨aborts, l1, l2, l3⟩ := latch_spec s f.eid st2
      rw [hlatched, hconn] at l2 l3
      exact ⟨aborts, _, rfl, l1, l2, l3⟩
    | false => exact ⟨[], _, rfl, .refl st2, rfl, hconn⟩
  rw [hst3]
  have hmark : Effect st3 (st3.mark s) [] := .setFrame st3 s _
  have hall := hgot.trans hlog
  refine ⟨aborts, ?_⟩
  refine ⟨?_, ?_, hab, hcs, (h.keeps.trans hall.keeps).trans (.setFrame _ s _), fun i => ?_,
    fun i hi => ?_, ?_, ?_⟩
  · simpa using (h.effect.trans hall.effect).nil_trans hmark
  · refine h.fed.widen id (fun hg => ?_) ?_
    · simp only [mark, sock_setFrame]
      exact (hall.keeps.kept c.north).stuck hg
    · rw [mark, live_setFrame, hall.keeps.live]
  · simp only [mark, chunk_setFrame]
    exact (hall.chunk i).trans (h.chunk i)
  · simp only [mark, frame_setFrame, if_neg hi]
    exact (hall.frame i).trans (h.others i hi)
  · simp only [mark, frame_setFrame, if_pos]
    exact (congrArg Xmsgstream.contents (hall.frame s)).trans h.contents
  · simp only [mark, frame_setFrame, if_pos, hall.frame]
    exact ⟨h.fail, rfl⟩

theorem deliver_spec {f : Frame} (hf : frameOf (st.frame s) = some f)
    (hok : FrameOk (st.frame s)) (hnew : (st.frame s).eof = false) :
    ((deliver s f k c st).2 = false ∧ f.payload ≠ [] ∧ Deferred s st (deliver s f k c st).1) ∨
      ((deliver s f k c st).2 = true ∧ ∃ fed aborts,
        Delivered s f k c st (deliver s f k c st).1 fed aborts) := by
  obtain ⟨hpay, -, -, htell, -, hend⟩ := frameOf_some hf
  have hseek : (if (st.frame s).tellg ≤ HDRLEN then HDRLEN else (st.frame s).tellg) = HDRLEN :=
    if_pos (hok.gptr hnew)
  have hpos : (st.frame s).tellp > HDRLEN ↔ f.payload ≠ [] := by
    rw [htell, ← List.length_pos_iff]
    omega
  have hlatch : ∀ a : Connector, a.mode = st.mode →
      ((a.mode = .HALF_DUPLEX ∧ c.state = .HALF_OPEN ∧ (state_update c f.type).state ≠ .HALF_OPEN ∧
        True ∧ (st.frame s).tellp > HDRLEN) ↔ latching f c st = true) := by
    intro a ha
    rw [hpos, ha]
    simp [latching, and_assoc]
  have hq := st.setTrigger_quiet c.north Mask.POLLOUT
  have hfr : (st.setTrigger c.north Mask.POLLOUT).frame s = st.frame s := rfl
  have hdone : ∀ {st1 : Connector} {obs : List Obs}, Offered s c.north c.cid f st st1 obs →
      ∃ aborts, Delivered s f k c st
        ((if ((st1.setConn k (state_update c f.type)).note
            (.got (some c.cid) s f.eid f.type f.payload)).mode = .HALF_DUPLEX ∧ c.state = .HALF_OPEN ∧
            (state_update c f.type).state ≠ .HALF_OPEN ∧ HDRLEN = HDRLEN ∧
            (st.frame s).tellp > HDRLEN then
          latch s f.eid ((st1.setConn k (state_update c f.type)).note
            (.got (some c.cid) s f.eid f.type f.payload))
        else (st1.setConn k (state_update c f.type)).note
          (.got (some c.cid) s f.eid f.type f.payload)).mark s) obs aborts := by
    intro st1 obs ho
    have hm : ((st1.setConn k (state_update c f.type)).note
      (.got (some c.cid) s f.eid f.type f.payload)).mode = st.mode := ho.effect.mode
    simpa only [hlatch _ hm] using deliver_finish ho
  unfold deliver
  dsimp only
  rw [hseek]
  generalize st.setTrigger c.north Mask.POLLOUT = st0 at hq hfr ⊢
  by_cases hp : (st.frame s).tellp > HDRLEN
  · rw [if_pos hp]
    have hf0 : frameOf (st0.frame s) = some f := by rw [hfr]; exact hf
    have hfail0 : (st0.frame s).rdstate.fail = false := by rw [hfr]; exact hok.fail
    obtain ⟨g1, g2, g3, -, g4⟩ := seekg_header hf0 hfail0
    have hspec := @south_write_spec s c.north c.cid f
      (st0.setFrame s ((st0.frame s).seekg HDRLEN)) (by simpa using g4) (hpos.mp hp)
      (by rw [frame_setFrame, if_pos rfl, g2, g3])
    generalize south_write s c.north c.cid (st0.setFrame s ((st0.frame s).seekg HDRLEN)) = w at hspec ⊢
    obtain ⟨st1, b⟩ := w
    rcases hspec with ⟨hb, hq1⟩ | ⟨hb, obs, ho⟩
    · obtain rfl : b = false := hb
      have hd := Deferred.of_seek hf0 hfail0 (hq1.trans (st1.deferInput_quiet s))
      exact .inl ⟨rfl, hpos.mp hp, hd.after hq⟩
    · obtain rfl : b = true := hb
      exact .inr ⟨rfl, obs, hdone (.after hq (.seek g1 ho))⟩
  · rw [if_neg hp]
    have hnil : f.payload = [] := by
      by_contra hne
      exact hp (hpos.mpr hne)
    exact .inr ⟨rfl, [], hdone (.of_quiet hok.fail hq (.inl hnil))⟩

theorem refuse_spec (s : StreamId) (f : Frame) (st : Connector) :
    ∃ obs, Dropped s st (refuse s f st) obs ∧ refusal s f st obs := by
  obtain ⟨hd, hs⟩ := got_dropped s f st
  unfold refuse refusal
  dsimp only
  rw [hs]
  generalize (st.mark s).note (.got none s f.eid f.type f.payload) = st1 at hd hs ⊢
  split
  · exact ⟨_, hd.answer f.eid, _, rfl⟩
  · exact ⟨_, hd, rfl⟩

/-- What `_route` does with a transport. -/
inductive SouthRouted (s : StreamId) (st : Connector) : Connector → Bool → Prop
  /-- The frame is not complete. -/
  | idle : frameOf (st.frame s) = none → SouthRouted s st st (st.sock s).eof
  /-- No connection takes the frame. -/
  | refused (f : Frame) (obs : List Obs) (st' : Connector) :
      frameOf (st.frame s) = some f → Dropped s st st' obs → refusal s f st obs →
      (findConn s f.eid st.connections = none ∨ ∃ k c, findConn s f.eid st.connections = some k ∧
        st.connections[k]? = some c ∧ (c.state = .CLOSED ∨
          st.live c.north ∧ c.state = .HALF_CLOSED ∧ (st.sock c.north).eof = false ∧
            f.type.has ABORT = false)) →
      SouthRouted s st st' (st.sock s).eof
  /-- The client of the connection is gone. -/
  | orphan (f : Frame) (k : Nat) (c : Connection) (st' : Connector) :
      frameOf (st.frame s) = some f → findConn s f.eid st.connections = some k →
      st.connections[k]? = some c → c.state ≠ .CLOSED → st.live c.north = false →
      Dropped s st st' [.got (some c.cid) s f.eid f.type f.payload] →
      SouthRouted s st st' (st.sock s).eof
  /-- The client has no room. -/
  | deferred (f : Frame) (k : Nat) (c : Connection) (st' : Connector) :
      frameOf (st.frame s) = some f → findConn s f.eid st.connections = some k →
      st.connections[k]? = some c → f.payload ≠ [] → Deferred s st st' → SouthRouted s st st' false
  /-- The frame went to the client of the connection. -/
  | delivered (f : Frame) (k : Nat) (c : Connection) (fed aborts : List Obs) (st' : Connector) :
      frameOf (st.frame s) = some f → findConn s f.eid st.connections = some k →
      st.connections[k]? = some c → c.state ≠ .CLOSED → st.live c.north →
      (c.state = .HALF_CLOSED → (st.sock c.north).eof ∨ f.type.has ABORT) →
      Delivered s f k c st st' fed aborts → SouthRouted s st st' (st.sock s).eof

theorem SouthRouted.keeps {failed : Bool} (h : SouthRouted s st st' failed) : Keeps st st' := by
  cases h with
  | idle => exact .refl st
  | refused _ _ _ _ hd => exact hd.keeps
  | orphan _ _ _ _ _ _ _ _ _ hd => exact hd.keeps
  | deferred _ _ _ _ _ _ _ _ hd => exact hd.keeps
  | delivered _ _ _ _ _ _ _ _ _ _ _ _ hd => exact hd.keeps

theorem route_south_spec {s : StreamId} {st : Connector} (hok : FrameOk (st.frame s))
    (hnew : (st.frame s).eof = false) :
    SouthRouted s st (route_south s st).1 (route_south s st).2 := by
  unfold route_south
  dsimp only
  cases hf : frameOf (st.frame s) with
  | none => exact .idle hf
  | some f =>
    dsimp only
    obtain ⟨obs, hr1, hr2⟩ := refuse_spec s f st
    cases hk : findConn s f.eid st.connections with
    | none => exact .refused f obs _ hf hr1 hr2 (.inl hk)
    | some k =>
      dsimp only
      cases hc : st.connections[k]? with
      | none =>
        obtain ⟨hlt, -⟩ := List.findIdx?_eq_some_iff_getElem.mp hk
        rw [List.getElem?_eq_none_iff] at hc
        omega
      | some c =>
        dsimp only
        by_cases h1 : c.state = .CLOSED
        · rw [if_pos h1]
          exact .refused f obs _ hf hr1 hr2 (.inr ⟨k, c, hk, hc, .inl h1⟩)
        · rw [if_neg h1]
          cases h2 : st.live c.north with
          | false =>
            exact .orphan f k c _ hf hk hc h1 h2
              ((mark_dropped s st).logs (.note _ fun _ => rfl) rfl)
          | true =>
            rw [if_neg (by simp)]
            by_cases h3 : c.state = .HALF_CLOSED ∧ !(st.sock c.north).eof ∧ !f.type.has ABORT
            · rw [if_pos h3]
              simp only [Bool.not_eq_true'] at h3
              exact .refused f obs _ hf hr1 hr2 (.inr ⟨k, c, hk, hc, .inr ⟨h2, h3⟩⟩)
            · rw [if_neg h3]
              have hd := deliver_spec (k := k) (c := c) hf hok hnew
              generalize deliver s f k c st = r at hd ⊢
              obtain ⟨st', b⟩ := r
              rcases hd with ⟨rfl, hp, hd⟩ | ⟨rfl, fed, aborts, hd⟩
              · exact .deferred f k c _ hf hk hc hp hd
              · refine .delivered f k c fed aborts _ hf hk hc h1 h2 (fun hh => ?_) hd
                by_contra hno
                rw [not_or, Bool.not_eq_true, Bool.not_eq_true] at hno
                exact h3 ⟨hh, by simp [hno.1], by simp [hno.2]⟩

/-! ## The client's side of `_route` -/

/-- The chunk, or the end of the file, went to every active connection. -/
structure SentAll (n : StreamId) (type : Msgtype) (st st' : Connector) (obs : List Obs) : Prop
    extends Copied n type (st.connections.filter (active n st)) st st' obs where
  connections : st'.connections =
    st.connections.map fun c => if active n st c then state_update c type else c

def routeType (st : Connector) (n : StreamId) : Msgtype :=
  ⟨if (st.sock n).eof then STOP else DATA, 0⟩

/-- What `_route` does with a client. -/
inductive NorthRouted (o : Oracle) (n : StreamId) (st : Connector) : Connector → Bool → Prop
  /-- There is nothing to send, or a transport has no room for it. -/
  | quiet (st' : Connector) : Quiet st st' → NorthRouted o n st st' false
  /-- The connections of the session got the chunk. -/
  | sent (a b st' : Connector) (obs : List Obs) :
      ((st.sock n).eof ∨ 0 < (st.chunk n).tellp) → Quiet st a → SentAll n (routeType st n) a b obs →
      Quiet b st' → ((st.sock n).eof ∨ connected n st) → NorthRouted o n st st' false
  /-- There is no eid for a new session. -/
  | noEid (a : Connector) : (st.sock n).eof = false → 0 < (st.chunk n).tellp → Quiet st a →
      connected n st = false → o.eid = Uuid.nil → NorthRouted o n st a true
  /-- A session was opened, but a transport has no room for the chunk. -/
  | deferred (a b st' : Connector) (cs : List Connection) : (st.sock n).eof = false →
      0 < (st.chunk n).tellp → Quiet st a → connected n st = false → o.eid ≠ Uuid.nil →
      Opened n o.eid a b cs [] → b.chunk n = a.chunk n → Full n a cs → Quiet b st' →
      NorthRouted o n st st' false
  /-- A session was opened, and its connections got the chunk. -/
  | opened (a b st' : Connector) (cs : List Connection) (obs : List Obs) :
      (st.sock n).eof = false → 0 < (st.chunk n).tellp → Quiet st a → connected n st = false →
      o.eid ≠ Uuid.nil → Opened n o.eid a b cs obs → SentInit n (initType a n) a b cs obs →
      Quiet b st' → NorthRouted o n st st' false

theorem connected_congr (hk : ∀ i, st'.live i = st.live i)
    (hc : st'.connections.map (fun c => (c.north, c.south)) =
      st.connections.map (fun c => (c.north, c.south))) : connected n st' = connected n st := by
  have h : ∀ (s : Connector), connected n s =
      (s.connections.map (fun c => (c.north, c.south))).any fun p => p.1 == n && s.live p.2 := by
    intro s
    rw [connected, List.any_map]
    rfl
  rw [h, h, hc]
  simp only [hk]

theorem connected_of_quiet (h : Quiet st st') : connected n st' = connected n st :=
  connected_congr h.live (by rw [h.connections])

theorem SentAll.connected (h : SentAll n type st st' obs) : connected n st' = connected n st := by
  refine connected_congr h.keeps.live ?_
  rw [h.connections, List.map_map]
  congr 1
  funext c
  simp only [Function.comp]
  split <;> rfl

/-- Without a connected transport the loop sends nothing. -/
theorem SentAll.quiet (h : SentAll n type st st' obs) (hc : controller.connected n st = false) : Quiet st st' := by
  have hnone : ∀ c ∈ st.connections, active n st c = false := by
    intro c hm
    have := List.any_eq_false.mp hc c hm
    cases ha : active n st c with
    | false => rfl
    | true =>
      obtain ⟨h1, h2, -⟩ := active_iff.mp ha
      simp [h1, h2] at this
  have hnil : st.connections.filter (active n st) = [] := by
    rw [List.filter_eq_nil_iff]
    intro c hm
    simp [hnone c hm]
  have hobs : obs = [] := by
    have := h.sent
    rw [hnil] at this
    cases this
    rfl
  have hsame : st'.connections = st.connections := by
    rw [h.connections]
    conv_rhs => rw [← List.map_id st.connections]
    refine List.map_congr_left fun c hm => ?_
    rw [hnone c hm]
    rfl
  refine ⟨hobs ▸ h.effect, h.keeps, hsame, fun i => ?_, h.frame⟩
  by_cases hi : i = n
  · rw [hi]
    exact h.untouched hnil
  · exact h.others i hi

theorem finishNorth_quiet (n : StreamId) (st : Connector) : Quiet st (finishNorth n st) := by
  unfold finishNorth
  split
  · exact (st.setTrigger_quiet n _).trans (clearTrigger_quiet _ n _)
  · exact .refl st

theorem route_north_spec (o : Oracle) {n : StreamId} {st : Connector} (hu : IdsUsed st)
    (hn : n < st.next) :
    NorthRouted o n st (route_north o n st).1 (route_north o n st).2 := by
  unfold route_north
  dsimp only
  by_cases hgo : ((st.sock n).eof || decide ((st.chunk n).tellp > 0)) = true
  · rw [if_pos hgo]
    simp only [Bool.or_eq_true, decide_eq_true_eq, gt_iff_lt] at hgo
    have hq := write_prepare_quiet n (st.chunk n).tellp st.connections st
    generalize write_prepare n (st.chunk n).tellp st.connections st = w at hq ⊢
    obtain ⟨a, full⟩ := w
    cases full with
    | true => exact .quiet _ (hq.trans (a.deferInput_quiet n))
    | false =>
      dsimp only at hq ⊢
      obtain ⟨⟨obs, hs⟩, hcs⟩ := sendAll_spec n (routeType st n) a
      have hall : SentAll n (routeType st n) a (sendAll n (routeType st n) a) obs := ⟨hs, hcs⟩
      have htype : (⟨if (st.sock n).eof = true then STOP else DATA, 0⟩ : Msgtype) = routeType st n := rfl
      rw [htype]
      generalize sendAll n (routeType st n) a = b at hall ⊢
      by_cases hopen : (!(st.sock n).eof && !connected n b) = true
      · -- a new session
        rw [if_pos hopen]
        simp only [Bool.and_eq_true, Bool.not_eq_true'] at hopen
        obtain ⟨heof, hcon⟩ := hopen
        rw [hall.connected] at hcon
        have hq2 := hq.trans (hall.quiet hcon)
        rw [connected_of_quiet hq] at hcon
        have hp : 0 < (st.chunk n).tellp := by simpa [heof] using hgo
        have hc := @north_connect_spec o n b
          (hu.of_keeps hq2.keeps)
          (by rw [hq2.keeps.next]; exact hn)
        by_cases hnil : o.eid = Uuid.nil
        · have hno : north_connect o n b = (b, -1) := by
            rw [north_connect, if_pos hnil]
          rw [hno]
          exact .noEid b heof hp hq2 hcon hnil
        · have hopened := hc.resolve_left fun h => hnil h.1
          generalize north_connect o n b = r at hopened ⊢
          obtain ⟨c, status⟩ := r
          obtain ⟨cs, obs', h1, ⟨h2, h3, h4, h5⟩ | ⟨h2, h3⟩, -⟩ := hopened
          · dsimp only at h1 h2 h4 ⊢
            rw [h2]
            exact .deferred b c _ cs heof hp hq2 hcon hnil (h3 ▸ h1) h4 h5 (c.deferInput_quiet n)
          · dsimp only at h1 h2 h3 ⊢
            rw [if_neg (by omega), if_neg (by omega)]
            exact .opened b c _ cs obs' heof hp hq2 hcon hnil h1 h3 (finishNorth_quiet n c)
      · rw [if_neg hopen]
        refine .sent a b _ obs hgo hq hall (finishNorth_quiet n b) ?_
        rw [hall.connected, connected_of_quiet hq] at hopen
        simpa [Bool.or_eq_true, Classical.or_iff_not_imp_left] using hopen
  · rw [if_neg hgo]
    exact .quiet _ (finishNorth_quiet n st)

/-! ## The input handlers -/

theorem callIn_north (o : Oracle) (h : (st.ep n).iface = .north) :
    callIn n o st = match route_north o n ((readClient n st).dropInput n) with
      | (st, true) => north_err_handler n st
      | (st, false) => st := by
  unfold callIn
  rw [h]
  rfl

theorem callIn_south (o : Oracle) (h : (st.ep s).iface ≠ .north) :
    callIn s o st = match route_south s ((readTransport s st).dropInput s) with
      | (st, true) => south_err_handler s st
      | (st, false) => st := by
  unfold callIn
  split
  · exact absurd ‹_› h
  · rfl

end cloudbus.controller
