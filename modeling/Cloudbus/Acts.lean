-- The acts that both connectors make: to read a stream, to dial one, to feed a
-- payload to a client or a service, to drop a frame.
import Cloudbus.Effect

namespace cloudbus

open cloudbus.io cloudbus.messages Connector

/-! ## Reading -/

/-- The bytes `bs` were read from a client or a service into its chunk buffer. -/
structure ChunkRead (n : StreamId) (st st' : Connector) (bs : List UInt8) : Prop where
  effect : Effect st st' []
  next : st'.next = st.next
  ncid : st'.ncid = st.ncid
  live : ∀ i, st'.live i = st.live i
  connections : st'.connections = st.connections
  others : ∀ i, i ≠ n → st'.chunk i = st.chunk i
  frame : ∀ i, st'.frame i = st.frame i
  pending : st'.pending = st.pending
  chunked : Chunked (st.chunk n) (st.sock n) bs (st'.chunk n) (st'.sock n)
  socks : ∀ i, i ≠ n → st'.sock i = st.sock i

/-- The bytes `bs` were read from a transport into its frame buffer. -/
structure FrameRead (s : StreamId) (st st' : Connector) (bs : List UInt8) : Prop where
  effect : Effect st st' []
  next : st'.next = st.next
  ncid : st'.ncid = st.ncid
  live : ∀ i, st'.live i = st.live i
  connections : st'.connections = st.connections
  chunk : ∀ i, st'.chunk i = st.chunk i
  others : ∀ i, i ≠ s → st'.frame i = st.frame i
  pending : st'.pending = st.pending
  reads : Reads (st.frame s) (st.sock s) bs (st'.frame s) (st'.sock s)
  socks : ∀ i, i ≠ s → st'.sock i = st.sock i

variable {st st' st1 : Connector} {s : StreamId} {bs : List UInt8}

/-- A read makes no stream good. -/
theorem FrameRead.good (h : FrameRead s st st' bs) {i : StreamId} (hg : (st'.sock i).good) : (st.sock i).good := by
  by_cases hi : i = s
  · subst hi
    exact h.reads.pulled.good hg
  · rwa [h.socks i hi] at hg

theorem dropInput_sock (st : Connector) (i j : StreamId) : (st.dropInput i).sock j = st.sock j := by
  unfold dropInput
  split <;> rfl

/-- The first half of the POLLIN handlers of clients and services. -/
theorem chunkRead_of_chunked {n : StreamId} {r : Stringstream × Sockstream}
    (h : Chunked (st.chunk n) (st.sock n) bs r.1 r.2) :
    ChunkRead n st (((st.setChunk n r.1).setSock n r.2).dropInput n) bs := by
  have hq := ((st.setChunk n r.1).setSock n r.2).dropInput_quiet n
  refine ⟨Effect.trans_nil ?_ hq.effect, hq.keeps.next, hq.keeps.ncid,
    fun i => (hq.live i).trans (by simp), hq.connections, fun i hi => ?_, fun i => ?_, hq.keeps.pending, ?_,
    fun i hi => ?_⟩
  · refine (Effect.setChunk st n _).trans_nil (.setSock ?_)
    rw [sock_setChunk]
    exact h.pulled.ran
  · rw [hq.chunk]
    simp [hi]
  · rw [hq.frame]
    simp
  · rw [hq.chunk, dropInput_sock]
    simpa using h
  · rw [dropInput_sock]
    simp [hi]

/-- The first half of the POLLIN handlers of transports. -/
theorem frameRead_of_reads {r : Xmsgstream × Sockstream} (h : Reads (st.frame s) (st.sock s) bs r.1 r.2) :
    FrameRead s st (((st.setFrame s r.1).setSock s r.2).dropInput s) bs := by
  have hq := ((st.setFrame s r.1).setSock s r.2).dropInput_quiet s
  refine ⟨Effect.trans_nil ?_ hq.effect, hq.keeps.next, hq.keeps.ncid,
    fun i => (hq.live i).trans (by simp), hq.connections, fun i => ?_, fun i hi => ?_, hq.keeps.pending, ?_,
    fun i hi => ?_⟩
  · refine (Effect.setFrame st s _).trans_nil (.setSock ?_)
    rw [sock_setFrame]
    exact h.pulled.ran
  · rw [hq.chunk]
    simp
  · rw [hq.frame]
    simp [hi]
  · rw [hq.frame, dropInput_sock]
    simpa using h
  · rw [dropInput_sock]
    simp [hi]

/-! ## The buffers between two calls -/

/-- The frame buffer of a transport: it has not failed, and a frame that is not marked
was read up to its header at most. -/
structure FrameOk (x : Xmsgstream) : Prop where
  fail : x.rdstate.fail = false
  gptr : x.eof = false → x.buf.gptr ≤ HDRLEN

theorem FrameOk.of_marked {x : Xmsgstream} (hf : x.rdstate.fail = false) (he : x.eof = true) : FrameOk x :=
  ⟨hf, fun h => by rw [he] at h; cases h⟩

/-- After a read the buffer is ready for `_route`. -/
theorem FrameRead.frameOk (h : FrameRead s st st' bs) (hf : FrameOk (st.frame s)) :
    FrameOk (st'.frame s) ∧ (st'.frame s).eof = false := by
  have heof : (st'.frame s).eof = false := by rw [Xmsgstream.eof, h.reads.rdstate]
  refine ⟨⟨?_, fun _ => ?_⟩, heof⟩
  · rw [h.reads.rdstate]
    exact hf.fail
  · rw [h.reads.gptr]
    split
    · exact Nat.zero_le _
    · rename_i he
      exact hf.gptr (by simpa using he)

theorem Chunked.chunkOk {buf buf' : Stringstream} {is is' : Sockstream} (h : Chunked buf is bs buf' is')
    (hb : ChunkOk buf) : ChunkOk buf' := by
  by_cases hp : buf.pending = []
  · exact fun _ => (h.fresh hp).2
  · rw [(h.held hp).2.1]
    exact hb

/-! ## Dialing -/

/-- Streams that can be looked up have an id that was given out. -/
def IdsUsed (st : Connector) : Prop := ∀ i, st.live i → i < st.next

theorem IdsUsed.of_live (h : IdsUsed st) (hn : st'.next = st.next)
    (hl : ∀ i, st'.live i → st.live i) : IdsUsed st' := fun i hi => by
  rw [hn]
  exact h i (hl i hi)

theorem IdsUsed.of_keeps (h : IdsUsed st) (hk : Keeps st st') : IdsUsed st' :=
  h.of_live hk.next fun i hi => by rwa [hk.live] at hi

theorem IdsUsed.of_same (h : IdsUsed st) (hs : Same st st') : IdsUsed st' :=
  h.of_live hs.next fun i hi => by rwa [hs.live] at hi

theorem Gone.used {i : StreamId} {hit : Connection → Bool} {upd : Connection → Connection} {keep : Connection → Bool}
    {R : Connection → Obs → Prop} {obs : List Obs} (h : Gone i hit upd keep R st st' obs)
    (hu : IdsUsed st) : IdsUsed st' :=
  hu.of_live h.next fun j hj => by
    rw [h.live] at hj
    split at hj
    · cases hj
    · exact hj

/-- A stream may have got its socket, and its failbit may be cleared. -/
inductive Redialed (s : Sockstream) : Sockstream → Prop
  | handle (fd : Int) : Redialed s { s with native_handle := fd }
  | cleared (fd : Int) : Redialed s { s with native_handle := fd }.clear_failbit

namespace Redialed

variable {s s' s'' : Sockstream}

theorem refl (s : Sockstream) : Redialed s s := .handle s.native_handle

theorem trans (h : Redialed s s') (h' : Redialed s' s'') : Redialed s s'' := by
  cases h with
  | handle =>
    cases h' with
    | handle fd => exact .handle fd
    | cleared fd => exact .cleared fd
  | cleared =>
    cases h' with
    | handle fd => exact .cleared fd
    | cleared fd => exact .cleared fd

theorem eof (h : Redialed s s') : s'.eof = s.eof := by cases h <;> rfl
theorem taken (h : Redialed s s') : s'.taken = s.taken := by cases h <;> rfl
theorem parea (h : Redialed s s') : s'.parea = s.parea := by cases h <;> rfl

theorem ran (h : Redialed s s') : Ran s [] s' := by
  cases h with
  | handle => exact .of_same id id rfl rfl rfl rfl rfl rfl
  | cleared => exact .of_same id id rfl rfl rfl rfl rfl rfl

theorem newborn {fd : Int} {rx : List Recv} {tx : List Send} (h : Redialed (newborn fd rx tx) s') :
    ∃ fd, s' = Connector.newborn fd rx tx := by
  cases h with
  | handle fd => exact ⟨fd, rfl⟩
  | cleared fd => exact ⟨fd, rfl⟩

end Redialed

/-- Streams were chosen, made or connected. No byte moved. A transport that is used
again may have its failbit cleared, but a stream of the north not. -/
structure Dialed (st st' : Connector) : Prop where
  effect : Effect st st' []
  connections : st'.connections = st.connections
  chunk : ∀ i, st'.chunk i = st.chunk i
  frame : ∀ i, st'.frame i = st.frame i
  sock : ∀ i, i < st.next → Redialed (st.sock i) (st'.sock i)
  born : ∀ i, st.next ≤ i → i < st'.next → ∃ fd rx tx, st'.sock i = newborn fd rx tx
  stuck : ∀ i, i < st.next → (st.ep i).iface = .north → (st.sock i).good = false →
    (st'.sock i).good = false
  live : ∀ i, st.live i → st'.live i
  used : IdsUsed st → IdsUsed st'

namespace Dialed

variable {st st' st'' : Connector}

variable {i : StreamId}

theorem eof (h : Dialed st st') (hi : i < st.next) : (st'.sock i).eof = (st.sock i).eof := (h.sock i hi).eof

theorem taken (h : Dialed st st') (hi : i < st.next) : (st'.sock i).taken = (st.sock i).taken := (h.sock i hi).taken

theorem trans (h : Dialed st st') (h' : Dialed st' st'') : Dialed st st'' where
  effect := h.effect.trans_nil h'.effect
  connections := h'.connections.trans h.connections
  chunk i := (h'.chunk i).trans (h.chunk i)
  frame i := (h'.frame i).trans (h.frame i)
  sock i hi := (h.sock i hi).trans (h'.sock i (Nat.lt_of_lt_of_le hi h.effect.next))
  born i hi hi' := by
    by_cases hlt : i < st'.next
    · obtain ⟨fd, rx, tx, hs⟩ := h.born i hi hlt
      have hr := h'.sock i hlt
      rw [hs] at hr
      obtain ⟨fd', hs'⟩ := hr.newborn
      exact ⟨fd', rx, tx, hs'⟩
    · exact h'.born i (Nat.le_of_not_lt hlt) hi'
  stuck i hi hn hg := h'.stuck i (Nat.lt_of_lt_of_le hi h.effect.next)
    ((h.effect.iface i hi).trans hn) (h.stuck i hi hn hg)
  live i hi := h'.live i (h.live i hi)
  used hu := h'.used (h.used hu)

/-- One socket is changed, and no byte moved. -/
theorem setSock {s : Sockstream} (hr : Redialed (st.sock i) s)
    (hs : (st.ep i).iface = .north → (st.sock i).good = false → s.good = false) :
    Dialed st (st.setSock i s) where
  effect := .setSock hr.ran
  connections := rfl
  chunk := by simp
  frame := by simp
  born j hj hj' := absurd hj' (Nat.not_lt.mpr hj)
  sock j _ := by
    rw [sock_setSock]
    split
    · rename_i hj
      rw [hj]
      exact hr
    · exact .refl _
  stuck j _ hn hg := by
    rw [sock_setSock]
    split
    · rename_i hj
      exact hs (hj ▸ hn) (hj ▸ hg)
    · exact hg
  live j hj := by simpa using hj
  used hu j hj := hu j (by simpa using hj)

/-- A stream without a socket gets one. -/
theorem handle (st : Connector) (i : StreamId) (fd : Int) :
    Dialed st (st.setSock i { st.sock i with native_handle := fd }) :=
  setSock (.handle fd) fun _ => id

/-- No stream is touched. -/
theorem of_eps (he : st'.eps = st.eps) (hm : st'.mode = st.mode) (hl : st'.log = st.log)
    (hn : st'.next = st.next) (hc : st.ncid ≤ st'.ncid) (hs : st'.connections = st.connections) :
    Dialed st st' where
  effect := .of_eps he hm (by simp [hl]) hn hc fun _ => rfl
  connections := hs
  chunk i := by simp [Connector.chunk, ep, he]
  frame i := by simp [Connector.frame, ep, he]
  sock i _ := by
    rw [show st'.sock i = st.sock i by simp [Connector.sock, ep, he]]
    exact .refl _
  born i hi hi' := absurd hi' (by rw [hn]; exact Nat.not_lt.mpr hi)
  stuck i _ _ hg := by
    rw [show st'.sock i = st.sock i by simp [Connector.sock, ep, he]]
    exact hg
  live i hi := by
    rw [show st'.live i = st.live i by simp [Connector.live, ep, he]]
    exact hi
  used hu i hi := by
    rw [show st'.live i = st.live i by simp [Connector.live, ep, he]] at hi
    rw [hn]
    exact hu i hi

theorem refl (st : Connector) : Dialed st st := of_eps rfl rfl rfl rfl (Nat.le_refl _) rfl

theorem make (st : Connector) (f : Iface) (fd : Int) : Dialed st (st.make f fd) where
  effect := .make st f fd
  connections := rfl
  chunk := by simp
  frame := by simp
  sock i hi := by
    rw [sock_make, if_neg (Nat.ne_of_lt hi)]
    exact .refl _
  born i hi hi' := by
    have : i = st.next := Nat.le_antisymm (Nat.le_of_lt_succ hi') hi
    rw [sock_make, if_pos this]
    exact ⟨_, _, _, rfl⟩
  stuck i hi _ hg := by
    rw [sock_make, if_neg (Nat.ne_of_lt hi)]
    exact hg
  live i hi := by simp [hi]
  used hu i hi := by
    rw [live_make] at hi
    show i < st.next + 1
    split at hi
    · rename_i h
      rw [h]
      exact Nat.lt_succ_self _
    · exact Nat.lt_succ_of_lt (hu i hi)

end Dialed

/-! ## Frames -/

/-- The payload of the frame `f` of `src` was offered to `dst`. It is fed to it, unless
`dst` failed before, or is gone. -/
structure Offered (src dst : StreamId) (cid : Nat) (f : Frame) (st st' : Connector)
    (obs : List Obs) : Prop where
  fed : Feed cid src dst f.payload st st' obs
  effect : Effect st st' obs
  keeps : Keeps st st'
  connections : st'.connections = st.connections
  chunk : ∀ i, st'.chunk i = st.chunk i
  others : ∀ i, i ≠ src → st'.frame i = st.frame i
  contents : (st'.frame src).contents = (st.frame src).contents
  fail : (st'.frame src).rdstate.fail = false

namespace Offered

variable {src dst : StreamId} {cid : Nat} {f : Frame} {st st1 st2 : Connector} {obs : List Obs}

theorem of_quiet (hf : (st.frame src).rdstate.fail = false) (hq : Quiet st st1)
    (hd : f.payload = [] ∨ (st1.sock dst).good = false ∨ st1.live dst = false) : Offered src dst cid f st st1 [] :=
  ⟨.none hd, hq.effect, hq.keeps, hq.connections, hq.chunk, fun i _ => hq.frame i,
    by rw [hq.frame], by rw [hq.frame]; exact hf⟩

/-- Quiet steps may come before. -/
theorem after (hq : Quiet st st1) (h : Offered src dst cid f st1 st2 obs) :
    Offered src dst cid f st st2 obs :=
  ⟨h.fed.widen (hq.keeps.kept dst).stuck id rfl, hq.effect.trans_nil h.effect, hq.keeps.trans h.keeps, h.connections.trans hq.connections,
    fun i => (h.chunk i).trans (hq.chunk i), fun i hi => (h.others i hi).trans (hq.frame i),
    by rw [h.contents, hq.frame], h.fail⟩

/-- The get position of the frame may be moved before. -/
theorem seek {x : Xmsgstream} (hx : x.contents = (st.frame src).contents)
    (h : Offered src dst cid f (st.setFrame src x) st2 obs) : Offered src dst cid f st st2 obs :=
  ⟨h.fed.widen (by simp) id rfl, (Effect.setFrame st src x).trans_nil h.effect, (Keeps.setFrame st src x).trans h.keeps,
    h.connections, fun i => (h.chunk i).trans (by simp), fun i hi => (h.others i hi).trans (by simp [hi]),
    by rw [h.contents, frame_setFrame, if_pos rfl, hx], h.fail⟩

/-- What `stream_write` does with a frame whose header was read. -/
theorem of_write (hr : (st.frame src).Ready) (hp : f.payload ≠ [])
    (hd : (st.frame src).contents.drop (st.frame src).tellg = f.payload) :
    Offered src dst cid f st
      (((st.setSock dst (stream_write ((st.frame src).tellp + 1) (st.sock dst) (st.frame src)).1).setFrame
        src (stream_write ((st.frame src).tellp + 1) (st.sock dst) (st.frame src)).2).note
        (.fed cid src dst ((st.frame src).contents.drop (st.frame src).tellg) (st.sock dst).good))
      [.fed cid src dst f.payload (st.sock dst).good] := by
  obtain ⟨w1, w2, w3, -⟩ := stream_write_spec ((st.frame src).tellp + 1) (st.sock dst) (st.frame src) hr
    (by simp only [Xmsgstream.tellp]; omega)
  rw [hd]
  generalize stream_write ((st.frame src).tellp + 1) (st.sock dst) (st.frame src) = r at *
  have hgood : (st.sock dst).good = false → r.1.good = false := w1.kept.stuck
  refine ⟨.fed _ hp id (by simpa using hgood), ?_,
    (Keeps.setSock w1.kept).trans ((Keeps.setFrame _ src _).trans (.note _ _)), rfl, by simp,
    fun i hi => by simp [hi], by simpa using w2, by simpa using w3⟩
  refine .of_socks rfl rfl rfl rfl (by simp) (by simp) fun i => ?_
  rw [outBytes_singleton, sock_note, sock_setFrame, sock_setSock]
  split
  · rename_i hi
    have hran := w1.ran
    rw [show (st.frame src).contents.drop (st.frame src).buf.gptr = f.payload from hd] at hran
    rw [hi]
    rwa [show accepted (st.sock dst) f.payload =
      Obs.bytes dst (.fed cid src dst f.payload (st.sock dst).good) by simp [accepted, Obs.bytes]] at hran
  · rename_i hi
    rw [show Obs.bytes i (.fed cid src dst f.payload (st.sock dst).good) = [] by
      simp [Obs.bytes, Ne.symm hi]]
    exact Ran.refl _

end Offered

/-- There is no room for the payload: the frame stays as it is. -/
structure Deferred (s : StreamId) (st st' : Connector) : Prop where
  effect : Effect st st' []
  keeps : Keeps st st'
  connections : st'.connections = st.connections
  chunk : ∀ i, st'.chunk i = st.chunk i
  others : ∀ i, i ≠ s → st'.frame i = st.frame i
  contents : (st'.frame s).contents = (st.frame s).contents
  frame : FrameOk (st'.frame s) ∧ (st'.frame s).eof = false

theorem Deferred.after {s : StreamId} {st st1 st2 : Connector} (hq : Quiet st st1)
    (h : Deferred s st1 st2) : Deferred s st st2 :=
  ⟨hq.effect.trans_nil h.effect, hq.keeps.trans h.keeps, h.connections.trans hq.connections,
    fun i => (h.chunk i).trans (hq.chunk i), fun i hi => (h.others i hi).trans (hq.frame i),
    by rw [h.contents, hq.frame], h.frame⟩

/-- The frame in the buffer, with its get position after the header. -/
theorem seekg_header {f : Frame} (hf : frameOf (st.frame s) = some f) (hfail : (st.frame s).rdstate.fail = false) :
    ((st.frame s).seekg HDRLEN).contents = (st.frame s).contents ∧
      ((st.frame s).seekg HDRLEN).tellg = HDRLEN ∧
      ((st.frame s).seekg HDRLEN).contents.drop HDRLEN = f.payload ∧
      ((st.frame s).seekg HDRLEN).rdstate = { (st.frame s).rdstate with eofbit := false } ∧
      ((st.frame s).seekg HDRLEN).Ready := by
  obtain ⟨hpay, -, -, htell, -, hend⟩ := frameOf_some hf
  obtain ⟨g1, g2, g3, g4⟩ := (st.frame s).seekg_spec HDRLEN hfail (by rw [htell]; exact Nat.le_add_right _ _)
  exact ⟨g1, g2, by rw [g1, hpay], g3, g4 hend⟩

/-- The payload found no room. -/
theorem Deferred.of_seek {f : Frame} (hf : frameOf (st.frame s) = some f) (hfail : (st.frame s).rdstate.fail = false)
    (hq : Quiet (st.setFrame s ((st.frame s).seekg HDRLEN)) st1) : Deferred s st st1 := by
  obtain ⟨g1, g2, -, g3, -⟩ := seekg_header hf hfail
  have hfs : st1.frame s = (st.frame s).seekg HDRLEN := by rw [hq.frame, frame_setFrame, if_pos rfl]
  refine ⟨(Effect.setFrame st s _).trans_nil hq.effect, (Keeps.setFrame st s _).trans hq.keeps,
    hq.connections, fun i => ?_, fun i hi => ?_, ?_, ⟨⟨?_, fun _ => ?_⟩, ?_⟩⟩
  · rw [hq.chunk, chunk_setFrame]
  · rw [hq.frame, frame_setFrame, if_neg hi]
  · rw [hfs, g1]
  · rw [hfs, g3]
    exact hfail
  · rw [hfs]
    exact Nat.le_of_eq g2
  · rw [hfs, Xmsgstream.eof, g3]

/-- The frame was taken and nobody got it. -/
structure Dropped (s : StreamId) (st st' : Connector) (obs : List Obs) : Prop where
  effect : Effect st st' obs
  keeps : Keeps st st'
  connections : st'.connections = st.connections
  chunk : ∀ i, st'.chunk i = st.chunk i
  others : ∀ i, i ≠ s → st'.frame i = st.frame i
  contents : (st'.frame s).contents = (st.frame s).contents
  frame : (st'.frame s).rdstate.fail = (st.frame s).rdstate.fail ∧ (st'.frame s).eof = true

theorem mark_dropped (s : StreamId) (st : Connector) : Dropped s st (st.mark s) [] :=
  ⟨.setFrame st s _, .setFrame st s _, rfl, by simp [mark], fun i hi => by simp [mark, hi],
    by simp only [mark, frame_setFrame, if_pos]; rfl,
    by simp only [mark, frame_setFrame, if_pos]; exact ⟨rfl, rfl⟩⟩

theorem Dropped.logs {st2 : Connector} {a b : List Obs} (h : Dropped s st st1 a) (hl : Logs st1 st2 b)
    (hc : st2.connections = st1.connections) : Dropped s st st2 (a ++ b) :=
  ⟨h.effect.trans hl.effect, h.keeps.trans hl.keeps, hc.trans h.connections,
    fun i => (hl.chunk i).trans (h.chunk i), fun i hi => (hl.frame i).trans (h.others i hi),
    by rw [hl.frame]; exact h.contents, by rw [hl.frame]; exact h.frame⟩

/-- The entries of the log for a frame that no connection takes. -/
def refusal (s : StreamId) (f : Frame) (st : Connector) (obs : List Obs) : Prop :=
  if !(st.sock s).eof && !f.type.has ABORT then
    ∃ ok, obs = [.got none s f.eid f.type f.payload, .sent none s f.eid abortType [] ok]
  else obs = [.got none s f.eid f.type f.payload]

/-- A frame that is marked and logged. -/
theorem got_dropped (s : StreamId) (f : Frame) (st : Connector) :
    Dropped s st ((st.mark s).note (.got none s f.eid f.type f.payload))
        [.got none s f.eid f.type f.payload] ∧
      ((st.mark s).note (.got none s f.eid f.type f.payload)).sock s = st.sock s :=
  ⟨(mark_dropped s st).logs (.note _ fun _ => rfl) rfl, by simp [mark]⟩

/-- ABORT is the answer to it. -/
theorem Dropped.answer {obs : List Obs} (h : Dropped s st st1 obs) (eid : Uuid) :
    Dropped s st ((st1.writeHeader none s eid abortType).setTrigger s Mask.POLLOUT)
      (obs ++ [.sent none s eid abortType [] (st1.sock s).good]) :=
  h.logs ((st1.writeHeader_logs s none eid abortType).nil_trans (setTrigger_quiet _ s _).logs) rfl

end cloudbus
