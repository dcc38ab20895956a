-- The first chunk of a client: the pass that reads it opens a session and sends
-- it, or leaves it in the buffer of the client while the session waits for room.
-- When the end of the file comes with it, no session is opened and it is lost.
import Cloudbus.Orphans

namespace cloudbus

open cloudbus.io cloudbus.messages Connector

/-! ## Streams that a session can use -/

/-- A stream that takes all that is written, once its failbit is cleared as it is for one with a socket. -/
structure io.Sockstream.Usable (s : Sockstream) : Prop where
  eof : s.eof = false
  bad : s.bad = false
  fail : s.rdstate.failbit → s.native_handle ≠ BAD_SOCKET
  healthy : s.Healthy

theorem io.Sockstream.Usable.newborn {fd : Int} {rx : List Recv} {tx : List Send} (h : ∀ a ∈ tx, a.isError = false) :
    (Connector.newborn fd rx tx).Usable := ⟨rfl, rfl, nofun, h⟩

theorem io.Sockstream.good_iff (s : Sockstream) :
    s.good = true ↔ s.eof = false ∧ s.rdstate.failbit = false ∧ s.bad = false := by
  unfold good Iostate.good eof bad
  cases s.rdstate.eofbit <;> cases s.rdstate.failbit <;> cases s.rdstate.badbit <;> simp

variable {s : Sockstream}

theorem io.Sockstream.Sure.usable (h : s.Sure) : s.Usable := by
  obtain ⟨heof, hfail, hbad⟩ := s.good_iff.mp h.1
  exact ⟨heof, hbad, fun hf => absurd hf (by rw [hfail]; decide), h.2⟩

theorem io.Sockstream.Usable.cleared (h : s.Usable) : s.clear_failbit.Sure :=
  ⟨(good_iff _).mpr ⟨h.eof, rfl, h.bad⟩, h.healthy⟩

theorem io.Sockstream.Usable.dialed (h : s.Usable) (hs : s.native_handle = BAD_SOCKET) : s.Sure := by
  refine ⟨s.good_iff.mpr ⟨h.eof, ?_, h.bad⟩, h.healthy⟩
  cases hf : s.rdstate.failbit with
  | false => rfl
  | true => exact absurd hs (h.fail hf)

theorem Redialed.sure {s' : Sockstream} (h : Redialed s s') (hs : s.Sure) : s'.Sure := by
  cases h with
  | handle fd => exact hs
  | cleared fd => exact ⟨hs.usable.cleared.1, hs.2⟩

namespace controller

/-! ## A pass without a session -/

section

variable {n : StreamId} {st : Connector}

theorem unconnected (hfree : connected n st = false) : ∀ c ∈ st.connections, ¬ (c.north = n ∧ st.live c.south) := by
  intro c hc ⟨hn, hl⟩
  have := List.any_eq_false.mp hfree c hc
  simp [hn, hl] at this

theorem write_prepare_unconnected (p : Nat) (cs : List Connection) (hfree : ∀ c ∈ cs, ¬ (c.north = n ∧ st.live c.south)) :
    write_prepare n p cs st = (st, false) := by
  induction cs with
  | nil => rfl
  | cons c cs ih =>
    unfold write_prepare
    rw [if_neg (hfree c List.mem_cons_self)]
    exact ih fun d hd => hfree d (List.mem_cons_of_mem c hd)

theorem sendAll_unconnected (type : Msgtype) (hfree : connected n st = false) : sendAll n type st = st := by
  have hsend : ∀ k, send n type st k = st := by
    intro k
    unfold send
    cases hk : st.connections[k]? with
    | none => rfl
    | some c => exact if_neg fun h => unconnected hfree c (List.mem_of_getElem? hk) ⟨h.1, h.2.1⟩
  unfold sendAll
  induction List.range st.connections.length with
  | nil => rfl
  | cons k ks ih => rw [List.foldl_cons, hsend, ih]

/-- A chunk without the end of the file and without a session goes to `_north_connect`. -/
theorem route_north_unconnected (o : Oracle) (hfree : connected n st = false) (heof : (st.sock n).eof = false)
    (hp : 0 < (st.chunk n).tellp) :
    route_north o n st =
      if (north_connect o n st).2 < 0 then ((north_connect o n st).1, true)
      else if (north_connect o n st).2 = 0 then ((north_connect o n st).1.deferInput n, false)
      else (finishNorth n (north_connect o n st).1, false) := by
  unfold route_north
  simp only [heof, Bool.false_or, decide_eq_true_eq, gt_iff_lt, if_pos hp,
    write_prepare_unconnected _ _ (unconnected hfree), sendAll_unconnected _ hfree, hfree, Bool.not_false, Bool.and_self,
    if_true]

end

/-! ## The transports of a new session -/

/-- Streams to the backends can be used, and no answer of the kernel to come is an error. -/
structure Serviceable (st : Connector) : Prop where
  streams : ∀ s, st.live s → (st.ep s).iface ≠ .north → (st.sock s).Usable
  kernel : ∀ s, (st.sock s).Healthy

section

variable {st : Connector}

theorem connectLoop_length (n : StreamId) (b : Nat) (ps : List Pick) (eid : Uuid) (st : Connector) :
    (connectLoop n b ps eid st).2.length = ps.length := by
  induction ps generalizing b eid st with
  | nil => rfl
  | cons p ps ih => exact congrArg Nat.succ (ih _ _ _)

theorem Serviceable.make (h : Serviceable st) (b : Nat) : Serviceable (st.make (.south b) BAD_SOCKET) := by
  constructor
  · intro s hl hif
    rw [sock_make]
    split
    · exact .newborn (h.kernel s)
    · rename_i hne
      rw [live_make, if_neg hne] at hl
      rw [iface_make, if_neg hne] at hif
      exact h.streams s hl hif
  · intro s
    rw [sock_make]
    split
    · exact h.kernel s
    · exact h.kernel s

theorem Serviceable.select_stream (h : Serviceable st) (b : Nat) (p : Pick) :
    Serviceable (select_stream b p st).1 := by
  unfold controller.select_stream
  split
  · split
    · exact h
    · exact h.make b
  · exact h.make b

theorem Serviceable.setSock (h : Serviceable st) (s : StreamId) {x : Sockstream} (hx : x.Usable) :
    Serviceable (st.setSock s x) := by
  constructor
  · intro i hl hif
    rw [sock_setSock]
    split
    · exact hx
    · rw [live_setSock] at hl
      rw [iface_setSock] at hif
      exact h.streams i hl hif
  · intro i
    rw [sock_setSock]
    split
    · exact hx.healthy
    · exact h.kernel i

/-- The stream of a session is prepared: it takes all that is written then. -/
theorem Serviceable.prepareStream (h : Serviceable st) (n : StreamId) {s : StreamId} (fd : Option Int)
    (hl : st.live s) (hif : (st.ep s).iface ≠ .north) :
    Serviceable (prepareStream n s fd st) ∧ ((prepareStream n s fd st).sock s).Sure := by
  have husable := h.streams s hl hif
  unfold controller.prepareStream
  split
  · have hsure : (st.sock s).clear_failbit.Sure := husable.cleared
    have htrigger : Serviceable (st.setTrigger s (Mask.POLLIN.union Mask.POLLOUT)) := ⟨h.streams, h.kernel⟩
    refine ⟨htrigger.setSock s hsure.usable, ?_⟩
    rw [sock_setSock, if_pos rfl]
    exact hsure
  · rename_i hsock
    have hsure := husable.dialed (not_not.mp hsock)
    cases fd with
    | none => exact ⟨⟨h.streams, h.kernel⟩, hsure⟩
    | some fd =>
      have hnew : ({ st.sock s with native_handle := fd } : Sockstream).Sure := hsure
      have hset := h.setSock s hnew.usable
      refine ⟨⟨hset.streams, hset.kernel⟩, ?_⟩
      show ((st.setSock s { st.sock s with native_handle := fd }).sock s).Sure
      rw [sock_setSock, if_pos rfl]
      exact hnew

variable {n i : StreamId} {a b : Connector}

/-- Every stream that was selected for a session takes all that is written. -/
theorem connectLoop_sure (b : Nat) (ps : List Pick) (eid : Uuid) {st : Connector} (h : Serviceable st) (hu : IdsUsed st)
    (hn : n < st.next) :
    Serviceable (connectLoop n b ps eid st).1 ∧
      ∀ c ∈ (connectLoop n b ps eid st).2, ((connectLoop n b ps eid st).1.sock c.south).Sure := by
  induction ps generalizing b eid st with
  | nil => exact ⟨h, by simp [connectLoop]⟩
  | cons p ps ih =>
    obtain ⟨hd1, hlive, hiface, -⟩ := select_stream_spec b p st
    have h1 := h.select_stream b p
    unfold connectLoop
    generalize select_stream b p st = r at *
    obtain ⟨st1, s⟩ := r
    dsimp only at *
    have hsouth : (st1.ep s).iface ≠ .north := by simp [hiface]
    obtain ⟨hd2, -⟩ := prepareStream_spec n s p.fd st1 hsouth
    obtain ⟨h2, hsure⟩ := h1.prepareStream n p.fd hlive hsouth
    generalize prepareStream n s p.fd st1 = st2 at *
    have hd := hd1.trans hd2
    have hused := hd.used hu
    have hn2 : n < st2.next := Nat.lt_of_lt_of_le hn hd.effect.next
    have hs2 : s < st2.next := hused s (hd2.live s hlive)
    have hrest := @ih (b + 1) (bumpEid st2.mode eid) { st2 with ncid := st2.ncid + 1 } ⟨h2.streams, h2.kernel⟩ hused hn2
    have hdial := @connectLoop_spec n (b + 1) ps (bumpEid st2.mode eid) { st2 with ncid := st2.ncid + 1 } hused hn2
    generalize connectLoop n (b + 1) ps (bumpEid st2.mode eid) { st2 with ncid := st2.ncid + 1 } = r at *
    obtain ⟨st3, cs⟩ := r
    refine ⟨hrest.1, List.forall_mem_cons.mpr ⟨?_, hrest.2⟩⟩
    exact (hdial.dialed.sock s hs2).sure hsure

theorem flushSock_sure (s : StreamId) (h : (st.sock i).Sure) : ((st.flushSock s).sock i).Sure := by
  unfold flushSock
  rw [sock_setSock]
  split
  · rename_i hi
    rw [← hi]
    exact (h.of_pushed (st.sock i).flush_pushed).1
  · exact h

theorem write_prepare_sure (n : StreamId) (p : Nat) (cs : List Connection) (st : Connector)
    (h : (st.sock i).Sure) : ((write_prepare n p cs st).1.sock i).Sure := by
  induction cs generalizing st with
  | nil => exact h
  | cons c cs ih =>
    unfold write_prepare
    split
    · dsimp only
      split
      · exact ih st h
      · have hflush : ((if (MAX_BUFSIZE : Int) - (p + HDRLEN : Nat) ≤ (st.sock c.south).tellp then
            st.flushSock c.south else st).sock i).Sure := by
          split
          · exact flushSock_sure c.south h
          · exact h
        generalize (if (MAX_BUFSIZE : Int) - (p + HDRLEN : Nat) ≤ (st.sock c.south).tellp then
            st.flushSock c.south else st) = st1 at hflush ⊢
        split
        · exact ih st1 hflush
        · split
          · exact hflush
          · exact ih st1 hflush
    · exact ih st h

/-- Streams that take all get the frames of their connections, in the order of the connections. -/
theorem sendInit_written (n : StreamId) (type : Msgtype) (cs : List Connection) (st : Connector)
    (hl : ∀ c ∈ cs, st.live c.south) (hs : (st.sock i).Sure) :
    ((cs.foldl (sendInit n type) st).sock i).written =
      (st.sock i).written ++ (cs.filter fun c => c.south == i).flatMap (frameBytes type (st.chunk n).chunk) := by
  induction cs generalizing st with
  | nil => simp
  | cons c cs ih =>
    have hw := writeChunk_spec n type st c
    obtain ⟨hpushed, hothers⟩ := writeChunk_sock n type st c
    have hchunk := Stringstream.chunk_congr (hw.chunk n).1 (hw.chunk n).2
    have hlive : ∀ d ∈ cs, (writeChunk n type st c).live d.south := by
      intro d hd
      rw [hw.keeps.live]
      exact hl d (List.mem_cons_of_mem c hd)
    rw [List.foldl_cons, sendInit, if_pos (hl c List.mem_cons_self)]
    by_cases hi : c.south = i
    · subst hi
      obtain ⟨hsure, hwritten⟩ := hs.of_pushed hpushed
      rw [ih _ hlive hsure, hwritten, hchunk, List.filter_cons_of_pos (by simp), List.flatMap_cons, List.append_assoc]
    · have hsock := hothers i fun h => hi h.symm
      rw [ih _ hlive (by rw [hsock]; exact hs), hsock, hchunk, List.filter_cons_of_neg (by simpa using hi)]

/-- A session was opened for the client: each backend has a connection on a transport of its own, and
all are half open. -/
structure Begun (o : Oracle) (n : StreamId) (st st' : Connector) (cs : List Connection) : Prop where
  count : cs.length = o.picks.length
  connections : st'.connections = st.connections ++ cs
  backends : cs.map (fun c => (st'.ep c.south).iface) = (List.range cs.length).map Iface.south
  fresh : ∀ c ∈ cs, c.north = n ∧ c.state = .HALF_OPEN ∧ st'.live c.south
  used : ∀ c ∈ cs, c.south < st'.next

/-- The frame with the chunk is the last thing on the transport of each connection. -/
def Framed (type : Msgtype) (payload : List UInt8) (cs : List Connection) (st : Connector) : Prop :=
  ∀ c ∈ cs, ∃ before, (st.sock c.south).written = before ++ frameBytes type payload c

/-- The connections of one session have transports of their own. -/
theorem filter_south {cs : List Connection} (hnodup : (cs.map (·.south)).Nodup) {c : Connection} (hc : c ∈ cs) :
    (cs.filter fun d => d.south == c.south) = [c] := by
  induction cs with
  | nil => cases hc
  | cons d cs ih =>
    obtain ⟨hd, hcs⟩ := List.nodup_cons.mp hnodup
    rcases List.mem_cons.mp hc with rfl | hmem
    · rw [List.filter_cons_of_pos (by simp)]
      refine congrArg (c :: ·) (List.filter_eq_nil_iff.mpr fun e he => ?_)
      rw [beq_iff_eq]
      intro heq
      exact hd (List.mem_map.mpr ⟨e, he, heq⟩)
    · have hne : d.south ≠ c.south := fun heq => hd (List.mem_map.mpr ⟨c, hmem, heq.symm⟩)
      rw [List.filter_cons_of_neg (by simpa using hne), ih hcs hmem]

/-- `_north_connect`, when it has a uuid and usable streams: the frames with INIT are sent, or the chunk
stays. -/
theorem north_connect_begun {o : Oracle} {st : Connector} (heid : o.eid ≠ Uuid.nil) (hs : Serviceable st)
    (hu : IdsUsed st) (hn : n < st.next) (heof : (st.sock n).eof = false) :
    ∃ cs, Begun o n st (north_connect o n st).1 cs ∧
      ((north_connect o n st).2 = 0 ∧ (north_connect o n st).1.chunk n = st.chunk n ∨
        0 < (north_connect o n st).2 ∧ Framed ⟨DATA, INIT⟩ (st.chunk n).chunk cs (north_connect o n st).1) := by
  have hd := connectLoop_spec 0 o.picks o.eid hu hn
  have hlen := connectLoop_length n 0 o.picks o.eid st
  have hsure := (connectLoop_sure 0 o.picks o.eid hs hu hn).2
  unfold north_connect
  rw [if_neg heid]
  generalize connectLoop n 0 o.picks o.eid st = r at hd hlen hsure
  obtain ⟨st1, cs⟩ := r
  dsimp only at *
  have hq := write_prepare_quiet n (st1.chunk n).tellp cs st1
  have hsure2 : ∀ c ∈ cs, ((write_prepare n (st1.chunk n).tellp cs st1).1.sock c.south).Sure :=
    fun c hc => write_prepare_sure n _ cs st1 (hsure c hc)
  generalize write_prepare n (st1.chunk n).tellp cs st1 = w at hq hsure2
  obtain ⟨st2, full⟩ := w
  have hsouths : (cs.map (·.south)).Nodup := by
    have hmap : ((cs.map (·.south)).map fun s => (st1.ep s).iface).Nodup := by
      rw [List.map_map]
      show (cs.map fun c => (st1.ep c.south).iface).Nodup
      rw [hd.ifaces]
      have hrange : (List.range' 0 cs.length).Nodup := List.nodup_range'
      exact hrange.map fun a b h => Iface.south.inj h
    exact hmap.of_map
  -- what comes after the dialing leaves the interfaces and the liveness of the streams alone
  have hbegun : ∀ st3 obs, Effect st2 st3 obs → Keeps st2 st3 → st3.connections = st2.connections →
      Begun o n st (insert st3 cs) cs := by
    intro st3 obs heffect hkeeps hconn
    have heff := hq.effect.trans heffect
    refine ⟨hlen, ?_, ?_, fun c hc => ⟨hd.north c hc, ?_, ?_⟩, fun c hc => ?_⟩
    · show st3.connections ++ cs = _
      rw [hconn, hq.connections, hd.dialed.connections]
    · rw [List.range_eq_range', ← hd.ifaces]
      exact List.map_congr_left fun c hc => heff.iface c.south (hd.souths c hc)
    · rw [hd.state c hc, heof]
      rfl
    · show st3.live c.south
      rw [hkeeps.live, hq.live]
      exact hd.live c hc
    · exact Nat.lt_of_lt_of_le (hd.souths c hc) heff.next
  refine ⟨cs, ?_⟩
  cases full with
  | true =>
    exact ⟨hbegun st2 [] (.refl st2) (.refl st2) rfl, .inl ⟨rfl, (hq.chunk n).trans (hd.dialed.chunk n)⟩⟩
  | false =>
    have hnot : (st1.sock n).eof = false := (hd.dialed.eof hn).trans heof
    have hlive : ∀ c ∈ cs, st2.live c.south := fun c hc => by
      rw [hq.live]
      exact hd.live c hc
    have hchunk : st2.chunk n = st.chunk n := (hq.chunk n).trans (hd.dialed.chunk n)
    obtain ⟨⟨obs, hcopied⟩, hsame⟩ := sendInit_spec n ⟨DATA, INIT⟩ cs st2 hlive
    have hwritten : ∀ c ∈ cs, ((cs.foldl (sendInit n ⟨DATA, INIT⟩) st2).sock c.south).written =
        (st2.sock c.south).written ++ frameBytes ⟨DATA, INIT⟩ (st.chunk n).chunk c := by
      intro c hc
      rw [sendInit_written n _ cs st2 hlive (hsure2 c hc), filter_south hsouths hc, hchunk, List.flatMap_singleton]
    simp only [hnot, Bool.false_eq_true, if_false]
    refine ⟨hbegun _ obs hcopied.effect hcopied.keeps hsame, .inr ⟨?_, fun c hc => ⟨_, hwritten c hc⟩⟩⟩
    simp only [HDRLEN]
    omega

theorem Begun.of_quiet {o : Oracle} {a' b' : Connector} {cs : List Connection} (h : Begun o n a b cs)
    (ha : a.connections = a'.connections) (hq : Quiet b b') : Begun o n a' b' cs := by
  refine ⟨h.count, (hq.connections.trans h.connections).trans (ha ▸ rfl), ?_, fun c hc => ?_, fun c hc => ?_⟩
  · rw [← h.backends]
    exact List.map_congr_left fun c hc => hq.effect.iface c.south (h.used c hc)
  · rw [hq.live]
    exact h.fresh c hc
  · exact Nat.lt_of_lt_of_le (h.used c hc) hq.effect.next

/-- What a read leaves in the buffer of a client is still to be forwarded. -/
theorem pending_of_read {bs : List UInt8} (h : ChunkRead n a b bs) : (b.chunk n).pending = (b.chunk n).chunk := by
  by_cases hp : (a.chunk n).pending = []
  · exact Stringstream.pending_of_gpos_zero _ (h.chunked.fresh hp).2
  · obtain ⟨-, heq, -⟩ := h.chunked.held hp
    rw [heq]
    unfold Stringstream.pending at hp ⊢
    split
    · rename_i hpos
      exact absurd (if_pos hpos) hp
    · rfl

/-- Reading a client leaves the transports alone. -/
theorem Serviceable.of_read {bs : List UInt8} (h : Serviceable a) (hu : IdsUsed a) (hl : a.live n)
    (hif : (a.ep n).iface = .north) (hr : ChunkRead n a b bs) : Serviceable b := by
  constructor
  · intro i hi hsouth
    rw [hr.live] at hi
    rw [hr.effect.iface i (hu i hi)] at hsouth
    have hne : i ≠ n := by
      rintro rfl
      exact hsouth hif
    rw [hr.socks i hne]
    exact h.streams i hi hsouth
  · intro i
    by_cases hi : i = n
    · subst hi
      exact (hr.effect.ran i (hu i hl)).healthy (h.kernel i)
    · rw [hr.socks i hi]
      exact h.kernel i

/-! ## The first chunk -/

/-- A controller that has a backend and a uuid for a session, and no failed stream. -/
structure Healthy (o : Oracle) (st : Connector) : Prop where
  eid : o.eid ≠ Uuid.nil
  backends : o.picks ≠ []
  serviceable : Serviceable st

/-- A chunk of a client without a session, which is read without the end of the file, opens one: it goes to
every backend in a frame with INIT, or stays in the buffer while the session waits for room. -/
theorem the_first_chunk_is_not_lost {st : Connector} (hr : Run (fun _ _ => True) st) (ev : Event) (n : StreamId)
    (o : Oracle) (s : Connector) (hmem : (Call.inn n o, s) ∈ calls ev st) (hl : s.live n)
    (hif : (s.ep n).iface = .north) (hfree : connected n s = false) (hh : Healthy o s)
    (hchunk : ((readClient n s).chunk n).chunk ≠ []) (heof : ((readClient n s).sock n).eof = false) :
    ∃ cs, cs ≠ [] ∧ Begun o n s (call (.inn n o) s) cs ∧
      (((call (.inn n o) s).chunk n).pending = ((readClient n s).chunk n).chunk ∨
        Framed ⟨DATA, INIT⟩ ((readClient n s).chunk n).chunk cs (call (.inn n o) s)) := by
  have hkept := base_preserved fun _ _ => True
  have hbase : Base s := (hkept.called hkept hr.sound.toBase hr.sound.toBase (fun _ _ => trivial) hmem).1
  obtain ⟨bs, hread⟩ := readClient_spec n s (hbase.chunk n)
  have hrchunk : ((readClient n s).dropInput n).chunk n = (readClient n s).chunk n :=
    ((readClient n s).dropInput_quiet n).chunk n
  have hrsock : ((readClient n s).dropInput n).sock n = (readClient n s).sock n :=
    dropInput_sock _ n n
  have hin : call (.inn n o) s = callIn n o s := if_pos hl
  have hcall := hin.trans (callIn_north o hif)
  rw [← hrchunk] at hchunk ⊢
  rw [← hrsock] at heof
  generalize (readClient n s).dropInput n = r at *
  have hused : IdsUsed r := fun i hi => by
    rw [hread.next]
    exact hbase.used i (by rw [← hread.live]; exact hi)
  have hn : n < r.next := hused n (by rw [hread.live]; exact hl)
  have hrfree : connected n r = false := by
    rw [connected_congr hread.live (by rw [hread.connections])]
    exact hfree
  have hpos : 0 < (r.chunk n).tellp := by
    show 0 < (r.chunk n).ppos
    rw [← Stringstream.chunk_length]
    exact List.length_pos_iff.mpr hchunk
  obtain ⟨cs, hbegun, hout⟩ := north_connect_begun hh.eid (hh.serviceable.of_read hbase.used hl hif hread) hused hn heof
  rw [route_north_unconnected o hrfree heof hpos] at hcall
  have hcs : cs ≠ [] := by
    rw [← List.length_pos_iff, hbegun.count]
    exact List.length_pos_iff.mpr hh.backends
  refine ⟨cs, hcs, ?_⟩
  rcases hout with ⟨hzero, hkeep⟩ | ⟨hpositive, hcarried⟩
  · rw [if_neg (by omega), if_pos hzero] at hcall
    have hq := (north_connect o n r).1.deferInput_quiet n
    have heq : call (.inn n o) s = (north_connect o n r).1.deferInput n := hcall
    rw [heq]
    refine ⟨hbegun.of_quiet hread.connections hq, .inl ?_⟩
    rw [hq.chunk, hkeep]
    exact pending_of_read hread
  · rw [if_neg (by omega), if_neg (by omega)] at hcall
    have hq := finishNorth_quiet n (north_connect o n r).1
    have heq : call (.inn n o) s = finishNorth n (north_connect o n r).1 := hcall
    rw [heq]
    refine ⟨hbegun.of_quiet hread.connections hq, .inr fun c hc => ?_⟩
    obtain ⟨before, hwritten⟩ := hcarried c hc
    refine ⟨before, ?_⟩
    rw [(hq.effect.ran c.south (hbegun.used c hc)).written_nil, hwritten]

end

/-- A client was accepted, and the kernel has these answers for it. -/
def clientSends (rx : List Recv) : List Event := .env (.accept 10) :: rx.map fun r => .env (.rx 0 r)

/-- A uuid, and one backend, to which a stream is made. -/
def oneBackend : Oracle := ⟨.ofNode 1, [.make (some 20)]⟩

/-- The state in which the first byte of a client is read. -/
def greeted : Connector := (play (clientSends [.data 1 []]) {}).enter 0 Mask.POLLIN

theorem greeted_healthy : Healthy oneBackend greeted := by
  have hnone : ∀ i, greeted.ep (i + 1) = {} := fun i => rfl
  refine ⟨by decide, by decide, fun i hl hif => ?_, fun i => ?_⟩
  · cases i with
    | zero => exact absurd rfl hif
    | succ i =>
      rw [live, hnone] at hl
      cases hl
  · cases i with
    | zero => exact (by decide : ∀ a ∈ (greeted.sock 0).tx, a.isError = false)
    | succ i =>
      rw [sock, hnone]
      exact fun _ h => absurd h List.not_mem_nil

theorem the_first_byte_opens_a_session :
    ∃ cs, cs ≠ [] ∧ Begun oneBackend 0 greeted (call (.inn 0 oneBackend) greeted) cs ∧
      (((call (.inn 0 oneBackend) greeted).chunk 0).pending = ((readClient 0 greeted).chunk 0).chunk ∨
        Framed ⟨DATA, INIT⟩ ((readClient 0 greeted).chunk 0).chunk cs (call (.inn 0 oneBackend) greeted)) := by
  refine the_first_chunk_is_not_lost (Run.of_events (clientSends [.data 1 []]) .HALF_DUPLEX)
    (.poll 0 Mask.POLLIN oneBackend) 0 oneBackend greeted ?_ ?_ ?_ ?_ greeted_healthy ?_ ?_
  all_goals decide +kernel

/-- The chunk comes with the end of the file: no session is opened for it, and at the next POLLOUT the client
is erased. -/
theorem a_chunk_with_the_end_is_lost :
    let st := play (clientSends [.data 1 [], .eof] ++ [.poll 0 Mask.POLLIN oneBackend]) {}
    (st.chunk 0).chunk = [1] ∧ st.connections = [] ∧ st.log = [] ∧
      (handle (.poll 0 Mask.POLLOUT oneBackend) st).live 0 = false ∧
      (handle (.poll 0 Mask.POLLOUT oneBackend) st).log = [.erased 0 [] (st.sock 0)] := by
  decide +kernel

end controller

end cloudbus
