-- What each function of the segment does, in closed form.
import Cloudbus.Acts
import Cloudbus.Segment

namespace cloudbus.segment

open cloudbus.io cloudbus.messages Connector

/-! ## From a transport to the service -/

/-- `_north_write` left the frame for later, or it is done with it. -/
theorem north_write_spec {t v : StreamId} {cid : Nat} {f : Frame} {st : Connector}
    (hr : (st.frame t).Ready) (hp : f.payload ≠ [])
    (hd : (st.frame t).contents.drop (st.frame t).tellg = f.payload) :
    ((north_write t v cid st).2 = some false ∧ Quiet st (north_write t v cid st).1) ∨
      ((north_write t v cid st).2 ≠ some false ∧ ∃ obs, Offered t v cid f st (north_write t v cid st).1 obs) := by
  have hfail : (st.frame t).rdstate.fail = false := by
    have := hr.good
    simp only [Iostate.good, Bool.not_eq_true', Bool.or_eq_false_iff] at this
    simp [Iostate.fail, this]
  unfold north_write
  dsimp only
  generalize hfl : decide ((MAX_BUFSIZE : Int) - ((st.frame t).tellp - (st.frame t).tellg : Nat) ≤
    (st.sock v).tellp) = flushed
  have hflush : Quiet st (if flushed then st.flushSock v else st) := by
    split
    · exact st.flushSock_quiet v
    · exact .refl st
  generalize (if flushed then st.flushSock v else st) = st1 at hflush ⊢
  rw [← hflush.frame t] at hr hd hfail ⊢
  split
  · rename_i hb
    rw [Bool.and_eq_true] at hb
    rw [hflush.frame] at hfail
    exact .inr ⟨by simp, [], .of_quiet hfail hflush (.inr (.inl (Sockstream.not_good_of_bad hb.2)))⟩
  · split
    · refine .inr ⟨?_, _, .after hflush (.of_write hr hp hd)⟩
      split <;> simp
    · exact .inl ⟨rfl, hflush⟩

/-- The frame `f` of the transport `t` was delivered to the connection `c` at `k`. Its
service may be gone. -/
structure Delivered (t : StreamId) (f : Frame) (k : Nat) (c : Connection) (st st' : Connector)
    (fed : List Obs) : Prop where
  effect : Effect st st' (fed ++ [.got (some c.cid) t f.eid f.type f.payload])
  fed : Feed c.cid t c.south f.payload st st' fed
  connections : st'.connections = st.connections.set k (state_update c f.type)
  next : st'.next = st.next
  ncid : st'.ncid = st.ncid
  live : ∀ i, st'.live i = st.live i
  pending : st'.pending = st.pending
  eof : ∀ i, (st'.sock i).eof = (st.sock i).eof
  taken : ∀ i, (st'.sock i).taken = (st.sock i).taken
  tx : ∀ i, (st'.sock i).tx <:+ (st.sock i).tx
  bad : f.type.has ABORT = false → ∀ i, (st.sock i).Healthy → (st'.sock i).bad = (st.sock i).bad
  stuck : ∀ i, (st.sock i).good = false → (st'.sock i).good = false
  chunk : ∀ i, st'.chunk i = st.chunk i
  others : ∀ i, i ≠ t → st'.frame i = st.frame i
  contents : (st'.frame t).contents = (st.frame t).contents
  frame : (st'.frame t).rdstate.fail = false ∧ (st'.frame t).eof = true

/-- An ABORT makes the service stream bad, so that it is erased at its next event. -/
def spoil (c : Connection) (t : Msgtype) (st : Connector) : Connector :=
  if t.has ABORT then st.setSock c.south (st.sock c.south).set_badbit else st

/-- A stream may be bad now, when the frame was an ABORT. -/
structure Spoiled (ty : Msgtype) (st st' : Connector) : Prop where
  effect : Effect st st' []
  same : Same st st'
  pending : st'.pending = st.pending
  sock : ∀ i, (st'.sock i).tx = (st.sock i).tx ∧
    ((st.sock i).good = false → (st'.sock i).good = false) ∧
    (ty.has ABORT = false → st'.sock i = st.sock i)

theorem Spoiled.refl (ty : Msgtype) (st : Connector) : Spoiled ty st st :=
  ⟨.refl st, .refl st, rfl, fun _ => ⟨rfl, id, fun _ => rfl⟩⟩

theorem spoil_spec (c : Connection) (ty : Msgtype) (st : Connector) : Spoiled ty st (spoil c ty st) := by
  unfold spoil
  split
  · rename_i ha
    refine ⟨.setSock (.of_same (fun _ => rfl) id rfl rfl rfl rfl rfl rfl), .setSock rfl rfl, rfl,
      fun i => ?_⟩
    rw [sock_setSock]
    refine ⟨?_, fun hg => ?_, fun h => by rw [h] at ha; cases ha⟩
    · split
      · rename_i hi
        rw [hi]
        rfl
      · rfl
    · split
      · exact Sockstream.not_good_of_bad rfl
      · exact hg
  · exact .refl ty st

variable {st st' : Connector} {t v : StreamId} {f : Frame} {c : Connection}

/-- The last part of `deliver`, after the payload was written. -/
theorem deliver_finish {k : Nat} {st1 st2 : Connector} {obs : List Obs} (h : Offered t c.south c.cid f st st1 obs)
    (h2 : Spoiled f.type st1 st2) :
    Delivered t f k c st (((st2.setConn k (state_update c f.type)).note
      (.got (some c.cid) t f.eid f.type f.payload)).mark t) obs := by
  obtain ⟨he, hs, hpend, hsock⟩ := h2
  have hgot : Logs st2 ((st2.setConn k (state_update c f.type)).note
      (.got (some c.cid) t f.eid f.type f.payload)) [.got (some c.cid) t f.eid f.type f.payload] :=
    (Logs.setConn st2 k _).trans_nil (.note _ fun _ => rfl)
  have hgotsock : ∀ i, ((((st2.setConn k (state_update c f.type)).note
      (.got (some c.cid) t f.eid f.type f.payload)).mark t).sock i) = st2.sock i := by
    intro i
    simp [mark]
  refine ⟨?_, ?_, ?_, ?_, ?_, fun i => ?_, ?_, fun i => ?_, fun i => ?_, fun i => ?_, fun ha i hh => ?_,
    fun i hg => ?_, fun i => ?_, fun i hi => ?_, ?_, ?_⟩
  · exact (h.effect.nil_trans he).trans (hgot.effect.nil_trans (.setFrame _ t _))
  · refine h.fed.widen id (fun hg => ?_) ?_
    · rw [hgotsock]
      exact (hsock _).2.1 hg
    · rw [mark, live_setFrame, hgot.keeps.live, hs.live]
  · show st2.connections.set k _ = _
    rw [hs.connections, h.connections]
  · exact hs.next.trans h.keeps.next
  · exact hs.ncid.trans h.keeps.ncid
  · rw [mark, live_setFrame, hgot.keeps.live, hs.live, h.keeps.live]
  · exact hpend.trans h.keeps.pending
  · rw [hgotsock, hs.eof, (h.keeps.kept i).eof]
  · rw [hgotsock, hs.taken, (h.keeps.kept i).taken]
  · rw [hgotsock, (hsock i).1]
    exact (h.keeps.kept i).tx
  · rw [hgotsock, (hsock i).2.2 ha]
    exact (h.keeps.kept i).bad hh
  · rw [hgotsock]
    exact (hsock i).2.1 ((h.keeps.kept i).stuck hg)
  · rw [mark, chunk_setFrame]
    exact (hgot.chunk i).trans ((hs.chunk i).trans (h.chunk i))
  · rw [mark, frame_setFrame, if_neg hi]
    exact (hgot.frame i).trans ((hs.frame i).trans (h.others i hi))
  · rw [mark, frame_setFrame, if_pos rfl, hgot.frame, hs.frame]
    exact h.contents
  · rw [mark, frame_setFrame, if_pos rfl, hgot.frame, hs.frame]
    exact ⟨h.fail, rfl⟩

theorem deliver_spec {k : Nat} (hf : frameOf (st.frame t) = some f)
    (hok : FrameOk (st.frame t)) (hnew : (st.frame t).eof = false) :
    ((deliver t f k c st).2 = false ∧ f.payload ≠ [] ∧ Deferred t st (deliver t f k c st).1) ∨
      ((deliver t f k c st).2 = true ∧ ∃ fed, Delivered t f k c st (deliver t f k c st).1 fed) := by
  obtain ⟨-, -, -, htell, -, -⟩ := frameOf_some hf
  have hseek : (if (st.frame t).tellg ≤ HDRLEN then HDRLEN else (st.frame t).tellg) = HDRLEN :=
    if_pos (hok.gptr hnew)
  have hpos : (st.frame t).tellp > HDRLEN ↔ f.payload ≠ [] := by
    rw [htell, ← List.length_pos_iff]
    omega
  have hq := st.setTriggerOpen_quiet c.south Mask.POLLOUT
  unfold deliver
  dsimp only
  rw [hseek]
  generalize st.setTriggerOpen c.south Mask.POLLOUT = st0 at hq ⊢
  have hfr := hq.frame t
  by_cases hp : (st.frame t).tellp > HDRLEN
  · rw [if_pos hp]
    have hf0 : frameOf (st0.frame t) = some f := by rw [hfr]; exact hf
    have hfail0 : (st0.frame t).rdstate.fail = false := by rw [hfr]; exact hok.fail
    obtain ⟨g1, g2, g3, -, g4⟩ := seekg_header hf0 hfail0
    have hspec := @north_write_spec t c.south c.cid f
      (st0.setFrame t ((st0.frame t).seekg HDRLEN)) (by simpa using g4) (hpos.mp hp)
      (by rw [frame_setFrame, if_pos rfl, g2, g3])
    generalize north_write t c.south c.cid (st0.setFrame t ((st0.frame t).seekg HDRLEN)) = w at hspec ⊢
    obtain ⟨st1, b⟩ := w
    rcases hspec with ⟨hb, hq1⟩ | ⟨hb, obs, ho⟩
    · obtain rfl : b = some false := hb
      have hd := Deferred.of_seek hf0 hfail0 (hq1.trans (st1.deferInput_quiet t))
      exact .inl ⟨rfl, hpos.mp hp, hd.after hq⟩
    · have hd : Delivered t f k c st _ obs := deliver_finish (k := k) (.after hq (.seek g1 ho)) (spoil_spec c f.type st1)
      right
      split
      · rename_i heq
        cases heq
        exact absurd rfl hb
      · rename_i heq
        cases heq
        exact ⟨rfl, obs, hd⟩
  · rw [if_neg hp]
    have hnil : f.payload = [] := by
      by_contra hne
      exact hp (hpos.mpr hne)
    exact .inr ⟨rfl, [], deliver_finish (.of_quiet hok.fail hq (.inl hnil)) (spoil_spec c f.type st0)⟩

/-! ## A new session -/

/-- A stream that was never used. -/
def Unused (s : Sockstream) : Prop := s.parea = [] ∧ s.rdstate = {}

/-- The connection that a frame with INIT makes. -/
def newConn (t : StreamId) (f : Frame) (st : Connector) : Connection :=
  { uuid := f.eid
    north := t
    south := st.next
    state := if f.type.op = STOP then .HALF_CLOSED else .HALF_OPEN
    cid := st.ncid }

/-- The entries of the log for a new session. -/
def openObs (t : StreamId) (f : Frame) (st : Connector) : List Obs :=
  [.opened st.next st.ncid, .got (some st.ncid) t f.eid f.type f.payload,
    .fed st.ncid t st.next f.payload true]

/-- A session was opened by the frame `f` of the transport `t`: a service stream was made
and got the payload. -/
structure Opened (t : StreamId) (f : Frame) (st st' : Connector) : Prop where
  effect : Effect st st' (openObs t f st)
  connections : st'.connections = st.connections ++ [newConn t f st]
  next : st'.next = st.next + 1
  ncid : st'.ncid = st.ncid + 1
  live : ∀ i, st'.live i = if i = st.next then true else st.live i
  iface : (st'.ep st.next).iface = .south 0
  kept : ∀ i, i ≠ st.next → Kept (st.sock i) (st'.sock i)
  born : ∃ fd rx tx, Kept (newborn fd rx tx) (st'.sock st.next) ∧
    Ran (newborn fd rx tx) f.payload (st'.sock st.next)
  pending : ∀ p ∈ st'.pending, p ∈ st.pending ∨ p = (st.next, t)
  chunk : ∀ i, st'.chunk i = st.chunk i
  others : ∀ i, i ≠ t → st'.frame i = st.frame i
  contents : (st'.frame t).contents = (st.frame t).contents
  fail : (st'.frame t).rdstate.fail = false
  marked : (st'.sock st.next).bad = false → (st'.frame t).eof = true

/-- The part of `_north_connect` before the payload is written. -/
def dial (t : StreamId) (fd : Option Int) (st : Connector) : Connector :=
  match fd with
  | some fd =>
    ((st.make (.south 0) BAD_SOCKET).setSock st.next
      { (st.make (.south 0) BAD_SOCKET).sock st.next with native_handle := fd }).setTrigger st.next
      (Mask.POLLIN.union Mask.POLLOUT)
  | none => { st.make (.south 0) BAD_SOCKET with pending := st.pending ++ [(st.next, t)] }

/-- A stream was made for the service, and nothing else. -/
structure Called (t : StreamId) (st st' : Connector) : Prop where
  dialed : Dialed st st'
  next : st'.next = st.next + 1
  ncid : st'.ncid = st.ncid
  live : ∀ i, st'.live i = if i = st.next then true else st.live i
  iface : (st'.ep st.next).iface = .south 0
  sock : ∀ i, i ≠ st.next → st'.sock i = st.sock i
  pending : ∀ p ∈ st'.pending, p ∈ st.pending ∨ p = (st.next, t)

theorem dial_spec (t : StreamId) (fd : Option Int) (st : Connector) : Called t st (dial t fd st) := by
  unfold dial
  split
  · rename_i fd
    refine ⟨((Dialed.make st _ _).trans (Dialed.handle _ st.next fd)).trans
      (.of_eps rfl rfl rfl rfl (Nat.le_refl _) rfl), rfl, rfl, fun i => ?_, ?_, fun i hi => ?_,
      fun p hp => .inl hp⟩
    · rw [(setTrigger_quiet _ _ _).live, live_setSock, live_make]
    · show (((st.make (.south 0) BAD_SOCKET).setSock st.next _).ep st.next).iface = _
      rw [iface_setSock, iface_make, if_pos rfl]
    · show (((st.make (.south 0) BAD_SOCKET).setSock st.next _).sock i) = _
      rw [sock_setSock, if_neg hi, sock_make, if_neg hi]
  · refine ⟨(Dialed.make st _ _).trans (.of_eps rfl rfl rfl rfl (Nat.le_refl _) rfl), rfl, rfl,
      fun i => live_make st i _ _, ?_, fun i hi => ?_, fun p hp => by simpa using hp⟩
    · show ((st.make (.south 0) BAD_SOCKET).ep st.next).iface = _
      rw [iface_make, if_pos rfl]
    · show (st.make (.south 0) BAD_SOCKET).sock i = _
      rw [sock_make, if_neg hi]

/-- A stream that was never used has room, so the payload is written at once. -/
theorem north_write_unused {t v : StreamId} {cid : Nat} {f : Frame} {st : Connector}
    (hu : Unused (st.sock v)) (hr : (st.frame t).Ready) (hp : f.payload ≠ [])
    (hd : (st.frame t).contents.drop (st.frame t).tellg = f.payload)
    (hfit : (st.frame t).tellp < 65536) :
    Offered t v cid f st (north_write t v cid st).1 [.fed cid t v f.payload true] ∧
      (north_write t v cid st).2 =
        (if ((north_write t v cid st).1.sock v).bad then none else some true) ∧
      (((north_write t v cid st).1.sock v).bad = false →
        ((north_write t v cid st).1.frame t).eof = true) := by
  have htell : (st.sock v).tellp = 0 := by
    simp [Sockstream.tellp, Sockstream.fail, hu.2, hu.1, Iostate.fail]
  have hgood : (st.sock v).good = true := by
    simp [Sockstream.good, hu.2, Iostate.good]
  have hpos : (0 : Int) < MAX_BUFSIZE - ((st.frame t).tellp - (st.frame t).tellg : Nat) := by
    have : (MAX_BUFSIZE : Int) = 268435456 := by decide
    omega
  obtain ⟨-, -, -, hmark⟩ := stream_write_spec ((st.frame t).tellp + 1) (st.sock v) (st.frame t) hr
    (by simp only [Xmsgstream.tellp]; omega)
  have ho := @Offered.of_write t v cid f st hr hp hd
  have hfl : decide ((MAX_BUFSIZE : Int) - ((st.frame t).tellp - (st.frame t).tellg : Nat) ≤
      (st.sock v).tellp) = false := decide_eq_false (by omega)
  unfold north_write
  simp only [hfl, Bool.false_eq_true, if_false, Bool.false_and]
  rw [if_pos (by rw [htell]; exact hpos)]
  rw [hgood] at ho ⊢
  refine ⟨ho, ?_, ?_⟩
  · simp
  · simpa using hmark

theorem north_connect_spec {t : StreamId} {f : Frame} {fd : Option Int} {st : Connector}
    (hr : (st.frame t).Ready) (hp : f.payload ≠ [])
    (hd : (st.frame t).contents.drop (st.frame t).tellg = f.payload)
    (hfit : (st.frame t).tellp < 65536) :
    Opened t f st (north_connect t f fd st).1 ∧
      (north_connect t f fd st).2 =
        if ((north_connect t f fd st).1.sock st.next).bad then none else some true := by
  have hdial := dial_spec t fd st
  have heq : north_connect t f fd st = north_write t st.next st.ncid
      { dial t fd st with
        connections := (dial t fd st).connections ++ [newConn t f st]
        ncid := (dial t fd st).ncid + 1
        log := (dial t fd st).log ++
          [.opened st.next st.ncid, .got (some st.ncid) t f.eid f.type f.payload] } := by
    cases fd <;> rfl
  rw [heq]
  generalize dial t fd st = a at *
  -- the table, the count and the log are as for the new session, the streams as dialed
  have hins : Effect a { a with
      connections := a.connections ++ [newConn t f st]
      ncid := a.ncid + 1
      log := a.log ++ [.opened st.next st.ncid, .got (some st.ncid) t f.eid f.type f.payload] }
      [.opened st.next st.ncid, .got (some st.ncid) t f.eid f.type f.payload] :=
    .of_eps rfl rfl rfl rfl (Nat.le_succ _) fun _ => rfl
  have hlt : st.next < a.next := by rw [hdial.next]; exact Nat.lt_succ_self _
  obtain ⟨h, rx, tx, hborn⟩ := hdial.dialed.born st.next (Nat.le_refl _) hlt
  rw [← hdial.dialed.frame] at hr hd hfit
  generalize hb : ({ a with
      connections := a.connections ++ [newConn t f st]
      ncid := a.ncid + 1
      log := a.log ++ [.opened st.next st.ncid, .got (some st.ncid) t f.eid f.type f.payload] } :
      Connector) = b at hins ⊢
  have hbs : ∀ i, b.sock i = a.sock i := by rw [← hb]; exact fun _ => rfl
  have hbf : ∀ i, b.frame i = a.frame i := by rw [← hb]; exact fun _ => rfl
  obtain ⟨h1, h2, h3⟩ := @north_write_unused t st.next st.ncid f b
    (by rw [hbs, hborn]; exact ⟨rfl, rfl⟩) (by rw [hbf]; exact hr) hp (by rw [hbf]; exact hd) (by rw [hbf]; exact hfit)
  generalize north_write t st.next st.ncid b = w at h1 h2 h3 ⊢
  have hltb : st.next < b.next := by rw [← hb]; exact hlt
  have hran := h1.effect.ran st.next hltb
  have hkept := h1.keeps.kept st.next
  rw [hbs, hborn] at hran hkept
  refine ⟨⟨?_, ?_, ?_, ?_, fun i => ?_, ?_, fun i hi => ?_, ⟨h, rx, tx, hkept, ?_⟩, fun p hp => ?_,
    fun i => ?_, fun i hi => ?_, ?_, ?_, h3⟩, h2⟩
  · exact (hdial.dialed.effect.trans_nil hins).trans h1.effect
  · rw [h1.connections, ← hb, hdial.dialed.connections]
  · rw [h1.keeps.next, ← hb, hdial.next]
  · rw [h1.keeps.ncid, ← hb, hdial.ncid]
  · rw [h1.keeps.live, ← hdial.live, ← hb]
    rfl
  · rw [h1.effect.iface st.next hltb, ← hdial.iface, ← hb]
    rfl
  · rw [← hdial.sock i hi, ← hbs]
    exact h1.keeps.kept i
  · simpa [Obs.bytes] using hran
  · rw [h1.keeps.pending, ← hb] at hp
    exact hdial.pending p hp
  · rw [h1.chunk, ← hdial.dialed.chunk, ← hb]
    rfl
  · rw [h1.others i hi, hbf, hdial.dialed.frame]
  · rw [h1.contents, hbf, hdial.dialed.frame]
  · exact h1.fail

/-- The frame may be marked and its get position moved before. -/
theorem Opened.seek {x : Xmsgstream} (hx : x.contents = (st.frame t).contents)
    (h : Opened t f (st.setFrame t x) st') : Opened t f st st' :=
  ⟨(Effect.setFrame st t x).trans_nil h.effect, h.connections, h.next, h.ncid,
    fun i => by rw [h.live, live_setFrame]; rfl, h.iface,
    fun i hi => by rw [← st.sock_setFrame t i x]; exact h.kept i hi, h.born, h.pending,
    fun i => by rw [h.chunk, chunk_setFrame], fun i hi => by rw [h.others i hi, frame_setFrame, if_neg hi],
    by rw [h.contents, frame_setFrame, if_pos rfl, hx], h.fail, h.marked⟩

/-- The frame `f` has no connection that takes it. -/
def Untaken (t : StreamId) (f : Frame) (st : Connector) : Prop :=
  findConn t f.eid st.connections = none ∨ ∃ k c, findConn t f.eid st.connections = some k ∧
    st.connections[k]? = some c ∧ c.state = .CLOSED

/-- What `_route` does with a transport. -/
inductive NorthRouted (t : StreamId) (st : Connector) : Connector → Bool → Prop
  /-- The frame is not complete. -/
  | idle : frameOf (st.frame t) = none → NorthRouted t st st (st.sock t).eof
  /-- No connection takes the frame, and it starts none. -/
  | refused (f : Frame) (obs : List Obs) (st' : Connector) :
      frameOf (st.frame t) = some f → Untaken t f st → Dropped t st st' obs → refusal t f st obs →
      NorthRouted t st st' (st.sock t).eof
  /-- The frame starts a session. -/
  | opened (f : Frame) (st' : Connector) :
      frameOf (st.frame t) = some f → Untaken t f st → (st.sock t).eof = false → f.type.has INIT →
      f.payload ≠ [] → Opened t f st st' → NorthRouted t st st' (st'.sock st.next).bad
  /-- The service has no room. -/
  | deferred (f : Frame) (k : Nat) (c : Connection) (st' : Connector) :
      frameOf (st.frame t) = some f → findConn t f.eid st.connections = some k →
      st.connections[k]? = some c → f.payload ≠ [] → Deferred t st st' → NorthRouted t st st' false
  /-- The frame went to its connection. -/
  | delivered (f : Frame) (k : Nat) (c : Connection) (fed : List Obs) (st' : Connector) :
      frameOf (st.frame t) = some f → findConn t f.eid st.connections = some k →
      st.connections[k]? = some c → c.state ≠ .CLOSED → Delivered t f k c st st' fed →
      NorthRouted t st st' (st.sock t).eof

theorem north_write_pending (t v : StreamId) (cid : Nat) (st : Connector) :
    (north_write t v cid st).1.pending = st.pending := by
  unfold north_write
  dsimp only
  generalize decide ((MAX_BUFSIZE : Int) - ((st.frame t).tellp - (st.frame t).tellg : Nat) ≤
    (st.sock v).tellp) = flushed
  have hq : (if flushed then st.flushSock v else st).pending = st.pending := by split <;> rfl
  generalize (if flushed then st.flushSock v else st) = a at hq ⊢
  split
  · exact hq
  · split
    · exact hq
    · exact hq

/-- A frame with INIT and a payload opens a session. While the address is resolved, its
connect is the last one that is pending. -/
theorem unmatched_opened {fd : Option Int} {t : StreamId} {f : Frame} {st : Connector}
    (hf : frameOf (st.frame t) = some f) (hok : FrameOk (st.frame t)) (he : (st.sock t).eof = false)
    (hinit : f.type.has INIT) (hpay : f.payload ≠ []) :
    Opened t f st (unmatched fd t f st).1 ∧
      (unmatched fd t f st).2 = ((unmatched fd t f st).1.sock st.next).bad ∧
      (fd = none → (unmatched fd t f st).1.pending = st.pending ++ [(st.next, t)]) := by
  obtain ⟨-, -, -, htell, -, -⟩ := frameOf_some hf
  have hmark : (st.mark t).frame t = (st.frame t).set_eofbit := by simp [mark]
  have hmf : frameOf ((st.mark t).frame t) = some f := by
    rw [hmark]
    exact hf
  have hmfail : ((st.mark t).frame t).rdstate.fail = false := by
    rw [hmark]
    exact hok.fail
  obtain ⟨g1, g2, g3, -, g4⟩ := seekg_header hmf hmfail
  have hlong : ((st.mark t).frame t).tellp > HDRLEN := by
    rw [hmark]
    show (st.frame t).tellp > HDRLEN
    rw [htell]
    exact Nat.lt_add_of_pos_right (List.length_pos_iff.mpr hpay)
  have hfit : (((st.mark t).frame t).seekg HDRLEN).tellp < 65536 := by
    have h1 : (((st.mark t).frame t).seekg HDRLEN).contents.length < 65536 := by
      rw [g1, hmark]
      show (st.frame t).contents.length < 65536
      rw [Xmsgstream.length_contents, htell]
      have := f.fits
      have : MAXCHUNK = 65511 := rfl
      have : HDRLEN = 24 := rfl
      omega
    rwa [Xmsgstream.length_contents] at h1
  obtain ⟨ho, hr⟩ := @north_connect_spec t f fd
    ((st.mark t).setFrame t (((st.mark t).frame t).seekg HDRLEN))
    (by simpa using g4) hpay
    (by rw [frame_setFrame, if_pos rfl, g2, g3]) (by rw [frame_setFrame, if_pos rfl]; exact hfit)
  have hopen : Opened t f st _ := Opened.seek (x := (st.frame t).set_eofbit) rfl (.seek g1 ho)
  have hnext : ((st.mark t).setFrame t (((st.mark t).frame t).seekg HDRLEN)).next = st.next := rfl
  have hpend : fd = none →
      (north_connect t f fd ((st.mark t).setFrame t (((st.mark t).frame t).seekg HDRLEN))).1.pending =
        st.pending ++ [(st.next, t)] := by
    rintro rfl
    exact north_write_pending _ _ _ _
  rw [hnext] at hr
  unfold unmatched
  dsimp only
  rw [he, if_neg (by simp), if_pos ⟨hinit, hlong⟩]
  generalize north_connect t f fd ((st.mark t).setFrame t (((st.mark t).frame t).seekg HDRLEN)) = w
    at hr hopen hpend ⊢
  obtain ⟨st', r⟩ := w
  dsimp only at hr hopen hpend
  cases hb : (st'.sock st.next).bad with
  | true =>
    rw [hb, if_pos rfl] at hr
    subst hr
    exact ⟨hopen, hb.symm, hpend⟩
  | false =>
    rw [hb, if_neg (by simp)] at hr
    subst hr
    exact ⟨hopen, hb.symm, hpend⟩

theorem unmatched_spec {fd : Option Int} (hf : frameOf (st.frame t) = some f) (hok : FrameOk (st.frame t))
    (hun : Untaken t f st) : NorthRouted t st (unmatched fd t f st).1 (unmatched fd t f st).2 := by
  obtain ⟨-, -, -, htell, -, -⟩ := frameOf_some hf
  obtain ⟨hd, hs⟩ := got_dropped t f st
  have hmark : (st.mark t).frame t = (st.frame t).set_eofbit := by simp [mark]
  cases he : (st.sock t).eof with
  | true =>
    unfold unmatched
    dsimp only
    rw [he, if_pos rfl]
    have h := NorthRouted.refused f _ _ hf hun hd (by rw [refusal, he, if_neg (by simp)])
    rwa [he] at h
  | false =>
    by_cases hinit : f.type.has INIT ∧ ((st.mark t).frame t).tellp > HDRLEN
    · have hpay : f.payload ≠ [] := by
        have h2 := hinit.2
        rw [hmark] at h2
        have : (st.frame t).tellp > HDRLEN := h2
        rw [htell] at this
        rw [← List.length_pos_iff]
        omega
      obtain ⟨hopen, hbad, -⟩ := @unmatched_opened fd t f st hf hok he hinit.1 hpay
      rw [hbad]
      exact .opened f _ hf hun he hinit.1 hpay hopen
    · unfold unmatched
      dsimp only
      rw [he, if_neg (by simp), if_neg hinit]
      split
      · rename_i ha
        have h := NorthRouted.refused f _ _ hf hun (hd.answer f.eid)
          (by rw [refusal, he, if_pos (by simpa using ha)]; exact ⟨_, rfl⟩)
        rwa [he] at h
      · rename_i ha
        have h := NorthRouted.refused f _ _ hf hun hd
          (by rw [refusal, he, if_neg (by simpa using ha)])
        rwa [he] at h

theorem route_north_spec {fd : Option Int} {t : StreamId} {st : Connector} (hok : FrameOk (st.frame t))
    (hnew : (st.frame t).eof = false) :
    NorthRouted t st (route_north fd t st).1 (route_north fd t st).2 := by
  unfold route_north
  dsimp only
  split
  · rename_i hf
    exact .idle hf
  · rename_i f hf
    split
    · rename_i hk
      exact unmatched_spec hf hok (.inl hk)
    · rename_i k hk
      split
      · rename_i hget
        -- the place of a found connection is in the table
        obtain ⟨hlt, -⟩ := List.findIdx?_eq_some_iff_getElem.mp hk
        rw [List.getElem?_eq_getElem hlt] at hget
        cases hget
      · rename_i c hget
        split
        · rename_i hst
          exact unmatched_spec hf hok (.inr ⟨k, c, hk, hget, hst⟩)
        · rename_i hst
          split
          · rename_i hdead
            exact .delivered f k c [] _ hf hk hget hst (deliver_finish
              (.of_quiet hok.fail (.refl st) (.inr (.inr (by simpa using hdead)))) (.refl _ st))
          · have hd := deliver_spec (k := k) (c := c) hf hok hnew
            generalize deliver t f k c st = w at hd ⊢
            obtain ⟨st', b⟩ := w
            rcases hd with ⟨hb, hp, hd⟩ | ⟨hb, fed, hd⟩
            · obtain rfl : b = false := hb
              exact .deferred f k c st' hf hk hget hp hd
            · obtain rfl : b = true := hb
              exact .delivered f k c fed st' hf hk hget hst hd

/-! ## From the service to a transport -/

/-- The chunk of the service, or its end, went to the transport of its connection. -/
structure Sent (v : StreamId) (c : Connection) (type : Msgtype) (st st' : Connector) (ok : Bool) :
    Prop where
  effect : Effect st st' [.sent (some c.cid) c.north c.uuid type (st.chunk v).chunk ok]
  keeps : Keeps st st'
  connections : st'.connections = st.connections
  frame : ∀ i, st'.frame i = st.frame i
  chunk : ∀ i, (st'.chunk i).data = (st.chunk i).data ∧ (st'.chunk i).ppos = (st.chunk i).ppos
  others : ∀ i, i ≠ v → st'.chunk i = st.chunk i
  whole : (st'.sock c.north).bad = false → (st'.chunk v).gpos = (st.chunk v).ppos
  ok : ChunkOk (st.chunk v) → ChunkOk (st'.chunk v)

/-- Only the transport of the connection was written. -/
theorem Sent.of_unread {type : Msgtype} {st1 : Connector} {ok : Bool}
    (he : Effect st st1 [.sent (some c.cid) c.north c.uuid type (st.chunk v).chunk ok]) (hk : Keeps st st1)
    (hc : st1.connections = st.connections) (hf : ∀ i, st1.frame i = st.frame i) (hch : ∀ i, st1.chunk i = st.chunk i)
    (hb : (st1.sock c.north).bad) : Sent v c type st st1 ok :=
  ⟨he, hk, hc, hf, fun i => by rw [hch]; exact ⟨rfl, rfl⟩, fun i _ => hch i,
    fun h => absurd hb (by simp [h]), fun h => by rw [hch]; exact h⟩

/-- Quiet steps may come before. -/
theorem Sent.after {v : StreamId} {c : Connection} {type : Msgtype} {st st1 st2 : Connector} {ok : Bool}
    (hq : Quiet st st1) (h : Sent v c type st1 st2 ok) : Sent v c type st st2 ok := by
  have he := h.effect
  rw [hq.chunk] at he
  refine ⟨hq.effect.trans_nil he, hq.keeps.trans h.keeps, h.connections.trans hq.connections,
    fun i => (h.frame i).trans (hq.frame i), fun i => ?_, fun i hi => (h.others i hi).trans (hq.chunk i),
    fun hb => ?_, fun hok => ?_⟩
  · rw [← hq.chunk]
    exact h.chunk i
  · rw [← hq.chunk]
    exact h.whole hb
  · rw [← hq.chunk] at hok
    exact h.ok hok

def serviceType (v : StreamId) (st : Connector) : Msgtype :=
  ⟨if !st.live v || (st.sock v).eof then STOP else DATA, 0⟩

/-- The header and then the chunk are written to a transport with room. -/
theorem sent_of_write {v : StreamId} {c : Connection} {type : Msgtype} {st : Connector}
    (hg : (st.chunk v).gpos = 0) :
    Sent v c type st
      (if ((st.sock c.north).write (Msgheader.of c.uuid (st.chunk v).tellp type).encode).bad then
        (st.setSock c.north
          ((st.sock c.north).write (Msgheader.of c.uuid (st.chunk v).tellp type).encode)).note
          (.sent (some c.cid) c.north c.uuid type (st.chunk v).chunk (st.sock c.north).good)
      else
        ((st.setSock c.north (stream_write_upto (st.chunk v).tellp
            ((st.sock c.north).write (Msgheader.of c.uuid (st.chunk v).tellp type).encode)
            (st.chunk v) (st.chunk v).tellp).1).setChunk v (stream_write_upto (st.chunk v).tellp
            ((st.sock c.north).write (Msgheader.of c.uuid (st.chunk v).tellp type).encode)
            (st.chunk v) (st.chunk v).tellp).2).note
          (.sent (some c.cid) c.north c.uuid type (st.chunk v).chunk (st.sock c.north).good))
      (st.sock c.north).good := by
  have hhead := (st.sock c.north).write_pushed (Msgheader.of c.uuid (st.chunk v).tellp type).encode
  have hlen : (st.chunk v).chunk.length = (st.chunk v).tellp := by
    have := (st.chunk v).ppos_le
    simp only [Stringstream.chunk, Stringstream.tellp, List.length_take]
    omega
  have hobs : accepted (st.sock c.north)
      ((Msgheader.of c.uuid (st.chunk v).tellp type).encode ++ (st.chunk v).chunk) =
      Obs.bytes c.north (.sent (some c.cid) c.north c.uuid type (st.chunk v).chunk
        (st.sock c.north).good) := by
    simp [accepted, Obs.bytes, hlen]
  have hother : ∀ i, i ≠ c.north → Obs.bytes i (.sent (some c.cid) c.north c.uuid type (st.chunk v).chunk
      (st.sock c.north).good) = [] := fun i hi => by simp [Obs.bytes, Ne.symm hi]
  split
  · rename_i hb
    refine .of_unread (.wrote ?_ hother) ((Keeps.setSock hhead.kept).trans (.note _ _)) rfl (by simp)
      (by simp) (by simpa using hb)
    rw [← hobs]
    exact hhead.ran_of_bad hb _
  · obtain ⟨hcopy, hdata, hppos, hgpos⟩ := stream_write_upto_spec (st.chunk v).tellp
      ((st.sock c.north).write (Msgheader.of c.uuid (st.chunk v).tellp type).encode)
      (st.chunk v) (st.chunk v).tellp (Nat.le_refl _) (by
        rw [hg, Nat.zero_add]
        exact (st.chunk v).ppos_le)
    have hbytes : ((st.chunk v).data.drop (st.chunk v).gpos).take (st.chunk v).tellp = (st.chunk v).chunk := by
      rw [hg]
      rfl
    have hzero : (st.chunk v).tellp = 0 → (stream_write_upto (st.chunk v).tellp
        ((st.sock c.north).write (Msgheader.of c.uuid (st.chunk v).tellp type).encode)
        (st.chunk v) (st.chunk v).tellp).2.gpos = 0 := by
      intro h0
      rw [h0]
      exact hg
    rw [hbytes] at hcopy
    have hpush := hhead.trans hcopy
    have hran := hpush.ran
    rw [hobs] at hran
    generalize stream_write_upto (st.chunk v).tellp
      ((st.sock c.north).write (Msgheader.of c.uuid (st.chunk v).tellp type).encode)
      (st.chunk v) (st.chunk v).tellp = r at *
    refine ⟨.of_socks rfl rfl rfl rfl (by simp) (by simp) fun i => ?_,
      (Keeps.setSock hpush.kept).trans ((Keeps.setChunk _ v _).trans (.note _ _)), rfl, by simp,
      fun i => ?_, fun i hi => by simp [hi], fun hb => ?_, fun _ hp => ?_⟩
    · rw [outBytes_singleton, sock_note, sock_setChunk, sock_setSock]
      split
      · rename_i hi
        rw [hi]
        exact hran
      · rename_i hi
        rw [hother i hi]
        exact Ran.refl _
    · rw [chunk_note, chunk_setChunk]
      split
      · rename_i hi
        rw [hi, hdata, hppos]
        exact ⟨rfl, rfl⟩
      · simp
    · rw [sock_note, sock_setChunk, sock_setSock, if_pos rfl] at hb
      rw [chunk_note, chunk_setChunk, if_pos rfl, hgpos (.inl hb), hg, Nat.zero_add]
      rfl
    · rw [chunk_note, chunk_setChunk, if_pos rfl] at hp ⊢
      exact hzero (hppos.symm.trans hp)

theorem south_write_spec {v : StreamId} {c : Connection} {st : Connector} (hg : (st.chunk v).gpos = 0) :
    ((south_write v c st).2 = false ∧ Quiet st (south_write v c st).1) ∨
      ((south_write v c st).2 = true ∧ ∃ ok, Sent v c (serviceType v st) st (south_write v c st).1 ok) := by
  unfold south_write
  dsimp only
  generalize decide ((MAX_BUFSIZE : Int) - (HDRLEN + (st.chunk v).tellp : Nat) ≤
    (st.sock c.north).tellp) = flushed
  have hflush : Quiet st (if flushed then st.flushSock c.north else st) := by
    split
    · exact st.flushSock_quiet c.north
    · exact .refl st
  change _ ∨ _
  rw [show (⟨if !st.live v || (st.sock v).eof then STOP else DATA, 0⟩ : Msgtype) = serviceType v st from rfl]
  generalize serviceType v st = type
  generalize (if flushed then st.flushSock c.north else st) = st1 at hflush ⊢
  have hch := hflush.chunk v
  rw [← hch] at hg ⊢
  split
  · rename_i hb
    rw [Bool.and_eq_true] at hb
    refine .inr ⟨rfl, false, .after hflush (.of_unread (.note fun i => ?_) (.note _ _) rfl (fun _ => rfl)
      (fun _ => rfl) hb.2)⟩
    simp [Obs.bytes]
  · split
    · exact .inl ⟨rfl, hflush⟩
    · right
      have h := @sent_of_write _ c type _ hg
      split
      · rename_i hb
        rw [if_pos hb] at h
        exact ⟨rfl, _, .after hflush h⟩
      · rename_i hb
        rw [if_neg hb] at h
        exact ⟨rfl, _, .after hflush h⟩

/-- The get position of the chunk may be set back before. -/
theorem Sent.rewind {type : Msgtype} {ok : Bool}
    (h : Sent v c type (st.setChunk v (st.chunk v).rewindg) st' ok) : Sent v c type st st' ok := by
  have hch : (st.setChunk v (st.chunk v).rewindg).chunk v = (st.chunk v).rewindg := by simp
  have he := h.effect
  rw [hch] at he
  refine ⟨(Effect.setChunk st v _).trans_nil he, (Keeps.setChunk st v _).trans h.keeps, h.connections,
    fun i => (h.frame i).trans (by simp), fun i => ?_, fun i hi => (h.others i hi).trans (by simp [hi]),
    fun hb => ?_, fun _ => ?_⟩
  · have := h.chunk i
    rw [chunk_setChunk] at this
    split at this
    · rename_i hi
      rw [hi] at this ⊢
      exact this
    · exact this
  · have := h.whole hb
    rwa [hch] at this
  · exact h.ok (by rw [hch]; exact fun _ => rfl)

/-- There is no room for the chunk, which is set back. -/
structure Rewound (v : StreamId) (st st' : Connector) : Prop where
  effect : Effect st st' []
  keeps : Keeps st st'
  connections : st'.connections = st.connections
  frame : ∀ i, st'.frame i = st.frame i
  chunk : st'.chunk v = (st.chunk v).rewindg
  others : ∀ i, i ≠ v → st'.chunk i = st.chunk i

/-- The frame that `_route` sends for the service. -/
def routeType (v : StreamId) (st : Connector) : Msgtype := ⟨if (st.sock v).eof then STOP else DATA, 0⟩

/-- What `_route` does with a service stream. -/
inductive SouthRouted (v : StreamId) (st : Connector) : Connector → Bool → Prop
  /-- The service has no connection with a transport. -/
  | lost : findSouth v st = none → SouthRouted v st st (decide (0 < (st.chunk v).tellp))
  /-- There is nothing to send. -/
  | idle (k : Nat) (c : Connection) (st' : Connector) : findSouth v st = some k →
      st.connections[k]? = some c → (st.sock v).eof = false → (st.chunk v).tellp = 0 → Logs st st' [] →
      st'.connections = st.connections.set k (state_update c ⟨DATA, 0⟩) →
      SouthRouted v st st' (decide ((state_update c ⟨DATA, 0⟩).state = .CLOSED))
  /-- The transport has no room. -/
  | full (k : Nat) (c : Connection) (st' : Connector) : findSouth v st = some k →
      st.connections[k]? = some c → ((st.sock v).eof ∨ 0 < (st.chunk v).tellp) → Rewound v st st' →
      SouthRouted v st st' false
  /-- The chunk, or the end, was sent. -/
  | sent (k : Nat) (c : Connection) (mid st' : Connector) (ok : Bool) : findSouth v st = some k →
      st.connections[k]? = some c → ((st.sock v).eof ∨ 0 < (st.chunk v).tellp) →
      Sent v c (routeType v st) st mid ok → Logs mid st' [] →
      st'.connections = st.connections.set k (state_update c (routeType v st)) →
      SouthRouted v st st' (decide ((state_update c (routeType v st)).state = .CLOSED))

theorem SouthRouted.keeps {failed : Bool} (h : SouthRouted v st st' failed) : Keeps st st' := by
  cases h with
  | lost => exact .refl st
  | idle _ _ _ _ _ _ _ hl _ => exact hl.keeps
  | full _ _ _ _ _ _ hw => exact hw.keeps
  | sent _ _ _ _ _ _ _ _ hs hl _ => exact hs.keeps.trans hl.keeps

theorem route_south_spec {v : StreamId} {st : Connector} (hl : st.live v) :
    SouthRouted v st (route_south v st).1 (route_south v st).2 := by
  have hend : ∀ (k : Nat) (c : Connection) (a : Connector),
      Logs a (if (st.sock v).eof then (a.setConn k c).clearTrigger v Mask.POLLIN else a.setConn k c) [] ∧
      (if (st.sock v).eof then (a.setConn k c).clearTrigger v Mask.POLLIN else a.setConn k c).connections =
        a.connections.set k c := by
    intro k c a
    split
    · exact ⟨(Logs.setConn a k c).trans_nil (clearTrigger_quiet _ v _).logs, rfl⟩
    · exact ⟨.setConn a k c, rfl⟩
  unfold route_south
  dsimp only
  split
  · rename_i hk
    have h := SouthRouted.lost (v := v) hk
    simpa using h
  · rename_i k hk
    split
    · rename_i hget
      obtain ⟨hlt, -⟩ := List.findIdx?_eq_some_iff_getElem.mp hk
      rw [List.getElem?_eq_getElem hlt] at hget
      cases hget
    · rename_i c hget
      by_cases hsend : ((st.sock v).eof || decide ((st.chunk v).tellp > 0)) = true
      · rw [if_pos hsend]
        have hwhy : (st.sock v).eof ∨ 0 < (st.chunk v).tellp := by simpa using hsend
        have hq : Quiet (st.setChunk v (st.chunk v).rewindg)
            ((st.setChunk v (st.chunk v).rewindg).setTrigger c.north Mask.POLLOUT) := setTrigger_quiet _ _ _
        have hspec := @south_write_spec v c
          ((st.setChunk v (st.chunk v).rewindg).setTrigger c.north Mask.POLLOUT)
          (by rw [hq.chunk, chunk_setChunk, if_pos rfl]; rfl)
        have htype : serviceType v ((st.setChunk v (st.chunk v).rewindg).setTrigger c.north Mask.POLLOUT) =
            routeType v st := by
          have h1 : ((st.setChunk v (st.chunk v).rewindg).setTrigger c.north Mask.POLLOUT).live v = true := by
            rw [hq.live, live_setChunk, hl]
          have h2 : ((st.setChunk v (st.chunk v).rewindg).setTrigger c.north Mask.POLLOUT).sock v =
            st.sock v := sock_setChunk st v v _
          simp [serviceType, routeType, h1, h2]
        rw [htype] at hspec
        generalize south_write v c ((st.setChunk v (st.chunk v).rewindg).setTrigger c.north Mask.POLLOUT) = w
          at hspec ⊢
        obtain ⟨st1, b⟩ := w
        rcases hspec with ⟨hb, hq1⟩ | ⟨hb, ok, hs⟩
        · obtain rfl : b = false := hb
          have hq2 := hq.trans (hq1.trans (st1.deferInput_quiet v))
          exact .full k c _ hk hget hwhy ⟨(Effect.setChunk st v _).trans_nil hq2.effect,
            (Keeps.setChunk st v _).trans hq2.keeps, hq2.connections,
            fun i => (hq2.frame i).trans (by simp), by rw [hq2.chunk, chunk_setChunk, if_pos rfl],
            fun i hi => by rw [hq2.chunk, chunk_setChunk, if_neg hi]⟩
        · obtain rfl : b = true := hb
          have hsent := (Sent.after hq hs).rewind
          obtain ⟨h1, h2⟩ := hend k (state_update c (routeType v st)) st1
          rw [hsent.connections] at h2
          exact .sent k c st1 _ ok hk hget hwhy hsent h1 h2
      · rw [if_neg hsend]
        simp only [Bool.or_eq_true, decide_eq_true_eq, not_or] at hsend
        have he : (st.sock v).eof = false := by simpa using hsend.1
        have hp : (st.chunk v).tellp = 0 := by simpa using hsend.2
        obtain ⟨h1, h2⟩ := hend k (state_update c ⟨DATA, 0⟩) st
        have h := SouthRouted.idle k c _ hk hget he hp h1 h2
        simpa [he] using h

/-! ## Error and state handlers -/

/-- The entry of the log for an ABORT to a connection. -/
def abortSent (c : Connection) (o : Obs) : Prop :=
  ∃ ok, o = .sent (some c.cid) c.north c.uuid abortType [] ok

/-- The connections that an error of the transport closes. -/
def failing (t : StreamId) (st : Connector) (c : Connection) : Bool := c.north == t && st.live c.south

/-- A transport was erased: its connections are closed, or removed when their service is
gone too. -/
abbrev TransportGone (t : StreamId) (st st' : Connector) (obs : List Obs) : Prop :=
  Gone t (failing t st) (state_update · abortType) (fun c => !(c.north == t && !st.live c.south))
    (fun c o => o = Obs.failed c.cid) st st' obs

theorem north_err_handler_spec (t : StreamId) (st : Connector) :
    ∃ obs, TransportGone t st (north_err_handler t st) obs := by
  obtain ⟨obs, h1, h2, h3⟩ := Logs.sweep (failTurn t) (failing t st)
    (state_update · abortType) (fun c o => o = Obs.failed c.cid) st
    (fun s k c hk hget hp => by
      simp only [failing, Bool.and_eq_true, beq_iff_eq, ← hk.live] at hp
      refine ⟨_, ?_, rfl, ?_⟩
      · simp only [failTurn, hget, if_pos hp]
        exact (Logs.setConn s k _).trans_nil ((setTrigger_quiet _ _ _).logs.trans_nil (.note _ fun _ => rfl))
      · simp only [failTurn, hget, if_pos hp]
        rfl)
    (fun s k c hk hget hp => by
      have : ¬(c.north = t ∧ s.live c.south) := by
        simp only [failing, ← hk.live] at hp
        simpa using hp
      simp only [failTurn, hget, if_neg this])
  unfold north_err_handler
  simp only [h1.keeps.live]
  exact ⟨obs, .of_loop _ h1 h2 h3⟩

/-- The connections that are aborted when the service goes away. -/
def aborting (v : StreamId) (st : Connector) (c : Connection) : Bool :=
  c.south == v && st.live c.north && decide (c.state.rank < ConnState.CLOSED.rank)

/-- A service stream was erased: its connections were aborted and removed. -/
abbrev ServiceGone (v : StreamId) (st st' : Connector) (obs : List Obs) : Prop :=
  Gone v (aborting v st) id (fun c => c.south != v) abortSent st st' obs

theorem south_err_handler_spec (v : StreamId) (st : Connector) :
    ∃ obs, ServiceGone v st (south_err_handler v st) obs := by
  obtain ⟨obs, h1, h2, h3⟩ := Logs.visit (abortTurn v) (aborting v st) abortSent st
    (fun s c hk hp => by
      have hc : c.south = v ∧ s.live c.north ∧ c.state.rank < ConnState.CLOSED.rank := by
        simpa [aborting, ← hk.live, and_assoc] using hp
      unfold abortTurn
      rw [if_pos hc]
      exact ⟨_, (writeHeader_logs _ _ _ _ _).nil_trans (setTrigger_quiet _ _ _).logs, ⟨_, rfl⟩, rfl⟩)
    (fun s c hk hp => by
      have hc : ¬(c.south = v ∧ s.live c.north ∧ c.state.rank < ConnState.CLOSED.rank) := by
        intro h
        have : aborting v st c = true := by simp [aborting, h.1, ← hk.live, h.2.1, h.2.2]
        rw [this] at hp
        cases hp
      unfold abortTurn
      rw [if_neg hc]
      exact .refl s)
    st.connections
  exact ⟨obs, .of_loop _ h1 h2 (by simpa using h3)⟩

/-- The service address was not found: the service stream is erased and its connections
are aborted on the transport `t` that asked for it. -/
abbrev ConnectLost (v t : StreamId) (st st' : Connector) (obs : List Obs) : Prop :=
  Gone v (fun c => c.south == v) id (fun c => c.south != v)
    (fun c o => ∃ ok, o = .sent (some c.cid) t c.uuid abortType [] ok) st st' obs

theorem erase_connect_spec (v t : StreamId) (st : Connector) :
    ∃ obs, ConnectLost v t st (erase_connect v t st) obs := by
  obtain ⟨obs, h1, h2, h3⟩ := Logs.visit (refuseTurn v t) (fun c => c.south == v)
    (fun c o => ∃ ok, o = .sent (some c.cid) t c.uuid abortType [] ok) st
    (fun s c _ hp => by
      unfold refuseTurn
      rw [if_pos (beq_iff_eq.mp hp)]
      exact ⟨_, (writeHeader_logs _ _ _ _ _).nil_trans (setTrigger_quiet _ _ _).logs, ⟨_, rfl⟩, rfl⟩)
    (fun s c _ hp => by
      unfold refuseTurn
      rw [if_neg (by simpa using hp)]
      exact .refl s)
    st.connections
  exact ⟨obs, .of_erase h1 h2 (by simpa using h3) (.refl _)⟩

/-! ## The input handlers -/

theorem callIn_north (fd : Option Int) (h : (st.ep t).iface = .north) :
    callIn t fd st = match route_north fd t ((readTransport t st).dropInput t) with
      | (st, true) => north_err_handler t st
      | (st, false) => st := by
  unfold callIn
  rw [h]
  rfl

theorem callIn_south (fd : Option Int) (h : (st.ep v).iface ≠ .north) :
    callIn v fd st = match route_south v ((readService v st).dropInput v) with
      | (st, true) => south_err_handler v st
      | (st, false) => st := by
  unfold callIn
  split
  · exact absurd ‹_› h
  · rfl

end cloudbus.segment
