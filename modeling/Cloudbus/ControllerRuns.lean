-- Runs of the controller. A poll event makes at most two calls, and each call is
-- a short chain of acts. To show that something holds in every state of a run,
-- it is enough to show it for the acts (`Preserved`).
import Cloudbus.ControllerActs

namespace cloudbus.controller

open cloudbus.io cloudbus.messages Connector

/-! ## Reading -/

theorem readClient_spec (n : StreamId) (st : Connector) (hc : ChunkOk (st.chunk n)) :
    ∃ bs, ChunkRead n st ((readClient n st).dropInput n) bs := by
  obtain ⟨bs, h⟩ := readChunk_spec false (st.chunk n) (st.sock n) hc
  exact ⟨bs, chunkRead_of_chunked h⟩

/-- The bytes `bs` were read from a transport, as its POLLIN handler does. -/
structure TransportRead (s : StreamId) (st st' : Connector) (bs : List UInt8) : Prop
    extends FrameRead s st st' bs where
  eq : st' = (readTransport s st).dropInput s

theorem readTransport_spec (s : StreamId) (st : Connector) (hf : FrameOk (st.frame s)) :
    ∃ bs, TransportRead s st ((readTransport s st).dropInput s) bs := by
  obtain ⟨bs, h⟩ := xmsg_read_spec (st.frame s) (st.sock s) hf.fail
  exact ⟨bs, frameRead_of_reads h, rfl⟩

/-! ## The other calls -/

/-- The address of a transport was not found: its connections are removed, and the
client that asked for it is erased. -/
structure ConnectLost (s n : StreamId) (st st' : Connector) : Prop where
  effect : ∃ obs, Effect st st' obs ∧ (obs = [] ∨ obs = [.erased n (st.connsOf n) (st.sock n)])
  connections : st'.connections = st.connections.filter fun c => c.south != s
  live : ∀ i, st'.live i = if i = n then false else st.live i
  next : st'.next = st.next
  ncid : st'.ncid = st.ncid
  kept : ∀ i, Kept (st.sock i) (st'.sock i)
  chunk : ∀ i, st'.chunk i = st.chunk i
  frame : ∀ i, st'.frame i = st.frame i
  pending : st'.pending = st.pending

theorem erase_connect_spec (s n : StreamId) (st : Connector) :
    ConnectLost s n st (erase_connect s n st) := by
  have hq : Quiet st (if st.connections.any (·.south == s) then st.setTriggerOpen s Mask.POLLOUT
      else st) := by
    split
    · exact st.setTriggerOpen_quiet s _
    · exact .refl st
  have hsock : (if st.connections.any (·.south == s) then st.setTriggerOpen s Mask.POLLOUT
      else st).sock n = st.sock n := by
    unfold setTriggerOpen
    split
    · split <;> rfl
    · rfl
  unfold erase_connect
  dsimp only
  generalize (if st.connections.any (·.south == s) then st.setTriggerOpen s Mask.POLLOUT else st) = a
    at hq hsock ⊢
  have hkeep := Logs.keepConns a fun c => c.south != s
  have hconn : (a.keepConns fun c => c.south != s).connections =
      st.connections.filter fun c => c.south != s := by
    show a.connections.filter _ = _
    rw [hq.connections]
  rw [← a.sock_keepConns n fun c => c.south != s] at hsock
  have hl := hq.logs.trans_nil hkeep
  generalize (a.keepConns fun c => c.south != s) = b at hl hconn hsock ⊢
  split
  · have hq2 := b.clearTriggers_quiet n
    refine ⟨⟨_, hl.effect.trans_nil (hq2.effect.trans_nil (.erase _ n (st.connsOf n))), .inr ?_⟩,
      hconn, fun i => ?_, hl.keeps.next, hl.keeps.ncid, fun i => ?_, fun i => ?_, fun i => ?_,
      hl.keeps.pending⟩
    · show [Obs.erased n (st.connsOf n) (b.sock n)] = _
      rw [hsock]
    · rw [live_erase]
      show (if i = n then false else b.live i) = _
      rw [hl.keeps.live]
    · rw [sock_erase]
      exact hl.keeps.kept i
    · rw [chunk_erase]
      exact hl.chunk i
    · rw [frame_erase]
      exact hl.frame i
  · rename_i hn
    refine ⟨⟨[], hl.effect, .inl rfl⟩, hconn, fun i => ?_, hl.keeps.next, hl.keeps.ncid,
      hl.keeps.kept, hl.chunk, hl.frame, hl.keeps.pending⟩
    rw [hl.keeps.live]
    split
    · rename_i hi
      rw [hi, ← hl.keeps.live]
      simpa using hn
    · rfl

theorem connectCallback_dialed (s n : StreamId) (fd : Int) (st : Connector) (hl : st.live s) :
    Dialed st (connectCallback s n (some fd) st) := by
  unfold connectCallback
  rw [if_pos hl]
  dsimp only
  have htrigger : ∀ a : Connector, Dialed a (a.setTrigger s (Mask.POLLIN.union Mask.POLLOUT)) :=
    fun a => .of_eps rfl rfl rfl rfl (Nat.le_refl _) rfl
  split
  · exact (Dialed.handle st s fd).trans (htrigger _)
  · exact htrigger st

theorem idleTimeout_quiet (s : StreamId) (st : Connector) : Quiet st (idleTimeout s st) := by
  unfold idleTimeout
  split
  · refine (Quiet.setSock ?_ ?_).trans (setTrigger_quiet _ s _)
    · exact .of_same id id rfl rfl rfl rfl rfl rfl
    · refine .of_same rfl rfl rfl rfl fun _ => Sockstream.not_good_of_fail ?_
      simp [Sockstream.fail, Iostate.fail, Sockstream.set_failbit]
  · exact .refl st

theorem south_state_handler_quiet (s : StreamId) (st : Connector) :
    Quiet st (south_state_handler s st) := by
  unfold south_state_handler
  split
  · exact .refl st
  · exact .of_rest rfl rfl rfl rfl rfl rfl rfl

/-! ## What holds in every state of a run -/

/-- The ids and the buffers of the marshaller between two calls. -/
structure Base (st : Connector) : Prop where
  used : IdsUsed st
  frame : ∀ i, FrameOk (st.frame i)
  chunk : ∀ i, ChunkOk (st.chunk i)

/-- Why a client was erased: its stream failed or its session is closed, or there was
no eid for a session. -/
inductive ClientCause (C : Call → Connector → Prop) (n : StreamId) (st : Connector) : Prop
  | failed (st0 : Connector) : C (.out n) st0 → st0.live n → (st0.ep n).iface = .north →
      st0.pollout_handler n = (st, true) → ClientCause C n st
  | closed (st0 : Connector) : C (.out n) st0 → st0.live n → (st0.ep n).iface = .north →
      st0.pollout_handler n = (st, false) → session_state n st.connections = .CLOSED →
      ClientCause C n st
  | noEid (o : Oracle) (st0 st1 : Connector) (bs : List UInt8) : C (.inn n o) st0 → st0.live n →
      ChunkRead n st0 st1 bs → Quiet st1 st → (st1.sock n).eof = false → o.eid = Uuid.nil →
      ClientCause C n st

/-- Why a transport was erased: its stream failed, or it came to its end. -/
inductive TransportCause (C : Call → Connector → Prop) (s : StreamId) (st : Connector) : Prop
  | failed (st0 : Connector) : C (.out s) st0 → st0.live s → (st0.ep s).iface ≠ .north →
      st0.pollout_handler s = (st, true) → TransportCause C s st
  | ended (o : Oracle) (st0 st1 : Connector) (bs : List UInt8) : C (.inn s o) st0 → st0.live s →
      (st0.ep s).iface ≠ .north → TransportRead s st0 st1 bs → SouthRouted s st1 st true → TransportCause C s st

/-- The frame `f` has no connection that takes it. -/
def Untaken (s : StreamId) (f : Frame) (st : Connector) : Prop :=
  findConn s f.eid st.connections = none ∨ ∃ k c, findConn s f.eid st.connections = some k ∧
    st.connections[k]? = some c ∧ (c.state = .CLOSED ∨
      st.live c.north ∧ c.state = .HALF_CLOSED ∧ (st.sock c.north).eof = false ∧
        f.type.has ABORT = false)

/-- One act of a call. `C` holds for the call and the state it was made in. -/
inductive Act (C : Call → Connector → Prop) : Connector → Connector → Prop
  | quiet {st st' : Connector} : Quiet st st' → Act C st st'
  | errors {i : StreamId} {st : Connector} : C (.out i) st → Act C st (st.takeErrors i)
  | clientRead {n : StreamId} {o : Oracle} {st st' : Connector} {bs : List UInt8} :
      C (.inn n o) st → st.live n → (st.ep n).iface = .north → ChunkRead n st st' bs → Act C st st'
  | transportRead {s : StreamId} {o : Oracle} {b : Nat} {st st' : Connector} {bs : List UInt8} :
      C (.inn s o) st → st.live s → (st.ep s).iface = .south b → TransportRead s st st' bs →
      Act C st st'
  | sentAll {n : StreamId} {o : Oracle} {st0 st a b : Connector} {bs : List UInt8} {obs : List Obs} :
      C (.inn n o) st0 → st0.live n → (st0.ep n).iface = .north → ChunkRead n st0 st bs →
      Quiet st a → SentAll n (routeType a n) a b obs → ((a.sock n).eof ∨ 0 < (a.chunk n).tellp) → Act C a b
  | opened {n : StreamId} {o : Oracle} {st0 st a b : Connector} {bs : List UInt8}
      {cs : List Connection} {obs : List Obs} :
      C (.inn n o) st0 → st0.live n → (st0.ep n).iface = .north → ChunkRead n st0 st bs →
      (a.sock n).eof = false → 0 < (a.chunk n).tellp → connected n a = false → Quiet st a →
      Opened n o.eid a b cs obs → (obs = [] ∧ b.chunk n = a.chunk n ∧ Full n a cs ∨
        SentInit n ⟨DATA, INIT⟩ a b cs obs) → Act C a b
  | refused {s : StreamId} {o : Oracle} {st0 st st' : Connector} {bs : List UInt8} {f : Frame}
      {obs : List Obs} :
      C (.inn s o) st0 → st0.live s → TransportRead s st0 st bs → frameOf (st.frame s) = some f →
      Untaken s f st → Dropped s st st' obs → refusal s f st obs → (st0.ep s).iface ≠ .north → Act C st st'
  | orphan {s : StreamId} {o : Oracle} {st0 st st' : Connector} {bs : List UInt8} {f : Frame}
      {k : Nat} {c : Connection} :
      C (.inn s o) st0 → st0.live s → TransportRead s st0 st bs → frameOf (st.frame s) = some f →
      findConn s f.eid st.connections = some k → st.connections[k]? = some c → c.state ≠ .CLOSED →
      st.live c.north = false → Dropped s st st' [.got (some c.cid) s f.eid f.type f.payload] →
      Act C st st'
  | deferred {s : StreamId} {o : Oracle} {st0 st st' : Connector} {bs : List UInt8} :
      C (.inn s o) st0 → st0.live s → TransportRead s st0 st bs → Deferred s st st' → Act C st st'
  | delivered {s : StreamId} {o : Oracle} {st0 st st' : Connector} {bs : List UInt8} {f : Frame}
      {k : Nat} {c : Connection} {fed aborts : List Obs} :
      C (.inn s o) st0 → st0.live s → TransportRead s st0 st bs → frameOf (st.frame s) = some f →
      findConn s f.eid st.connections = some k → st.connections[k]? = some c → c.state ≠ .CLOSED →
      st.live c.north → (c.state = .HALF_CLOSED → (st.sock c.north).eof ∨ f.type.has ABORT) →
      Delivered s f k c st st' fed aborts → Act C st st'
  | clientGone {n : StreamId} {st st' : Connector} {obs : List Obs} :
      ClientCause C n st → ClientGone n st st' obs → Act C st st'
  | transportGone {s : StreamId} {st st' : Connector} {obs : List Obs} :
      TransportCause C s st → TransportGone s st st' obs → Act C st st'
  | shut {n : StreamId} {st0 st : Connector} :
      C (.out n) st0 → st0.live n → (st0.ep n).iface = .north → st0.pollout_handler n = (st, false) →
      session_state n st.connections = .HALF_CLOSED → Act C st (st.shutdown n)
  | dialed {st st' : Connector} : Dialed st st' → st'.ncid = st.ncid →
      (∀ p ∈ st'.pending, p ∈ st.pending) → (st'.next = st.next ∨ ∃ fd, C (.env (.accept fd)) st) → Act C st st'
  | connectLost {s n : StreamId} {j : Nat} {st0 st st' : Connector} :
      C (.env (.refused j)) st0 → Same st0 st → st0.pending[j]? = some (s, n) → st.live s →
      st.pending = st0.pending.eraseIdx j → ConnectLost s n st st' → Act C st st'
  | pushRx {i : StreamId} {r : Recv} {st : Connector} : C (.env (.rx i r)) st → Act C st (st.pushRx i r)
  | pushTx {i : StreamId} {a : Send} {st : Connector} : C (.env (.tx i a)) st → Act C st (st.pushTx i a)

/-- Each act keeps `I`, when the calls meet the condition `C`. -/
def Preserved (C : Call → Connector → Prop) (I : Connector → Prop) : Prop :=
  ∀ ⦃st st' : Connector⦄, Act C st st' → I st → I st'

namespace Preserved

variable {C : Call → Connector → Prop} {I : Connector → Prop}

variable {st : Connector}

theorem callOut (hp : Preserved C I) {i : StreamId} (hc : C (.out i) st) (hl : st.live i)
    (hi : I st) : I (callOut i st) := by
  have hq := st.pollout_handler_quiet i
  have hi0 := hp (.errors hc) hi
  unfold controller.callOut
  cases hif : (st.ep i).iface with
  | north =>
    dsimp only
    cases ho : st.pollout_handler i with
    | mk st1 failed =>
      rw [ho] at hq
      have hi1 := hp (.quiet hq) hi0
      cases failed with
      | true =>
        obtain ⟨obs, hg⟩ := north_err_handler_spec i st1
        exact hp (.clientGone (.failed st hc hl hif ho) hg) hi1
      | false =>
        dsimp only
        unfold north_state_handler
        split
        · rename_i hs
          obtain ⟨obs, hg⟩ := north_err_handler_spec i st1
          exact hp (.clientGone (.closed st hc hl hif ho hs) hg) hi1
        · rename_i hs
          exact hp (.quiet (setRevents_quiet _ _)) (hp (.shut hc hl hif ho hs) hi1)
        · exact hi1
  | south b =>
    dsimp only
    cases ho : st.pollout_handler i with
    | mk st1 failed =>
      rw [ho] at hq
      have hi1 := hp (.quiet hq) hi0
      cases failed with
      | true =>
        obtain ⟨obs, hg⟩ := south_err_handler_spec i st1
        exact hp (.transportGone (.failed st hc hl (by rw [hif]; nofun) ho) hg) hi1
      | false => exact hp (.quiet (south_state_handler_quiet i st1)) hi1

variable {n : StreamId} {o : Oracle} {st0 st' : Connector} {bs : List UInt8} {failed : Bool}

theorem routeType_of_quiet {a : Connector} (h : Quiet st a) : routeType a n = routeType st n := by
  rw [routeType, routeType, (h.keeps.kept n).eof]

theorem routeNorth (hp : Preserved C I) (hc : C (.inn n o) st0) (hl : st0.live n)
    (hif : (st0.ep n).iface = .north) (hr : ChunkRead n st0 st bs) (hi : I st) (h : NorthRouted o n st st' failed) :
    I st' ∧ (failed = true → Quiet st st' ∧ (st.sock n).eof = false ∧ o.eid = Uuid.nil) := by
  -- the acts after the read see the client as the read left it
  have hopen : ∀ {a b : Connector} {cs : List Connection} {obs : List Obs},
      (st.sock n).eof = false → 0 < (st.chunk n).tellp → Quiet st a → connected n st = false →
      Opened n o.eid a b cs obs → (obs = [] ∧ b.chunk n = a.chunk n ∧ Full n a cs ∨
        SentInit n (initType a n) a b cs obs) → I b := by
    intro a b cs obs he hpos ha hcon ho hs
    have hea : (a.sock n).eof = false := (ha.keeps.kept n).eof.trans he
    rw [initType, hea, if_neg (by simp)] at hs
    exact hp (.opened hc hl hif hr hea (by rw [ha.chunk]; exact hpos)
      ((connected_of_quiet ha).trans hcon) ha ho hs) (hp (.quiet ha) hi)
  cases h with
  | quiet st' hq => exact ⟨hp (.quiet hq) hi, by simp⟩
  | sent a b st' obs hwhy ha hs hb _ =>
    rw [← routeType_of_quiet ha] at hs
    rw [← (ha.keeps.kept n).eof, ← ha.chunk] at hwhy
    exact ⟨hp (.quiet hb) (hp (.sentAll hc hl hif hr ha hs hwhy) (hp (.quiet ha) hi)), by simp⟩
  | noEid st' he _ ha _ hnil => exact ⟨hp (.quiet ha) hi, fun _ => ⟨ha, he, hnil⟩⟩
  | deferred a b st' cs he hpos ha hcon _ ho hch hfull hb =>
    exact ⟨hp (.quiet hb) (hopen he hpos ha hcon ho (.inl ⟨rfl, hch, hfull⟩)), by simp⟩
  | opened a b st' cs obs he hpos ha hcon _ ho hs hb =>
    exact ⟨hp (.quiet hb) (hopen he hpos ha hcon ho (.inr hs)), by simp⟩

theorem routeSouth (hp : Preserved C I) {s : StreamId} (hc : C (.inn s o) st0) (hl : st0.live s)
    (hif : (st0.ep s).iface ≠ .north) (hr : TransportRead s st0 st bs) (hi : I st)
    (h : SouthRouted s st st' failed) : I st' := by
  cases h with
  | idle => exact hi
  | refused f obs st' hf hd hr' hwhy => exact hp (.refused hc hl hr hf hwhy hd hr' hif) hi
  | orphan f k c st' hf hk hget hst hn hd => exact hp (.orphan hc hl hr hf hk hget hst hn hd) hi
  | deferred f k c st' _ _ _ _ hd => exact hp (.deferred hc hl hr hd) hi
  | delivered f k c fed aborts st' hf hk hget hst hn hh hd =>
    exact hp (.delivered hc hl hr hf hk hget hst hn hh hd) hi

theorem callIn (hp : Preserved C I) {i : StreamId} {o : Oracle} {st : Connector}
    (hb : Base st) (hc : C (.inn i o) st) (hl : st.live i) (hi : I st) : I (callIn i o st) := by
  unfold controller.callIn
  cases hif : (st.ep i).iface with
  | north =>
    dsimp only
    obtain ⟨bs, hr⟩ := readClient_spec i st (hb.chunk i)
    have hi1 := hp (.clientRead hc hl hif hr) hi
    have hused : IdsUsed ((readClient i st).dropInput i) := fun j hj => by
      rw [hr.next]
      exact hb.used j (by rw [← hr.live]; exact hj)
    have hroute := route_north_spec o hused (hused i (by rw [hr.live]; exact hl))
    unfold north_pollin_handler
    generalize route_north o i ((readClient i st).dropInput i) = r at hroute ⊢
    obtain ⟨st2, failed⟩ := r
    obtain ⟨hi2, hfail⟩ := hp.routeNorth hc hl hif hr hi1 hroute
    cases failed with
    | true =>
      obtain ⟨obs, hg⟩ := north_err_handler_spec i st2
      obtain ⟨hq, he, hnil⟩ := hfail rfl
      exact hp (.clientGone (.noEid o st _ bs hc hl hr hq he hnil) hg) hi2
    | false => exact hi2
  | south b =>
    dsimp only
    obtain ⟨bs, hr⟩ := readTransport_spec i st (hb.frame i)
    have hi1 := hp (.transportRead hc hl hif hr) hi
    obtain ⟨hok, hnew⟩ := hr.frameOk (hb.frame i)
    have hroute := route_south_spec hok hnew
    unfold south_pollin_handler
    generalize route_south i ((readTransport i st).dropInput i) = r at hroute ⊢
    obtain ⟨st2, failed⟩ := r
    have hi2 := hp.routeSouth hc hl (by rw [hif]; nofun) hr hi1 hroute
    cases failed with
    | true =>
      obtain ⟨obs, hg⟩ := south_err_handler_spec i st2
      exact hp (.transportGone (.ended o st _ bs hc hl (by rw [hif]; nofun) hr hroute) hg) hi2
    | false => exact hi2

theorem resolve (hp : Preserved C I) {j : Nat} {fd : Option Int} (hc : fd = none → C (.env (.refused j)) st)
    (hi : I st) : I (resolve j fd st) := by
  unfold controller.resolve
  split
  · rename_i s n hj
    have hd : Dialed st { st with pending := st.pending.eraseIdx j } :=
      .of_eps rfl rfl rfl rfl (Nat.le_refl _) rfl
    have hs : Same st { st with pending := st.pending.eraseIdx j } := .of_eps rfl rfl rfl rfl rfl rfl
    have hi1 := hp (.dialed hd rfl (fun p hp => List.mem_of_mem_eraseIdx hp) (.inl rfl)) hi
    have hpend : { st with pending := st.pending.eraseIdx j }.pending = st.pending.eraseIdx j := rfl
    generalize { st with pending := st.pending.eraseIdx j } = st1 at hi1 hs hpend
    by_cases hl : st1.live s
    · cases fd with
      | none =>
        unfold connectCallback
        rw [if_pos hl]
        exact hp (.connectLost (hc rfl) hs hj hl hpend (erase_connect_spec s n st1)) hi1
      | some fd =>
        have hsame : (connectCallback s n (some fd) st1).ncid = st1.ncid ∧
            (connectCallback s n (some fd) st1).pending = st1.pending ∧
            (connectCallback s n (some fd) st1).next = st1.next := by
          unfold connectCallback
          rw [if_pos hl]
          dsimp only
          split <;> exact ⟨rfl, rfl, rfl⟩
        refine hp (.dialed (connectCallback_dialed s n fd st1 hl) hsame.1 (fun p hp => ?_) (.inl hsame.2.2)) hi1
        rwa [hsame.2.1] at hp
    · unfold connectCallback
      rw [if_neg hl]
      exact hi1
  · exact hi

theorem call (hp : Preserved C I) {c : Call} (hb : Base st) (hc : C c st) (hi : I st) : I (call c st) := by
  unfold controller.call
  split
  · split
    · exact hp.callOut hc ‹_› hi
    · exact hi
  · split
    · exact hp.callIn hb hc ‹_› hi
    · exact hi
  · rename_i e
    unfold callEnv
    split
    · exact hp (.quiet (setTrigger_quiet _ _ _)) (hp (.dialed (.make st _ _) rfl (fun _ h => h) (.inr ⟨_, hc⟩)) hi)
    · exact hp.resolve (by simp) hi
    · exact hp.resolve (fun _ => hc) hi
    · split
      · refine hp (.quiet (Quiet.trans ?_ (idleTimeout_quiet _ _))) hi
        exact .of_rest rfl rfl rfl rfl rfl rfl rfl
      · exact hi
    · exact hp (.pushRx hc) hi
    · exact hp (.pushTx hc) hi

end Preserved

/-! ## Runs -/

/-- The states of the runs whose calls all meet the condition `C`. -/
inductive Run (C : Call → Connector → Prop) : Connector → Prop
  | init (mode : Mode) : Run C { mode := mode }
  | step {st : Connector} (ev : Event) : Run C st → (∀ p ∈ calls ev st, C p.1 p.2) →
      Run C (handle ev st)

variable {st st' : Connector} {C : Call → Connector → Prop}

theorem Run.weaken {D : Call → Connector → Prop} (hr : Run C st) (h : ∀ c st, C c st → D c st) : Run D st := by
  induction hr with
  | init mode => exact .init mode
  | step ev _ hc ih => exact ih.step ev fun p hp => h _ _ (hc p hp)

/-- The state after the events `evs`. -/
def play (evs : List Event) (st : Connector) : Connector := evs.foldl (fun st ev => handle ev st) st

/-- All calls of the events `evs` meet the condition `C`. -/
def Meets (C : Call → Connector → Prop) : List Event → Connector → Prop
  | [], _ => True
  | ev :: evs, st => (∀ p ∈ calls ev st, C p.1 p.2) ∧ Meets C evs (handle ev st)

instance Meets.decidable {C : Call → Connector → Prop} [∀ c st, Decidable (C c st)] :
    ∀ (evs : List Event) (st : Connector), Decidable (Meets C evs st)
  | [], _ => isTrue trivial
  | ev :: evs, st =>
    have := Meets.decidable (C := C) evs (handle ev st)
    inferInstanceAs (Decidable (_ ∧ _))

theorem Run.after {C : Call → Connector → Prop} {evs : List Event} {st : Connector} (hr : Run C st)
    (h : Meets C evs st) : Run C (play evs st) := by
  induction evs generalizing st with
  | nil => exact hr
  | cons ev evs ih => exact ih (hr.step ev h.1) h.2

/-- Without a condition every run is one. -/
theorem Run.of_events (evs : List Event) (mode : Mode) :
    Run (fun _ _ => True) (play evs { mode := mode }) := by
  have h : ∀ st, Meets (fun _ _ => True) evs st := by
    induction evs with
    | nil => exact fun _ => trivial
    | cons ev evs ih => exact fun st => ⟨fun _ _ => trivial, ih _⟩
  exact (Run.init mode).after (h _)

/-- What the acts keep holds after the POLLOUT part of an event. -/
theorem Preserved.afterOut {C : Call → Connector → Prop} {I : Connector → Prop} (hp : Preserved C I)
    (hb : Preserved C Base) {i : StreamId} {m : Mask} {o : Oracle} {st : Connector} (hbuf : Base st)
    (hi : I st) (hc : ∀ p ∈ calls (.poll i m o) st, C p.1 p.2) :
    I (afterOut i (st.enter i m)) ∧ Base (afterOut i (st.enter i m)) := by
  have hq := st.enter_quiet i m
  have hi0 := hp (.quiet hq) hi
  have hb0 := hb (.quiet hq) hbuf
  unfold controller.afterOut
  split
  · rename_i hout
    have hc0 := hc (.out i, st.enter i m) (by simp [calls, hout])
    exact ⟨hp.call hb0 hc0 hi0, hb.call hb0 hc0 hb0⟩
  · exact ⟨hi0, hb0⟩

variable {I : Connector → Prop}

/-- What the acts keep holds when a call is made. -/
theorem Preserved.called (hp : Preserved C I) (hb : Preserved C Base) {ev : Event} (hbuf : Base st) (hi : I st)
    (hc : ∀ p ∈ calls ev st, C p.1 p.2) {p : Call × Connector} (hmem : p ∈ calls ev st) : I p.2 ∧ Base p.2 := by
  cases ev with
  | poll i m o =>
    unfold calls at hmem
    dsimp only at hmem
    rcases List.mem_append.mp hmem with hmem | hmem
    · split at hmem
      · rw [List.mem_singleton.mp hmem]
        have hq := st.enter_quiet i m
        exact ⟨hp (.quiet hq) hi, hb (.quiet hq) hbuf⟩
      · cases hmem
    · split at hmem
      · rw [List.mem_singleton.mp hmem]
        exact hp.afterOut hb hbuf hi hc
      · cases hmem
  | env e =>
    rw [List.mem_singleton.mp hmem]
    exact ⟨hi, hbuf⟩

theorem Preserved.handle {C : Call → Connector → Prop} {I : Connector → Prop} (hp : Preserved C I)
    (hb : Preserved C Base) {ev : Event} {st : Connector} (hbuf : Base st) (hi : I st)
    (hc : ∀ p ∈ calls ev st, C p.1 p.2) : I (handle ev st) ∧ Base (handle ev st) := by
  cases ev with
  | poll i revents o =>
    have h1 := hp.afterOut hb hbuf hi hc
    unfold controller.handle
    dsimp only
    split
    · rename_i hin
      have hc1 := hc (.inn i o, controller.afterOut i (st.enter i revents)) (by simp [calls, hin])
      exact ⟨hp.call h1.2 hc1 h1.1, hb.call h1.2 hc1 h1.2⟩
    · exact h1
  | env e =>
    have hc0 := hc (.env e, st) (by simp [calls])
    exact ⟨hp.call hbuf hc0 hi, hb.call hbuf hc0 hbuf⟩

theorem Base.of_same (h : Base st) (hu : IdsUsed st') (hf : ∀ i, st'.frame i = st.frame i)
    (hc : ∀ i, st'.chunk i = st.chunk i) : Base st' :=
  ⟨hu, fun i => by rw [hf]; exact h.frame i, fun i => by rw [hc]; exact h.chunk i⟩

theorem Base.same (h : Base st) (hs : Same st st') : Base st' :=
  h.of_same (h.used.of_same hs) hs.frame hs.chunk

/-- Only the frame buffer of `s` is new. -/
theorem Base.of_frame {s : StreamId} (h : Base st) (hu : IdsUsed st') (hs : FrameOk (st'.frame s))
    (hf : ∀ i, i ≠ s → st'.frame i = st.frame i) (hc : ∀ i, st'.chunk i = st.chunk i) : Base st' := by
  refine ⟨hu, fun i => ?_, fun i => by rw [hc]; exact h.chunk i⟩
  by_cases hi : i = s
  · rw [hi]
    exact hs
  · rw [hf i hi]
    exact h.frame i

/-- Only the chunk buffer of `n` is new. -/
theorem Base.of_chunk {n : StreamId} (h : Base st) (hu : IdsUsed st') (hn : ChunkOk (st'.chunk n))
    (hc : ∀ i, i ≠ n → st'.chunk i = st.chunk i) (hf : ∀ i, st'.frame i = st.frame i) : Base st' := by
  refine ⟨hu, fun i => by rw [hf]; exact h.frame i, fun i => ?_⟩
  by_cases hi : i = n
  · rw [hi]
    exact hn
  · rw [hc i hi]
    exact h.chunk i

theorem base_preserved (C : Call → Connector → Prop) : Preserved C Base := by
  intro st st' act h
  cases act with
  | quiet hq => exact h.same hq.same
  | errors => exact h.same (.takeErrors st _)
  | clientRead _ _ _ hr =>
    exact h.of_chunk (h.used.of_live hr.next fun i hi => by rwa [hr.live] at hi)
      (hr.chunked.chunkOk (h.chunk _)) hr.others hr.frame
  | transportRead _ _ _ hr =>
    exact h.of_frame (h.used.of_live hr.next fun i hi => by rwa [hr.live] at hi)
      (hr.frameOk (h.frame _)).1 hr.others hr.chunk
  | sentAll _ _ _ _ _ hs =>
    exact h.of_chunk (h.used.of_keeps hs.keeps) (hs.ok (h.chunk _)) hs.others hs.frame
  | opened _ _ _ _ _ _ _ _ ho _ =>
    obtain ⟨st1, hd, hk, -⟩ := ho.dials
    exact h.of_chunk ((hd.dialed.used h.used).of_keeps hk) (ho.ok (h.chunk _)) ho.others ho.frame
  | refused _ _ _ _ _ hd _ =>
    exact h.of_frame (h.used.of_keeps hd.keeps)
      (.of_marked (hd.frame.1.trans (h.frame _).fail) hd.frame.2) hd.others hd.chunk
  | orphan _ _ _ _ _ _ _ _ hd =>
    exact h.of_frame (h.used.of_keeps hd.keeps)
      (.of_marked (hd.frame.1.trans (h.frame _).fail) hd.frame.2) hd.others hd.chunk
  | deferred _ _ _ hd => exact h.of_frame (h.used.of_keeps hd.keeps) hd.frame.1 hd.others hd.chunk
  | delivered _ _ _ _ _ _ _ _ _ hd =>
    exact h.of_frame (h.used.of_keeps hd.keeps) (.of_marked hd.frame.1 hd.frame.2) hd.others hd.chunk
  | clientGone _ hg => exact h.of_same (hg.used h.used) hg.frame hg.chunk
  | transportGone _ hg => exact h.of_same (hg.used h.used) hg.frame hg.chunk
  | shut => exact h.of_same h.used (fun _ => rfl) fun _ => rfl
  | dialed hd _ _ => exact h.of_same (hd.used h.used) hd.frame hd.chunk
  | connectLost _ _ _ _ _ hl =>
    refine h.of_same (h.used.of_live hl.next fun i hi => ?_) hl.frame hl.chunk
    rw [hl.live] at hi
    split at hi
    · cases hi
    · exact hi
  | pushRx => exact h.same (.pushRx st _ _)
  | pushTx => exact h.same (.pushTx st _ _)

theorem base_init (mode : Mode) : Base { mode := mode } :=
  ⟨fun _ => nofun, fun _ => ⟨rfl, fun _ => Nat.zero_le _⟩, fun _ _ => rfl⟩

/-- What the acts keep holds in every state of a run. -/
theorem Preserved.run (hp : Preserved C I) (h0 : ∀ mode, I { mode := mode }) (hr : Run C st) : I st ∧ Base st := by
  induction hr with
  | init mode => exact ⟨h0 mode, base_init mode⟩
  | step ev _ hc ih => exact hp.handle (base_preserved C) ih.2 ih.1 hc

end cloudbus.controller
