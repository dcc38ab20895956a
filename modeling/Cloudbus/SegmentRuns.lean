-- Runs of the segment. Each call is a short chain of acts, as in the controller.
import Cloudbus.SegmentActs

namespace cloudbus.segment

open cloudbus.io cloudbus.messages Connector

/-! ## The calls -/

/-- The bytes `bs` were read from a transport, as its POLLIN handler does. -/
structure TransportRead (t : StreamId) (st st' : Connector) (bs : List UInt8) : Prop
    extends FrameRead t st st' bs where
  eq : st' = (readTransport t st).dropInput t

theorem readTransport_spec (t : StreamId) (st : Connector) (hf : FrameOk (st.frame t)) :
    ∃ bs, TransportRead t st ((readTransport t st).dropInput t) bs := by
  obtain ⟨bs, h⟩ := xmsg_read_spec (st.frame t) (st.sock t) hf.fail
  exact ⟨bs, frameRead_of_reads h, rfl⟩

theorem readService_spec (v : StreamId) (st : Connector) (hc : ChunkOk (st.chunk v)) :
    ∃ bs, ChunkRead v st ((readService v st).dropInput v) bs := by
  obtain ⟨bs, h⟩ := readChunk_spec true (st.chunk v) (st.sock v) hc
  exact ⟨bs, chunkRead_of_chunked h⟩

theorem connectCallback_dialed (v t : StreamId) (fd : Int) (st : Connector) (hl : st.live v) :
    Dialed st (connectCallback v t (some fd) st) := by
  unfold connectCallback
  rw [if_pos hl]
  dsimp only
  have htrigger : ∀ a : Connector, Dialed a (a.setTrigger v (Mask.POLLIN.union Mask.POLLOUT)) :=
    fun a => .of_eps rfl rfl rfl rfl (Nat.le_refl _) rfl
  split
  · exact (Dialed.handle st v fd).trans (htrigger _)
  · exact htrigger st

/-- A socket makes no stream good. -/
theorem connectCallback_good (v t : StreamId) (fd : Int) (st : Connector) (i : StreamId) :
    ((connectCallback v t (some fd) st).sock i).good = (st.sock i).good := by
  unfold connectCallback
  split
  · dsimp only
    split
    · change ((st.setSock v { st.sock v with native_handle := fd }).sock i).good = _
      rw [sock_setSock]
      split
      · rename_i hi
        rw [hi]
        rfl
      · rfl
    · rfl
  · rfl

/-! ## Acts -/

/-- Why a service stream was erased. -/
inductive ServiceCause (C : Call → Connector → Prop) (v : StreamId) (st : Connector) : Prop
  /-- Its stream failed. -/
  | failed (st0 : Connector) : C (.out v) st0 → st0.live v → st0.pollout_handler v = (st, true) →
      ServiceCause C v st
  /-- Its first connection is closed. -/
  | closed (st0 : Connector) (c : Connection) : C (.out v) st0 → st0.live v →
      st0.pollout_handler v = (st, false) → (st.connections.find? fun c => c.south == v) = some c →
      c.state = .CLOSED → ServiceCause C v st
  /-- Its last frame closed the connection, or its transport is gone. -/
  | routed (fd : Option Int) (st0 : Connector) (bs : List UInt8) : C (.inn v fd) st0 → st0.live v →
      ChunkRead v st0 ((readService v st0).dropInput v) bs →
      SouthRouted v ((readService v st0).dropInput v) st true → ServiceCause C v st

/-- Why a transport was erased. -/
inductive TransportCause (C : Call → Connector → Prop) (t : StreamId) (st : Connector) : Prop
  | failed (st0 : Connector) : C (.out t) st0 → st0.live t → (st0.ep t).iface = .north →
      st0.pollout_handler t = (st, true) → TransportCause C t st
  | routed (fd : Option Int) (st0 st1 : Connector) (bs : List UInt8) : C (.inn t fd) st0 → st0.live t →
      (st0.ep t).iface = .north → TransportRead t st0 st1 bs → NorthRouted t st1 st true → TransportCause C t st

/-- One act of a call. `C` holds for the call and the state it was made in. -/
inductive Act (C : Call → Connector → Prop) : Connector → Connector → Prop
  | quiet {st st' : Connector} : Quiet st st' → Act C st st'
  | errors {i : StreamId} {st : Connector} : C (.out i) st → Act C st (st.takeErrors i)
  | frameRead {t : StreamId} {fd : Option Int} {st st' : Connector} {bs : List UInt8} :
      C (.inn t fd) st → st.live t → (st.ep t).iface = .north → TransportRead t st st' bs → Act C st st'
  | chunkRead {v : StreamId} {fd : Option Int} {b : Nat} {st st' : Connector} {bs : List UInt8} :
      C (.inn v fd) st → st.live v → (st.ep v).iface = .south b → ChunkRead v st st' bs → Act C st st'
  | refused {t : StreamId} {fd : Option Int} {st0 st st' : Connector} {bs : List UInt8} {f : Frame}
      {obs : List Obs} :
      C (.inn t fd) st0 → st0.live t → TransportRead t st0 st bs → frameOf (st.frame t) = some f →
      Untaken t f st → Dropped t st st' obs → refusal t f st obs → (st0.ep t).iface = .north → Act C st st'
  | opened {t : StreamId} {fd : Option Int} {st0 st st' : Connector} {bs : List UInt8} {f : Frame} :
      C (.inn t fd) st0 → st0.live t → (st0.ep t).iface = .north → TransportRead t st0 st bs →
      frameOf (st.frame t) = some f → Untaken t f st → (st.sock t).eof = false → f.type.has INIT →
      f.payload ≠ [] → Opened t f st st' → Act C st st'
  | deferred {t : StreamId} {fd : Option Int} {st0 st st' : Connector} {bs : List UInt8} :
      C (.inn t fd) st0 → st0.live t → TransportRead t st0 st bs → Deferred t st st' → Act C st st'
  | delivered {t : StreamId} {fd : Option Int} {st0 st st' : Connector} {bs : List UInt8} {f : Frame}
      {k : Nat} {c : Connection} {fed : List Obs} :
      C (.inn t fd) st0 → st0.live t → TransportRead t st0 st bs → frameOf (st.frame t) = some f →
      findConn t f.eid st.connections = some k → st.connections[k]? = some c → c.state ≠ .CLOSED →
      Delivered t f k c st st' fed → Act C st st'
  | idle {v : StreamId} {fd : Option Int} {st0 st st' : Connector} {bs : List UInt8} {k : Nat}
      {c : Connection} :
      C (.inn v fd) st0 → st0.live v → ChunkRead v st0 st bs → findSouth v st = some k →
      st.connections[k]? = some c → (st.sock v).eof = false → (st.chunk v).tellp = 0 → Logs st st' [] →
      st'.connections = st.connections.set k (state_update c ⟨DATA, 0⟩) → Act C st st'
  | full {v : StreamId} {fd : Option Int} {st0 st st' : Connector} {bs : List UInt8} :
      C (.inn v fd) st0 → st0.live v → ChunkRead v st0 st bs → Rewound v st st' → Act C st st'
  | sent {v : StreamId} {fd : Option Int} {st0 st mid st' : Connector} {bs : List UInt8} {k : Nat}
      {c : Connection} {ok : Bool} :
      C (.inn v fd) st0 → st0.live v → ChunkRead v st0 st bs → findSouth v st = some k →
      st.connections[k]? = some c → ((st.sock v).eof ∨ 0 < (st.chunk v).tellp) →
      Sent v c (routeType v st) st mid ok → Logs mid st' [] →
      st'.connections = st.connections.set k (state_update c (routeType v st)) → Act C st st'
  | transportGone {t : StreamId} {st st' : Connector} {obs : List Obs} :
      TransportCause C t st → TransportGone t st st' obs → Act C st st'
  | serviceGone {v : StreamId} {st st' : Connector} {obs : List Obs} :
      ServiceCause C v st → ServiceGone v st st' obs → Act C st st'
  | shut {v : StreamId} {st0 st : Connector} {c : Connection} :
      C (.out v) st0 → st0.live v → st0.pollout_handler v = (st, false) →
      (st.connections.find? fun c => c.south == v) = some c → c.state = .HALF_CLOSED →
      Act C st (st.shutdown v)
  | dialed {st st' : Connector} : Dialed st st' → st'.ncid = st.ncid →
      (∀ p ∈ st'.pending, p ∈ st.pending) → (st'.next = st.next ∨ ∃ fd, C (.env (.accept fd)) st) →
      (∀ i, i < st.next → (st'.sock i).good = (st.sock i).good) → Act C st st'
  | connectLost {v t : StreamId} {j : Nat} {st0 st st' : Connector} {obs : List Obs} :
      C (.env (.refused j)) st0 → Same st0 st →
      (∀ c ∈ st.connections, c.south = v → c.north = t) → ConnectLost v t st st' obs → Act C st st'
  | pushRx {i : StreamId} {r : Recv} {st : Connector} : C (.env (.rx i r)) st → Act C st (st.pushRx i r)
  | pushTx {i : StreamId} {a : Send} {st : Connector} : C (.env (.tx i a)) st → Act C st (st.pushTx i a)

/-- Each act keeps `I`, when the calls meet the condition `C`. -/
def Preserved (C : Call → Connector → Prop) (I : Connector → Prop) : Prop :=
  ∀ ⦃st st' : Connector⦄, Act C st st' → I st → I st'

/-! ## What holds between two calls -/

/-- The streams and the pending connects. -/
structure Base (st : Connector) : Prop where
  used : IdsUsed st
  chunk : ∀ i, ChunkOk (st.chunk i)
  souths : ∀ c ∈ st.connections, c.south < st.next
  asked : ∀ p ∈ st.pending, p.1 < st.next ∧ ∀ c ∈ st.connections, c.south = p.1 → c.north = p.2

/-- The frame buffers of the streams that can be read. A transport that is lost while it
starts a session leaves its frame half read. -/
def Frames (st : Connector) : Prop := ∀ i, st.live i ∨ st.next ≤ i → FrameOk (st.frame i)

structure Ready (st : Connector) : Prop extends Base st where
  frames : Frames st

namespace Preserved

variable {C : Call → Connector → Prop} {I : Connector → Prop}

variable {st : Connector} {fd : Option Int}

theorem callOut (hp : Preserved C I) {i : StreamId} (hc : C (.out i) st) (hl : st.live i)
    (hi : I st) : I (callOut i st) := by
  have hq := st.pollout_handler_quiet i
  have hi0 := hp (.errors hc) hi
  unfold segment.callOut
  cases hif : (st.ep i).iface with
  | north =>
    dsimp only
    cases ho : st.pollout_handler i with
    | mk st1 failed =>
      rw [ho] at hq
      have hi1 := hp (.quiet hq) hi0
      cases failed with
      | true =>
        obtain ⟨obs, hg⟩ := north_err_handler_spec i st1
        exact hp (.transportGone (.failed st hc hl hif ho) hg) hi1
      | false => exact hi1
  | south b =>
    dsimp only
    cases ho : st.pollout_handler i with
    | mk st1 failed =>
      rw [ho] at hq
      have hi1 := hp (.quiet hq) hi0
      cases failed with
      | true =>
        obtain ⟨obs, hg⟩ := south_err_handler_spec i st1
        exact hp (.serviceGone (.failed st hc hl ho) hg) hi1
      | false =>
        dsimp only
        unfold south_state_handler
        split
        · exact hi1
        · rename_i c hfind
          split
          · rename_i hs
            obtain ⟨obs, hg⟩ := south_err_handler_spec i st1
            exact hp (.serviceGone (.closed st c hc hl ho hfind hs) hg) hi1
          · rename_i hs
            exact hp (.quiet (setRevents_quiet _ _)) (hp (.shut hc hl ho hfind hs) hi1)
          · exact hi1

variable {st0 st' : Connector} {bs : List UInt8} {failed : Bool}

theorem routeNorth (hp : Preserved C I) {t : StreamId} (hc : C (.inn t fd) st0) (hl : st0.live t)
    (hif : (st0.ep t).iface = .north) (hr : TransportRead t st0 st bs) (hi : I st)
    (h : NorthRouted t st st' failed) : I st' := by
  cases h with
  | idle => exact hi
  | refused f obs st' hf hun hd hr' => exact hp (.refused hc hl hr hf hun hd hr' hif) hi
  | opened f st' hf hun he hinit hpay ho => exact hp (.opened hc hl hif hr hf hun he hinit hpay ho) hi
  | deferred f k c st' _ _ _ _ hd => exact hp (.deferred hc hl hr hd) hi
  | delivered f k c fed st' hf hk hget hst hd => exact hp (.delivered hc hl hr hf hk hget hst hd) hi

theorem routeSouth (hp : Preserved C I) {v : StreamId} (hc : C (.inn v fd) st0) (hl : st0.live v)
    (hr : ChunkRead v st0 st bs) (hi : I st) (h : SouthRouted v st st' failed) : I st' := by
  cases h with
  | lost => exact hi
  | idle k c st' hk hget he hp' hlog hconn => exact hp (.idle hc hl hr hk hget he hp' hlog hconn) hi
  | full k c st' _ _ _ hw => exact hp (.full hc hl hr hw) hi
  | sent k c mid st' ok hk hget hwhy hs hlog hconn =>
    exact hp (.sent hc hl hr hk hget hwhy hs hlog hconn) hi

theorem callIn (hp : Preserved C I) {i : StreamId} {fd : Option Int} {st : Connector}
    (hb : Ready st) (hc : C (.inn i fd) st) (hl : st.live i) (hi : I st) : I (callIn i fd st) := by
  unfold segment.callIn
  cases hif : (st.ep i).iface with
  | north =>
    dsimp only
    obtain ⟨bs, hr⟩ := readTransport_spec i st (hb.frames i (.inl hl))
    have hi1 := hp (.frameRead hc hl hif hr) hi
    obtain ⟨hok, hnew⟩ := hr.frameOk (hb.frames i (.inl hl))
    have hroute := @route_north_spec fd _ _ hok hnew
    unfold north_pollin_handler
    generalize route_north fd i ((readTransport i st).dropInput i) = r at hroute ⊢
    obtain ⟨st2, failed⟩ := r
    have hi2 := hp.routeNorth hc hl hif hr hi1 hroute
    cases failed with
    | true =>
      obtain ⟨obs, hg⟩ := north_err_handler_spec i st2
      exact hp (.transportGone (.routed fd st _ bs hc hl hif hr hroute) hg) hi2
    | false => exact hi2
  | south b =>
    dsimp only
    obtain ⟨bs, hr⟩ := readService_spec i st (hb.chunk i)
    have hi1 := hp (.chunkRead hc hl hif hr) hi
    have hroute := @route_south_spec i ((readService i st).dropInput i)
      (by rw [hr.live]; exact hl)
    unfold south_pollin_handler
    generalize route_south i ((readService i st).dropInput i) = r at hroute ⊢
    obtain ⟨st2, failed⟩ := r
    have hi2 := hp.routeSouth hc hl hr hi1 hroute
    cases failed with
    | true =>
      obtain ⟨obs, hg⟩ := south_err_handler_spec i st2
      exact hp (.serviceGone (.routed fd st bs hc hl hr hroute) hg) hi2
    | false => exact hi2

theorem resolve (hp : Preserved C I) {j : Nat} (hb : Base st) (hc : fd = none → C (.env (.refused j)) st)
    (hi : I st) : I (resolve j fd st) := by
  unfold segment.resolve
  split
  · rename_i v t hget
    have hd : Dialed st { st with pending := st.pending.eraseIdx j } :=
      .of_eps rfl rfl rfl rfl (Nat.le_refl _) rfl
    have hs : Same st { st with pending := st.pending.eraseIdx j } := .of_eps rfl rfl rfl rfl rfl rfl
    have hi1 := hp (.dialed hd rfl (fun p hp => List.mem_of_mem_eraseIdx hp) (.inl rfl) fun _ _ => rfl) hi
    have hask := (hb.asked _ (List.mem_of_getElem? hget)).2
    generalize { st with pending := st.pending.eraseIdx j } = st1 at hi1 hs
    by_cases hl : st1.live v
    · cases fd with
      | none =>
        unfold connectCallback
        rw [if_pos hl]
        obtain ⟨obs, hg⟩ := erase_connect_spec v t st1
        exact hp (.connectLost (hc rfl) hs (by rw [hs.connections]; exact hask) hg) hi1
      | some fd =>
        refine hp (.dialed (connectCallback_dialed v t fd st1 hl) ?_ ?_ (.inl ?_)
          fun i _ => connectCallback_good v t fd st1 i) hi1
        · unfold connectCallback
          rw [if_pos hl]
          dsimp only
          split <;> rfl
        · unfold connectCallback
          rw [if_pos hl]
          dsimp only
          split <;> exact fun _ => id
        · unfold connectCallback
          rw [if_pos hl]
          dsimp only
          split <;> rfl
    · unfold connectCallback
      rw [if_neg hl]
      exact hi1
  · exact hi

theorem call (hp : Preserved C I) {c : Call} (hb : Ready st) (hc : C c st) (hi : I st) : I (call c st) := by
  unfold segment.call
  split
  · split
    · exact hp.callOut hc ‹_› hi
    · exact hi
  · split
    · exact hp.callIn hb hc ‹_› hi
    · exact hi
  · rename_i e
    unfold callEnv
    split
    · refine hp (.quiet (setTrigger_quiet _ _ _)) (hp (.dialed (.make st _ _) rfl (fun _ => id) (.inr ⟨_, hc⟩)
        fun i hi => ?_) hi)
      rw [sock_make, if_neg (Nat.ne_of_lt hi)]
    · exact hp.resolve hb.toBase (by simp) hi
    · exact hp.resolve hb.toBase (fun _ => hc) hi
    · exact hp (.pushRx hc) hi
    · exact hp (.pushTx hc) hi

end Preserved

/-! ## The base of every run -/

variable {st st' : Connector} {i t : StreamId} {obs : List Obs}

/-- No connection and no pending connect is new. -/
theorem Base.of_old (h : Base st) (hu : IdsUsed st') (hn : st.next ≤ st'.next) (hch : ∀ i, ChunkOk (st'.chunk i))
    (hc : ∀ c ∈ st'.connections, ∃ d ∈ st.connections, c.north = d.north ∧ c.south = d.south)
    (hp : ∀ p ∈ st'.pending, p ∈ st.pending) : Base st' := by
  refine ⟨hu, hch, fun c hc' => ?_, fun p hp' => ?_⟩
  · obtain ⟨d, hd, -, hs⟩ := hc c hc'
    rw [hs]
    exact Nat.lt_of_lt_of_le (h.souths d hd) hn
  · obtain ⟨h1, h2⟩ := h.asked p (hp p hp')
    refine ⟨Nat.lt_of_lt_of_le h1 hn, fun c hc' he => ?_⟩
    obtain ⟨d, hd, hno, hs⟩ := hc c hc'
    rw [hno]
    exact h2 d hd (hs ▸ he)

variable {cs cs' : List Connection} {failed : Bool} {fd : Option Int} {c : Call} {C : Call → Connector → Prop}
  {I : Connector → Prop}

theorem old_of_set {k : Nat} {c : Connection} {ty : Msgtype} (hget : cs[k]? = some c)
    (h : cs' = cs.set k (state_update c ty)) : ∀ c ∈ cs', ∃ d ∈ cs, c.north = d.north ∧ c.south = d.south := by
  intro d hd
  rw [h] at hd
  rcases List.mem_or_eq_of_mem_set hd with hd | rfl
  · exact ⟨d, hd, rfl, rfl⟩
  · exact ⟨c, List.mem_of_getElem? hget, rfl, rfl⟩

theorem old_of_eq (h : cs' = cs) : ∀ c ∈ cs', ∃ d ∈ cs, c.north = d.north ∧ c.south = d.south :=
  fun c hc => ⟨c, h ▸ hc, rfl, rfl⟩

theorem Base.of_gone {hit : Connection → Bool} {upd : Connection → Connection} {keep : Connection → Bool}
    {R : Connection → Obs → Prop} (h : Base st) (hg : Gone i hit upd keep R st st' obs)
    (hupd : ∀ c, (upd c).north = c.north ∧ (upd c).south = c.south) : Base st' := by
  refine h.of_old (hg.used h.used) (Nat.le_of_eq hg.next.symm) (fun j => by rw [hg.chunk]; exact h.chunk j)
    (fun c hc => ?_) (fun p hp => hg.pending ▸ hp)
  rw [hg.connections, List.mem_filter, List.mem_map] at hc
  obtain ⟨⟨d, hd, rfl⟩, -⟩ := hc
  refine ⟨d, hd, ?_⟩
  split
  · exact hupd d
  · exact ⟨rfl, rfl⟩

/-- The chunk buffer of `v` may be new. -/
theorem chunkOk_of_others {v : StreamId} (h : ∀ i, ChunkOk (st.chunk i)) (hv : ChunkOk (st'.chunk v))
    (ho : ∀ i, i ≠ v → st'.chunk i = st.chunk i) : ∀ i, ChunkOk (st'.chunk i) := by
  intro i
  by_cases hi : i = v
  · rw [hi]
    exact hv
  · rw [ho i hi]
    exact h i

theorem base_preserved (C : Call → Connector → Prop) : Preserved C Base := by
  intro st st' act h
  have same : Same st st' → st'.pending = st.pending → Base st' := fun hs hp =>
    h.of_old (h.used.of_same hs) (Nat.le_of_eq hs.next.symm) (fun i => by rw [hs.chunk]; exact h.chunk i)
      (old_of_eq hs.connections) (fun p hp' => hp ▸ hp')
  cases act with
  | quiet hq => exact same hq.same hq.keeps.pending
  | errors => exact same (.takeErrors st _) (st.takeErrors_pending _)
  | frameRead _ _ _ hr =>
    exact h.of_old (h.used.of_live hr.next fun i hi => by rwa [hr.live] at hi) (Nat.le_of_eq hr.next.symm)
      (fun i => by rw [hr.chunk]; exact h.chunk i) (old_of_eq hr.connections) fun p hp => hr.pending ▸ hp
  | chunkRead _ _ _ hr =>
    exact h.of_old (h.used.of_live hr.next fun i hi => by rwa [hr.live] at hi) (Nat.le_of_eq hr.next.symm)
      (chunkOk_of_others h.chunk (hr.chunked.chunkOk (h.chunk _)) hr.others) (old_of_eq hr.connections)
      fun p hp => hr.pending ▸ hp
  | refused _ _ _ _ _ hd _ =>
    exact h.of_old (h.used.of_keeps hd.keeps) (Nat.le_of_eq hd.keeps.next.symm)
      (fun i => by rw [hd.chunk]; exact h.chunk i) (old_of_eq hd.connections)
      fun p hp => hd.keeps.pending ▸ hp
  | @opened t fd st0 _ _ bs f _ _ _ _ _ _ _ _ _ ho =>
    have hlt : st.next < st'.next := by rw [ho.next]; exact Nat.lt_succ_self _
    refine ⟨fun i hi => ?_, fun i => by rw [ho.chunk]; exact h.chunk i, fun c hc => ?_, fun p hp => ?_⟩
    · rw [ho.live] at hi
      split at hi
      · rename_i heq
        rw [heq]
        exact hlt
      · exact Nat.lt_trans (h.used i hi) hlt
    · rw [ho.connections, List.mem_append, List.mem_singleton] at hc
      rcases hc with hc | rfl
      · exact Nat.lt_trans (h.souths c hc) hlt
      · exact hlt
    · -- an old request is not for the new stream, and the new stream has one connection
      rcases ho.pending p hp with hp | rfl
      · obtain ⟨h1, h2⟩ := h.asked p hp
        refine ⟨Nat.lt_trans h1 hlt, fun c hc he => ?_⟩
        rw [ho.connections, List.mem_append, List.mem_singleton] at hc
        rcases hc with hc | rfl
        · exact h2 c hc he
        · exact absurd he (Nat.ne_of_gt h1)
      · refine ⟨hlt, fun c hc he => ?_⟩
        rw [ho.connections, List.mem_append, List.mem_singleton] at hc
        rcases hc with hc | rfl
        · exact absurd he (Nat.ne_of_lt (h.souths c hc))
        · rfl
  | deferred _ _ _ hd =>
    exact h.of_old (h.used.of_keeps hd.keeps) (Nat.le_of_eq hd.keeps.next.symm)
      (fun i => by rw [hd.chunk]; exact h.chunk i) (old_of_eq hd.connections)
      fun p hp => hd.keeps.pending ▸ hp
  | delivered _ _ _ _ _ hget _ hd =>
    exact h.of_old (h.used.of_live hd.next fun i hi => by rwa [hd.live] at hi) (Nat.le_of_eq hd.next.symm)
      (fun i => by rw [hd.chunk]; exact h.chunk i) (old_of_set hget hd.connections)
      fun p hp => hd.pending ▸ hp
  | idle _ _ _ _ hget _ _ hl hc =>
    exact h.of_old (h.used.of_keeps hl.keeps) (Nat.le_of_eq hl.keeps.next.symm)
      (fun i => by rw [hl.chunk]; exact h.chunk i) (old_of_set hget hc)
      fun p hp => hl.keeps.pending ▸ hp
  | full _ _ _ hw =>
    exact h.of_old (h.used.of_keeps hw.keeps) (Nat.le_of_eq hw.keeps.next.symm)
      (chunkOk_of_others h.chunk (by rw [hw.chunk]; exact fun _ => rfl) hw.others)
      (old_of_eq hw.connections) fun p hp => hw.keeps.pending ▸ hp
  | sent _ _ _ _ hget _ hs hl hc =>
    have hk := hs.keeps.trans hl.keeps
    exact h.of_old (h.used.of_keeps hk) (Nat.le_of_eq hk.next.symm)
      (chunkOk_of_others h.chunk (by rw [hl.chunk]; exact hs.ok (h.chunk _))
        fun i hi => by rw [hl.chunk, hs.others i hi])
      (old_of_set hget hc) fun p hp => hk.pending ▸ hp
  | transportGone _ hg => exact h.of_gone hg fun _ => ⟨rfl, rfl⟩
  | serviceGone _ hg => exact h.of_gone hg fun _ => ⟨rfl, rfl⟩
  | shut => exact ⟨h.used, h.chunk, h.souths, h.asked⟩
  | dialed hd _ hp =>
    exact h.of_old (hd.used h.used) hd.effect.next (fun i => by rw [hd.chunk]; exact h.chunk i)
      (old_of_eq hd.connections) hp
  | connectLost _ _ _ hg => exact h.of_gone hg fun _ => ⟨rfl, rfl⟩
  | pushRx => exact same (.pushRx st _ _) rfl
  | pushTx => exact same (.pushTx st _ _) rfl

/-! ## The frame buffers

They are looked at from call to call, since a transport may be erased with a frame that
is half read. -/

theorem Frames.of_effect (h : Frames st) (he : Effect st st' obs)
    (hf : ∀ i, st'.live i ∨ st'.next ≤ i → FrameOk (st'.frame i) ∨ st'.frame i = st.frame i) : Frames st' := by
  intro i hi
  rcases hf i hi with hok | heq
  · exact hok
  · rw [heq]
    refine h i ?_
    rcases hi with hi | hi
    · exact he.live i hi
    · exact .inr (Nat.le_trans he.next hi)

theorem Frames.of_same (h : Frames st) (he : Effect st st' obs)
    (hf : ∀ i, st'.frame i = st.frame i) : Frames st' := h.of_effect he fun i _ => .inr (hf i)

/-- Only the frame of `t` is new. -/
theorem Frames.of_frame (h : Frames st) (he : Effect st st' obs) (ht : FrameOk (st'.frame t))
    (hf : ∀ i, i ≠ t → st'.frame i = st.frame i) : Frames st' := h.of_effect he fun i _ => by
  by_cases hi : i = t
  · rw [hi]
    exact .inl ht
  · exact .inr (hf i hi)

theorem callOut_frames (h : Frames st) : Frames (callOut i st) := by
  have hq := st.pollout_handler_quiet i
  have h1 : Frames (st.pollout_handler i).1 :=
    (h.of_same (st.takeErrors_effect i) (Same.takeErrors st i).frame).of_same hq.effect hq.frame
  have hnorth : ∀ a, Frames a → Frames (north_err_handler i a) := fun a ha => by
    obtain ⟨obs, hg⟩ := north_err_handler_spec i a
    exact ha.of_same hg.effect hg.frame
  have hsouth : ∀ a, Frames a → Frames (south_err_handler i a) := fun a ha => by
    obtain ⟨obs, hg⟩ := south_err_handler_spec i a
    exact ha.of_same hg.effect hg.frame
  unfold callOut
  generalize st.pollout_handler i = r at h1 ⊢
  obtain ⟨st1, failed⟩ := r
  split
  · cases failed with
    | true => exact hnorth st1 h1
    | false => exact h1
  · cases failed with
    | true => exact hsouth st1 h1
    | false =>
      dsimp only
      unfold south_state_handler
      split
      · exact h1
      · split
        · exact hsouth st1 h1
        · have h2 : Frames (st1.setRevents (st1.revents.union Mask.POLLHUP)) := h1
          exact h2.of_same (shutdown_effect _ _) fun _ => rfl
        · exact h1

theorem NorthRouted.next (h : NorthRouted t st st' failed) : st.next ≤ st'.next := by
  cases h with
  | idle => exact Nat.le_refl _
  | refused f obs st' _ _ hd _ => exact hd.effect.next
  | opened f st' _ _ _ _ _ ho => exact ho.effect.next
  | deferred f k c st' _ _ _ _ hd => exact hd.effect.next
  | delivered f k c fed st' _ _ _ _ hd => exact hd.effect.next

/-- A transport that is not erased is left with a frame that is not half read. -/
theorem routed_frames (h : Frames st) (hok : FrameOk (st.frame t)) (hr : NorthRouted t st st' failed) :
    (∀ i, i ≠ t → st'.live i ∨ st'.next ≤ i → FrameOk (st'.frame i)) ∧
      (failed = false → Frames st') := by
  have whole : Frames st' → (∀ i, i ≠ t → st'.live i ∨ st'.next ≤ i → FrameOk (st'.frame i)) ∧
      (failed = false → Frames st') := fun hs => ⟨fun i _ => hs i, fun _ => hs⟩
  cases hr with
  | idle => exact whole h
  | refused f obs st' _ _ hd _ =>
    exact whole (h.of_frame hd.effect (.of_marked (hd.frame.1.trans hok.fail) hd.frame.2) hd.others)
  | opened f st' _ _ _ _ _ ho =>
    refine ⟨fun i hi hl => ?_, fun hb => h.of_frame ho.effect (.of_marked ho.fail (ho.marked hb)) ho.others⟩
    rw [ho.others i hi]
    exact h i (hl.elim (ho.effect.live i) fun hn => .inr (Nat.le_trans ho.effect.next hn))
  | deferred f k c st' _ _ _ _ hd => exact whole (h.of_frame hd.effect hd.frame.1 hd.others)
  | delivered f k c fed st' _ _ _ _ hd =>
    exact whole (h.of_frame hd.effect (.of_marked hd.frame.1 hd.frame.2) hd.others)

theorem callIn_frames (h : Ready st) (hl : st.live i) : Frames (callIn i fd st) := by
  unfold callIn
  split
  · obtain ⟨bs, hr⟩ := readTransport_spec i st (h.frames i (.inl hl))
    obtain ⟨hok, hnew⟩ := hr.frameOk (h.frames i (.inl hl))
    have h1 := h.frames.of_frame hr.effect hok hr.others
    have hroute := @route_north_spec fd _ _ hok hnew
    have hlt : i < ((readTransport i st).dropInput i).next := by rw [hr.next]; exact h.used i hl
    unfold north_pollin_handler
    have hnext : ((readTransport i st).dropInput i).next ≤
        (route_north fd i ((readTransport i st).dropInput i)).1.next := hroute.next
    generalize route_north fd i ((readTransport i st).dropInput i) = r at hroute hnext ⊢
    obtain ⟨st2, failed⟩ := r
    obtain ⟨hothers, hall⟩ := routed_frames h1 hok hroute
    cases failed with
    | false => exact hall rfl
    | true =>
      obtain ⟨obs, hg⟩ := north_err_handler_spec i st2
      intro j hj
      rw [hg.live, hg.next] at hj
      rw [hg.frame]
      have hne : j ≠ i := by
        rintro rfl
        rw [if_pos rfl] at hj
        rcases hj with hj | hj
        · cases hj
        · exact absurd (Nat.lt_of_lt_of_le hlt hnext) (Nat.not_lt.mpr hj)
      rw [if_neg hne] at hj
      exact hothers j hne hj
  · obtain ⟨bs, hr⟩ := readService_spec i st (h.chunk i)
    have h1 := h.frames.of_same hr.effect hr.frame
    have hroute := @route_south_spec i ((readService i st).dropInput i)
      (by rw [hr.live]; exact hl)
    unfold south_pollin_handler
    generalize route_south i ((readService i st).dropInput i) = r at hroute ⊢
    obtain ⟨st2, failed⟩ := r
    have h2 : Frames st2 := by
      cases hroute with
      | lost => exact h1
      | idle k c st' _ _ _ _ hlog _ => exact h1.of_same hlog.effect hlog.frame
      | full k c st' _ _ _ hw => exact h1.of_same hw.effect hw.frame
      | sent k c mid st' ok _ _ _ hs hlog _ =>
        exact (h1.of_same hs.effect hs.frame).of_same hlog.effect hlog.frame
    cases failed with
    | true =>
      obtain ⟨obs, hg⟩ := south_err_handler_spec i st2
      exact h2.of_same hg.effect hg.frame
    | false => exact h2

theorem resolve_frames {j : Nat} (h : Frames st) : Frames (resolve j fd st) := by
  unfold resolve
  split
  · rename_i v t _
    have h1 : Frames { st with pending := st.pending.eraseIdx j } := h
    generalize { st with pending := st.pending.eraseIdx j } = st1 at h1
    by_cases hl : st1.live v
    · cases fd with
      | none =>
        unfold connectCallback
        rw [if_pos hl]
        obtain ⟨obs, hg⟩ := erase_connect_spec v t st1
        exact h1.of_same hg.effect hg.frame
      | some fd =>
        have hd := connectCallback_dialed v t fd st1 hl
        exact h1.of_same hd.effect hd.frame
    · unfold connectCallback
      rw [if_neg hl]
      exact h1
  · exact h

theorem call_frames (h : Ready st) : Frames (call c st) := by
  unfold call
  split
  · split
    · exact callOut_frames h.frames
    · exact h.frames
  · split
    · exact callIn_frames h ‹_›
    · exact h.frames
  · unfold callEnv
    split
    · have hd := Dialed.make st Iface.north (by assumption)
      exact (h.frames.of_same hd.effect hd.frame).of_same (setTrigger_quiet _ _ _).effect fun _ => rfl
    · exact resolve_frames h.frames
    · exact resolve_frames h.frames
    · exact fun i hi => by
        have hs := Same.pushRx st
        rw [(hs _ _).frame]
        exact h.frames i (by rwa [(hs _ _).live] at hi)
    · exact fun i hi => by
        have hs := Same.pushTx st
        rw [(hs _ _).frame]
        exact h.frames i (by rwa [(hs _ _).live] at hi)

theorem call_ready (h : Ready st) : Ready (call c st) :=
  ⟨(base_preserved fun _ _ => True).call h trivial h.toBase, call_frames h⟩

/-! ## Runs -/

/-- The states of the runs whose calls all meet the condition `C`. -/
inductive Run (C : Call → Connector → Prop) : Connector → Prop
  | init (mode : Mode) : Run C { mode := mode }
  | step {st : Connector} (ev : Event) : Run C st → (∀ p ∈ calls ev st, C p.1 p.2) →
      Run C (handle ev st)

/-- The state after the events `evs`. -/
def play (evs : List Event) (st : Connector) : Connector := evs.foldl (fun st ev => handle ev st) st

/-- All calls of the events `evs` meet the condition `C`. -/
def Meets (C : Call → Connector → Prop) : List Event → Connector → Prop
  | [], _ => True
  | ev :: evs, st => (∀ p ∈ calls ev st, C p.1 p.2) ∧ Meets C evs (handle ev st)

instance Meets.decidable {C : Call → Connector → Prop} [∀ c st, Decidable (C c st)] :
    ∀ (evs : List Event) (st : Connector), Decidable (Meets C evs st)
  | [], _ => isTrue trivial
  | ev :: evs, st =>
    have := Meets.decidable (C := C) evs (handle ev st)
    inferInstanceAs (Decidable (_ ∧ _))

theorem Run.after {C : Call → Connector → Prop} {evs : List Event} {st : Connector} (hr : Run C st)
    (h : Meets C evs st) : Run C (play evs st) := by
  induction evs generalizing st with
  | nil => exact hr
  | cons ev evs ih => exact ih (hr.step ev h.1) h.2

/-- Without a condition every run is one. -/
theorem Run.of_events (evs : List Event) (mode : Mode) :
    Run (fun _ _ => True) (play evs { mode := mode }) := by
  have h : ∀ st, Meets (fun _ _ => True) evs st := by
    induction evs with
    | nil => exact fun _ => trivial
    | cons ev evs ih => exact fun st => ⟨fun _ _ => trivial, ih _⟩
  exact (Run.init mode).after (h _)

theorem enter_ready {m : Mask} (h : Ready st) : Ready (st.enter i m) := by
  have hq := st.enter_quiet i m
  exact ⟨base_preserved (fun _ _ => True) (.quiet hq) h.toBase, h.frames.of_same hq.effect hq.frame⟩

/-- What the acts keep holds after the POLLOUT part of an event. -/
theorem Preserved.afterOut {C : Call → Connector → Prop} {I : Connector → Prop} (hp : Preserved C I)
    {i : StreamId} {m : Mask} {fd : Option Int} {st : Connector} (hr : Ready st) (hi : I st)
    (hc : ∀ p ∈ calls (.poll i m fd) st, C p.1 p.2) :
    I (afterOut i (st.enter i m)) ∧ Ready (afterOut i (st.enter i m)) := by
  have hi0 := hp (.quiet (st.enter_quiet i m)) hi
  have hr0 := enter_ready (i := i) (m := m) hr
  unfold segment.afterOut
  split
  · rename_i hout
    have hc0 := hc (.out i, st.enter i m) (by simp [calls, hout])
    exact ⟨hp.call hr0 hc0 hi0, call_ready hr0⟩
  · exact ⟨hi0, hr0⟩

/-- What the acts keep holds when a call is made. -/
theorem Preserved.called (hp : Preserved C I) {ev : Event} (hr : Ready st) (hi : I st)
    (hc : ∀ p ∈ calls ev st, C p.1 p.2) {p : Call × Connector} (hmem : p ∈ calls ev st) : I p.2 ∧ Ready p.2 := by
  cases ev with
  | poll i m fd =>
    unfold calls at hmem
    dsimp only at hmem
    rcases List.mem_append.mp hmem with hmem | hmem
    · split at hmem
      · rw [List.mem_singleton.mp hmem]
        exact ⟨hp (.quiet (st.enter_quiet i m)) hi, enter_ready hr⟩
      · cases hmem
    · split at hmem
      · rw [List.mem_singleton.mp hmem]
        exact hp.afterOut hr hi hc
      · cases hmem
  | env e =>
    rw [List.mem_singleton.mp hmem]
    exact ⟨hi, hr⟩

theorem Preserved.handle {C : Call → Connector → Prop} {I : Connector → Prop} (hp : Preserved C I)
    {ev : Event} {st : Connector} (hr : Ready st) (hi : I st)
    (hc : ∀ p ∈ calls ev st, C p.1 p.2) : I (handle ev st) ∧ Ready (handle ev st) := by
  cases ev with
  | poll i revents fd =>
    have h1 := hp.afterOut hr hi hc
    unfold segment.handle
    dsimp only
    split
    · rename_i hin
      have hc1 := hc (.inn i fd, segment.afterOut i (st.enter i revents)) (by simp [calls, hin])
      exact ⟨hp.call h1.2 hc1 h1.1, call_ready h1.2⟩
    · exact h1
  | env e =>
    have hc0 := hc (.env e, st) (by simp [calls])
    exact ⟨hp.call hr hc0 hi, call_ready (c := .env e) hr⟩

theorem ready_init (mode : Mode) : Ready { mode := mode } :=
  ⟨⟨fun _ => nofun, fun _ _ => rfl, nofun, nofun⟩, fun _ _ => ⟨rfl, fun _ => Nat.zero_le _⟩⟩

/-- What the acts keep holds in every state of a run. -/
theorem Preserved.run (hp : Preserved C I) (h0 : ∀ mode, I { mode := mode }) (hr : Run C st) : I st ∧ Ready st := by
  induction hr with
  | init mode => exact ⟨h0 mode, ready_init mode⟩
  | step ev _ hc ih => exact hp.handle ih.2 ih.1 hc

end cloudbus.segment
