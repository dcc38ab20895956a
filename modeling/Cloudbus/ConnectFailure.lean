-- What happens when the address of a backend or of the service is not found. The
-- callback of the controller erases the client that asked, and removes the
-- connections of one transport only: a session over several backends is left
-- behind, and its next callback erases a client that is gone.
import Cloudbus.Orphans

namespace cloudbus.controller

open cloudbus.io cloudbus.messages Connector

variable {C : Call → Connector → Prop}

/-- The client `n` waits for a transport that is there. -/
def Dialing (n : StreamId) (st : Connector) : Prop := ∃ p ∈ st.pending, p.2 = n ∧ st.live p.1

instance (n : StreamId) (st : Connector) : Decidable (Dialing n st) :=
  inferInstanceAs (Decidable (∃ p ∈ st.pending, p.2 = n ∧ st.live p.1))

/-- A client is not closed while it waits for a connect, and a connect that fails is for the
one transport of its session. -/
def WaitsAlone : Call → Connector → Prop
  | .out n, st => Dialing n st →
      (st.pollout_handler n).2 = false ∧ session_state n st.connections ≠ .CLOSED
  | .inn n o, st => Dialing n st → o.eid ≠ Uuid.nil
  | .env (.refused j), st => ∀ p ∈ st.pending[j]?, st.live p.1 →
      (∀ c ∈ st.connections, c.north = p.2 → c.south = p.1) ∧
        ∀ q ∈ st.pending.eraseIdx j, q.2 = p.2 → st.live q.1 = false
  | .env _, _ => True

instance (c : Call) (st : Connector) : Decidable (WaitsAlone c st) :=
  match c with
  | .out _ => inferInstanceAs (Decidable (_ → _))
  | .inn _ _ => inferInstanceAs (Decidable (_ → _))
  | .env (.refused j) => inferInstanceAs (Decidable (∀ p ∈ st.pending[j]?, st.live p.1 →
      (∀ c ∈ st.connections, c.north = p.2 → c.south = p.1) ∧
        ∀ q ∈ st.pending.eraseIdx j, q.2 = p.2 → st.live q.1 = false))
  | .env (.accept _) => isTrue trivial
  | .env (.connected _ _) => isTrue trivial
  | .env (.timeout _) => isTrue trivial
  | .env (.rx _ _) => isTrue trivial
  | .env (.tx _ _) => isTrue trivial

/-- The callback of the connect at `j` erases a client that is not in its interface: what
`erase_connect` finds is `end()`. -/
def ErasesEnd (j : Nat) (st : Connector) : Prop :=
  ∃ p ∈ st.pending[j]?, st.live p.1 ∧ st.live p.2 = false

/-! ## The clients that wait -/

/-- The client of a pending connect is there as long as its transport is. -/
structure Waited (st : Connector) : Prop where
  used : ∀ p ∈ st.pending, p.1 < st.next ∧ p.2 < st.next
  client : ∀ p ∈ st.pending, (st.ep p.2).iface = .north
  live : ∀ p ∈ st.pending, st.live p.1 → st.live p.2

variable {st st' : Connector} {n s : StreamId}

/-- No connect is new, and no client that waits is erased. -/
theorem Waited.of_old (h : Waited st) (hg : Grows st st') (hp : ∀ p ∈ st'.pending, p ∈ st.pending)
    (hl : ∀ p ∈ st'.pending, st'.live p.1 → st.live p.2 → st'.live p.2) : Waited st' := by
  refine ⟨fun p hmem => ?_, fun p hmem => ?_, fun p hmem hlive => ?_⟩
  · have := h.used p (hp p hmem)
    exact ⟨Nat.lt_of_lt_of_le this.1 hg.next, Nat.lt_of_lt_of_le this.2 hg.next⟩
  · rw [hg.iface p.2 (h.used p (hp p hmem)).2]
    exact h.client p (hp p hmem)
  · have hwas := hg.was_live (h.used p (hp p hmem)).1 hlive
    exact hl p hmem hlive (h.live p (hp p hmem) hwas)

theorem Waited.of_keeps (h : Waited st) (hg : Grows st st') (hk : Keeps st st') : Waited st' :=
  h.of_old hg (fun p hp => hk.pending ▸ hp) fun p _ _ hl => by rwa [hk.live]

theorem Waited.of_same (h : Waited st) (hs : Same st st') (hp : st'.pending = st.pending) : Waited st' :=
  h.of_old hs.grows (fun p hmem => hp ▸ hmem) fun p _ _ hl => by rwa [hs.live]

theorem SouthRouted.grows {failed : Bool} (h : SouthRouted s st st' failed) : Grows st st' := by
  cases h with
  | idle => exact (Same.refl st).grows
  | refused _ _ _ _ hd => exact hd.effect.grows
  | orphan _ _ _ _ _ _ _ _ _ hd => exact hd.effect.grows
  | deferred _ _ _ _ _ _ _ _ hd => exact hd.effect.grows
  | delivered _ _ _ _ _ _ _ _ _ _ _ _ hd => exact hd.effect.grows

/-- A transport that is erased is no client. -/
theorem TransportCause.iface (h : TransportCause C s st) (hu : IdsUsed st) : (st.ep s).iface ≠ .north := by
  cases h with
  | failed st0 _ hl hif ho =>
    have hsame := Same.pollout ho
    have hlt := hu s (by rw [hsame.live]; exact hl)
    rw [hsame.iface s (hsame.next ▸ hlt)]
    exact hif
  | ended o st0 st1 bs _ hl hif hr hroute =>
    have hlt : s < st.next := hu s (by rw [hroute.keeps.live, hr.live]; exact hl)
    rw [hroute.keeps.next] at hlt
    rw [hroute.grows.iface s hlt, hr.effect.iface s (hr.next ▸ hlt)]
    exact hif

/-- The connects of a new session are for its client, which is there. -/
theorem Waited.of_opened {eid : Uuid} {cs : List Connection} {obs : List Obs} (h : Waited st) (hs : Sound st)
    (hg : Grows st st') (hr : Routing C n st) (ho : Opened n eid st st' cs obs) : Waited st' := by
  obtain ⟨st1, hd, hk, -⟩ := ho.dials
  have hn : n < st.next := hs.used n hr.live
  have hmono : ∀ i, st.live i → st'.live i := fun i hi => by
    rw [hk.live]
    exact hd.dialed.live i hi
  have hused : IdsUsed st' := (hd.dialed.used hs.used).of_keeps hk
  have hnew : ∀ p ∈ st'.pending, p ∈ st.pending ∨ p.2 = n ∧ st'.live p.1 := by
    intro p hp
    rw [hk.pending] at hp
    refine (hd.pending p hp).imp_right fun hp => ⟨hp.1, ?_⟩
    rw [hk.live]
    exact hp.2
  refine ⟨fun p hp => ?_, fun p hp => ?_, fun p hp hl => ?_⟩ <;>
    rcases hnew p hp with hold | ⟨hpn, hpl⟩
  · have := h.used p hold
    exact ⟨Nat.lt_of_lt_of_le this.1 hg.next, Nat.lt_of_lt_of_le this.2 hg.next⟩
  · exact ⟨hused _ hpl, hpn ▸ Nat.lt_of_lt_of_le hn hg.next⟩
  · rw [hg.iface _ (h.used p hold).2]
    exact h.client p hold
  · rw [hpn, hg.iface n hn]
    exact hr.iface hn
  · exact hmono _ (h.live p hold (hg.was_live (h.used p hold).1 hl))
  · rw [hpn]
    exact hmono n hr.live

/-- A client that waits is not closed. -/
theorem ClientCause.not_dialing (h : ClientCause WaitsAlone n st) : ¬ Dialing n st := by
  rintro ⟨p, hp, hn, hl⟩
  cases h with
  | failed st0 hc _ _ ho =>
    rw [(Same.pollout ho).live] at hl
    rw [pollout_pending _ _ ho] at hp
    have := (hc ⟨p, hp, hn, hl⟩).1
    rw [ho] at this
    cases this
  | closed st0 hc _ _ ho hclosed =>
    rw [(Same.pollout ho).live] at hl
    rw [pollout_pending _ _ ho] at hp
    rw [(Same.pollout ho).connections] at hclosed
    exact (hc ⟨p, hp, hn, hl⟩).2 hclosed
  | noEid o st0 st1 bs hc _ hr hq _ hnil =>
    rw [hq.live, hr.live] at hl
    rw [hq.keeps.pending, hr.pending] at hp
    exact hc ⟨p, hp, hn, hl⟩ hnil

theorem waited_lawful : Lawful WaitsAlone Waited := by
  intro st st' obs act hs _ h
  have hg := act.grows
  cases act with
  | quiet hq => exact h.of_keeps hg hq.keeps
  | errors => exact h.of_same (.takeErrors st _) (takeErrors_pending st _)
  | clientRead _ _ _ hr =>
    exact h.of_old hg (fun p hp => hr.pending ▸ hp) fun p _ _ hl => by rwa [hr.live]
  | transportRead _ _ _ hr =>
    exact h.of_old hg (fun p hp => hr.pending ▸ hp) fun p _ _ hl => by rwa [hr.live]
  | sentAll _ _ _ _ _ hsent => exact h.of_keeps hg hsent.keeps
  | opened hc hl hif hr _ _ _ hq ho _ => exact h.of_opened hs hg ⟨_, _, _, _, hc, hl, hif, hr, hq⟩ ho
  | refused _ _ _ _ _ hd _ => exact h.of_keeps hg hd.keeps
  | orphan _ _ _ _ _ _ _ _ hd => exact h.of_keeps hg hd.keeps
  | deferred _ _ _ hd => exact h.of_keeps hg hd.keeps
  | delivered _ _ _ _ _ _ _ _ _ hd => exact h.of_keeps hg hd.keeps
  | clientGone hcause hgone =>
    refine h.of_old hg (fun p hp => hgone.pending ▸ hp) fun p hp hlive hl => ?_
    rw [hgone.pending] at hp
    rw [hgone.live] at hlive ⊢
    split at hlive
    · cases hlive
    · rw [if_neg (fun he => hcause.not_dialing ⟨p, hp, he, hlive⟩)]
      exact hl
  | transportGone hcause hgone =>
    refine h.of_old hg (fun p hp => hgone.pending ▸ hp) fun p hp _ hl => ?_
    rw [hgone.pending] at hp
    have hclient := h.client p hp
    rw [hgone.live, if_neg]
    · exact hl
    · intro he
      rw [he] at hclient
      exact hcause.iface hs.used hclient
  | shut => exact h.of_keeps hg (.note st _)
  | dialed hd _ hp => exact h.of_old hg hp fun p _ _ hl => hd.live p.2 hl
  | connectLost hc hsame hj hl hpend hlost =>
    refine h.of_old hg (fun p hp => hlost.pending ▸ hp) fun p hp hlive hl' => ?_
    rw [hlost.pending, hpend] at hp
    rw [hlost.live] at hlive ⊢
    split at hlive
    · cases hlive
    · -- the client of the connect that failed waits for no other one
      rw [hsame.live] at hl
      have halone := (hc _ hj hl).2 p hp
      rw [← hsame.live] at halone
      rw [if_neg (fun he => by rw [halone he] at hlive; cases hlive)]
      exact hl'
  | pushRx => exact h.of_same (.pushRx st _ _) rfl
  | pushTx => exact h.of_same (.pushTx st _ _) rfl

/-! ## A client that is gone -/

/-- The client `n` is gone, and no connection refers to it. -/
structure Forgotten (n : StreamId) (st : Connector) : Prop where
  used : n < st.next
  live : st.live n = false
  conns : ∀ c ∈ st.connections, c.north ≠ n

theorem forgotten_lawful (n : StreamId) : Lawful C (Forgotten n) := by
  intro st st' obs act hs ht h
  have hg := act.grows
  refine ⟨Nat.lt_of_lt_of_le h.used hg.next, hg.gone h.used h.live, fun c hc => ?_⟩
  rcases (ht.turn c hc).origin with ⟨d, hd, _, rfl, -⟩ | ⟨-, -, hr, -⟩
  · exact h.conns d hd
  · rintro rfl
    have := hr.live
    rw [h.live] at this
    cases this

/-- Nothing that happens later brings it back. -/
theorem Forgotten.play (hr : Run (fun _ _ => True) st) (h : Forgotten n st)
    (evs : List Event) : Forgotten n (play evs st) := by
  induction evs generalizing st with
  | nil => exact h
  | cons ev evs ih =>
    exact ih (hr.step ev fun _ _ => trivial)
      ((forgotten_lawful n).handle hr (fun _ _ => trivial) h)

/-- The callback of a connect that fails. -/
theorem resolve_none {j : Nat} (hj : st.pending[j]? = some (s, n)) (hl : st.live s) :
    resolve j none st = erase_connect s n { st with pending := st.pending.eraseIdx j } := by
  unfold resolve
  rw [hj]
  dsimp only
  unfold connectCallback
  rw [if_pos (show ({ st with pending := st.pending.eraseIdx j } : Connector).live s from hl)]

end cloudbus.controller

namespace cloudbus.segment

open cloudbus.io cloudbus.messages Connector

variable {C : Call → Connector → Prop}

/-! ## A connect that fails at once

When the addresses of the service are known, `register_connect` runs the callback before it
returns. The stream that `_north_connect` goes on with is erased then, and its connection is
not in the table yet. -/

/-- `_north_connect` when the callback fails inside `register_connect`. The reference to the
stream dangles afterwards; here it still names the stream that was erased. -/
def north_connect_refused (t : StreamId) (f : Frame) (st : Connector) : Connector × Option Bool :=
  let v := st.next
  let c := newConn t f st
  let st := erase_connect v t (st.make (.south 0) BAD_SOCKET)
  north_write t v c.cid
    { st with
      connections := st.connections ++ [c]
      ncid := st.ncid + 1
      log := st.log ++ [.opened v c.cid, .got (some c.cid) t f.eid f.type f.payload] }

/-- What a connect that fails should leave: one ABORT for the session on its transport, no
service stream and no connection with its eid. -/
structure Refused (t v : StreamId) (eid : Uuid) (st st' : Connector) : Prop where
  sent : (st'.sock t).written = (st.sock t).written ++ abortBytes eid
  gone : st'.live v = false
  conns : ∀ c ∈ st'.connections, c.north = t → c.uuid ≠ eid

/-! ## A connect that fails later -/

/-- A service stream that waits for its address has its connection in the table. -/
def Answered (st : Connector) : Prop :=
  ∀ p ∈ st.pending, st.live p.1 → ∃ c ∈ st.connections, c.south = p.1

variable {st : Connector}

/-- No connect is new, and the service streams of the table are as they were. -/
theorem Answered.of_souths {st' : Connector} (h : Answered st) (hs : Sound st) (hg : Grows st st')
    (hp : ∀ p ∈ st'.pending, p ∈ st.pending)
    (hc : st'.connections.map (·.south) = st.connections.map (·.south)) : Answered st' := by
  intro p hmem hl
  have hwas := hg.was_live (hs.asked p (hp p hmem)).1 hl
  obtain ⟨c, hc', he⟩ := h p (hp p hmem) hwas
  have : p.1 ∈ st'.connections.map (·.south) := by
    rw [hc, ← he]
    exact List.mem_map_of_mem hc'
  exact List.mem_map.mp this

/-- A connection is removed with its service stream, or after it. -/
theorem Answered.of_gone {i : StreamId} {hit : Connection → Bool} {upd : Connection → Connection}
    {keep : Connection → Bool} {R : Connection → Obs → Prop} {st' : Connector} {obs : List Obs} (h : Answered st)
    (hg : Gone i hit upd keep R st st' obs) (hupd : ∀ c, (upd c).south = c.south)
    (hkeep : ∀ c ∈ st.connections, st'.live c.south → keep (if hit c then upd c else c)) : Answered st' := by
  intro p hmem hl
  rw [hg.pending] at hmem
  have hwas : st.live p.1 := by
    rw [hg.live] at hl
    split at hl
    · cases hl
    · exact hl
  obtain ⟨c, hc, he⟩ := h p hmem hwas
  refine ⟨if hit c then upd c else c, ?_, ?_⟩
  · rw [hg.connections, List.mem_filter]
    exact ⟨List.mem_map.mpr ⟨c, hc, rfl⟩, hkeep c hc (he ▸ hl)⟩
  · rw [← he]
    split
    · exact hupd c
    · rfl

theorem answered_lawful : Lawful C Answered := by
  intro st st' obs act hs _ h
  have hg := act.grows
  have same : ∀ {a : Connector}, Grows st a → a.pending = st.pending →
      a.connections = st.connections → Answered a := fun hg hp hc =>
    h.of_souths hs hg (fun p hm => hp ▸ hm) (by rw [hc])
  have set : ∀ {a : Connector} {k : Nat} {c : Connection} {ty : Msgtype}, Grows st a →
      a.pending = st.pending → st.connections[k]? = some c →
      a.connections = st.connections.set k (state_update c ty) → Answered a := by
    intro a k c ty hg hp hget hc
    refine h.of_souths hs hg (fun p hm => hp ▸ hm) ?_
    rw [hc]
    exact Loop.map_set_self _ hget rfl
  cases act with
  | quiet hq => exact same hg hq.keeps.pending hq.connections
  | errors => exact same hg (takeErrors_pending st _) (Same.takeErrors st _).connections
  | frameRead _ _ _ hr => exact same hg hr.pending hr.connections
  | chunkRead _ _ _ hr => exact same hg hr.pending hr.connections
  | refused _ _ _ _ _ hd _ => exact same hg hd.keeps.pending hd.connections
  | @opened t _ _ _ _ _ f _ _ _ _ _ _ _ _ _ ho =>
    intro p hmem hl
    rcases ho.pending p hmem with hold | rfl
    · have hwas := hg.was_live (hs.asked p hold).1 hl
      obtain ⟨c, hc, he⟩ := h p hold hwas
      refine ⟨c, ?_, he⟩
      rw [ho.connections]
      exact List.mem_append_left _ hc
    · refine ⟨newConn t f st, ?_, rfl⟩
      rw [ho.connections]
      exact List.mem_append_right _ (List.mem_singleton_self _)
  | deferred _ _ _ hd => exact same hg hd.keeps.pending hd.connections
  | delivered _ _ _ _ _ hget _ hd => exact set hg hd.pending hget hd.connections
  | idle _ _ _ _ hget _ _ hlog hconn => exact set hg hlog.keeps.pending hget hconn
  | full _ _ _ hw => exact same hg hw.keeps.pending hw.connections
  | sent _ _ _ _ hget _ hsent hlog hconn =>
    exact set hg (hlog.keeps.pending.trans hsent.keeps.pending) hget hconn
  | @transportGone t _ _ _ _ hgone =>
    refine h.of_gone hgone (fun _ => rfl) fun c hc hl => ?_
    have hwas : st.live c.south := by
      rw [hgone.live] at hl
      split at hl
      · cases hl
      · exact hl
    have hs : (if failing t st c then state_update c abortType else c).south = c.south := by
      split <;> rfl
    simp [hs, hwas]
  | serviceGone _ hgone =>
    refine h.of_gone hgone (fun _ => rfl) fun c hc hl => ?_
    rw [id_eq, ite_self, bne_iff_ne]
    rintro rfl
    rw [hgone.live, if_pos rfl] at hl
    cases hl
  | shut => exact same hg rfl rfl
  | dialed hd _ hp => exact h.of_souths hs hg hp (by rw [hd.connections])
  | connectLost _ _ _ hgone =>
    refine h.of_gone hgone (fun _ => rfl) fun c hc hl => ?_
    rw [id_eq, ite_self, bne_iff_ne]
    rintro rfl
    rw [hgone.live, if_pos rfl] at hl
    cases hl
  | pushRx => exact same hg rfl rfl
  | pushTx => exact same hg rfl rfl

theorem Sound.souths_nodup (hs : Sound st) : (st.connections.map (·.south)).Nodup :=
  (List.Nodup.of_map _ hs.cids).map_on fun _ hc _ hd he => hs.eq_of_south hc hd he

/-- The connection of the service stream is the one that is aborted. -/
theorem erase_connect_refused {t : StreamId} {st : Connector} {c : Connection}
    (hs : (st.connections.map (·.south)).Nodup) (hown : OwnEids st) (hc : c ∈ st.connections) (hn : c.north = t) (ht : (st.sock t).Sure) :
    Refused t c.south c.uuid st (erase_connect c.south t st) := by
  obtain ⟨obs, hg⟩ := erase_connect_spec c.south t st
  refine ⟨?_, ?_, ?_⟩
  · have hw := (refuseTurn_loop c.south t st).written st.connections (fun _ => rfl) ht
    rw [Loop.filter_key Connection.south hs hc] at hw
    unfold erase_connect
    rw [sock_erase]
    show ((st.connections.foldl (refuseTurn c.south t) st).sock t).written = _
    rw [hw]
    simp
  · rw [hg.live, if_pos rfl]
  · intro d hd hdn hdu
    rw [hg.connections, List.mem_filter, List.mem_map] at hd
    obtain ⟨⟨e, he, rfl⟩, hne⟩ := hd
    rw [id_eq, ite_self] at hdn hdu hne
    have heq := hown e he c hc (hdn.trans hn.symm) hdu
    simp [heq] at hne

/-- A transport has a frame with INIT. -/
def initArrives : List Event := [.env (.accept 10), .env (.rx 0 initFrame.recv)]

/-- The state in which `_north_connect` is called for the frame. -/
def initTaken : Connector :=
  let st := (readTransport 0 ((play initArrives {}).enter 0 Mask.POLLIN)).dropInput 0
  (st.mark 0).setFrame 0 (((st.mark 0).frame 0).seekg HDRLEN)

end cloudbus.segment
