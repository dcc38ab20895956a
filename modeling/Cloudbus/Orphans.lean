-- The connections that a connector removes from its table. A session that was not
-- closed leaves an ABORT on its transport, so that the other end forgets it too,
-- unless the connect of a pooled transport failed: its connections are dropped
-- without a word, and their frames stay in its buffer.
import Cloudbus.Lookup
import Cloudbus.Isolation

namespace cloudbus

open cloudbus.io cloudbus.messages

/-! ## Frames that are taken whole -/

/-- The stream takes all that is written: it is good, and the kernel has no error for it. -/
def io.Sockstream.Sure (s : Sockstream) : Prop := s.good ∧ s.Healthy

instance (s : Sockstream) : Decidable s.Sure :=
  inferInstanceAs (Decidable (s.good = true ∧ ∀ a ∈ s.tx, a.isError = false))

variable {s : Sockstream} {st' : Connector}

theorem io.Sockstream.Sure.bad (h : s.Sure) : s.bad = false := by
  have := h.1
  simp only [Sockstream.good, Iostate.good, Sockstream.bad] at *
  cases hb : s.rdstate.badbit <;> simp_all

theorem io.Sockstream.Sure.of_pushed {s' : Sockstream} {bs : List UInt8} (h : s.Sure) (hp : Pushed s bs s') :
    s'.Sure ∧ s'.written = s.written ++ bs := by
  have hb : s'.bad = false := (hp.healthy h.2).trans h.bad
  refine ⟨⟨?_, hp.healthy_of h.2⟩, hp.all h.1 hb⟩
  rw [hp.good_eq, h.1, hb]
  rfl

/-- The ABORT for a session. -/
def abortBytes (eid : Uuid) : List UInt8 := (Msgheader.of eid 0 abortType).encode

/-- An ABORT for the session `eid` was appended to the stream `dst`, maybe with others. -/
def Aborted (dst : StreamId) (eid : Uuid) (st st' : Connector) : Prop :=
  ∃ before after : List Uuid,
    (st'.sock dst).written = (st.sock dst).written ++ (before ++ eid :: after).flatMap abortBytes

namespace Connector

variable {turn : Connector → Connection → Connector} {p : Connection → Bool}
  {dst : Connection → StreamId} {st : Connector}

/-- A loop that writes an ABORT for each connection in `p`. -/
structure AbortLoop (turn : Connector → Connection → Connector) (p : Connection → Bool)
    (dst : Connection → StreamId) (st : Connector) : Prop where
  hit : ∀ s c, (∀ i, s.live i = st.live i) → p c → ∀ i, (turn s c).sock i =
    if i = dst c then (s.sock i).write (abortBytes c.uuid) else s.sock i
  miss : ∀ s c, (∀ i, s.live i = st.live i) → p c = false → ∀ i, (turn s c).sock i = s.sock i
  live : ∀ s c i, (turn s c).live i = s.live i

/-- Streams that take all get the ABORTs of their connections, in the order of the table. -/
theorem AbortLoop.written (h : AbortLoop turn p dst st) (cs : List Connection) {s : Connector}
    (hl : ∀ i, s.live i = st.live i) {i : StreamId} (hs : (s.sock i).Sure) :
    ((cs.foldl turn s).sock i).written = (s.sock i).written ++
      (((cs.filter p).filter fun c => dst c == i).map (·.uuid)).flatMap abortBytes := by
  induction cs generalizing s with
  | nil => simp
  | cons c cs ih =>
    have hl' : ∀ j, (turn s c).live j = st.live j := fun j => (h.live s c j).trans (hl j)
    rw [List.foldl_cons]
    cases hp : p c with
    | false =>
      have hsock := h.miss s c hl hp i
      rw [ih hl' (by rw [hsock]; exact hs), hsock, List.filter_cons_of_neg (by simp [hp])]
    | true =>
      have hsock := h.hit s c hl hp i
      rw [List.filter_cons_of_pos hp]
      by_cases hi : i = dst c
      · rw [if_pos hi] at hsock
        obtain ⟨hsure, hw⟩ := hs.of_pushed ((s.sock i).write_pushed (abortBytes c.uuid))
        rw [ih hl' (by rw [hsock]; exact hsure), hsock, hw,
          List.filter_cons_of_pos (by simp [hi]), List.map_cons, List.flatMap_cons, List.append_assoc]
      · rw [if_neg hi] at hsock
        rw [ih hl' (by rw [hsock]; exact hs), hsock,
          List.filter_cons_of_neg (by simpa using fun he => hi he.symm)]

theorem AbortLoop.aborted (h : AbortLoop turn p dst st) {cs : List Connection} {c : Connection}
    (hc : c ∈ cs) (hp : p c) (hs : (st.sock (dst c)).Sure) {st' : Connector}
    (hst : st'.sock (dst c) = (cs.foldl turn st).sock (dst c)) : Aborted (dst c) c.uuid st st' := by
  have hw := h.written cs (fun _ => rfl) hs
  have hmem : c.uuid ∈ ((cs.filter p).filter fun d => dst d == dst c).map (·.uuid) := by
    refine List.mem_map_of_mem (List.mem_filter.mpr ⟨List.mem_filter.mpr ⟨hc, hp⟩, ?_⟩)
    exact beq_self_eq_true _
  obtain ⟨before, after, heq⟩ := List.append_of_mem hmem
  refine ⟨before, after, ?_⟩
  rw [hst, hw, heq]

end Connector

/-- The connection with this number is in the table. -/
def Connector.Has (cid : Nat) (st : Connector) : Prop := ∃ c ∈ st.connections, c.cid = cid

instance (cid : Nat) (st : Connector) : Decidable (st.Has cid) :=
  inferInstanceAs (Decidable (∃ c ∈ st.connections, c.cid = cid))

variable {cid : Nat} {st : Connector}

theorem has_iff : st.Has cid ↔ cid ∈ st.connections.map (·.cid) := by
  simp [Connector.Has]

theorem Connector.Has.of_eq (h : st.Has cid) (he : st'.connections = st.connections) : st'.Has cid := by
  unfold Has
  rw [he]
  exact h

/-- An update of connections keeps their numbers. -/
theorem map_cid_map {upd : Connection → Connection} (h : ∀ c, (upd c).cid = c.cid)
    (cs : List Connection) : (cs.map upd).map (·.cid) = cs.map (·.cid) := by
  rw [List.map_map]
  exact List.map_congr_left fun c _ => h c

theorem cid_ite (p : Connection → Bool) (t : Msgtype) (c : Connection) :
    (if p c then state_update c t else c).cid = c.cid := by split <;> rfl

/-- Connections are updated, and maybe there are new ones. -/
theorem Connector.Has.of_cids (h : st.Has cid)
    (he : st.connections.map (·.cid) <+: st'.connections.map (·.cid)) : st'.Has cid :=
  has_iff.mpr (he.subset (has_iff.mp h))

end cloudbus

namespace cloudbus.controller

open cloudbus.io cloudbus.messages Connector

/-- The handlers that remove connections, as a call runs them: the state before and the state
after. -/
def removals : Call → Connector → List (Connector × Connector)
  | .out i, st =>
    if st.live i then
      match (st.ep i).iface, st.pollout_handler i with
      | .north, (st, true) => [(st, north_err_handler i st)]
      | .north, (st, false) =>
        if session_state i st.connections = .CLOSED then [(st, north_err_handler i st)] else []
      | .south _, (st, true) => [(st, south_err_handler i st)]
      | .south _, (_, false) => []
    else []
  | .inn i o, st =>
    if st.live i then
      match (st.ep i).iface with
      | .north =>
        match north_pollin_handler o i st with
        | (st, true) => [(st, north_err_handler i st)]
        | (_, false) => []
      | .south _ =>
        match south_pollin_handler i st with
        | (st, true) => [(st, south_err_handler i st)]
        | (_, false) => []
    else []
  | .env (.refused j), st =>
    match st.pending[j]? with
    | some (s, n) =>
      if st.live s then
        [({ st with pending := st.pending.eraseIdx j },
          erase_connect s n { st with pending := st.pending.eraseIdx j })]
      else []
    | none => []
  | .env _, _ => []

/-- When a client fails, the transports of its open sessions take a frame. When a connect
fails, its transport has no open session. -/
def TransportsTake : Call → Connector → Prop
  | .out n, st => (st.pollout_handler n).2 = true → ∀ c ∈ st.connections, c.north = n →
      c.state ≠ .CLOSED → st.live c.south → (st.sock c.south).Sure
  | .env (.refused j), st => ∀ p ∈ st.pending[j]?, st.live p.1 →
      ∀ c ∈ st.connections, c.south = p.1 → c.state = .CLOSED
  | _, _ => True

instance (c : Call) (st : Connector) : Decidable (TransportsTake c st) :=
  match c with
  | .out n => inferInstanceAs (Decidable ((st.pollout_handler n).2 = true → ∀ c ∈ st.connections,
      c.north = n → c.state ≠ .CLOSED → st.live c.south → (st.sock c.south).Sure))
  | .inn _ _ => isTrue trivial
  | .env (.refused j) => inferInstanceAs (Decidable (∀ p ∈ st.pending[j]?, st.live p.1 →
      ∀ c ∈ st.connections, c.south = p.1 → c.state = .CLOSED))
  | .env (.accept _) => isTrue trivial
  | .env (.connected _ _) => isTrue trivial
  | .env (.timeout _) => isTrue trivial
  | .env (.rx _ _) => isTrue trivial
  | .env (.tx _ _) => isTrue trivial

/-! ## The ABORTs for a client that goes away -/

theorem abortTurn_loop (n : StreamId) (st : Connector) :
    AbortLoop (abortTurn n) (aborting n st) Connection.south st where
  hit s c hl hp i := by
    unfold aborting at hp
    simp only [Bool.and_eq_true, beq_iff_eq, decide_eq_true_eq] at hp
    unfold abortTurn
    rw [if_pos ⟨hp.1.1, (hl _).trans hp.1.2⟩]
    dsimp only
    rw [if_pos hp.2]
    show ((s.setTrigger _ _).setSock c.south _).sock i = _
    rw [sock_setSock]
    split
    · rename_i hi
      rw [hi]
      rfl
    · rfl
  miss s c hl hp i := by
    unfold aborting at hp
    unfold abortTurn
    split
    · rename_i hc
      rw [hl] at hc
      rw [if_neg]
      · rfl
      · intro hr
        simp [hc.1, hc.2, hr] at hp
    · rfl
  live s c i := by
    unfold abortTurn
    split
    · dsimp only
      split
      · exact (writeHeader_logs _ _ _ _ _).keeps.live i
      · rfl
    · rfl

variable {st : Connector} {c : Connection} {n : StreamId} {k : Call}

theorem north_err_handler_aborted (hc : c ∈ st.connections) (hn : c.north = n) (hst : c.state ≠ .CLOSED)
    (hl : st.live c.south) (hs : (st.sock c.south).Sure) : Aborted c.south c.uuid st (north_err_handler n st) := by
  refine (abortTurn_loop n st).aborted hc ?_ hs ?_
  · have hrank : c.state.rank < ConnState.CLOSED.rank := by
      cases h : c.state <;> simp_all [ConnState.rank]
    simp [aborting, hn, hl, hrank]
  · unfold north_err_handler
    rw [sock_erase]
    rfl

/-! ## What a call removes -/

/-- The cases of `removals`. The handler is the last thing that the call does. -/
inductive Removal (k : Call) (st : Connector) : Connector → Connector → Prop
  | failed (n : StreamId) (a : Connector) : k = .out n → (st.ep n).iface = .north →
      st.pollout_handler n = (a, true) → Removal k st a (north_err_handler n a)
  | closed (n : StreamId) (a : Connector) : k = .out n → st.pollout_handler n = (a, false) →
      session_state n a.connections = .CLOSED → Removal k st a (north_err_handler n a)
  | noEid (n : StreamId) (o : Oracle) (a : Connector) : k = .inn n o → st.live n →
      north_pollin_handler o n st = (a, true) → Removal k st a (north_err_handler n a)
  | transport (s : StreamId) (a : Connector) : Removal k st a (south_err_handler s a)
  | refused (j : Nat) (s n : StreamId) : k = .env (.refused j) → st.pending[j]? = some (s, n) →
      st.live s → Removal k st { st with pending := st.pending.eraseIdx j }
        (erase_connect s n { st with pending := st.pending.eraseIdx j })

variable {q : Connector × Connector} {st' : Connector} {failed : Bool} {s : StreamId}

theorem mem_removals (h : q ∈ removals k st) : Removal k st q.1 q.2 ∧ q.2 = call k st := by
  unfold removals at h
  split at h
  · split at h
    · rename_i hl
      simp only [call, hl, if_true, callOut]
      split at h
      · rename_i hif ho
        obtain rfl := List.mem_singleton.mp h
        refine ⟨.failed _ _ rfl hif ho, ?_⟩
        simp only [hif, ho]
      · rename_i hif ho
        split at h
        · rename_i hclosed
          obtain rfl := List.mem_singleton.mp h
          refine ⟨.closed _ _ rfl ho hclosed, ?_⟩
          simp only [hif, ho, north_state_handler, hclosed]
        · cases h
      · rename_i hif ho
        obtain rfl := List.mem_singleton.mp h
        refine ⟨.transport _ _, ?_⟩
        simp only [hif, ho]
      · cases h
    · cases h
  · split at h
    · rename_i hl
      simp only [call, hl, if_true, callIn]
      split at h
      · rename_i hif
        split at h
        · rename_i ho
          obtain rfl := List.mem_singleton.mp h
          refine ⟨.noEid _ _ _ rfl hl ho, ?_⟩
          simp only [hif, ho]
        · cases h
      · rename_i hif
        split at h
        · rename_i ho
          obtain rfl := List.mem_singleton.mp h
          refine ⟨.transport _ _, ?_⟩
          simp only [hif, ho]
        · cases h
    · cases h
  · split at h
    · rename_i hj
      split at h
      · rename_i hl
        rw [List.mem_singleton.mp h]
        refine ⟨.refused _ _ _ rfl hj hl, ?_⟩
        simp only [call, callEnv, resolve, hj, connectCallback]
        rw [if_pos]
        exact hl
      · cases h
    · cases h
  · cases h

theorem NorthRouted.cids {o : Oracle} (h : NorthRouted o n st st' failed) :
    st.connections.map (·.cid) <+: st'.connections.map (·.cid) := by
  have hopen : ∀ {a b : Connector} {cs : List Connection} {obs : List Obs},
      Quiet st a → Opened n o.eid a b cs obs → Quiet b st' →
      st.connections.map (·.cid) <+: st'.connections.map (·.cid) := by
    intro a b cs obs ha ho hb
    rw [hb.connections, ho.connections, ha.connections, List.map_append]
    exact List.prefix_append _ _
  cases h with
  | quiet st' hq => exact hq.connections ▸ List.prefix_rfl
  | sent a b st' obs _ ha hs hb _ =>
    have hcids := map_cid_map (cid_ite (active n a) (routeType st n)) a.connections
    exact (hb.connections.trans hs.connections) ▸ hcids.symm ▸ ha.connections ▸ List.prefix_rfl
  | noEid _ _ _ ha => exact ha.connections ▸ List.prefix_rfl
  | deferred a b st' cs _ _ ha _ _ ho _ _ hb => exact hopen ha ho hb
  | opened a b st' cs obs _ _ ha _ _ ho _ hb => exact hopen ha ho hb

theorem SouthRouted.cids (h : SouthRouted s st st' failed) :
    st.connections.map (·.cid) <+: st'.connections.map (·.cid) := by
  cases h with
  | idle => exact List.prefix_rfl
  | refused _ _ _ _ hd => exact hd.connections ▸ List.prefix_rfl
  | orphan _ _ _ _ _ _ _ _ _ hd => exact hd.connections ▸ List.prefix_rfl
  | deferred _ _ _ _ _ _ _ _ hd => exact hd.connections ▸ List.prefix_rfl
  | delivered f k c fed aborts st' _ _ hget _ _ _ hd =>
    have hset : (st.connections.set k (state_update c f.type)).map (·.cid) =
        st.connections.map (·.cid) := Loop.map_set_self _ hget rfl
    rw [hd.connections, ← hset]
    split
    · exact (map_cid_map (cid_ite _ _) _).symm ▸ List.prefix_rfl
    · exact List.prefix_rfl

theorem north_pollin_cids {o : Oracle} {n : StreamId} {st : Connector} (hb : Base st) (hl : st.live n) :
    NorthRouted o n ((readClient n st).dropInput n) (north_pollin_handler o n st).1
        (north_pollin_handler o n st).2 ∧
      st.connections.map (·.cid) <+: (north_pollin_handler o n st).1.connections.map (·.cid) := by
  obtain ⟨bs, hr⟩ := readClient_spec n st (hb.chunk n)
  have hused : IdsUsed ((readClient n st).dropInput n) := fun j hj => by
    rw [hr.next]
    exact hb.used j (by rw [← hr.live]; exact hj)
  have hroute := route_north_spec o hused (hused n (by rw [hr.live]; exact hl))
  refine ⟨hroute, ?_⟩
  rw [← hr.connections]
  exact hroute.cids

theorem south_pollin_cids {s : StreamId} {st : Connector} (hb : Base st) :
    st.connections.map (·.cid) <+: (south_pollin_handler s st).1.connections.map (·.cid) := by
  obtain ⟨bs, hr⟩ := readTransport_spec s st (hb.frame s)
  obtain ⟨hok, hnew⟩ := hr.frameOk (hb.frame s)
  have hroute := route_south_spec hok hnew
  rw [← hr.connections]
  exact hroute.cids

/-- A connect that succeeds leaves the table alone. -/
theorem resolve_connected_connections (j : Nat) (fd : Int) (st : Connector) :
    (resolve j (some fd) st).connections = st.connections := by
  unfold resolve
  split
  · rename_i s n _
    by_cases hl : ({ st with pending := st.pending.eraseIdx j } : Connector).live s
    · exact (connectCallback_dialed s n fd _ hl).connections
    · unfold connectCallback
      rw [if_neg hl]
  · rfl

/-- A connection that a call loses is removed by one of the handlers. -/
theorem removals_complete (hb : Base st) {cid : Nat} (h : st.Has cid)
    (hgone : ¬ (call k st).Has cid) : ∃ q ∈ removals k st, q.1.Has cid ∧ ¬ q.2.Has cid := by
  unfold call at hgone
  unfold removals
  cases k with
  | out i =>
    dsimp only at hgone ⊢
    by_cases hl : st.live i
    · rw [if_pos hl] at hgone ⊢
      unfold callOut at hgone
      cases hif : (st.ep i).iface with
      | north =>
        rw [hif] at hgone
        dsimp only at hgone
        cases ho : st.pollout_handler i with
        | mk a failed =>
          have ha := h.of_eq (Same.pollout ho).connections
          rw [ho] at hgone
          cases failed with
          | true => exact ⟨_, List.mem_singleton_self _, ha, hgone⟩
          | false =>
            dsimp only at hgone ⊢
            unfold north_state_handler at hgone
            split at hgone
            · rename_i hclosed
              rw [if_pos hclosed]
              exact ⟨_, List.mem_singleton_self _, ha, hgone⟩
            · exact absurd ha hgone
            · exact absurd ha hgone
      | south b =>
        rw [hif] at hgone
        dsimp only at hgone
        cases ho : st.pollout_handler i with
        | mk a failed =>
          have ha := h.of_eq (Same.pollout ho).connections
          rw [ho] at hgone
          cases failed with
          | true => exact ⟨_, List.mem_singleton_self _, ha, hgone⟩
          | false => exact absurd (ha.of_eq (south_state_handler_quiet i a).connections) hgone
    · rw [if_neg hl] at hgone
      exact absurd h hgone
  | inn i o =>
    dsimp only at hgone ⊢
    by_cases hl : st.live i
    · rw [if_pos hl] at hgone ⊢
      unfold callIn at hgone
      cases hif : (st.ep i).iface with
      | north =>
        rw [hif] at hgone
        dsimp only at hgone ⊢
        have ha := h.of_cids (@north_pollin_cids o i st hb hl).2
        cases ho : north_pollin_handler o i st with
        | mk a failed =>
          rw [ho] at hgone ha
          cases failed with
          | true => exact ⟨_, List.mem_singleton_self _, ha, hgone⟩
          | false => exact absurd ha hgone
      | south b =>
        rw [hif] at hgone
        dsimp only at hgone ⊢
        have ha := h.of_cids (@south_pollin_cids i st hb)
        cases ho : south_pollin_handler i st with
        | mk a failed =>
          rw [ho] at hgone ha
          cases failed with
          | true => exact ⟨_, List.mem_singleton_self _, ha, hgone⟩
          | false => exact absurd ha hgone
    · rw [if_neg hl] at hgone
      exact absurd h hgone
  | env e =>
    unfold callEnv at hgone
    cases e with
    | refused j =>
      dsimp only at hgone ⊢
      unfold resolve at hgone
      cases hj : st.pending[j]? with
      | none =>
        rw [hj] at hgone
        exact absurd h hgone
      | some p =>
        obtain ⟨s, n⟩ := p
        rw [hj] at hgone
        dsimp only at hgone ⊢
        unfold connectCallback at hgone
        by_cases hl : st.live s
        · rw [if_pos (show ({ st with pending := st.pending.eraseIdx j } : Connector).live s from hl)]
            at hgone
          rw [if_pos hl]
          exact ⟨_, List.mem_singleton_self _, h, hgone⟩
        · rw [if_neg (show ¬ ({ st with pending := st.pending.eraseIdx j } : Connector).live s from hl)]
            at hgone
          exact absurd h hgone
    | connected j fd => exact absurd (h.of_eq (resolve_connected_connections j fd st)) hgone
    | accept fd => exact absurd h hgone
    | timeout j =>
      dsimp only at hgone
      split at hgone
      · exact (hgone (h.of_eq (idleTimeout_quiet _ _).connections)).elim
      · exact absurd h hgone
    | rx i r => exact absurd h hgone
    | tx i a => exact absurd h hgone

/-- The connections that the error handler of a client removes. -/
theorem north_err_handler_keeps (hc : c ∈ st.connections)
    (hgone : ¬ (north_err_handler n st).Has c.cid) : c.north = n := by
  obtain ⟨obs, hg⟩ := north_err_handler_spec n st
  by_contra hn
  refine hgone ⟨c, ?_, rfl⟩
  rw [hg.connections, List.mem_filter]
  refine ⟨List.mem_map.mpr ⟨c, hc, ?_⟩, by simpa using hn⟩
  rw [id_eq, ite_self]

/-- A transport is gone with the connections that its error handler removes. -/
theorem south_err_handler_gone (hc : c ∈ st.connections) (hgone : ¬ (south_err_handler s st).Has c.cid) :
    (south_err_handler s st).live c.south = false := by
  obtain ⟨obs, hg⟩ := south_err_handler_spec s st
  rw [hg.live]
  split
  · rfl
  · rename_i hne
    refine absurd ?_ hgone
    refine ⟨_, ?_, cid_ite (failing s st) abortType c⟩
    rw [hg.connections, List.mem_filter]
    refine ⟨List.mem_map.mpr ⟨c, hc, rfl⟩, ?_⟩
    have hs : (if failing s st c then state_update c abortType else c).south = c.south := by
      split <;> rfl
    simp [hs, hne]

/-- Each connection that is removed open, while its transport stays, was aborted on it. -/
theorem removals_aborted (hb : Base st) (hsides : Sides st) (hk : TransportsTake k st) (hq : q ∈ removals k st)
    (hc : c ∈ q.1.connections) (hst : c.state ≠ .CLOSED) (hgone : ¬ q.2.Has c.cid)
    (hl : q.2.live c.south) : Aborted c.south c.uuid q.1 q.2 := by
  obtain ⟨a, b⟩ := q
  have hrem := (mem_removals hq).1
  dsimp only at *
  cases hrem with
  | failed n a hkn hif ho =>
    subst hkn
    have hn := north_err_handler_keeps hc hgone
    have hsame := Same.pollout ho
    obtain ⟨obs, hg⟩ := north_err_handler_spec n a
    rw [hg.live] at hl
    rw [hsame.connections] at hc
    have hne : c.south ≠ n := by
      rintro rfl
      obtain ⟨b, hs⟩ := hsides.south c hc
      rw [hif] at hs
      cases hs
    rw [if_neg hne] at hl
    refine north_err_handler_aborted (hsame.connections ▸ hc) hn hst hl ?_
    have hconf : Confined (· = n) st (st.pollout_handler n).1 := .pollout_handler rfl
    rw [ho] at hconf
    rw [hconf c.south hne]
    exact hk (by rw [ho]) c hc hn hst (by rwa [hsame.live] at hl)
  | closed n a hkn ho hclosed =>
    have hn := north_err_handler_keeps hc hgone
    have hrank := rank_of_session_state (by rw [hclosed]; simp) hc hn
    rw [hclosed] at hrank
    exact absurd (by cases h : c.state <;> simp_all [ConnState.rank]) hst
  | noEid n o a hkn hlive ho =>
    have hn := north_err_handler_keeps hc hgone
    obtain ⟨hroute, -⟩ := @north_pollin_cids o n st hb hlive
    rw [ho] at hroute
    obtain ⟨obs, hg⟩ := north_err_handler_spec n a
    rw [hg.live] at hl
    split at hl
    · cases hl
    · cases hroute with
      | noEid _ _ _ hquiet hcon =>
        -- a connection with a transport would have got the chunk
        rw [hquiet.connections] at hc
        rw [hquiet.live] at hl
        have : connected n ((readClient n st).dropInput n) = true :=
          List.any_eq_true.mpr ⟨c, hc, by simp [hn, hl]⟩
        rw [hcon] at this
        cases this
  | transport s a =>
    rw [south_err_handler_gone hc hgone] at hl
    cases hl
  | refused j s n hkn hj hs =>
    subst hkn
    have hlost := erase_connect_spec s n { st with pending := st.pending.eraseIdx j }
    have hsouth : c.south = s := by
      by_contra hne
      refine hgone ⟨c, ?_, rfl⟩
      rw [hlost.connections, List.mem_filter]
      exact ⟨hc, by simpa using hne⟩
    exact absurd (hk _ hj hs c hc hsouth) hst

end cloudbus.controller

namespace cloudbus.segment

open cloudbus.io cloudbus.messages Connector

/-- The handlers that remove connections, as a call runs them: the state before and the state
after. -/
def removals : Call → Connector → List (Connector × Connector)
  | .out i, st =>
    if st.live i then
      match (st.ep i).iface, st.pollout_handler i with
      | .north, (st, true) => [(st, north_err_handler i st)]
      | .north, (_, false) => []
      | .south _, (st, true) => [(st, south_err_handler i st)]
      | .south _, (st, false) =>
        match st.connections.find? fun c => c.south == i with
        | some c => if c.state = .CLOSED then [(st, south_err_handler i st)] else []
        | none => []
    else []
  | .inn i fd, st =>
    if st.live i then
      match (st.ep i).iface with
      | .north =>
        match north_pollin_handler fd i st with
        | (st, true) => [(st, north_err_handler i st)]
        | (_, false) => []
      | .south _ =>
        match south_pollin_handler i st with
        | (st, true) => [(st, south_err_handler i st)]
        | (_, false) => []
    else []
  | .env (.refused j), st =>
    match st.pending[j]? with
    | some (v, t) =>
      if st.live v then
        [({ st with pending := st.pending.eraseIdx j },
          erase_connect v t { st with pending := st.pending.eraseIdx j })]
      else []
    | none => []
  | .env _, _ => []

/-- The transports of the open sessions of the service stream `v` take a frame. -/
def TakeFor (v : StreamId) (st : Connector) : Prop :=
  ∀ c ∈ st.connections, c.south = v → c.state ≠ .CLOSED → st.live c.north → (st.sock c.north).Sure

instance (v : StreamId) (st : Connector) : Decidable (TakeFor v st) :=
  inferInstanceAs (Decidable (∀ c ∈ st.connections, c.south = v → c.state ≠ .CLOSED →
    st.live c.north → (st.sock c.north).Sure))

/-- When a service stream fails, or its connect, the transport of its session takes a
frame. -/
def TransportsTake : Call → Connector → Prop
  | .out v, st => (st.pollout_handler v).2 = true → TakeFor v st
  | .env (.refused j), st => ∀ p ∈ st.pending[j]?, st.live p.1 → TakeFor p.1 st
  | _, _ => True

instance (c : Call) (st : Connector) : Decidable (TransportsTake c st) :=
  match c with
  | .out v => inferInstanceAs (Decidable ((st.pollout_handler v).2 = true → TakeFor v st))
  | .inn _ _ => isTrue trivial
  | .env (.refused j) => inferInstanceAs (Decidable (∀ p ∈ st.pending[j]?, st.live p.1 →
      TakeFor p.1 st))
  | .env (.accept _) => isTrue trivial
  | .env (.connected _ _) => isTrue trivial
  | .env (.rx _ _) => isTrue trivial
  | .env (.tx _ _) => isTrue trivial

/-! ## The ABORTs for a service that goes away -/

theorem abortTurn_loop (v : StreamId) (st : Connector) :
    AbortLoop (abortTurn v) (aborting v st) Connection.north st where
  hit s c hl hp i := by
    unfold aborting at hp
    simp only [Bool.and_eq_true, beq_iff_eq, decide_eq_true_eq] at hp
    unfold abortTurn
    rw [if_pos ⟨hp.1.1, (hl _).trans hp.1.2, hp.2⟩]
    show (s.setSock c.north _).sock i = _
    rw [sock_setSock]
    split
    · rename_i hi
      rw [hi]
      rfl
    · rfl
  miss s c hl hp i := by
    unfold aborting at hp
    unfold abortTurn
    rw [if_neg]
    rintro ⟨h1, h2, h3⟩
    rw [hl] at h2
    simp [h1, h2, h3] at hp
  live s c i := by
    unfold abortTurn
    split
    · exact (writeHeader_logs s _ (some c.cid) _ _).keeps.live i
    · rfl

theorem refuseTurn_loop (v t : StreamId) (st : Connector) :
    AbortLoop (refuseTurn v t) (fun c => c.south == v) (fun _ => t) st where
  hit s c _ hp i := by
    unfold refuseTurn
    rw [if_pos (beq_iff_eq.mp hp)]
    show (s.setSock t _).sock i = _
    rw [sock_setSock]
    split
    · rename_i hi
      rw [hi]
      rfl
    · rfl
  miss s c _ hp i := by
    unfold refuseTurn
    rw [if_neg (fun h => by simp [h] at hp)]
  live s c i := by
    unfold refuseTurn
    split
    · exact (writeHeader_logs s _ (some c.cid) _ _).keeps.live i
    · rfl

variable {st st' : Connector} {c : Connection} {v t : StreamId} {k : Call}

theorem south_err_handler_aborted (hc : c ∈ st.connections) (hv : c.south = v) (hst : c.state ≠ .CLOSED)
    (hl : st.live c.north) (hs : (st.sock c.north).Sure) : Aborted c.north c.uuid st (south_err_handler v st) := by
  refine (abortTurn_loop v st).aborted hc ?_ hs ?_
  · have hrank : c.state.rank < ConnState.CLOSED.rank := by
      cases h : c.state <;> simp_all [ConnState.rank]
    simp [aborting, hv, hl, hrank]
  · unfold south_err_handler
    rw [sock_erase]
    rfl

theorem erase_connect_aborted (hc : c ∈ st.connections) (hv : c.south = v) (hs : (st.sock t).Sure) :
    Aborted t c.uuid st (erase_connect v t st) := by
  refine (refuseTurn_loop v t st).aborted hc (by simpa using hv) hs ?_
  unfold erase_connect
  rw [sock_erase]
  rfl

/-! ## What a call removes -/

/-- The cases of `removals`. The handler is the last thing that the call does. -/
inductive Removal (k : Call) (st : Connector) : Connector → Connector → Prop
  | transport (t : StreamId) (a : Connector) : Removal k st a (north_err_handler t a)
  | failed (v : StreamId) (b : Nat) (a : Connector) : k = .out v → (st.ep v).iface = .south b →
      st.pollout_handler v = (a, true) → Removal k st a (south_err_handler v a)
  | closed (v : StreamId) (a : Connector) (c : Connection) : k = .out v →
      st.pollout_handler v = (a, false) → (a.connections.find? fun c => c.south == v) = some c →
      c.state = .CLOSED → Removal k st a (south_err_handler v a)
  | routed (v : StreamId) (fd : Option Int) (a : Connector) : k = .inn v fd → st.live v →
      south_pollin_handler v st = (a, true) → Removal k st a (south_err_handler v a)
  | refused (j : Nat) (v t : StreamId) : k = .env (.refused j) → st.pending[j]? = some (v, t) →
      st.live v → Removal k st { st with pending := st.pending.eraseIdx j }
        (erase_connect v t { st with pending := st.pending.eraseIdx j })

variable {q : Connector × Connector} {failed : Bool}

theorem mem_removals (h : q ∈ removals k st) : Removal k st q.1 q.2 ∧ q.2 = call k st := by
  unfold removals at h
  split at h
  · split at h
    · rename_i hl
      simp only [call, hl, if_true, callOut]
      split at h
      · rename_i hif ho
        obtain rfl := List.mem_singleton.mp h
        refine ⟨.transport _ _, ?_⟩
        simp only [hif, ho]
      · cases h
      · rename_i hif ho
        obtain rfl := List.mem_singleton.mp h
        refine ⟨.failed _ _ _ rfl hif ho, ?_⟩
        simp only [hif, ho]
      · rename_i hif ho
        split at h
        · rename_i c hfind
          split at h
          · rename_i hst
            obtain rfl := List.mem_singleton.mp h
            refine ⟨.closed _ _ c rfl ho hfind hst, ?_⟩
            simp only [hif, ho, south_state_handler, hfind, hst]
          · cases h
        · cases h
    · cases h
  · split at h
    · rename_i hl
      simp only [call, hl, if_true, callIn]
      split at h
      · rename_i hif
        split at h
        · rename_i ho
          obtain rfl := List.mem_singleton.mp h
          refine ⟨.transport _ _, ?_⟩
          simp only [hif, ho]
        · cases h
      · rename_i hif
        split at h
        · rename_i ho
          obtain rfl := List.mem_singleton.mp h
          refine ⟨.routed _ _ _ rfl hl ho, ?_⟩
          simp only [hif, ho]
        · cases h
    · cases h
  · split at h
    · rename_i hj
      split at h
      · rename_i hl
        rw [List.mem_singleton.mp h]
        refine ⟨.refused _ _ _ rfl hj hl, ?_⟩
        simp only [call, callEnv, resolve, hj, connectCallback]
        rw [if_pos]
        exact hl
      · cases h
    · cases h
  · cases h

theorem NorthRouted.cids (h : NorthRouted t st st' failed) :
    st.connections.map (·.cid) <+: st'.connections.map (·.cid) := by
  cases h with
  | idle => exact List.prefix_rfl
  | refused _ _ _ _ _ hd => exact hd.connections ▸ List.prefix_rfl
  | opened f st' _ _ _ _ _ ho =>
    rw [ho.connections, List.map_append]
    exact List.prefix_append _ _
  | deferred _ _ _ _ _ _ _ _ hd => exact hd.connections ▸ List.prefix_rfl
  | delivered f k c fed st' _ _ hget _ hd =>
    rw [hd.connections]
    exact (Loop.map_set_self _ hget (cid_state_update c f.type)).symm ▸ List.prefix_rfl

theorem SouthRouted.cids (h : SouthRouted v st st' failed) :
    st.connections.map (·.cid) <+: st'.connections.map (·.cid) := by
  cases h with
  | lost => exact List.prefix_rfl
  | idle k c st' _ hget _ _ _ hconn =>
    rw [hconn]
    exact (Loop.map_set_self _ hget (cid_state_update c _)).symm ▸ List.prefix_rfl
  | full _ _ _ _ _ _ hw => exact hw.connections ▸ List.prefix_rfl
  | sent k c mid st' ok _ hget _ _ _ hconn =>
    rw [hconn]
    exact (Loop.map_set_self _ hget (cid_state_update c _)).symm ▸ List.prefix_rfl

theorem north_pollin_cids {fd : Option Int} {t : StreamId} {st : Connector} (hb : Ready st)
    (hl : st.live t) :
    st.connections.map (·.cid) <+: (north_pollin_handler fd t st).1.connections.map (·.cid) := by
  have hok := hb.frames t (.inl hl)
  obtain ⟨bs, hr⟩ := readTransport_spec t st hok
  obtain ⟨hok1, hnew⟩ := hr.frameOk hok
  rw [← hr.connections]
  exact (@route_north_spec fd _ _ hok1 hnew).cids

theorem south_pollin_cids {v : StreamId} {st : Connector} (hb : Base st) (hl : st.live v) :
    SouthRouted v ((readService v st).dropInput v) (south_pollin_handler v st).1
        (south_pollin_handler v st).2 ∧
      ((readService v st).dropInput v).connections = st.connections ∧
      (∀ i, ((readService v st).dropInput v).live i = st.live i) := by
  obtain ⟨bs, hr⟩ := readService_spec v st (hb.chunk v)
  exact ⟨route_south_spec (by rw [hr.live]; exact hl), hr.connections, hr.live⟩

theorem resolve_connected_connections (j : Nat) (fd : Int) (st : Connector) :
    (resolve j (some fd) st).connections = st.connections := by
  unfold resolve
  split
  · rename_i v t _
    by_cases hl : ({ st with pending := st.pending.eraseIdx j } : Connector).live v
    · exact (connectCallback_dialed v t fd _ hl).connections
    · unfold connectCallback
      rw [if_neg hl]
  · rfl

/-- A connection that a call loses is removed by one of the handlers. -/
theorem removals_complete (hb : Ready st) {cid : Nat} (h : st.Has cid)
    (hgone : ¬ (call k st).Has cid) : ∃ q ∈ removals k st, q.1.Has cid ∧ ¬ q.2.Has cid := by
  unfold call at hgone
  unfold removals
  cases k with
  | out i =>
    dsimp only at hgone ⊢
    by_cases hl : st.live i
    · rw [if_pos hl] at hgone ⊢
      unfold callOut at hgone
      cases hif : (st.ep i).iface with
      | north =>
        rw [hif] at hgone
        dsimp only at hgone
        cases ho : st.pollout_handler i with
        | mk a failed =>
          have ha := h.of_eq (Same.pollout ho).connections
          rw [ho] at hgone
          cases failed with
          | true => exact ⟨_, List.mem_singleton_self _, ha, hgone⟩
          | false => exact absurd ha hgone
      | south b =>
        rw [hif] at hgone
        dsimp only at hgone
        cases ho : st.pollout_handler i with
        | mk a failed =>
          have ha := h.of_eq (Same.pollout ho).connections
          rw [ho] at hgone
          cases failed with
          | true => exact ⟨_, List.mem_singleton_self _, ha, hgone⟩
          | false =>
            dsimp only at hgone ⊢
            unfold south_state_handler at hgone
            split at hgone
            · exact absurd ha hgone
            · rename_i c hfind
              rw [hfind]
              dsimp only
              split at hgone
              · rename_i hst
                rw [if_pos hst]
                exact ⟨_, List.mem_singleton_self _, ha, hgone⟩
              · exact absurd ha hgone
              · exact absurd ha hgone
    · rw [if_neg hl] at hgone
      exact absurd h hgone
  | inn i fd =>
    dsimp only at hgone ⊢
    by_cases hl : st.live i
    · rw [if_pos hl] at hgone ⊢
      unfold callIn at hgone
      cases hif : (st.ep i).iface with
      | north =>
        rw [hif] at hgone
        dsimp only at hgone ⊢
        have ha := h.of_cids (@north_pollin_cids fd i st hb hl)
        cases ho : north_pollin_handler fd i st with
        | mk a failed =>
          rw [ho] at hgone ha
          cases failed with
          | true => exact ⟨_, List.mem_singleton_self _, ha, hgone⟩
          | false => exact absurd ha hgone
      | south b =>
        rw [hif] at hgone
        dsimp only at hgone ⊢
        obtain ⟨hroute, hconn, -⟩ := south_pollin_cids hb.toBase hl
        have ha := (h.of_eq hconn).of_cids hroute.cids
        cases ho : south_pollin_handler i st with
        | mk a failed =>
          rw [ho] at hgone ha
          cases failed with
          | true => exact ⟨_, List.mem_singleton_self _, ha, hgone⟩
          | false => exact absurd ha hgone
    · rw [if_neg hl] at hgone
      exact absurd h hgone
  | env e =>
    unfold callEnv at hgone
    cases e with
    | refused j =>
      dsimp only at hgone ⊢
      unfold resolve at hgone
      cases hj : st.pending[j]? with
      | none =>
        rw [hj] at hgone
        exact absurd h hgone
      | some p =>
        obtain ⟨v, t⟩ := p
        rw [hj] at hgone
        dsimp only at hgone ⊢
        unfold connectCallback at hgone
        by_cases hl : st.live v
        · rw [if_pos (show ({ st with pending := st.pending.eraseIdx j } : Connector).live v from hl)]
            at hgone
          rw [if_pos hl]
          exact ⟨_, List.mem_singleton_self _, h, hgone⟩
        · rw [if_neg (show ¬ ({ st with pending := st.pending.eraseIdx j } : Connector).live v from hl)]
            at hgone
          exact absurd h hgone
    | connected j fd => exact absurd (h.of_eq (resolve_connected_connections j fd st)) hgone
    | accept fd => exact absurd h hgone
    | rx i r => exact absurd h hgone
    | tx i a => exact absurd h hgone

/-- A transport is gone with the connections that its error handler removes. -/
theorem north_err_handler_gone (hc : c ∈ st.connections) (hgone : ¬ (north_err_handler t st).Has c.cid) :
    (north_err_handler t st).live c.north = false := by
  obtain ⟨obs, hg⟩ := north_err_handler_spec t st
  rw [hg.live]
  split
  · rfl
  · rename_i hne
    refine absurd ?_ hgone
    refine ⟨_, ?_, cid_ite (failing t st) abortType c⟩
    rw [hg.connections, List.mem_filter]
    refine ⟨List.mem_map.mpr ⟨c, hc, rfl⟩, ?_⟩
    have hn : (if failing t st c then state_update c abortType else c).north = c.north := by
      split <;> rfl
    simp [hn, hne]

/-- The connections that are removed with a service stream. -/
theorem south_of_gone {hit : Connection → Bool} {R : Connection → Obs → Prop} {obs : List Obs}
    (hg : Gone v hit id (fun c => c.south != v) R st st' obs) (hc : c ∈ st.connections)
    (hgone : ¬ st'.Has c.cid) : c.south = v := by
  by_contra hne
  refine hgone ⟨c, ?_, rfl⟩
  rw [hg.connections, List.mem_filter]
  refine ⟨List.mem_map.mpr ⟨c, hc, ?_⟩, by simpa using hne⟩
  rw [id_eq, ite_self]

/-- When `_route` asks for the end of a service stream, its session is closed, or has no
transport. -/
theorem SouthRouted.over (hn : (st.connections.map (·.cid)).Nodup)
    (halone : ∀ c ∈ st.connections, ∀ d ∈ st.connections, c.south = d.south → c.cid = d.cid)
    (h : SouthRouted v st st' true) (hc : c ∈ st'.connections) (hv : c.south = v)
    (hl : st.live c.north) : c.state = .CLOSED := by
  -- the connection that is updated is the only one of the stream
  have hset : ∀ {k : Nat} {d d' : Connection}, st.connections[k]? = some d → d.south = v →
      st'.connections = st.connections.set k d' → d'.state = .CLOSED → c.state = .CLOSED := by
    intro k d d' hget hd hconn hst
    rw [hconn, Loop.set_key Connection.cid hn hget] at hc
    obtain ⟨e, he, heq⟩ := List.mem_map.mp hc
    split at heq
    · rw [← heq]
      exact hst
    · rename_i hne
      rw [← heq] at hv
      have := halone e he d (List.mem_of_getElem? hget) (hv.trans hd.symm)
      simp [this] at hne
  generalize hfailed : true = failed at h
  cases h with
  | lost hfind =>
    unfold findSouth at hfind
    rw [List.findIdx?_eq_none_iff] at hfind
    have := hfind c hc
    simp [hv, hl] at this
  | idle k d st' hfind hget _ _ _ hconn =>
    exact hset hget (south_of_findSouth hfind hget).1 hconn (by simpa using hfailed.symm)
  | full => cases hfailed
  | sent k d mid st' ok hfind hget _ _ _ hconn =>
    exact hset hget (south_of_findSouth hfind hget).1 hconn (by simpa using hfailed.symm)

/-- Each connection that is removed open, while its transport stays, was aborted on it. -/
theorem removals_aborted (hs : Sound st) (hk : TransportsTake k st) (hq : q ∈ removals k st) (hc : c ∈ q.1.connections)
    (hst : c.state ≠ .CLOSED) (hgone : ¬ q.2.Has c.cid) (hl : q.2.live c.north) : Aborted c.north c.uuid q.1 q.2 := by
  obtain ⟨a, b⟩ := q
  have hrem := (mem_removals hq).1
  dsimp only at *
  cases hrem with
  | transport t a =>
    rw [north_err_handler_gone hc hgone] at hl
    cases hl
  | failed v b a hkv hif ho =>
    subst hkv
    obtain ⟨obs, hg⟩ := south_err_handler_spec v a
    have hv := south_of_gone hg hc hgone
    have hsame := Same.pollout ho
    rw [hg.live] at hl
    rw [hsame.connections] at hc
    have hne : c.north ≠ v := by
      rintro rfl
      have := (hs.sides c hc).1
      rw [hif] at this
      cases this
    rw [if_neg hne] at hl
    refine south_err_handler_aborted (hsame.connections ▸ hc) hv hst hl ?_
    have hconf : Confined (· = v) st (st.pollout_handler v).1 := .pollout_handler rfl
    rw [ho] at hconf
    rw [hconf c.north hne]
    exact hk (by rw [ho]) c hc hv hst (by rwa [hsame.live] at hl)
  | closed v a d hkv ho hfind hd =>
    obtain ⟨obs, hg⟩ := south_err_handler_spec v a
    have hv := south_of_gone hg hc hgone
    have hdv : d.south = v := by simpa using List.find?_some hfind
    have hdm := List.mem_of_find?_eq_some hfind
    rw [(Same.pollout ho).connections] at hc hdm
    have heq := hs.eq_of_south hc hdm (hv.trans hdv.symm)
    exact absurd (heq ▸ hd) hst
  | routed v fd a hkv hlive ho =>
    obtain ⟨obs, hg⟩ := south_err_handler_spec v a
    have hv := south_of_gone hg hc hgone
    rw [hg.live] at hl
    split at hl
    · cases hl
    · obtain ⟨hroute, hconn, hsame⟩ := south_pollin_cids hs.toBase hlive
      rw [ho] at hroute
      rw [hroute.keeps.live] at hl
      refine absurd (hroute.over ?_ ?_ hc hv hl) hst
      · rw [hconn]
        exact hs.cids
      · rw [hconn]
        exact hs.alone
  | refused j v t hkv hj hlive =>
    subst hkv
    obtain ⟨obs, hg⟩ := erase_connect_spec v t { st with pending := st.pending.eraseIdx j }
    have hv := south_of_gone hg hc hgone
    have ht : c.north = t := (hs.asked _ (List.mem_of_getElem? hj)).2 c hc hv
    rw [hg.live] at hl
    split at hl
    · cases hl
    · rw [ht]
      exact erase_connect_aborted hc hv (ht ▸ hk _ hj hlive c hc hv hst hl)

end cloudbus.segment

namespace cloudbus

open cloudbus.io cloudbus.messages

/-- No open session is removed between the two states without an ABORT on its transport, when
the transport stays. -/
def LeavesWord (via : Connection → StreamId) (q : Connector × Connector) : Prop :=
  ∀ c ∈ q.1.connections, c.state ≠ .CLOSED → ¬ q.2.Has c.cid → q.2.live (via c) →
    Aborted (via c) c.uuid q.1 q.2

/-- A client sends a chunk for backends whose addresses are not known yet. -/
def dialing (picks : List controller.Pick) : List controller.Event :=
  [.env (.accept 10), .env (.rx 0 (.data 1 [])), .poll 0 Mask.POLLIN ⟨.ofNode 1, picks⟩]

/-- Nothing was written, so no ABORT was. -/
theorem not_aborted {dst : StreamId} {eid : Uuid} {st st' : Connector}
    (h : st'.sock dst = st.sock dst) : ¬ Aborted dst eid st st' := by
  rintro ⟨before, after, hw⟩
  rw [h, List.self_eq_append_right, List.flatMap_eq_nil_iff] at hw
  have hlen := congrArg List.length (hw eid (by simp))
  simp [abortBytes, HDRLEN] at hlen

end cloudbus
