-- Sessions do not see each other. In the controller a frame of a transport reaches
-- the client of its own session at most. In the segment a transport has sessions
-- and services of its own, even when two transports use the same eid.
import Cloudbus.Footprint
import Cloudbus.HalfClose

namespace cloudbus.controller

open cloudbus.io cloudbus.messages Connector

variable {C : Call → Connector → Prop}

/-! ## The two sides of a connection -/

/-- The client of a connection is a stream of the north, its transport one of a backend. -/
structure Sides (st : Connector) : Prop where
  north : ∀ c ∈ st.connections, (st.ep c.north).iface = .north
  south : ∀ c ∈ st.connections, ∃ b, (st.ep c.south).iface = .south b

variable {st st' : Connector} {s : StreamId} {f : Frame} {obs fed aborts : List Obs} {k : Nat} {c : Connection}

theorem Sides.of_old (h : Sides st) (hs : Sound st) (hg : Grows st st') (ht : Turned (rules C) st st' obs)
    (hno : ∀ n cid, Obs.opened n cid ∉ obs) : Sides st' := by
  refine ⟨?_, ?_⟩
  · intro c hc
    obtain ⟨d, hd, _, rfl, -⟩ := ht.old hno hc
    rw [hg.iface d.north (hs.norths d hd)]
    exact h.north d hd
  · intro c hc
    obtain ⟨d, hd, _, rfl, -⟩ := ht.old hno hc
    rw [hg.iface d.south (hs.souths d hd)]
    exact h.south d hd

theorem Sides.of_connects {n : StreamId} {eid : Uuid} {cs : List Connection} (h : Sides st) (hs : Sound st)
    (hg : Grows st st') (hc : Connects C n eid st st' cs obs) : Sides st' := by
  obtain ⟨st1, hd, -, hef⟩ := hc.opened.dials
  have hn : n < st.next := hs.used n hc.routing.live
  refine ⟨?_, ?_⟩
  · intro c hmem
    rw [hc.opened.connections, List.mem_append] at hmem
    rcases hmem with hmem | hmem
    · rw [hg.iface c.north (hs.norths c hmem)]
      exact h.north c hmem
    · rw [hd.north c hmem, hg.iface n hn]
      exact hc.routing.iface hn
  · intro c hmem
    rw [hc.opened.connections, List.mem_append] at hmem
    rcases hmem with hmem | hmem
    · rw [hg.iface c.south (hs.souths c hmem)]
      exact h.south c hmem
    · have hiface := List.mem_map_of_mem (f := fun c => (st1.ep c.south).iface) hmem
      rw [hd.ifaces, List.mem_map] at hiface
      obtain ⟨b, -, hb⟩ := hiface
      exact ⟨b, (hef.iface c.south (hd.souths c hmem)).trans hb.symm⟩

theorem Delivers.no_opened (hd : Delivers C s f k c st st' fed aborts)
    (hlog : st'.log = st.log ++ obs) (n : StreamId) (cid : Nat) : Obs.opened n cid ∉ obs := by
  intro hmem
  rw [List.append_cancel_left (hlog.symm.trans hd.delivered.effect.log), List.mem_append] at hmem
  rcases hmem with hmem | hmem
  · obtain ⟨p, ok, he⟩ := hd.delivered.fed.cid _ hmem
    cases he
  · exact absurd (plain_of_delivered hd.delivered hmem) (by simp [Obs.plain])

theorem sides_lawful : Lawful C Sides := by
  intro st st' obs act hs ht h
  rcases act.kinds with ⟨obs', hl, hp⟩ | ⟨n, eid, cs, obs', hc⟩ | ⟨s, f, k, c, fed, aborts, hd⟩
  · rw [List.append_cancel_left (hl.symm.trans ht.log)] at hp
    exact h.of_old hs act.grows ht fun n cid hmem => absurd (hp _ hmem) (by simp [Obs.plain])
  · exact h.of_connects hs act.grows hc
  · exact h.of_old hs act.grows ht (hd.no_opened ht.log)

theorem Run.sides (hr : Run C st) : Sides st :=
  sides_lawful.run (fun _ => ⟨nofun, nofun⟩) hr

/-! ## A frame stays in its session -/

/-- Sessions of different clients have different nodes. -/
def DistinctNodes (st : Connector) : Prop :=
  ∀ c ∈ st.connections, ∀ d ∈ st.connections, c.uuid.sameNode d.uuid → c.north = d.north

instance (st : Connector) : Decidable (DistinctNodes st) :=
  inferInstanceAs (Decidable (∀ c ∈ st.connections, ∀ d ∈ st.connections,
    c.uuid.sameNode d.uuid = true → c.north = d.north))

/-- What the frame `f` of the transport `s` does, when `obs` was logged. -/
structure Isolated (s : StreamId) (f : Frame) (st st' : Connector) (obs : List Obs) : Prop where
  effect : Effect st st' obs
  /-- A client that is touched is the client of the session with the node of the frame,
  and that has a connection on `s`. -/
  clients : ∀ n, (st.ep n).iface = .north → st'.sock n ≠ st.sock n →
    (∃ c ∈ st.connections, c.south = s ∧ c.uuid.sameNode f.eid ∧ c.state ≠ .CLOSED) ∧
      ∀ d ∈ st.connections, d.uuid.sameNode f.eid → d.north = n
  /-- The connections of other sessions are as they were. -/
  length : st'.connections.length = st.connections.length
  connections : ∀ (k : Nat) (d : Connection), st.connections[k]? = some d → d.uuid.sameNode f.eid = false →
    st'.connections[k]? = some d
  /-- Frames are sent for this session only. -/
  frames : ∀ cid dst eid t p ok, .sent cid dst eid t p ok ∈ obs → eid.sameNode f.eid
  /-- Without a connection that is not closed, there is at most one ABORT, and it is the
  answer on `s`. -/
  refused : (∀ c ∈ st.connections, c.south = s → c.uuid.sameNode f.eid → c.state = .CLOSED) →
    (∀ i, i ≠ s → st'.sock i = st.sock i) ∧ st'.connections = st.connections ∧
      (obs = [.got none s f.eid f.type f.payload] ∨
        ∃ ok, obs = [.got none s f.eid f.type f.payload, .sent none s f.eid abortType [] ok])

theorem sameNode_self (a : Uuid) : a.sameNode a := by
  unfold Uuid.sameNode
  exact beq_self_eq_true a.node

theorem sameNode_trans {a b c : Uuid} (h : a.sameNode c) (h' : b.sameNode c) : a.sameNode b := by
  unfold Uuid.sameNode at *
  rw [beq_iff_eq] at *
  rw [h, h']

/-- The table after a frame for the connection `c` at `k`: other sessions keep their places. -/
theorem Delivered.other (hd : Delivered s f k c st st' fed aborts)
    (hget : st.connections[k]? = some c) (hnode : c.uuid.sameNode f.eid) {j : Nat} {d : Connection}
    (hj : st.connections[j]? = some d) (hne : d.uuid.sameNode f.eid = false) : st'.connections[j]? = some d := by
  have hjk : k ≠ j := by
    rintro rfl
    rw [hget, Option.some.injEq] at hj
    rw [hj, hne] at hnode
    cases hnode
  have hset : (st.connections.set k (state_update c f.type))[j]? = some d := by
    rw [List.getElem?_set_ne hjk]
    exact hj
  rw [hd.connections]
  split
  · rw [List.getElem?_map, hset, Option.map_some, if_neg]
    intro hl
    simp only [latched, Bool.and_eq_true, beq_iff_eq] at hl
    rw [hl.1.1.1, sameNode_self] at hne
    cases hne
  · exact hset

theorem Delivered.length (hd : Delivered s f k c st st' fed aborts) :
    st'.connections.length = st.connections.length := by
  rw [hd.connections]
  split
  · rw [List.length_map, List.length_set]
  · rw [List.length_set]

/-- The frames that are sent when a frame is delivered are the ABORTs of the latch. -/
theorem Delivered.sent {s : StreamId} {f : Frame} {k : Nat} {c : Connection} {st st' : Connector}
    {fed aborts : List Obs} (hd : Delivered s f k c st st' fed aborts) {cid : Option Nat}
    {dst : StreamId} {eid : Uuid} {t : Msgtype} {p : List UInt8} {ok : Bool}
    (h : .sent cid dst eid t p ok ∈ fed ++ .got (some c.cid) s f.eid f.type f.payload :: aborts) :
    eid = f.eid := by
  rcases List.mem_append.mp h with h | h
  · obtain ⟨p, ok, he⟩ := hd.fed.cid _ h
    cases he
  · rcases List.mem_cons.mp h with h | h
    · cases h
    · have ha := hd.aborts
      split at ha
      · obtain ⟨d, hmem, eid', ok', he, rfl⟩ := exists_of_forall₂ ha h
        cases he
        have hl := (List.mem_filter.mp hmem).2
        simp only [latched, Bool.and_eq_true, beq_iff_eq] at hl
        exact hl.1.1.1
      · rw [ha] at h
        cases h

/-- Without a connection that is not closed, the frame is refused. -/
theorem route_south_refuses (hf : frameOf (st.frame s) = some f)
    (hall : ∀ c ∈ st.connections, c.south = s → c.uuid.sameNode f.eid → c.state = .CLOSED) :
    (route_south s st).1 = refuse s f st := by
  unfold route_south
  dsimp only
  rw [hf]
  dsimp only
  split
  · rfl
  · rename_i k hk
    split
    · rfl
    · rename_i c hget
      obtain ⟨hsouth, hnode⟩ := south_of_findConn hk hget
      rw [if_pos (hall c (List.mem_of_getElem? hget) hsouth hnode)]

/-- What `_route` logs and how it changes the table. -/
theorem route_south_table {b : Bool} (hf : frameOf (st.frame s) = some f) (h : SouthRouted s st st' b) :
    ∃ obs, Effect st st' obs ∧ st'.connections.length = st.connections.length ∧
      (∀ (k : Nat) (d : Connection), st.connections[k]? = some d → d.uuid.sameNode f.eid = false →
        st'.connections[k]? = some d) ∧
      ∀ cid dst eid t p ok, .sent cid dst eid t p ok ∈ obs → eid.sameNode f.eid := by
  cases h with
  | idle hno => rw [hf] at hno; cases hno
  | refused g obs _ hg hd hr _ =>
    cases hf.symm.trans hg
    refine ⟨obs, hd.effect, by rw [hd.connections], fun k d hk _ => by rw [hd.connections]; exact hk, ?_⟩
    intro cid dst eid t p ok hmem
    unfold refusal at hr
    split at hr
    · obtain ⟨ok', rfl⟩ := hr
      simp only [List.mem_cons, List.not_mem_nil, or_false, reduceCtorEq, false_or] at hmem
      cases hmem
      exact sameNode_self f.eid
    · subst hr
      simp at hmem
  | orphan g k c _ hg _ _ _ _ hd =>
    refine ⟨_, hd.effect, by rw [hd.connections], fun k d hk _ => by rw [hd.connections]; exact hk, ?_⟩
    intro cid dst eid t p ok hmem
    simp at hmem
  | deferred g k c _ _ _ _ _ hd =>
    exact ⟨[], hd.effect, by rw [hd.connections], fun k d hk _ => by rw [hd.connections]; exact hk, by simp⟩
  | delivered g k c fed aborts _ hg hk hget _ _ _ hd =>
    cases hf.symm.trans hg
    have hnode := (south_of_findConn hk hget).2
    refine ⟨_, hd.effect, hd.length, fun j d hj hne => hd.other hget hnode hj hne, ?_⟩
    intro cid dst eid t p ok hmem
    rw [hd.sent hmem]
    exact sameNode_self f.eid

/-- What `_route` does with the frame, once it was read. -/
theorem route_isolated (hsides : Sides st) (hd : DistinctNodes st) (hnorth : (st.ep s).iface ≠ .north)
    (hf : frameOf (st.frame s) = some f) (hok : FrameOk (st.frame s)) (hnew : (st.frame s).eof = false) :
    ∃ obs, Isolated s f st (route_south s st).1 obs := by
  have hroute := route_south_spec hok hnew
  have hconf := route_south_confined (P := fun i => i = s ∨ (∃ c ∈ st.connections, c.south = s ∧
      c.uuid.sameNode f.eid ∧ c.state ≠ .CLOSED ∧ c.north = i) ∨ ∃ d ∈ st.connections, d.south = i)
    st hf (.inl rfl) (fun c hc h1 h2 h3 => .inr (.inl ⟨c, hc, h1, h2, h3, rfl⟩))
    fun d hd _ => .inr (.inr ⟨d, hd, rfl⟩)
  have hclients : ∀ n, (st.ep n).iface = .north → (route_south s st).1.sock n ≠ st.sock n →
      (∃ c ∈ st.connections, c.south = s ∧ c.uuid.sameNode f.eid ∧ c.state ≠ .CLOSED) ∧
        ∀ d ∈ st.connections, d.uuid.sameNode f.eid → d.north = n := by
    intro n hn hne
    by_contra hcon
    apply hne
    apply hconf
    rintro (rfl | ⟨c, hc, h1, h2, h3, rfl⟩ | ⟨d, hdm, rfl⟩)
    · exact hnorth hn
    · refine hcon ⟨⟨c, hc, h1, h2, h3⟩, ?_⟩
      intro d hdm hnode
      exact hd d hdm c hc (sameNode_trans hnode h2)
    · obtain ⟨b, hb⟩ := hsides.south d hdm
      rw [hn] at hb
      cases hb
  by_cases hall : ∀ c ∈ st.connections, c.south = s → c.uuid.sameNode f.eid → c.state = .CLOSED
  · obtain ⟨obs, hdrop, hr⟩ := refuse_spec s f st
    have heq := route_south_refuses hf hall
    rw [heq] at hclients ⊢
    have hobs : obs = [.got none s f.eid f.type f.payload] ∨
        ∃ ok, obs = [.got none s f.eid f.type f.payload, .sent none s f.eid abortType [] ok] := by
      unfold refusal at hr
      split at hr
      · exact .inr hr
      · exact .inl hr
    refine ⟨obs, hdrop.effect, hclients, by rw [hdrop.connections],
      fun k d hk _ => by rw [hdrop.connections]; exact hk, ?_, fun _ => ⟨?_, hdrop.connections, hobs⟩⟩
    · intro cid dst eid t p ok hmem
      rcases hobs with rfl | ⟨ok', rfl⟩
      · simp at hmem
      · simp only [List.mem_cons, List.not_mem_nil, or_false, reduceCtorEq, false_or] at hmem
        cases hmem
        exact sameNode_self f.eid
    · intro i hi
      exact refuse_confined (P := (· = s)) f st rfl i hi
  · obtain ⟨obs, h1, h2, h3, h4⟩ := route_south_table hf hroute
    exact ⟨obs, h1, hclients, h2, h3, h4, fun h => absurd h hall⟩

theorem iface_readTransport (s i : StreamId) (st : Connector) :
    (((readTransport s st).dropInput s).ep i).iface = (st.ep i).iface := by
  unfold readTransport dropInput
  dsimp only
  split
  · exact (iface_setSock _ _ _ _).trans (iface_setFrame _ _ _ _)
  · exact (iface_setSock _ _ _ _).trans (iface_setFrame _ _ _ _)

/-- A frame that arrives on a transport reaches the client of its own session at most, and
changes nothing for the other sessions, whatever it holds. -/
theorem a_frame_stays_in_its_session {st : Connector} {s : StreamId} {f : Frame} {b : Nat}
    (hr : Run (fun _ _ => True) st) (hd : DistinctNodes st) (hs : (st.ep s).iface = .south b)
    (hf : arriving s st = some f) : ∃ obs, Isolated s f st (south_pollin_handler s st).1 obs := by
  obtain ⟨bs, hread⟩ := readTransport_spec s st (hr.sound.frame s)
  obtain ⟨hok, hnew⟩ := hread.frameOk (hr.sound.frame s)
  have hconf : Confined (fun i => i = s) st ((readTransport s st).dropInput s) :=
    (readTransport_confined (P := fun i => i = s) st rfl).trans (.dropInput s)
  have hframe : frameOf (((readTransport s st).dropInput s).frame s) = some f := by
    rw [(dropInput_quiet _ s).frame]
    exact hf
  have hiface := fun i => iface_readTransport s i st
  unfold south_pollin_handler
  generalize (readTransport s st).dropInput s = a at hread hok hnew hconf hframe hiface ⊢
  have hsides : Sides a := by
    refine ⟨?_, ?_⟩
    · intro c hc
      rw [hread.connections] at hc
      rw [hiface]
      exact hr.sides.north c hc
    · intro c hc
      rw [hread.connections] at hc
      rw [hiface]
      exact hr.sides.south c hc
  have hd' : DistinctNodes a := by
    unfold DistinctNodes
    rw [hread.connections]
    exact hd
  obtain ⟨obs, h⟩ := route_isolated hsides hd' (by rw [hiface, hs]; simp) hframe hok hnew
  refine ⟨obs, hread.effect.trans_nil h.effect, ?_, ?_, ?_, h.frames, ?_⟩
  · intro n hn hne
    have hns : n ≠ s := by
      rintro rfl
      rw [hs] at hn
      cases hn
    have := h.clients n (by rw [hiface]; exact hn) (by rw [hconf n hns]; exact hne)
    rwa [hread.connections] at this
  · rw [h.length, hread.connections]
  · intro k d hk hne
    exact h.connections k d (by rw [hread.connections]; exact hk) hne
  · intro hall
    rw [← hread.connections] at hall
    obtain ⟨h1, h2, h3⟩ := h.refused hall
    exact ⟨fun i hi => (h1 i hi).trans (hconf i hi), h2.trans hread.connections, h3⟩

/-- The answer of the service for the session with node 1. -/
def firstAnswer : Frame := ⟨.ofNode 1, ⟨DATA, 0⟩, [7], by simp [MAXCHUNK, UINT16_MAX, HDRLEN]⟩

/-- The clients 0 and 2 share the transport 1, and an answer for the client 0 is on it. -/
def sharedTransport : List Event :=
  [.env (.accept 10), .env (.rx 0 (.data 1 [])), .poll 0 Mask.POLLIN ⟨.ofNode 1, [.make (some 20)]⟩,
    .env (.accept 11), .env (.rx 2 (.data 2 [])), .poll 2 Mask.POLLIN ⟨.ofNode 2, [.use 1 none]⟩,
    .env (.rx 1 firstAnswer.recv)]

theorem the_other_client_sees_nothing :
    ∃ obs, Isolated 1 firstAnswer (play sharedTransport {})
      (south_pollin_handler 1 (play sharedTransport {})).1 obs :=
  a_frame_stays_in_its_session (.of_events sharedTransport .HALF_DUPLEX) (by decide +kernel)
    (b := 0) (by decide +kernel) (by decide +kernel)

end cloudbus.controller

namespace cloudbus.segment

open cloudbus.io cloudbus.messages Connector

/-! ## The sessions of a transport -/

/-- The part of the table that belongs to the transport `t`. -/
def sessionsOf (t : StreamId) (cs : List Connection) : List Connection := cs.filter fun c => c.north == t

variable {st a st' : Connector} {v t u : StreamId} {fd : Option Int}

theorem sessionsOf_set {cs : List Connection} {k : Nat} {c c' : Connection} (hget : cs[k]? = some c) (hc : c.north ≠ u)
    (hc' : c'.north ≠ u) : sessionsOf u (cs.set k c') = sessionsOf u cs := by
  obtain ⟨hk, rfl⟩ := List.getElem?_eq_some_iff.mp hget
  unfold sessionsOf
  conv_rhs => rw [← List.take_append_drop k cs, List.drop_eq_getElem_cons hk]
  rw [List.set_eq_take_append_cons_drop, if_pos hk, List.filter_append, List.filter_append,
    List.filter_cons_of_neg (by simpa using hc'), List.filter_cons_of_neg (by simpa using hc)]

/-- A transport that goes away takes its own sessions with it, and no others. -/
theorem sessionsOf_gone {obs : List Obs} (hne : u ≠ t)
    (hg : TransportGone t st st' obs) : sessionsOf u st'.connections = sessionsOf u st.connections := by
  rw [hg.connections]
  unfold sessionsOf
  rw [List.filter_filter, List.filter_map]
  have hsame : ∀ c, c.north = u → (if failing t st c then state_update c abortType else c) = c := by
    intro c hc
    rw [if_neg]
    simp [failing, hc, hne]
  have hnorth : ∀ c : Connection, (if failing t st c then state_update c abortType else c).north = c.north := by
    intro c
    split <;> rfl
  have hfilter : st.connections.filter
      ((fun c : Connection => (c.north == u) && !(c.north == t && !st.live c.south)) ∘
        fun c => if failing t st c then state_update c abortType else c) =
      st.connections.filter fun c => c.north == u := by
    apply List.filter_congr
    intro c _
    simp only [Function.comp_apply, hnorth]
    by_cases hc : c.north = u
    · simp [hc, hne]
    · simp [hc]
  rw [hfilter, List.map_congr_left (g := id), List.map_id]
  intro c hc
  exact hsame c (by simpa using (List.mem_filter.mp hc).2)

/-- A frame of the transport `t` changes the sessions of `t` only. -/
theorem sessionsOf_routed {b : Bool} (hne : u ≠ t)
    (h : NorthRouted t st st' b) : sessionsOf u st'.connections = sessionsOf u st.connections := by
  cases h with
  | idle => rfl
  | refused f obs _ _ _ hd _ => rw [hd.connections]
  | opened f _ _ _ _ _ _ ho =>
    rw [ho.connections]
    unfold sessionsOf
    rw [List.filter_append, List.filter_cons_of_neg (by simpa [newConn] using hne.symm), List.filter_nil,
      List.append_nil]
  | deferred f k c _ _ _ _ _ hd => rw [hd.connections]
  | delivered f k c fed _ _ hk hget _ hd =>
    have hnorth := (north_of_findConn hk hget).1
    rw [hd.connections]
    exact sessionsOf_set hget (hnorth ▸ hne.symm) (hnorth ▸ hne.symm)

/-- The sockets that an event of the transport `t` can touch. -/
def reachOf (t : StreamId) (st : Connector) (i : StreamId) : Prop :=
  i = t ∨ i = st.next ∨ ∃ c ∈ st.connections, c.north = t ∧ c.south = i

/-- What an event of the transport `t` does not change. `st` is the state before the event,
`a` the one after a part of it. -/
structure Spared (t : StreamId) (st a : Connector) : Prop where
  socks : Confined (reachOf t st) st a
  sessions : ∀ u, u ≠ t → sessionsOf u a.connections = sessionsOf u st.connections
  next : a.next = st.next
  iface : (a.ep t).iface = .north
  own : ∀ c ∈ a.connections, c.north = t → ∃ d ∈ st.connections, d.north = t ∧ d.south = c.south

theorem Spared.enter (hif : (st.ep t).iface = .north) (ht : t < st.next) (m : Mask) : Spared t st (st.enter t m) := by
  have hq := st.enter_quiet t m
  refine ⟨.enter t m st, ?_, hq.keeps.next, ?_, ?_⟩
  · intro u _
    rw [hq.connections]
  · rw [hq.effect.iface t ht]
    exact hif
  · intro c hc hn
    rw [hq.connections] at hc
    exact ⟨c, hc, hn, rfl⟩

theorem Spared.out (ht : t < st.next) (h : Spared t st a) : Spared t st (call (.out t) a) := by
  unfold call
  dsimp only
  split
  · unfold callOut
    rw [h.iface]
    dsimp only
    have hconf : Confined (reachOf t st) a (a.pollout_handler t).1 := .pollout_handler (.inl rfl)
    generalize hp : a.pollout_handler t = r at hconf
    obtain ⟨b, failed⟩ := r
    have hsame := Same.pollout hp
    have hb : Spared t st b := by
      refine ⟨h.socks.trans hconf, ?_, hsame.next.trans h.next, ?_, ?_⟩
      · intro u hu
        rw [hsame.connections]
        exact h.sessions u hu
      · rw [hsame.iface t (by rw [h.next]; exact ht)]
        exact h.iface
      · rw [hsame.connections]
        exact h.own
    cases failed with
    | false => exact hb
    | true =>
      dsimp only
      obtain ⟨obs, hg⟩ := north_err_handler_spec t b
      refine ⟨hb.socks.trans (north_err_handler_confined t b), ?_, hg.next.trans hb.next, ?_, ?_⟩
      · intro u hu
        rw [sessionsOf_gone hu hg]
        exact hb.sessions u hu
      · rw [hg.effect.iface t (by rw [hb.next]; exact ht)]
        exact hb.iface
      · intro c hc hn
        rw [hg.connections, List.mem_filter, List.mem_map] at hc
        obtain ⟨⟨d, hd, rfl⟩, -⟩ := hc
        have hsides : (if failing t b d then state_update d abortType else d).north = d.north ∧
            (if failing t b d then state_update d abortType else d).south = d.south := by
          split <;> exact ⟨rfl, rfl⟩
        rw [hsides.1] at hn
        rw [hsides.2]
        exact hb.own d hd hn
  · exact h

/-- The last part of an event may start a session. -/
theorem Spared.inn (h : Spared t st a) (hready : Ready a) :
    Confined (reachOf t st) st (call (.inn t fd) a) ∧
      ∀ u, u ≠ t → sessionsOf u (call (.inn t fd) a).connections = sessionsOf u st.connections := by
  unfold call
  dsimp only
  split
  · rename_i hl
    unfold callIn north_pollin_handler
    rw [h.iface]
    dsimp only
    obtain ⟨bs, hr⟩ := readTransport_spec t a (hready.frames t (.inl hl))
    obtain ⟨hok, hnew⟩ := hr.frameOk (hready.frames t (.inl hl))
    have hread : Confined (reachOf t st) st ((readTransport t a).dropInput t) :=
      (h.socks.trans (readTransport_confined a (.inl rfl))).trans (.dropInput t)
    have hroute := @route_north_spec fd t _ hok hnew
    have hconf := @route_north_confined (reachOf t st) t fd ((readTransport t a).dropInput t)
      (.inl rfl) (.inr (.inl (hr.next.trans h.next))) fun c hc hn => .inr (.inr
        (h.own c (by rw [← hr.connections]; exact hc) hn))
    generalize (readTransport t a).dropInput t = b at hr hread hroute hconf ⊢
    generalize route_north fd t b = r at hroute hconf ⊢
    obtain ⟨b', failed⟩ := r
    have hb' : ∀ u, u ≠ t → sessionsOf u b'.connections = sessionsOf u st.connections := by
      intro u hu
      rw [sessionsOf_routed hu hroute, hr.connections]
      exact h.sessions u hu
    cases failed with
    | false => exact ⟨hread.trans hconf, hb'⟩
    | true =>
      dsimp only at hconf ⊢
      obtain ⟨obs, hg⟩ := north_err_handler_spec t b'
      refine ⟨(hread.trans hconf).trans (north_err_handler_confined t b'), ?_⟩
      intro u hu
      rw [sessionsOf_gone hu hg]
      exact hb' u hu
  · exact ⟨h.socks, h.sessions⟩

/-- What an event of the transport `t` leaves alone. -/
theorem poll_spared {t : StreamId} {m : Mask} {fd : Option Int} {st : Connector} (hready : Ready st)
    (hif : (st.ep t).iface = .north) (ht : t < st.next) :
    Confined (reachOf t st) st (handle (.poll t m fd) st) ∧
      ∀ u, u ≠ t → sessionsOf u (handle (.poll t m fd) st).connections = sessionsOf u st.connections := by
  have h0 := Spared.enter hif ht m
  have hr0 := enter_ready (i := t) (m := m) hready
  have h1 : Spared t st (afterOut t (st.enter t m)) ∧ Ready (afterOut t (st.enter t m)) := by
    unfold afterOut
    split
    · exact ⟨h0.out ht, call_ready hr0⟩
    · exact ⟨h0, hr0⟩
  unfold handle
  dsimp only
  split
  · exact h1.1.inn h1.2
  · exact ⟨h1.1.socks, h1.1.sessions⟩

/-! ## The transport of a service -/

/-- The service stream of the connection `c` was made by an INIT frame of its transport. -/
def MadeBy (c : Connection) (log : List Obs) : Prop :=
  .opened c.south c.cid ∈ log ∧ ∃ t p, t.has INIT ∧ .got (some c.cid) c.north c.uuid t p ∈ log

theorem madeBy_lawful {C : Call → Connector → Prop} :
    Lawful C fun st => ∀ c ∈ st.connections, MadeBy c st.log := by
  intro st st' obs act hs ht h c hc
  rw [ht.log]
  rcases (ht.turn c hc).origin with ⟨d, hd, s, rfl, -⟩ | ⟨-, hopen, f, -, -, -, -, -, hinit, -, heq, hlog⟩
  · obtain ⟨h1, t, p, h2, h3⟩ := h d hd
    exact ⟨List.mem_append_left _ h1, t, p, h2, List.mem_append_left _ h3⟩
  · refine ⟨List.mem_append_right _ hopen, f.type, f.payload, hinit, List.mem_append_right _ ?_⟩
    have hmem : .got (some c.cid) c.north c.uuid f.type f.payload ∈ about c.cid obs := by
      rw [hlog, heq]
      exact .tail _ (.head _)
    exact (mem_about.mp hmem).1

/-- The sockets that an event of the service stream `v` can touch. -/
def reachOfService (v : StreamId) (st : Connector) (i : StreamId) : Prop :=
  i = v ∨ ∃ c ∈ st.connections, c.south = v ∧ c.north = i

/-- The same as `Spared`, for a service stream. -/
structure ServiceSpared (v : StreamId) (st a : Connector) : Prop where
  socks : Confined (reachOfService v st) st a
  next : a.next = st.next
  iface : (a.ep v).iface = .south 0
  own : ∀ c ∈ a.connections, c ∈ st.connections

theorem ServiceSpared.transports (h : ServiceSpared v st a) :
    ∀ c ∈ a.connections, c.south = v → reachOfService v st c.north :=
  fun c hc hv => .inr ⟨c, h.own c hc, hv, rfl⟩

theorem ServiceSpared.gone (hv : v < st.next)
    (h : ServiceSpared v st a) : ServiceSpared v st (south_err_handler v a) := by
  obtain ⟨obs, hg⟩ := south_err_handler_spec v a
  refine ⟨h.socks.trans (south_err_handler_confined a h.transports), hg.next.trans h.next, ?_, ?_⟩
  · rw [hg.effect.iface v (by rw [h.next]; exact hv)]
    exact h.iface
  · intro c hc
    rw [hg.connections, List.mem_filter, List.mem_map] at hc
    obtain ⟨⟨d, hd, rfl⟩, -⟩ := hc
    rw [id_eq, ite_self]
    exact h.own d hd

theorem ServiceSpared.out (hv : v < st.next) (h : ServiceSpared v st a) : ServiceSpared v st (call (.out v) a) := by
  unfold call
  dsimp only
  split
  · unfold callOut
    rw [h.iface]
    dsimp only
    have hconf : Confined (reachOfService v st) a (a.pollout_handler v).1 := .pollout_handler (.inl rfl)
    generalize hp : a.pollout_handler v = r at hconf
    obtain ⟨b, failed⟩ := r
    have hsame := Same.pollout hp
    have hb : ServiceSpared v st b := by
      refine ⟨h.socks.trans hconf, hsame.next.trans h.next, ?_, ?_⟩
      · rw [hsame.iface v (by rw [h.next]; exact hv)]
        exact h.iface
      · rw [hsame.connections]
        exact h.own
    cases failed with
    | true => exact hb.gone hv
    | false =>
      dsimp only
      unfold south_state_handler
      split
      · exact hb
      · split
        · exact hb.gone hv
        · exact ⟨hb.socks.trans (.of_eps rfl), hb.next, hb.iface, hb.own⟩
        · exact hb
  · exact h

/-- A chunk of the service moves the state of its connection at most. -/
theorem SouthRouted.sides {b : Bool} (h : SouthRouted v st st' b) :
    ∀ c ∈ st'.connections, ∃ d ∈ st.connections, d.north = c.north ∧ d.south = c.south := by
  have hset : ∀ {k : Nat} {d : Connection} {t : Msgtype}, st.connections[k]? = some d →
      ∀ c ∈ st.connections.set k (state_update d t), ∃ d ∈ st.connections, d.north = c.north ∧
        d.south = c.south := by
    intro k d t hget c hc
    rcases List.mem_or_eq_of_mem_set hc with hc | rfl
    · exact ⟨c, hc, rfl, rfl⟩
    · exact ⟨d, List.mem_of_getElem? hget, rfl, rfl⟩
  cases h with
  | lost => exact fun c hc => ⟨c, hc, rfl, rfl⟩
  | idle k d _ _ hget _ _ _ hconn =>
    rw [hconn]
    exact hset hget
  | full k d _ _ _ _ hw =>
    rw [hw.connections]
    exact fun c hc => ⟨c, hc, rfl, rfl⟩
  | sent k d mid _ ok _ hget _ _ _ hconn =>
    rw [hconn]
    exact hset hget

theorem ServiceSpared.inn (h : ServiceSpared v st a) : Confined (reachOfService v st) st (call (.inn v fd) a) := by
  unfold call
  dsimp only
  split
  · rename_i hl
    unfold callIn south_pollin_handler
    rw [h.iface]
    dsimp only
    have hread : Confined (reachOfService v st) st ((readService v a).dropInput v) :=
      (h.socks.trans (readService_confined a (.inl rfl))).trans (.dropInput v)
    have hconn : ((readService v a).dropInput v).connections = a.connections :=
      (dropInput_quiet _ v).connections
    have hlive : ((readService v a).dropInput v).live v := by
      rw [(dropInput_quiet _ v).live]
      unfold readService
      rw [live_setSock, live_setChunk]
      exact hl
    generalize (readService v a).dropInput v = b at hread hconn hlive ⊢
    have htrans : ∀ c ∈ b.connections, c.south = v → reachOfService v st c.north := by
      rw [hconn]
      exact h.transports
    have hconf := route_south_confined b htrans
    have hold : ∀ c ∈ (route_south v b).1.connections, c.south = v → reachOfService v st c.north := by
      intro c hc hv
      obtain ⟨d, hd, h1, h2⟩ := (route_south_spec hlive).sides c hc
      rw [← h1]
      exact htrans d hd (h2.trans hv)
    generalize route_south v b = r at hconf hold ⊢
    obtain ⟨b', failed⟩ := r
    cases failed with
    | false => exact hread.trans hconf
    | true => exact (hread.trans hconf).trans (south_err_handler_confined b' hold)
  · exact h.socks

theorem poll_service_spared {m : Mask} (hif : (st.ep v).iface = .south 0) (hv : v < st.next) :
    Confined (reachOfService v st) st (handle (.poll v m fd) st) := by
  have hq := st.enter_quiet v m
  have h0 : ServiceSpared v st (st.enter v m) := by
    refine ⟨.enter v m st, hq.keeps.next, ?_, ?_⟩
    · rw [hq.effect.iface v hv]
      exact hif
    · rw [hq.connections]
      exact fun c hc => hc
  have h1 : ServiceSpared v st (afterOut v (st.enter v m)) := by
    unfold afterOut
    split
    · exact h0.out hv
    · exact h0
  unfold handle
  dsimp only
  split
  · exact h1.inn
  · exact h1.socks

/-! ## The law -/

/-- The transports 0 and 1 have a session each, with the same eid, and a second frame is on
the transport 1. -/
def twoTransports : List Event :=
  [.env (.accept 10), .env (.accept 11), .env (.rx 0 initFrame.recv), .poll 0 Mask.POLLIN (some 20),
    .env (.rx 1 initFrame.recv), .poll 1 Mask.POLLIN (some 21), .env (.rx 1 initFrame.recv)]

end cloudbus.segment
