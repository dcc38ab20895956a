-- A stream is shut, or erased when its connections are closed, after one flush. The
-- handlers do not look at what the flush left in the put area, so a kernel that takes
-- a part of it loses the rest. Here the calls that close a stream are told apart by
-- their causes, and nothing is lost when the kernel takes all that is left.
import Cloudbus.HalfClose
import Cloudbus.Isolation

namespace cloudbus

open cloudbus.io cloudbus.messages Connector

/-! ## The last flush -/

/-- The kernel takes `n` bytes at once. -/
def io.Send.takes (n : Nat) : Send → Bool
  | .accept m => n ≤ m
  | .error _ => false

/-- Nothing is left to send, or the kernel takes it all in one flush. -/
def io.Sockstream.Flushes (s : Sockstream) : Prop :=
  s.parea = [] ∨ s.good ∧ s.native_handle ≠ BAD_SOCKET ∧ s.tx.head?.any (·.takes s.parea.length)

instance (s : Sockstream) : Decidable s.Flushes :=
  inferInstanceAs (Decidable (s.parea = [] ∨ s.good = true ∧ s.native_handle ≠ BAD_SOCKET ∧
    s.tx.head?.any (·.takes s.parea.length) = true))

/-- The connections are closed, and none of them broke: there were STOPs and ends of streams only. -/
def Ordered (conns : List Connection) (log : List Obs) : Prop :=
  ∀ c ∈ conns, c.state = .CLOSED ∧ ¬ Broken c.cid log

instance (conns : List Connection) (log : List Obs) : Decidable (Ordered conns log) :=
  inferInstanceAs (Decidable (∀ c ∈ conns, c.state = .CLOSED ∧ ¬ Broken c.cid log))

section

variable {s s' : Sockstream} {st a : Connector} {i : StreamId}

theorem flush_of_flushes (h : s.Flushes) : s.flush.parea = [] := by
  rcases h with h | ⟨hg, hh, htx⟩
  · have hle := s.flush_parea
    rw [h] at hle
    exact List.length_eq_zero_iff.mp (Nat.le_zero.mp hle)
  · by_cases hp : s.parea = []
    · have hle := s.flush_parea
      rw [hp] at hle
      exact List.length_eq_zero_iff.mp (Nat.le_zero.mp hle)
    · unfold Sockstream.flush Sockstream.sync
      rw [if_pos hg, if_neg hh, if_neg hp]
      cases htx' : s.tx with
      | nil => simp [htx'] at htx
      | cons a rest =>
        rw [htx'] at htx
        cases a with
        | accept m => exact List.drop_eq_nil_of_le (by simpa [Send.takes] using htx)
        | error m => simp [Send.takes] at htx

/-- What is not written stays away. -/
theorem parea_of_ran (h : Ran s [] s') (hp : s.parea = []) : s'.parea = [] := by
  obtain ⟨bs, hk⟩ := h.kernel
  have hw := congrArg List.length h.written_nil
  rw [Sockstream.written, Sockstream.written, hp, ← hk] at hw
  simp only [List.length_append, List.length_nil] at hw
  exact List.length_eq_zero_iff.mp (by omega)

variable {failed : Bool}

/-- The stream after the flush of its POLLOUT handler. -/
theorem pollout_sock (h : st.pollout_handler i = (a, failed)) :
    a.sock i = ((st.takeErrors i).sock i).flush ∧ (a.sock i).fail = failed := by
  have hsock : ((st.takeErrors i).flushSock i).sock i = ((st.takeErrors i).sock i).flush := by
    rw [flushSock, sock_setSock, if_pos rfl]
  have hfin : ∀ b : Connector, (b.finishOut i).sock i = b.sock i := by
    intro b
    unfold finishOut
    split <;> rfl
  unfold pollout_handler at h
  dsimp only at h
  split at h
  · rename_i hf
    cases h
    exact ⟨hsock, hf⟩
  · rename_i hf
    cases h
    rw [hfin]
    exact ⟨hsock, by simpa using hf⟩

/-- A stream that did not go bad was flushed. -/
theorem pollout_good (h : st.pollout_handler i = (a, failed)) (hb : (a.sock i).bad = false) :
    a.sock i = (st.sock i).flush := by
  obtain ⟨hsock, -⟩ := pollout_sock h
  rw [hsock] at hb ⊢
  unfold takeErrors at hb ⊢
  split
  · rename_i herr
    rw [if_pos herr, sock_setSock, if_pos rfl] at hb
    rw [((st.sock i).set_badbit.flush_pushed).badbit rfl] at hb
    cases hb
  · rfl

/-- A stream whose handler did not fail was flushed. -/
theorem pollout_done (h : st.pollout_handler i = (a, false)) : a.sock i = (st.sock i).flush := by
  obtain ⟨-, hfail⟩ := pollout_sock h
  refine pollout_good h ?_
  by_contra hb
  have hb' : (a.sock i).rdstate.badbit = true := by simpa [Sockstream.bad] using hb
  rw [Sockstream.fail, Iostate.fail, hb', Bool.or_true] at hfail
  cases hfail

end

variable {st st' : Connector}

variable {i : StreamId} {hit keep : Connection → Bool} {upd : Connection → Connection} {R : Connection → Obs → Prop}
  {obs : List Obs}

/-- An erased stream had nothing to send when its handler began. -/
theorem Gone.parea (hg : Gone i hit upd keep R st st' obs)
    (hi : i < st.next) (hno : ∀ o ∈ obs, o.bytes i = []) (hp : (st.sock i).parea = []) : (st'.sock i).parea = [] := by
  have hran := hg.effect.ran i hi
  have hnone : outBytes i (obs ++ [.erased i (st.connsOf i) (st'.sock i)]) = [] := by
    rw [outBytes_append, outBytes, List.flatMap_eq_nil_iff.mpr hno]
    rfl
  rw [hnone] at hran
  exact parea_of_ran hran hp

/-- A stream that is not bad when it is erased was not bad before. -/
theorem Gone.bad (hg : Gone i hit upd keep R st st' obs) (hb : (st'.sock i).bad = false) : (st.sock i).bad = false := by
  by_contra hbad
  rw [(hg.kept i).worse (by simpa using hbad)] at hb
  cases hb

theorem connsOf_congr (h : st'.connections = st.connections) (i : StreamId) : st'.connsOf i = st.connsOf i := by
  rw [connsOf, connsOf, h]

namespace controller

/-! ## The controller -/

/-- The POLLOUT handlers shut the stream `i`, or erase it in order: the session of the client is half
closed or closed, or the timer of an idle transport is over. -/
def Closing (i : StreamId) (st : Connector) : Prop :=
  if (st.ep i).iface = .north then
    session_state i st.connections = .HALF_CLOSED ∨ Ordered (st.connsOf i) st.log
  else (st.sock i).fail ∧ (st.sock i).eof = false ∧ Ordered (st.connsOf i) st.log

instance (i : StreamId) (st : Connector) : Decidable (Closing i st) :=
  inferInstanceAs (Decidable (if (st.ep i).iface = .north then _ ∨ _ else _ ∧ _ ∧ _))

/-- When a stream is closed, the kernel takes all that is left for it. -/
def Empties : Call → Connector → Prop
  | .out i, st => Closing i st → (st.sock i).Flushes
  | .inn _ _, _ => True
  | .env _, _ => True

instance (c : Call) (st : Connector) : Decidable (Empties c st) :=
  match c with
  | .out i => inferInstanceAs (Decidable (Closing i st → (st.sock i).Flushes))
  | .inn _ _ => isTrue trivial
  | .env _ => isTrue trivial

/-- The call erases the stream `i` because its connections are closed. Its stream did not fail, and
it is no transport at its end. -/
def Orderly (p : Call × Connector) (i : StreamId) (conns : List Connection) (s : Sockstream) : Prop :=
  p.1 = .out i ∧ s.bad = false ∧ ((p.2.ep i).iface = .north ∨ s.eof = false) ∧ Ordered conns p.2.log

/-- The entry tells of no bytes that were cut off. -/
def Uncut (p : Call × Connector) : Obs → Prop
  | .shut _ _ s => s.parea = []
  | .erased i conns s => Orderly p i conns s → s.parea = []
  | _ => True

/-- What a call logs. -/
def logged (p : Call × Connector) : List Obs := (call p.1 p.2).log.drop p.2.log.length

theorem uncut_of_not_closes {p : Call × Connector} {o : Obs} (h : o.closes = false) : Uncut p o := by
  cases o with
  | shut => cases h
  | erased => cases h
  | _ => trivial

section

variable {p : Call × Connector} {st st' : Connector} {n : StreamId} {obs : List Obs}

variable {st0 : Connector}

/-- A client is erased by its POLLOUT handlers. -/
theorem uncut_client {failed : Bool} (h : Empties (.out n) st0) (hs : Sound st) (hsides : Sides st) (hl : st0.live n)
    (hif : (st0.ep n).iface = .north) (hpo : st0.pollout_handler n = (st, failed))
    (hg : ClientGone n st st' obs) : Uncut (.out n, st0) (.erased n (st.connsOf n) (st'.sock n)) := by
  rintro ⟨-, hbad, -, hord⟩
  have hsame := Same.pollout hpo
  have hused : n < st.next := hs.used n (by rw [hsame.live]; exact hl)
  have hsock := pollout_good hpo (hg.bad hbad)
  rw [connsOf_congr hsame.connections] at hord
  refine hg.parea hused (fun o ho => ?_) ?_
  · -- the ABORTs go to the transports
    obtain ⟨c, hc, eid, ok, rfl, -⟩ := exists_of_forall₂ hg.logged ho
    have hne : c.south ≠ n := by
      rintro rfl
      obtain ⟨b, hb⟩ := hsides.south c (List.mem_of_mem_filter hc)
      rw [hsame.iface _ (hsame.next ▸ hused), hif] at hb
      cases hb
    exact if_neg fun hboth => hne hboth.1
  · rw [hsock]
    refine flush_of_flushes (h ?_)
    rw [Closing, if_pos hif]
    exact .inr hord

/-- A transport is erased by its POLLOUT handlers. -/
theorem uncut_transport (h : Empties (.out n) st0) (hs : Sound st) (hl : st0.live n) (hif : (st0.ep n).iface ≠ .north)
    (hpo : st0.pollout_handler n = (st, true))
    (hg : TransportGone n st st' obs) : Uncut (.out n, st0) (.erased n (st.connsOf n) (st'.sock n)) := by
  rintro ⟨-, hbad, hside, hord⟩
  have hsame := Same.pollout hpo
  have hused : n < st.next := hs.used n (by rw [hsame.live]; exact hl)
  obtain ⟨-, hfail⟩ := pollout_sock hpo
  have hbad0 := hg.bad hbad
  have hsock := pollout_good hpo hbad0
  have heof := hside.resolve_left hif
  rw [(hg.kept n).eof, hsame.eof] at heof
  rw [connsOf_congr hsame.connections] at hord
  refine hg.parea hused (fun o ho => ?_) ?_
  · obtain ⟨c, -, rfl⟩ := exists_of_forall₂ hg.logged ho
    rfl
  · rw [hsock]
    refine flush_of_flushes (h ?_)
    rw [Closing, if_neg hif]
    refine ⟨?_, heof, hord⟩
    -- the flush did not set the failbit
    rw [hsock] at hfail hbad0
    have hbit := (st0.sock n).flush_pushed.failbit
    simp only [Sockstream.fail, Iostate.fail, Sockstream.bad] at hfail hbad0 ⊢
    rw [hbit, hbad0, Bool.or_false] at hfail
    rw [hfail, Bool.true_or]

theorem uncut_lawful (h : Empties p.1 p.2) :
    Lawful (fun c st => (c, st) = p) fun st =>
      Sides st ∧ ∃ obs, st.log = p.2.log ++ obs ∧ ∀ o ∈ obs, Uncut p o := by
  rintro st st' obs act hs ht ⟨hsides, obs0, hlog, hclean⟩
  suffices hnew : ∀ o ∈ obs, Uncut p o by
    refine ⟨sides_lawful act hs ht hsides, obs0 ++ obs, ?_, fun o ho => ?_⟩
    · rw [ht.log, hlog, List.append_assoc]
    · exact (List.mem_append.mp ho).elim (hclean o) (hnew o)
  have entries : ∀ {obs'}, st'.log = st.log ++ obs' → obs = obs' := fun hl =>
    List.append_cancel_left (ht.log.symm.trans hl)
  rcases act.closings ht.log with hno | ⟨n, st0, hc, hl, hif, hpo, hstate, rfl⟩ | ⟨n, obs', hcause, hg⟩ |
    ⟨s, obs', hcause, hg⟩ | ⟨s, n, j, st0, hc, hl⟩
  · exact fun o ho => uncut_of_not_closes (hno o ho)
  · intro o ho
    rw [entries (shutdown_effect st n).log, List.mem_singleton] at ho
    subst ho hc
    show (st.sock n).parea = []
    rw [pollout_done hpo]
    refine flush_of_flushes (h ?_)
    rw [Closing, if_pos hif, ← (Same.pollout hpo).connections]
    exact .inl hstate
  · intro o ho
    rw [entries hg.effect.log, List.mem_append, List.mem_singleton] at ho
    rcases ho with ho | rfl
    · obtain ⟨c, -, eid, ok, rfl, -⟩ := exists_of_forall₂ hg.logged ho
      trivial
    · cases hcause with
      | failed st0 hc hl hif hpo =>
        subst hc
        exact uncut_client h hs hsides hl hif hpo hg
      | closed st0 hc hl hif hpo =>
        subst hc
        exact uncut_client h hs hsides hl hif hpo hg
      | noEid o st0 st1 bs hc =>
        subst hc
        exact fun horder => nomatch horder.1
  · intro o ho
    rw [entries hg.effect.log, List.mem_append, List.mem_singleton] at ho
    rcases ho with ho | rfl
    · obtain ⟨c, -, rfl⟩ := exists_of_forall₂ hg.logged ho
      trivial
    · cases hcause with
      | failed st0 hc hl hif hpo =>
        subst hc
        exact uncut_transport h hs hl hif hpo hg
      | ended o st0 st1 bs hc =>
        subst hc
        exact fun horder => nomatch horder.1
  · obtain ⟨obs', he, hobs⟩ := hl.effect
    intro o ho
    rw [entries he.log] at ho
    subst hc
    rcases hobs with rfl | rfl
    · cases ho
    · rw [List.mem_singleton.mp ho]
      exact fun horder => nomatch horder.1

theorem Run.uncut {C : Call → Connector → Prop} (hr : Run C st) {ev : Event} (hp : p ∈ calls ev st)
    (h : Empties p.1 p.2) : ∀ o ∈ logged p, Uncut p o := by
  have hr' : Run (fun _ _ => True) st := hr.weaken fun _ _ _ => trivial
  obtain ⟨hs, hsides⟩ := sides_lawful.called hr' (fun _ _ => trivial) hr'.sides hp
  obtain ⟨-, -, obs, hlog, hclean⟩ := (uncut_lawful h).preserved.call hs.toBase rfl
    ⟨hs, hsides, [], (List.append_nil _).symm, nofun⟩
  rw [logged, hlog, List.drop_left]
  exact hclean

end

end controller

namespace segment

/-! ## The segment -/

/-- The POLLOUT handlers shut the service `i`, or erase it in order. -/
def Closing (i : StreamId) (st : Connector) : Prop :=
  (st.ep i).iface ≠ .north ∧ ((st.connections.find? fun c => c.south == i).any (·.state == .HALF_CLOSED) ∨
    Ordered (st.connsOf i) st.log)

instance (i : StreamId) (st : Connector) : Decidable (Closing i st) := inferInstanceAs (Decidable (_ ∧ (_ ∨ _)))

/-- The read of the service `i` closes its connection, which did not break. -/
def Ending (i : StreamId) (st : Connector) : Prop :=
  (st.ep i).iface ≠ .north ∧ ∀ c ∈ st.connsOf i,
    (c.state = .CLOSED ∨ c.state = .HALF_CLOSED ∧ ((readService i st).sock i).eof) ∧ ¬ Broken c.cid st.log

instance (i : StreamId) (st : Connector) : Decidable (Ending i st) :=
  inferInstanceAs (Decidable (_ ∧ ∀ c ∈ st.connsOf i,
    (c.state = .CLOSED ∨ c.state = .HALF_CLOSED ∧ ((readService i st).sock i).eof = true) ∧ ¬ Broken c.cid st.log))

/-- When a service is closed, the kernel takes all that is left for it. A read that closes it flushes
nothing, so nothing may be left. -/
def Empties : Call → Connector → Prop
  | .out i, st => Closing i st → (st.sock i).Flushes
  | .inn i _, st => Ending i st → (st.sock i).parea = []
  | .env _, _ => True

instance (c : Call) (st : Connector) : Decidable (Empties c st) :=
  match c with
  | .out i => inferInstanceAs (Decidable (Closing i st → (st.sock i).Flushes))
  | .inn i _ => inferInstanceAs (Decidable (Ending i st → (st.sock i).parea = []))
  | .env _ => isTrue trivial

/-- The call erases the service `i` because its connection is closed, and its stream did not fail. -/
def Orderly (p : Call × Connector) (i : StreamId) (conns : List Connection) (s : Sockstream) : Prop :=
  (p.1 = .out i ∨ ∃ fd, p.1 = .inn i fd) ∧ (p.2.ep i).iface ≠ .north ∧ s.bad = false ∧ Ordered conns p.2.log

/-- The entry tells of no bytes that were cut off. -/
def Uncut (p : Call × Connector) : Obs → Prop
  | .shut _ _ s => s.parea = []
  | .erased i conns s => Orderly p i conns s → s.parea = []
  | _ => True

/-- What a call logs. -/
def logged (p : Call × Connector) : List Obs := (call p.1 p.2).log.drop p.2.log.length

theorem uncut_of_not_closes {p : Call × Connector} {o : Obs} (h : o.closes = false) : Uncut p o := by
  cases o with
  | shut => cases h
  | erased => cases h
  | _ => trivial

section

variable {p : Call × Connector} {st st' : Connector} {v : StreamId} {obs : List Obs}

/-- The ABORTs of a service that goes away are sent to its transport. -/
theorem abort_bytes {o : Obs} (hs : Sound st) (hif : (st.ep v).iface ≠ .north) (hg : ServiceGone v st st' obs)
    (ho : o ∈ obs) : o.bytes v = [] := by
  obtain ⟨c, hc, ok, rfl⟩ := exists_of_forall₂ hg.logged ho
  have hne : c.north ≠ v := by
    rintro rfl
    exact hif (hs.sides c (List.mem_of_mem_filter hc)).1
  exact if_neg fun hboth => hne hboth.1

variable {failed : Bool} {st0 : Connector}

/-- A service is erased by its POLLOUT handlers. -/
theorem uncut_service (h : Empties (.out v) st0) (hs : Sound st) (hl : st0.live v)
    (hpo : st0.pollout_handler v = (st, failed)) (hg : ServiceGone v st st' obs) :
    Uncut (.out v, st0) (.erased v (st.connsOf v) (st'.sock v)) := by
  rintro ⟨-, hif, hbad, hord⟩
  have hsame := Same.pollout hpo
  have hused : v < st.next := hs.used v (by rw [hsame.live]; exact hl)
  have hif' : (st.ep v).iface ≠ .north := by rwa [hsame.iface _ (hsame.next ▸ hused)]
  rw [connsOf_congr hsame.connections] at hord
  refine hg.parea hused (fun o ho => abort_bytes hs hif' hg ho) ?_
  rw [pollout_good hpo (hg.bad hbad)]
  exact flush_of_flushes (h ⟨hif, .inr hord⟩)

variable {bs : List UInt8} {r : Connector}

/-- The connections of a service that was routed, seen from before the read. -/
theorem ending_of_routed (hr : ChunkRead v st0 ((readService v st0).dropInput v) bs)
    (hroute : SouthRouted v ((readService v st0).dropInput v) st failed) (hif : (st0.ep v).iface ≠ .north)
    (hord : Ordered (st.connsOf v) st0.log) : Ending v st0 := by
  have heof : (((readService v st0).dropInput v).sock v).eof = ((readService v st0).sock v).eof := by
    rw [dropInput_sock]
  have hconns := hr.connections
  refine ⟨hif, fun c hc => ?_⟩
  rw [connsOf, List.mem_filter] at hc
  generalize (readService v st0).dropInput v = r at hroute heof hconns
  rw [← hconns] at hc
  -- a connection that was not routed is as it was
  have same : st.connections = r.connections → (c.state = .CLOSED ∨
      c.state = .HALF_CLOSED ∧ ((readService v st0).sock v).eof) ∧ ¬ Broken c.cid st0.log := fun heq =>
    have h := hord c (List.mem_filter.mpr ⟨heq ▸ hc.1, hc.2⟩)
    ⟨.inl h.1, h.2⟩
  have set : ∀ {k : Nat} {d : Connection} {t : Msgtype}, r.connections[k]? = some d →
      st.connections = r.connections.set k (state_update d t) → (t.op = STOP → (r.sock v).eof) →
      t.has ABORT = false → (c.state = .CLOSED ∨ c.state = .HALF_CLOSED ∧ ((readService v st0).sock v).eof) ∧
        ¬ Broken c.cid st0.log := by
    intro k d t hd hset hstop hab
    obtain ⟨j, hj⟩ := List.mem_iff_getElem?.mp hc.1
    by_cases hjk : j = k
    · subst hjk
      obtain rfl : d = c := Option.some.inj (hd.symm.trans hj)
      have hmem : state_update d t ∈ st.connsOf v := by
        refine List.mem_filter.mpr ⟨?_, hc.2⟩
        rw [hset]
        exact List.mem_set (List.getElem?_eq_some_iff.mp hd).1 _
      obtain ⟨hclosed, hwhole⟩ := hord _ hmem
      refine ⟨(update_eq_closed hclosed).imp_right fun ⟨hop, hwhy⟩ => ?_, hwhole⟩
      rw [hab] at hwhy
      exact ⟨hwhy.resolve_left (by simp), heof ▸ hstop hop⟩
    · have hmem : c ∈ st.connsOf v := by
        refine List.mem_filter.mpr ⟨?_, hc.2⟩
        rw [hset]
        exact List.mem_of_getElem? (by rw [List.getElem?_set_ne (Ne.symm hjk)]; exact hj)
      exact ⟨.inl (hord c hmem).1, (hord c hmem).2⟩
  cases hroute with
  | lost => exact same rfl
  | idle k d st' hk hd he hp hlog hset => exact set hd hset (fun h => by simp [DATA, STOP] at h) (by decide)
  | full k d st' _ _ _ hw => exact same hw.connections
  | sent k d mid st' ok hk hd hwhy hsent hlog hset =>
    refine set hd hset (fun h => ?_) ?_
    · by_contra he
      simp [routeType, he, DATA, STOP] at h
    · unfold routeType
      split <;> decide

/-- The read of a service does not write to it. -/
theorem SouthRouted.parea (hroute : SouthRouted v r st failed) (hs : Sound st) (hv : v < r.next)
    (hif : (st.ep v).iface ≠ .north) (hp : (r.sock v).parea = []) : (st.sock v).parea = [] := by
  cases hroute with
  | lost => exact hp
  | idle k d st' hk hd he hp' hlog hset => exact parea_of_ran (hlog.effect.ran v hv) hp
  | full k d st' _ _ _ hw => exact parea_of_ran (hw.effect.ran v hv) hp
  | sent k d mid st' ok hk hd hwhy hsent hlog hset =>
    have hne : d.north ≠ v := by
      intro hnv
      have hmem : state_update d (routeType v r) ∈ st.connections := by
        rw [hset]
        exact List.mem_set (List.getElem?_eq_some_iff.mp hd).1 _
      exact hif (hnv ▸ (hs.sides _ hmem).1)
    have hran := (hsent.effect.nil_trans hlog.effect).ran v hv
    rw [outBytes_singleton, Obs.bytes, if_neg fun hboth => hne hboth.1] at hran
    exact parea_of_ran hran hp

theorem SouthRouted.iface (hroute : SouthRouted v r st failed) {i : StreamId}
    (hi : i < r.next) : (st.ep i).iface = (r.ep i).iface := by
  cases hroute with
  | lost => rfl
  | idle k d st' hk hd he hp hlog hset => exact hlog.effect.iface i hi
  | full k d st' _ _ _ hw => exact hw.effect.iface i hi
  | sent k d mid st' ok hk hd hwhy hsent hlog hset => exact (hsent.effect.nil_trans hlog.effect).iface i hi

/-- A service is erased by its read. -/
theorem uncut_read {fd : Option Int} (h : Empties (.inn v fd) st0) (hs : Sound st) (hl : st0.live v)
    (hr : ChunkRead v st0 ((readService v st0).dropInput v) bs)
    (hroute : SouthRouted v ((readService v st0).dropInput v) st true) (hg : ServiceGone v st st' obs) :
    Uncut (.inn v fd, st0) (.erased v (st.connsOf v) (st'.sock v)) := by
  rintro ⟨-, hif, -, hord⟩
  have hempty := h (ending_of_routed hr hroute hif hord)
  have hread : (((readService v st0).dropInput v).sock v).parea = [] := by
    rw [hr.chunked.pulled.parea]
    exact hempty
  have hlive : st.live v := by
    rw [hroute.keeps.live, hr.live]
    exact hl
  have hused : v < ((readService v st0).dropInput v).next := hroute.keeps.next ▸ hs.used v hlive
  have hif' : (st.ep v).iface ≠ .north := by
    rw [hroute.iface hused, hr.effect.iface v (hr.next ▸ hused)]
    exact hif
  refine hg.parea (hs.used v hlive) (fun o ho => abort_bytes hs hif' hg ho) ?_
  exact hroute.parea hs hused hif' hread

theorem uncut_lawful (h : Empties p.1 p.2) :
    Lawful (fun c st => (c, st) = p) fun st => ∃ obs, st.log = p.2.log ++ obs ∧ ∀ o ∈ obs, Uncut p o := by
  rintro st st' obs act hs ht ⟨obs0, hlog, hclean⟩
  suffices hnew : ∀ o ∈ obs, Uncut p o by
    refine ⟨obs0 ++ obs, ?_, fun o ho => ?_⟩
    · rw [ht.log, hlog, List.append_assoc]
    · exact (List.mem_append.mp ho).elim (hclean o) (hnew o)
  have entries : ∀ {obs'}, st'.log = st.log ++ obs' → obs = obs' := fun hl =>
    List.append_cancel_left (ht.log.symm.trans hl)
  rcases act.closings ht.log with hno | ⟨v, st0, c, hc, hl, hpo, hfind, hstate, rfl⟩ | ⟨t, obs', hcause, hg⟩ |
    ⟨v, obs', hcause, hg⟩ | ⟨v, t, j, st0, obs', hc, hl⟩
  · exact fun o ho => uncut_of_not_closes (hno o ho)
  · intro o ho
    rw [entries (shutdown_effect st v).log, List.mem_singleton] at ho
    subst ho hc
    show (st.sock v).parea = []
    rw [pollout_done hpo]
    have hsame := Same.pollout hpo
    have hused : v < st.next := hs.used v (by rw [hsame.live]; exact hl)
    refine flush_of_flushes (h ⟨?_, .inl ?_⟩)
    · -- a stream with a connection to the south is a service
      have hside := (hs.sides c (List.mem_of_find?_eq_some hfind)).2
      have hsouth : c.south = v := by simpa using List.find?_some hfind
      rw [hsouth, hsame.iface v (hsame.next ▸ hused)] at hside
      rw [hside]
      nofun
    · rw [← hsame.connections, hfind]
      exact beq_iff_eq.mpr hstate
  · intro o ho
    rw [entries hg.effect.log, List.mem_append, List.mem_singleton] at ho
    rcases ho with ho | rfl
    · obtain ⟨c, -, rfl⟩ := exists_of_forall₂ hg.logged ho
      trivial
    · cases hcause with
      | failed st0 hc hl hif hpo =>
        subst hc
        exact fun horder => absurd hif horder.2.1
      | routed fd st0 st1 bs hc hl hif hr hroute =>
        subst hc
        exact fun horder => absurd hif horder.2.1
  · intro o ho
    rw [entries hg.effect.log, List.mem_append, List.mem_singleton] at ho
    rcases ho with ho | rfl
    · obtain ⟨c, -, ok, rfl⟩ := exists_of_forall₂ hg.logged ho
      trivial
    · cases hcause with
      | failed st0 hc hl hpo =>
        subst hc
        exact uncut_service h hs hl hpo hg
      | closed st0 c hc hl hpo hfind hstate =>
        subst hc
        exact uncut_service h hs hl hpo hg
      | routed fd st0 bs hc hl hr hroute =>
        subst hc
        exact uncut_read h hs hl hr hroute hg
  · intro o ho
    rw [entries hl.effect.log, List.mem_append, List.mem_singleton] at ho
    subst hc
    rcases ho with ho | rfl
    · obtain ⟨c, -, ok, rfl⟩ := exists_of_forall₂ hl.logged ho
      trivial
    · exact fun horder => horder.1.elim (fun h => nomatch h) fun ⟨_, h⟩ => nomatch h

theorem Run.uncut {C : Call → Connector → Prop} (hr : Run C st) {ev : Event} (hp : p ∈ calls ev st)
    (h : Empties p.1 p.2) : ∀ o ∈ logged p, Uncut p o := by
  obtain ⟨hs, hready⟩ := (sound_preserved (C := fun _ _ => True)).called hr.sound.2 hr.sound.1 (fun _ _ => trivial) hp
  obtain ⟨-, obs, hlog, hclean⟩ := (uncut_lawful h).preserved.call hready rfl
    ⟨hs, [], (List.append_nil _).symm, nofun⟩
  rw [logged, hlog, List.drop_left]
  exact hclean

end

end segment

/-! ## Nothing is cut off -/

/-- In the controller and in the segment a stream is shut, or erased because its connections are closed,
with nothing left to send, when the kernel takes in the last flush all that is left. -/
theorem nothing_is_cut_off (st : Connector) :
    (controller.Run (fun _ _ => True) st → ∀ ev, ∀ p ∈ controller.calls ev st, controller.Empties p.1 p.2 →
        ∀ o ∈ controller.logged p, controller.Uncut p o) ∧
      (segment.Run (fun _ _ => True) st → ∀ ev, ∀ p ∈ segment.calls ev st, segment.Empties p.1 p.2 →
        ∀ o ∈ segment.logged p, segment.Uncut p o) :=
  ⟨fun hr _ _ hp h => hr.uncut hp h, fun hr _ _ hp h => hr.uncut hp h⟩

/-- The backend answers the client with a byte, and ends. -/
def backendAnswers : List controller.Event :=
  clientSpeaks ++ [.env (.rx 1 controller.firstAnswer.recv), .poll 1 Mask.POLLIN {}, .env (.rx 1 stopFrame.recv),
    .poll 1 Mask.POLLIN {}]

/-- The session of a service that got a byte ends. -/
def sessionStops : List segment.Event :=
  sessionStarts ++ [.env (.rx 0 stopFrame.recv), .poll 0 Mask.POLLIN none]

/-- What the stream `i` had left when it was shut. -/
def Obs.shutWith (i : StreamId) (bs : List UInt8) : Obs → Bool
  | .shut j _ s => j == i && s.parea == bs
  | _ => false

/-- The client and the service can take their byte. -/
def answerTaken : List controller.Event := backendAnswers ++ [.env (.tx 0 (.accept 1))]

def sessionTaken : List segment.Event := sessionStops ++ [.env (.tx 1 (.accept 1))]

theorem the_last_byte_is_taken :
    ((∀ o ∈ controller.logged (.out 0, (controller.play answerTaken {}).enter 0 Mask.POLLOUT),
          controller.Uncut (.out 0, (controller.play answerTaken {}).enter 0 Mask.POLLOUT) o) ∧
        ∃ o ∈ controller.logged (.out 0, (controller.play answerTaken {}).enter 0 Mask.POLLOUT),
          o.shutWith 0 []) ∧
      (∀ o ∈ segment.logged (.out 1, (segment.play sessionTaken {}).enter 1 Mask.POLLOUT),
          segment.Uncut (.out 1, (segment.play sessionTaken {}).enter 1 Mask.POLLOUT) o) ∧
        ∃ o ∈ segment.logged (.out 1, (segment.play sessionTaken {}).enter 1 Mask.POLLOUT), o.shutWith 1 [] :=
  ⟨⟨(nothing_is_cut_off (controller.play answerTaken {})).1 (.of_events answerTaken .HALF_DUPLEX)
      (.poll 0 Mask.POLLOUT {}) _ (by decide +kernel)
      (by decide +kernel), by decide +kernel⟩,
    (nothing_is_cut_off (segment.play sessionTaken {})).2 (.of_events sessionTaken .HALF_DUPLEX)
      (.poll 1 Mask.POLLOUT none) _ (by decide +kernel) (by decide +kernel), by decide +kernel⟩

/-- The kernel takes nothing in the last flush, and the stream is shut with a byte left. -/
theorem the_last_byte_is_cut_off :
    controller.Run (fun _ _ => True) (controller.play backendAnswers {}) ∧
      (∃ o ∈ controller.logged (.out 0, (controller.play backendAnswers {}).enter 0 Mask.POLLOUT),
        o.shutWith 0 [7]) ∧
      segment.Run (fun _ _ => True) (segment.play sessionStops {}) ∧
      ∃ o ∈ segment.logged (.out 1, (segment.play sessionStops {}).enter 1 Mask.POLLOUT), o.shutWith 1 [1] := by
  refine ⟨.of_events backendAnswers .HALF_DUPLEX, ?_, .of_events sessionStops .HALF_DUPLEX, ?_⟩ <;> decide +kernel

end cloudbus
