-- The controller decides to connect a client from the transports that are still
-- there, and not from what it did before. A client that lost its transports and
-- is read before it is erased is connected again, in the middle of its stream.
-- While a client that has something to say keeps a transport, it is connected once.
import Cloudbus.ControllerTurns

namespace cloudbus

open cloudbus.io cloudbus.messages

/-- The entry inserts a connection for the client `n`. -/
def Obs.opens (n : StreamId) : Obs → Bool
  | .opened m _ => m == n
  | _ => false

end cloudbus

namespace cloudbus.controller

open cloudbus.io cloudbus.messages Connector

/-! ## The condition -/

/-- The client was connected before. -/
def Initiated (n : StreamId) (log : List Obs) : Prop := ∃ o ∈ log, o.opens n

instance (n : StreamId) (log : List Obs) : Decidable (Initiated n log) :=
  inferInstanceAs (Decidable (∃ o ∈ log, o.opens n = true))

/-- The client is at its end, or has no chunk and no byte that waits. -/
def Silent (n : StreamId) (st : Connector) : Prop :=
  (st.sock n).eof ∨ (st.chunk n).pending = [] ∧ (st.sock n).avail = []

/-- A client that was connected and has something to say is read only while one of its
transports is there. -/
def Attached : Call → Connector → Prop
  | .inn n _, st => Initiated n st.log → connected n st ∨ Silent n st
  | _, _ => True

instance (n : StreamId) (st : Connector) : Decidable (Silent n st) :=
  inferInstanceAs (Decidable (_ ∨ _))

instance (c : Call) (st : Connector) : Decidable (Attached c st) :=
  match c with
  | .inn _ _ => inferInstanceAs (Decidable (_ → _))
  | .out _ => isTrue trivial
  | .env _ => isTrue trivial

variable {n : StreamId} {st st' : Connector} {log obs : List Obs}

theorem Initiated.mono (h : Initiated n log) : Initiated n (log ++ obs) := by
  obtain ⟨o, ho, hn⟩ := h
  exact ⟨o, List.mem_append_left _ ho, hn⟩

theorem initiated_of_opened {cid : Nat} (h : .opened n cid ∈ log) : Initiated n log := ⟨_, h, beq_self_eq_true n⟩

/-- A session is opened only for a client without a transport that has something to say. -/
theorem Routing.speaks {C : Call → Connector → Prop} (hr : Routing C n st) (he : (st.sock n).eof = false)
    (hpos : 0 < (st.chunk n).tellp) (hcon : connected n st = false) :
    ∃ o st0, C (.inn n o) st0 ∧ st0.log = st.log ∧ ¬ (connected n st0 ∨ Silent n st0) := by
  obtain ⟨o, st0, st1, bs, hc, -, -, hread, hq⟩ := hr
  refine ⟨o, st0, hc, by rw [hq.log, hread.effect.log, List.append_nil], ?_⟩
  rintro (h | h | ⟨hp, ha⟩)
  · have h1 : connected n st1 = connected n st0 :=
      connected_congr hread.live (by rw [hread.connections])
    rw [← h1, ← connected_of_quiet hq, hcon] at h
    cases h
  · have := hread.chunked.pulled.eofbit h
    rw [← Sockstream.eof, ← (hq.keeps.kept n).eof, he] at this
    cases this
  · -- no byte waits, so the chunk that was read is empty
    have hbs : bs = [] := by
      have := hread.chunked.pulled.avail
      rw [ha, List.append_eq_nil_iff] at this
      exact this.1
    have hch := congrArg List.length (hread.chunked.fresh hp).1
    have hle := (st1.chunk n).ppos_le
    rw [hbs, Stringstream.chunk, List.length_take] at hch
    rw [hq.chunk, Stringstream.tellp] at hpos
    simp only [List.length_nil] at hch
    omega

/-- A client that is connected now was not connected before. -/
theorem not_initiated (hr : Routing Attached n st) (he : (st.sock n).eof = false) (hpos : 0 < (st.chunk n).tellp)
    (hcon : connected n st = false) : ¬ Initiated n st.log := by
  obtain ⟨o, st0, hc, hlog, hnot⟩ := hr.speaks he hpos hcon
  exact fun hi => hnot (hc (by rw [hlog]; exact hi))

/-! ## No second session -/

/-- The entry neither inserts a connection for the client `n`, nor is it a frame with INIT
for one of those in `log`. -/
def Foreign (n : StreamId) (log : List Obs) (o : Obs) : Prop :=
  (∀ cid, o ≠ .opened n cid) ∧ ∀ cid dst eid t p ok, o = .sent cid dst eid t p ok → t.has INIT →
    ∃ k, cid = some k ∧ .opened n k ∉ log

theorem foreign_of_plain {o : Obs} (h : o.plain) : Foreign n log o := by
  refine ⟨fun cid he => ?_, fun cid dst eid t p ok he hi => ?_⟩
  · rw [he] at h
    cases h
  · rw [he] at h
    exact absurd hi (by simpa [Obs.plain] using h)

/-- The log grew by entries that start nothing for the client `n`. -/
def Once (n : StreamId) (log : List Obs) (st : Connector) : Prop :=
  ∃ obs, st.log = log ++ obs ∧ ∀ o ∈ obs, Foreign n log o

theorem once_lawful (hn : Initiated n log) : Lawful Attached (Once n log) := by
  intro st st' _ act hsound _ h
  obtain ⟨obs0, hlog0, hobs0⟩ := h
  have grow : ∀ {obs}, st'.log = st.log ++ obs → (∀ o ∈ obs, Foreign n log o) →
      ∃ obs, st'.log = log ++ obs ∧ ∀ o ∈ obs, Foreign n log o := fun {obs} hl ho =>
    ⟨obs0 ++ obs, by rw [hl, hlog0, List.append_assoc],
      fun o h => (List.mem_append.mp h).elim (hobs0 o) (ho o)⟩
  rcases act.kinds with ⟨obs, hl, ho⟩ | ⟨m, eid, cs, obs, hc⟩ | ⟨s, f, k, c, fed, aborts, hd⟩
  · exact grow hl fun o hmem => foreign_of_plain (ho o hmem)
  · have hne : m ≠ n := by
      rintro rfl
      refine not_initiated hc.routing hc.eof hc.pos hc.alone ?_
      rw [hlog0]
      exact hn.mono
    refine grow hc.log fun o hmem => ?_
    obtain ⟨c, -, -, hcid, rfl | ⟨ok, rfl⟩⟩ := hc.mem_log hmem
    · refine ⟨fun cid he => hne (Obs.opened.inj he).1, fun _ _ _ _ _ _ he => ?_⟩
      cases he
    · refine ⟨fun cid he => (by cases he), fun cid dst eid t p ok' he _ => ⟨c.cid, ?_, fun hold => ?_⟩⟩
      · cases he
        rfl
      · have := hsound.logged _ (by rw [hlog0]; exact List.mem_append_left _ hold) c.cid rfl
        omega
  · refine grow hd.delivered.effect.log fun o hmem => ?_
    rcases List.mem_append.mp hmem with hmem | hmem
    · obtain ⟨p, ok, rfl⟩ := hd.delivered.fed.cid o hmem
      exact ⟨nofun, nofun⟩
    · exact foreign_of_plain (plain_of_delivered hd.delivered hmem)

/-! ## From the first byte -/

/-- All that was read of a client is in its buffer until it is connected. -/
structure Waiting (st : Connector) : Prop where
  fresh : ∀ i, st.next ≤ i → (st.chunk i).pending = []
  held : ∀ i, i < st.next → (st.ep i).iface = .north → ¬ Initiated i st.log →
    (st.sock i).taken = (st.chunk i).pending

/-- Nothing of a client was forwarded before it is connected. -/
structure FromStart (st : Connector) : Prop extends Waiting st where
  owners : ∀ c ∈ st.connections, Initiated c.north st.log
  base : ∀ c ∈ st.connections, c.base = []

/-- No chunk and no reading half of a client changed. -/
theorem Waiting.of_same (h : Waiting st) (he : Effect st st' obs) (hn : st'.next = st.next)
    (hch : ∀ i, st'.chunk i = st.chunk i)
    (ht : ∀ i, i < st.next → (st.ep i).iface = .north → (st'.sock i).taken = (st.sock i).taken) : Waiting st' := by
  refine ⟨fun i hi => ?_, fun i hi hif hin => ?_⟩
  · rw [hch]
    exact h.fresh i (hn ▸ hi)
  · rw [hn] at hi
    rw [he.iface i hi] at hif
    rw [he.log] at hin
    rw [hch, ht i hi hif]
    exact h.held i hi hif fun hi' => hin hi'.mono

/-- Streams were dialed, and then written. -/
theorem Waiting.of_dialed {st1 : Connector} (h : Waiting st) (hd : Dialed st st1) (hk : Keeps st1 st')
    (he : Effect st1 st' obs)
    (hch : ∀ i, (Initiated i st'.log ∧ i < st.next) ∨ st'.chunk i = st.chunk i) : Waiting st' := by
  have hnext : st.next ≤ st'.next := by
    rw [hk.next]
    exact hd.effect.next
  refine ⟨fun i hi => ?_, fun i hi hif hin => ?_⟩
  · rcases hch i with ⟨-, hlt⟩ | heq
    · exact absurd hlt (Nat.not_lt.mpr (Nat.le_trans hnext hi))
    · rw [heq]
      exact h.fresh i (Nat.le_trans hnext hi)
  · rcases hch i with ⟨hyes, -⟩ | heq
    · exact absurd hyes hin
    · rw [heq, (hk.kept i).taken]
      rw [hk.next] at hi
      by_cases hlt : i < st.next
      · rw [hd.taken hlt]
        rw [he.iface i hi, hd.effect.iface i hlt] at hif
        refine h.held i hlt hif fun hi' => hin ?_
        rw [he.log, hd.effect.log, List.append_nil]
        exact hi'.mono
      · obtain ⟨fd, rx, tx, hs⟩ := hd.born i (Nat.le_of_not_lt hlt) hi
        rw [hs, h.fresh i (Nat.le_of_not_lt hlt)]
        rfl

theorem waiting_of_act {C : Call → Connector → Prop} (hb : Base st) (h : FromStart st) (act : Act C st st') :
    Waiting st' := by
  have hw := h.toWaiting
  have kept : ∀ {obs}, Effect st st' obs → Keeps st st' → (∀ i, st'.chunk i = st.chunk i) → Waiting st' :=
    fun he hk hch => hw.of_same he hk.next hch fun i _ _ => (hk.kept i).taken
  have gone : ∀ {obs}, Effect st st' obs → st'.next = st.next → (∀ i, Kept (st.sock i) (st'.sock i)) →
      (∀ i, st'.chunk i = st.chunk i) → Waiting st' :=
    fun he hn hk hch => hw.of_same he hn hch fun i _ _ => (hk i).taken
  have same : Same st st' → Waiting st' := fun hs => by
    refine ⟨fun i hi => ?_, fun i hi hif hin => ?_⟩
    · rw [hs.chunk]
      exact h.fresh i (hs.next ▸ hi)
    · rw [hs.next] at hi
      rw [hs.iface i hi] at hif
      rw [hs.log] at hin
      rw [hs.chunk, hs.taken]
      exact h.held i hi hif hin
  cases act with
  | quiet hq => exact kept hq.effect hq.keeps hq.chunk
  | errors => exact same (.takeErrors st _)
  | @clientRead n _ _ _ bs _ hl hif hr =>
    have hlt := hb.used n hl
    refine ⟨fun i hi => ?_, fun i hi hif' hin => ?_⟩
    · rw [hr.next] at hi
      rw [hr.others i (Nat.ne_of_gt (Nat.lt_of_lt_of_le hlt hi))]
      exact h.fresh i hi
    · rw [hr.next] at hi
      rw [hr.effect.iface i hi] at hif'
      rw [hr.effect.log, List.append_nil] at hin
      have := h.held i hi hif' hin
      by_cases hin : i = n
      · subst hin
        rw [hr.chunked.pulled.taken, hr.chunked.pending, this]
      · rw [hr.socks i hin, hr.others i hin]
        exact this
  | @transportRead s _ b _ _ _ _ hl hif hr =>
    refine hw.of_same hr.effect hr.next hr.chunk fun i _ hn => ?_
    rw [hr.socks i]
    rintro rfl
    rw [hif] at hn
    cases hn
  | @sentAll n _ _ st1 _ _ _ obs _ hl _ hr hq hs =>
    have hlt : n < st.next := hb.used n (by rw [hq.live, hr.live]; exact hl)
    refine ⟨fun i hi => ?_, fun i hi hif hin => ?_⟩
    · rw [hs.keeps.next] at hi
      rw [hs.others i (Nat.ne_of_gt (Nat.lt_of_lt_of_le hlt hi))]
      exact h.fresh i hi
    · rw [hs.keeps.next] at hi
      rw [hs.effect.iface i hi] at hif
      rw [hs.effect.log] at hin
      have hnot : ¬ Initiated i st.log := fun h => hin h.mono
      rw [(hs.keeps.kept i).taken, h.held i hi hif hnot]
      by_cases hin : i = n
      · -- a client that was not connected has no connection to send to
        subst hin
        rw [hs.untouched]
        refine List.filter_eq_nil_iff.mpr fun c hc ha => hnot ?_
        rw [← (active_iff.mp ha).1]
        exact h.owners c hc
      · rw [hs.others i hin]
  | @opened n o st0 st1 _ _ bs cs obs _ hl _ hr _ _ _ hq ho hs =>
    obtain ⟨st2, hd, hk, hef⟩ := ho.dials
    refine hw.of_dialed hd.dialed hk hef fun i => ?_
    by_cases hin : i = n
    · subst hin
      have hlt : i < st.next := hb.used i (by rw [hq.live, hr.live]; exact hl)
      cases cs with
      | nil =>
        refine .inr ?_
        rcases hs with ⟨-, hch, -⟩ | hs
        · exact hch
        · exact hs.untouched rfl
      | cons c cs =>
        refine .inl ⟨?_, hlt⟩
        rw [hef.log, ← hd.north c (.head _)]
        exact initiated_of_opened (List.mem_append_right _ (List.mem_append_right _ (.head _)))
    · exact .inr (ho.others i hin)
  | refused _ _ _ _ _ hd _ => exact kept hd.effect hd.keeps hd.chunk
  | orphan _ _ _ _ _ _ _ _ hd => exact kept hd.effect hd.keeps hd.chunk
  | deferred _ _ _ hd => exact kept hd.effect hd.keeps hd.chunk
  | delivered _ _ _ _ _ _ _ _ _ hd => exact kept hd.effect hd.keeps hd.chunk
  | clientGone _ hg => exact gone hg.effect hg.next hg.kept hg.chunk
  | transportGone _ hg => exact gone hg.effect hg.next hg.kept hg.chunk
  | shut => exact hw.of_same (shutdown_effect _ _) rfl (fun _ => rfl) fun _ _ _ => rfl
  | dialed hd _ _ => exact hw.of_dialed hd (.refl _) (.refl _) fun i => .inr (hd.chunk i)
  | connectLost _ _ _ _ _ hl =>
    obtain ⟨obs, he, -⟩ := hl.effect
    exact gone he hl.next hl.kept hl.chunk
  | pushRx => exact same (.pushRx st _ _)
  | pushTx => exact same (.pushTx st _ _)

theorem fromStart_lawful : Lawful Attached FromStart := by
  intro st st' obs act hsound ht h
  have hconn : ∀ c ∈ st'.connections, Initiated c.north st'.log ∧ c.base = [] := by
    intro c hc
    rcases (ht.turn c hc).origin with ⟨d, hd, s, rfl, -⟩ |
      ⟨-, hlog, hr, he, hpos, hcon, -, -, hbase, -⟩
    · rw [ht.log]
      exact ⟨(h.owners d hd).mono, h.base d hd⟩
    · refine ⟨?_, ?_⟩
      · rw [ht.log]
        exact initiated_of_opened (List.mem_append_right _ hlog)
      · -- all that was read of the client is still in its buffer
        have hlt := hsound.used _ hr.live
        have := h.held _ hlt (hr.iface hlt) (not_initiated hr he hpos hcon)
        rw [hbase, consumed, this, Nat.sub_self, List.take_zero]
  exact ⟨waiting_of_act hsound.toBase h act, fun c hc => (hconn c hc).1, fun c hc => (hconn c hc).2⟩

theorem Run.fromStart (h : Run Attached st) : FromStart st :=
  fromStart_lawful.run (fun _ => ⟨⟨fun _ _ => rfl, nofun⟩, nofun, nofun⟩) h

/-! ## The laws -/

/-- The client 0 sends a byte and is connected, and then sends another one. -/
def secondChunk : List Event :=
  [.env (.accept 10), .env (.rx 0 (.data 1 [])), .poll 0 Mask.POLLIN ⟨.ofNode 1, [.make (some 20)]⟩,
    .env (.rx 0 (.data 2 []))]

/-- The client is read, and a uuid and a transport are at hand. -/
def readAgain : Event := .poll 0 Mask.POLLIN ⟨.ofNode 2, [.make (some 21)]⟩

/-- The same, but the transport of the client fails before it is read again. -/
def lostTransport : List Event := secondChunk ++ [.poll 1 { pollerr := true } {}]

end cloudbus.controller
