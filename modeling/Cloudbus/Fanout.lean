-- A chunk of a client goes to every backend of its session. The backends share one
-- chunk buffer, and its get position after the last copy tells whether the chunk was
-- forwarded. When it was not, it is sent to all of them again.
import Cloudbus.FirstChunk
import Cloudbus.Flow
import Cloudbus.Isolation
import Cloudbus.Transit

namespace cloudbus

open cloudbus.io cloudbus.messages Connector

/-! ## The payloads of a connection -/

/-- The payload of a frame that was sent. -/
def Obs.payload : Obs → List UInt8
  | .sent _ _ _ _ p _ => p
  | _ => []

/-- The payload of a frame that went to a good stream. -/
def Obs.appended : Obs → List UInt8
  | .sent _ _ _ _ p true => p
  | _ => []

/-- The entry is not about a frame for a stream that had failed. -/
def Obs.ok : Obs → Bool
  | .sent _ _ _ _ _ ok => ok
  | _ => true

/-- The payloads that were sent for a connection. -/
def payloads (cid : Nat) (log : List Obs) : List UInt8 := (about cid log).flatMap Obs.payload

/-- The payloads that the stream of a connection took. -/
def appended (cid : Nat) (log : List Obs) : List UInt8 := (about cid log).flatMap Obs.appended

theorem payloads_append (cid : Nat) (a b : List Obs) :
    payloads cid (a ++ b) = payloads cid a ++ payloads cid b := by
  simp [payloads]

variable {cid : Nat}

theorem payloads_eq_nil {obs : List Obs} (h : ∀ o ∈ obs, o.payload = []) : payloads cid obs = [] :=
  List.flatMap_eq_nil_iff.mpr fun o ho => h o (mem_about.mp ho).1

theorem appended_eq_payloads {log : List Obs} (h : ∀ o ∈ about cid log, o.ok) :
    appended cid log = payloads cid log := by
  refine List.flatMap_congr fun o ho => ?_
  have hok := h o ho
  cases o with
  | sent cid dst eid t p ok =>
    cases ok with
    | true => rfl
    | false => cases hok
  | _ => rfl

namespace controller

variable {st st' : Connector} {n : StreamId}

/-- What the client sent is what was forwarded and what is still in its buffer. -/
theorem consumed_append (h : (st.chunk n).pending <:+ (st.sock n).taken) :
    consumed st n ++ (st.chunk n).pending = (st.sock n).taken := by
  calc consumed st n ++ (st.chunk n).pending
      = consumed st n ++
          (st.sock n).taken.drop ((st.sock n).taken.length - (st.chunk n).pending.length) :=
        congrArg (consumed st n ++ ·) (List.suffix_iff_eq_drop.mp h)
    _ = (st.sock n).taken := List.take_append_drop _ _

theorem consumed_congr (ht : (st'.sock n).taken = (st.sock n).taken)
    (hc : st'.chunk n = st.chunk n) : consumed st' n = consumed st n := by
  rw [consumed, consumed, ht, hc]

/-- What is read is in the buffer, and not forwarded. -/
theorem consumed_of_read {bs : List UInt8} (hr : ChunkRead n st st' bs) : consumed st' n = consumed st n := by
  rw [consumed, consumed, hr.chunked.pending, hr.chunked.pulled.taken, List.length_append, List.length_append,
    Nat.add_sub_add_right, List.take_append_of_le_length (Nat.sub_le _ _)]

theorem consumed_of_empty (h : (st.chunk n).pending = []) : consumed st n = (st.sock n).taken := by
  rw [consumed, h, List.length_nil, Nat.sub_zero, List.take_length]

/-- Each connection got what its client sent since the session was opened, up to the chunk
that is still in the buffer. -/
structure Fanned (st : Connector) : Prop where
  tail : ∀ i, i < st.next → (st.ep i).iface = .north → (st.chunk i).pending <:+ (st.sock i).taken
  unborn : ∀ i, st.next ≤ i → (st.chunk i).pending = []
  fanned : ∀ c ∈ st.connections, c.state ≠ .CLOSED → st.live c.south →
    c.base ++ payloads c.cid st.log = consumed st c.north

theorem fanned_init (mode : Mode) : Fanned { mode := mode } := ⟨nofun, fun _ _ => rfl, nofun⟩

/-! ## Acts that forward nothing -/

section

variable {D : Call → Connector → Prop} {st st' : Connector} {obs : List Obs}

/-- A state that was not CLOSED before is one that was not reached from CLOSED. -/
theorem not_closed_of_rank {s t : ConnState} (h : s.rank ≤ t.rank) (ht : t ≠ .CLOSED) : s ≠ .CLOSED := by
  rintro rfl
  cases t <;> simp [ConnState.rank] at h ht

/-- The connections are old ones for which no payload was sent, and no chunk moved. -/
theorem Fanned.of_old (h : Fanned st) (hs : Sound st) (hsides : Sides st) (hg : Grows st st')
    (hlog : st'.log = st.log ++ obs)
    (hold : ∀ c ∈ st'.connections, ∃ d ∈ st.connections, ∃ s, c = { d with state := s } ∧
      d.state.rank ≤ s.rank ∧ payloads c.cid obs = [])
    (hchunk : ∀ i, st'.chunk i = st.chunk i)
    (htaken : ∀ i, i < st.next → (st.ep i).iface = .north → (st'.sock i).taken = (st.sock i).taken) :
    Fanned st' := by
  refine ⟨fun i hi hif => ?_, fun i hi => ?_, fun c hc hst hl => ?_⟩
  · rw [hchunk]
    by_cases hlt : i < st.next
    · rw [hg.iface i hlt] at hif
      rw [htaken i hlt hif]
      exact h.tail i hlt hif
    · rw [h.unborn i (Nat.le_of_not_lt hlt)]
      exact List.nil_suffix
  · rw [hchunk]
    exact h.unborn i (Nat.le_trans hg.next hi)
  · obtain ⟨d, hd, s, rfl, hrank, hnone⟩ := hold c hc
    have hnorth := hs.norths d hd
    rw [consumed_congr (htaken _ hnorth (hsides.north d hd)) (hchunk _), hlog, payloads_append, hnone,
      List.append_nil]
    exact h.fanned d hd (not_closed_of_rank hrank hst) (hg.was_live (hs.souths d hd) hl)

/-- A call that is no read of a client sends no payload. -/
theorem silent_of_turn (hD : ∀ n o st, D (.inn n o) st → (st.ep n).iface ≠ .north) {c : Connection}
    (h : Turn (rules D) st st' obs c) :
    ∃ d ∈ st.connections, ∃ s, c = { d with state := s } ∧ d.state.rank ≤ s.rank ∧ payloads c.cid obs = [] := by
  have update : ∀ {d : Connection} (t : Msgtype), d ∈ st.connections → payloads d.cid obs = [] →
      ∃ e ∈ st.connections, ∃ s, state_update d t = { e with state := s } ∧ e.state.rank ≤ s.rank ∧
        payloads (state_update d t).cid obs = [] :=
    fun {d} t hd hno => ⟨d, hd, _, rfl, rank_update d.state t, hno⟩
  have notRouting : ∀ {n : StreamId} {s : Connector}, ¬ Routing D n s :=
    fun ⟨o, st0, _, _, hC, _, hif, _⟩ => hD _ o st0 hC hif
  cases h with
  | kept hc ha => exact ⟨c, hc, c.state, rfl, Nat.le_refl _, by rw [payloads, ha]; rfl⟩
  | sent hc hs ha => exact absurd hs.1 notRouting
  | idle hc ha => exact update _ hc (by rw [payloads, ha]; rfl)
  | got hc ht hf ha =>
    refine update _ hc ?_
    rw [payloads, ha, List.flatMap_append, List.append_eq_nil_iff]
    refine ⟨List.flatMap_eq_nil_iff.mpr fun o ho => ?_, rfl⟩
    obtain ⟨p, ok, rfl⟩ := hf.cid o ho
    rfl
  | dropped hc ha => exact ⟨c, hc, c.state, rfl, Nat.le_refl _, by rw [payloads, ha]; rfl⟩
  | aborted hc _ ha => exact update _ hc (by rw [payloads, ha]; rfl)
  | failed hc ha => exact update _ hc (by rw [payloads, ha]; rfl)
  | opened _ _ ho => exact absurd ho.1 notRouting

/-- A call that is no read of a client leaves the chunks alone, and reads no client. -/
theorem Act.still (hD : ∀ n o st, D (.inn n o) st → (st.ep n).iface ≠ .north) (act : Act D st st') :
    (∀ i, st'.chunk i = st.chunk i) ∧
      ∀ i, i < st.next → (st.ep i).iface = .north → (st'.sock i).taken = (st.sock i).taken := by
  cases act with
  | quiet hq => exact ⟨hq.chunk, fun i _ _ => (hq.keeps.kept i).taken⟩
  | errors hc => exact ⟨(Same.takeErrors _ _).chunk, fun i _ _ => (Same.takeErrors _ _).taken i⟩
  | clientRead hc hl hif hr => exact absurd hif (hD _ _ _ hc)
  | transportRead hc hl hif hr =>
    refine ⟨hr.chunk, fun i _ hi => ?_⟩
    rw [hr.socks i]
    rintro rfl
    exact hD _ _ _ hc hi
  | sentAll hc hl hif => exact absurd hif (hD _ _ _ hc)
  | opened hc hl hif => exact absurd hif (hD _ _ _ hc)
  | refused hc hl hr hf hwhy hd => exact ⟨hd.chunk, fun i _ _ => (hd.keeps.kept i).taken⟩
  | orphan hc hl hr hf hk hget hst hn hd => exact ⟨hd.chunk, fun i _ _ => (hd.keeps.kept i).taken⟩
  | deferred hc hl hr hd => exact ⟨hd.chunk, fun i _ _ => (hd.keeps.kept i).taken⟩
  | delivered hc hl hr hf hk hget hst hn hh hd => exact ⟨hd.chunk, fun i _ _ => (hd.keeps.kept i).taken⟩
  | clientGone hcause hg => exact ⟨hg.chunk, fun i _ _ => (hg.kept i).taken⟩
  | transportGone hcause hg => exact ⟨hg.chunk, fun i _ _ => (hg.kept i).taken⟩
  | shut => exact ⟨fun _ => rfl, fun _ _ _ => rfl⟩
  | dialed hd => exact ⟨hd.chunk, fun i hi _ => hd.taken hi⟩
  | connectLost _ _ _ _ _ hl => exact ⟨hl.chunk, fun i _ _ => (hl.kept i).taken⟩
  | pushRx => exact ⟨(Same.pushRx _ _ _).chunk, fun i _ _ => (Same.pushRx _ _ _).taken i⟩
  | pushTx => exact ⟨(Same.pushTx _ _ _).chunk, fun i _ _ => (Same.pushTx _ _ _).taken i⟩

theorem fanned_lawful (hD : ∀ n o st, D (.inn n o) st → (st.ep n).iface ≠ .north) :
    Lawful D fun st => Sides st ∧ Fanned st := by
  intro st st' obs act hs ht ⟨hsides, h⟩
  obtain ⟨hchunk, htaken⟩ := act.still hD
  exact ⟨sides_lawful act hs ht hsides, h.of_old hs hsides act.grows ht.log
    (fun c hc => silent_of_turn hD (ht.turn c hc)) hchunk htaken⟩

end

/-! ## A read of a client -/

section

variable {st st' : Connector} {n : StreamId} {obs : List Obs}

theorem fanned_of_quiet (hq : Quiet st st') (h : Sound st ∧ Sides st ∧ Fanned st) :
    Sound st' ∧ Sides st' ∧ Fanned st' :=
  (fanned_lawful (D := fun _ _ => False) fun _ _ _ => False.elim).preserved (.quiet hq) h

/-- What is read stays in the buffer. -/
theorem Fanned.chunkRead {bs : List UInt8} (h : Fanned st) (hn : n < st.next) (hr : ChunkRead n st st' bs) :
    Fanned st' := by
  have hother : ∀ i, i ≠ n → st'.chunk i = st.chunk i ∧ (st'.sock i).taken = (st.sock i).taken :=
    fun i hi => ⟨hr.others i hi, by rw [hr.socks i hi]⟩
  have hpending : (st'.chunk n).pending = (st.chunk n).pending ++ bs := hr.chunked.pending
  have htaken : (st'.sock n).taken = (st.sock n).taken ++ bs := hr.chunked.pulled.taken
  refine ⟨fun i hi hif => ?_, fun i hi => ?_, fun c hc hst hl => ?_⟩
  · rw [hr.next] at hi
    rw [hr.effect.iface i hi] at hif
    by_cases hin : i = n
    · subst hin
      obtain ⟨t, ht⟩ := h.tail i hi hif
      rw [hpending, htaken]
      exact ⟨t, by rw [← ht, List.append_assoc]⟩
    · rw [(hother i hin).1, (hother i hin).2]
      exact h.tail i hi hif
  · rw [hr.next] at hi
    rw [(hother i (Nat.ne_of_gt (Nat.lt_of_lt_of_le hn hi))).1]
    exact h.unborn i hi
  · rw [hr.connections] at hc
    rw [hr.live] at hl
    have hlog : st'.log = st.log := by simpa using hr.effect.log
    rw [hlog, h.fanned c hc hst hl]
    by_cases hin : c.north = n
    · rw [hin, consumed_of_read hr]
    · exact (consumed_congr (hother _ hin).2 (hother _ hin).1).symm

variable {a b : Stringstream}

/-- After a copy the chunk was forwarded, or all of it is still in the buffer. -/
theorem pending_of_copy (hd : b.data = a.data) (hp : b.ppos = a.ppos) : b.pending = [] ∨ b.pending = a.chunk := by
  unfold Stringstream.pending
  split
  · exact .inl rfl
  · exact .inr (Stringstream.chunk_congr hd hp)

theorem pending_of_whole (hp : b.ppos = a.ppos) (hg : b.gpos = a.ppos) : b.pending = [] :=
  if_pos (hg.trans hp.symm)

/-- The chunk went to all active connections, and was read to its end. -/
theorem Fanned.sentAll {type : Msgtype} (h : Fanned st) (hs : Sound st) (hn : n < st.next)
    (hif : (st.ep n).iface = .north) (hpend : (st.chunk n).pending = (st.chunk n).chunk)
    (hsent : SentAll n type st st' obs)
    (hwhole : ∀ c ∈ st.connections, active n st c → (st'.chunk n).gpos = (st.chunk n).ppos) : Fanned st' := by
  have htaken : ∀ i, (st'.sock i).taken = (st.sock i).taken := fun i => (hsent.keeps.kept i).taken
  have htail := h.tail n hn hif
  refine ⟨fun i hi hi' => ?_, fun i hi => ?_, fun c hc hst hl => ?_⟩
  · rw [hsent.keeps.next] at hi
    rw [hsent.effect.iface i hi] at hi'
    rw [htaken]
    by_cases hin : i = n
    · subst hin
      rcases pending_of_copy (hsent.chunk i).1 (hsent.chunk i).2 with hp | hp
      · rw [hp]
        exact List.nil_suffix
      · rw [hp, ← hpend]
        exact htail
    · rw [hsent.others i hin]
      exact h.tail i hi hi'
  · rw [hsent.keeps.next] at hi
    rw [hsent.others i (Nat.ne_of_gt (Nat.lt_of_lt_of_le hn hi))]
    exact h.unborn i hi
  · rw [hsent.connections, List.mem_map] at hc
    obtain ⟨d, hd, rfl⟩ := hc
    have hentry := about_of_loop (p := active n st) (fun c o ⟨_, ho⟩ => by rw [ho]; rfl) hsent.sent hs.cids hd
    rw [hsent.effect.log, payloads_append]
    by_cases hact : active n st d
    · -- the connection got the chunk, and the buffer is empty
      simp only [if_pos hact] at hst hl hentry ⊢
      obtain ⟨hnorth, hlive, hopen⟩ := active_iff.mp hact
      obtain ⟨o, ⟨ok, rfl⟩, hentry⟩ := hentry
      have hnew : payloads d.cid obs = (st.chunk n).chunk := by
        rw [payloads, hentry]
        exact List.append_nil _
      have hempty := pending_of_whole (hsent.chunk n).2 (hwhole d hd hact)
      show d.base ++ (payloads d.cid st.log ++ payloads d.cid obs) = consumed st' d.north
      rw [hnew, ← List.append_assoc, h.fanned d hd hopen hlive, hnorth, ← hpend, consumed_append htail,
        consumed_of_empty hempty, htaken]
    · simp only [if_neg hact] at hst hl hentry ⊢
      rw [hsent.keeps.live] at hl
      have hne : d.north ≠ n := fun hnorth => hact (active_iff.mpr ⟨hnorth, hl, hst⟩)
      have hnew : payloads d.cid obs = [] := by
        rw [payloads, hentry]
        rfl
      rw [hnew, List.append_nil, consumed_congr (htaken _) (hsent.others _ hne)]
      exact h.fanned d hd hst hl

/-- A session was opened. Its connections got the chunk, or it stays in the buffer. -/
theorem Fanned.opened {C : Call → Connector → Prop} {eid : Uuid} {cs : List Connection} (h : Fanned st)
    (hs : Sound st) (hn : n < st.next) (hif : (st.ep n).iface = .north)
    (hpend : (st.chunk n).pending = (st.chunk n).chunk) (hc : Connects C n eid st st' cs obs)
    (hwhole : obs ≠ [] → (st'.chunk n).gpos = (st.chunk n).ppos) : Fanned st' := by
  obtain ⟨st1, hd, hk, hef⟩ := hc.opened.dials
  have hg := hd.dialed.effect.grows
  have htaken : ∀ i, i < st.next → (st'.sock i).taken = (st.sock i).taken := fun i hi =>
    (hk.kept i).taken.trans (hd.dialed.taken hi)
  have hiface : ∀ i, i < st.next → (st'.ep i).iface = (st.ep i).iface := fun i hi =>
    (hef.iface i (Nat.lt_of_lt_of_le hi hg.next)).trans (hg.iface i hi)
  have htail := h.tail n hn hif
  refine ⟨fun i hi hi' => ?_, fun i hi => ?_, fun c hmem hst hl => ?_⟩
  · by_cases hin : i = n
    · subst hin
      rw [htaken i hn]
      rcases pending_of_copy (hc.opened.chunk i).1 (hc.opened.chunk i).2 with hp | hp
      · rw [hp]
        exact List.nil_suffix
      · rw [hp, ← hpend]
        exact htail
    · rw [hc.opened.others i hin]
      by_cases hlt : i < st.next
      · rw [htaken i hlt]
        exact h.tail i hlt (hiface i hlt ▸ hi')
      · rw [h.unborn i (Nat.le_of_not_lt hlt)]
        exact List.nil_suffix
  · rw [hk.next] at hi
    have hi0 := Nat.le_trans hg.next hi
    rw [hc.opened.others i (Nat.ne_of_gt (Nat.lt_of_lt_of_le hn hi0))]
    exact h.unborn i hi0
  · rw [hc.log, payloads_append]
    rw [hc.opened.connections, List.mem_append] at hmem
    rcases hmem with hmem | hmem
    · -- an old connection is one of another client
      have hlive : st.live c.south := by
        rw [hk.live] at hl
        exact hg.was_live (hs.souths c hmem) hl
      have hne : c.north ≠ n := fun hnorth => unconnected hc.alone c hmem ⟨hnorth, hlive⟩
      have hnone : payloads c.cid (obs ++ cs.map fun c => .opened c.north c.cid) = [] := by
        rw [payloads, about_eq_nil]
        · rfl
        intro o ho hcid
        obtain ⟨d, -, -, hnew, rfl | ⟨ok, rfl⟩⟩ := hc.mem_log ho
        · exact absurd (hs.bound c hmem) (Nat.not_lt.mpr (Option.some.inj hcid ▸ hnew))
        · exact absurd (hs.bound c hmem) (Nat.not_lt.mpr (Option.some.inj hcid ▸ hnew))
      rw [hnone, List.append_nil, consumed_congr (htaken _ (hs.norths c hmem)) (hc.opened.others _ hne)]
      exact h.fanned c hmem hst hlive
    · have hcids := hd.cids
      have hfresh : payloads c.cid st.log = [] := by
        have hmem' := List.mem_map_of_mem (f := Connection.cid) hmem
        rw [hcids, List.mem_range'_1] at hmem'
        rw [payloads, hs.about_new hmem'.1]
        rfl
      have hopened : payloads c.cid (cs.map fun c => .opened c.north c.cid) = [] := by
        refine payloads_eq_nil fun o ho => ?_
        obtain ⟨d, -, rfl⟩ := List.mem_map.mp ho
        rfl
      rw [hfresh, List.nil_append, payloads_append, hopened, List.append_nil, hd.base c hmem, hd.north c hmem]
      rcases hc.sent with ⟨rfl, hsame, -⟩ | hsent
      · rw [consumed_congr (htaken n hn) hsame]
        exact List.append_nil _
      · obtain ⟨o, ⟨ok, rfl⟩, hentry⟩ := about_of_all (fun c o ⟨_, ho⟩ => by rw [ho]; rfl) hsent.sent
          (hcids ▸ List.nodup_range') hmem
        have hsome : obs ≠ [] := by
          rintro rfl
          cases hentry
        have hnew : payloads c.cid obs = (st.chunk n).chunk := by
          rw [payloads, hentry]
          exact List.append_nil _
        have hempty := pending_of_whole (hc.opened.chunk n).2 (hwhole hsome)
        rw [hnew, ← hpend, consumed_append htail, consumed_of_empty hempty, htaken n hn]

theorem Fanned.clientGone (h : Fanned st) (hs : Sound st) (hsides : Sides st) (hg : ClientGone n st st' obs) :
    Fanned st' := by
  have hplain : ∀ o ∈ obs ++ [.erased n (st.connsOf n) (st'.sock n)], o.payload = [] := by
    intro o ho
    rcases List.mem_append.mp ho with ho | ho
    · obtain ⟨c, -, eid, ok, rfl, -⟩ := exists_of_forall₂ hg.logged ho
      rfl
    · rw [List.mem_singleton.mp ho]
      rfl
  refine h.of_old hs hsides hg.effect.grows hg.effect.log (fun c hc => ?_) hg.chunk fun i _ _ => (hg.kept i).taken
  rw [hg.connections] at hc
  obtain ⟨d, hd, rfl⟩ := List.mem_map.mp (List.mem_of_mem_filter hc)
  simp only [id, ite_self]
  exact ⟨d, hd, d.state, rfl, Nat.le_refl _, payloads_eq_nil hplain⟩

end

/-! ## The last copy -/

/-- The stream that the chunk of the client is copied to at last. -/
def lastCopy (o : Oracle) (n : StreamId) (st : Connector) : Option Sockstream :=
  if connected n st then (st.connections.filter (active n st)).getLast?.map fun c => st.sock c.south
  else (connectLoop n 0 o.picks o.eid st).2.getLast?.map fun c =>
    (connectLoop n 0 o.picks o.eid st).1.sock c.south

/-- When a client is read, the stream of the last copy is not bad and does not go bad, or the chunk
is so short that it is copied in one slice. -/
def LastHolds : Call → Connector → Prop
  | .inn n o, st => (st.ep n).iface = .north →
      ((readClient n st).chunk n).tellp ≤ 256 ∨
        ∀ s ∈ lastCopy o n ((readClient n st).dropInput n), s.bad = false ∧ s.Healthy
  | .out _, _ => True
  | .env _, _ => True

instance (s : Sockstream) : Decidable s.Healthy := inferInstanceAs (Decidable (∀ a ∈ s.tx, a.isError = false))

instance (c : Call) (st : Connector) : Decidable (LastHolds c st) :=
  match c with
  | .inn n o => inferInstanceAs (Decidable ((st.ep n).iface = .north →
      ((readClient n st).chunk n).tellp ≤ 256 ∨
        ∀ s ∈ lastCopy o n ((readClient n st).dropInput n), s.bad = false ∧ s.Healthy))
  | .out _ => inferInstanceAs (Decidable True)
  | .env _ => inferInstanceAs (Decidable True)

section

variable {st : Connector}

variable {n : StreamId} {o : Oracle}

/-- The copies to the connections of a session end at the end of the chunk. -/
theorem whole_of_sentAll {type : Msgtype} {r a b : Connector} {obs : List Obs}
    (hlast : (r.chunk n).tellp ≤ 256 ∨ ∀ s ∈ lastCopy o n r, s.bad = false ∧ s.Healthy) (hq : Quiet r a)
    (hsent : SentAll n type a b obs) {c : Connection} (hc : c ∈ a.connections) (hact : active n a c) :
    (b.chunk n).gpos = (a.chunk n).ppos := by
  have hfilter : a.connections.filter (active n a) = r.connections.filter (active n r) := by
    rw [hq.connections]
    exact List.filter_congr fun d _ => active_congr hq.keeps d
  obtain ⟨hn, hl, -⟩ := active_iff.mp hact
  have hcon : connected n r = true := by
    refine List.any_eq_true.mpr ⟨c, hq.connections ▸ hc, ?_⟩
    rw [hq.live] at hl
    simp [hn, hl]
  -- there is a last connection, for there is one
  obtain ⟨d, hd⟩ : ∃ d, (a.connections.filter (active n a)).getLast? = some d :=
    ⟨_, List.getLast?_eq_some_getLast (List.ne_nil_of_mem (List.mem_filter.mpr ⟨hc, hact⟩))⟩
  refine hsent.whole d hd ?_
  rcases hlast with hshort | hlast
  · exact .inr (by rw [hq.chunk]; exact hshort)
  · left
    obtain ⟨hbad, hhealthy⟩ := hlast (r.sock d.south) (by
      rw [lastCopy, if_pos hcon, ← hfilter, hd]
      rfl)
    rw [((hq.keeps.trans hsent.keeps).kept d.south).bad hhealthy]
    exact hbad

theorem callIn_fanned (hs : Sound st) (hl : st.live n) (hif : (st.ep n).iface = .north)
    (hlast : LastHolds (.inn n o) st) (hsides : Sides st) (h : Fanned st) : Fanned (callIn n o st) := by
  obtain ⟨bs, hr⟩ := readClient_spec n st (hs.chunk n)
  have hsound : ∀ {a b : Connector}, Act (fun _ _ => True) a b → Sound a ∧ Sides a → Sound b ∧ Sides b :=
    fun act ha => sides_lawful.preserved act ha
  have hread := hsound (.clientRead (o := o) trivial hl hif hr) ⟨hs, hsides⟩
  have hfan := h.chunkRead (hs.used n hl) hr
  have hpend := pending_of_read hr
  have hlast' := hlast hif
  rw [← ((readClient n st).dropInput_quiet n).chunk n] at hlast'
  rw [callIn_north o hif]
  generalize (readClient n st).dropInput n = r at hr hread hfan hpend hlast' ⊢
  have hused : IdsUsed r := hread.1.used
  have hn : n < r.next := hused n (by rw [hr.live]; exact hl)
  have hif' : (r.ep n).iface = .north := (hr.effect.iface n (hs.used n hl)).trans hif
  by_cases hnew : connected n r = false ∧ (r.sock n).eof = false ∧ 0 < (r.chunk n).tellp
  · -- the chunk opens a session
    obtain ⟨hfree, heof, hpos⟩ := hnew
    have hrouting : Routing (fun _ _ => True) n r := ⟨o, st, r, bs, trivial, hl, hif, hr, .refl r⟩
    rw [route_north_unconnected o hfree heof hpos]
    rcases north_connect_spec o hused hn with ⟨-, hnone⟩ | ⟨cs, obs, hopened, hsent, hcs, hkeeps⟩
    · rw [hnone]
      obtain ⟨obs, hg⟩ := north_err_handler_spec n r
      exact hfan.clientGone hread.1 hread.2 hg
    · have htype : initType r n = ⟨DATA, INIT⟩ := by rw [initType, heof]; rfl
      rw [htype] at hsent
      have hconnects : Connects (fun _ _ => True) n o.eid r (north_connect o n r).1 cs obs :=
        ⟨hrouting, heof, hpos, hfree, hopened, hsent.imp And.right And.right⟩
      have hwhole : obs ≠ [] → ((north_connect o n r).1.chunk n).gpos = (r.chunk n).ppos := by
        intro hobs
        rcases hsent with ⟨-, hnil, -⟩ | ⟨-, hsent⟩
        · exact absurd hnil hobs
        · have hne : cs ≠ [] := by
            rintro rfl
            exact hobs (List.forall₂_nil_left_iff.mp hsent.sent)
          refine hsent.whole _ (List.getLast?_eq_some_getLast hne) ?_
          rcases hlast' with hshort | hlast'
          · exact .inr hshort
          · left
            obtain ⟨hbad, hhealthy⟩ := hlast' _ (by
              rw [lastCopy, hfree, if_neg (by simp), ← hcs, List.getLast?_eq_some_getLast hne]
              rfl)
            rw [(hkeeps.kept _).bad hhealthy]
            exact hbad
      have hact : Act (fun _ _ => True) r (north_connect o n r).1 :=
        .opened (o := o) (n := n) trivial hl hif hr heof hpos hfree (.refl r) hopened hconnects.sent
      obtain ⟨hs', hsides'⟩ := hsound hact hread
      have hfan' := hfan.opened hread.1 hn hif' hpend hconnects hwhole
      rcases hsent with ⟨hzero, -⟩ | ⟨hpositive, -⟩
      · rw [if_neg (by omega), if_pos hzero]
        exact (fanned_of_quiet (Connector.deferInput_quiet _ n) ⟨hs', hsides', hfan'⟩).2.2
      · rw [if_neg (by omega), if_neg (by omega)]
        exact (fanned_of_quiet (finishNorth_quiet n _) ⟨hs', hsides', hfan'⟩).2.2
  · have hroute := route_north_spec o hused hn
    generalize route_north o n r = out at hroute ⊢
    obtain ⟨st2, failed⟩ := out
    cases hroute with
    | quiet _ hq => exact (fanned_of_quiet hq ⟨hread.1, hread.2, hfan⟩).2.2
    | sent a b _ obs hgo ha hsent hb hcon =>
      obtain ⟨hsa, hsidesa, hfana⟩ := fanned_of_quiet ha ⟨hread.1, hread.2, hfan⟩
      have hna : n < a.next := by rw [ha.keeps.next]; exact hn
      have hfanb := hfana.sentAll hsa hna ((ha.effect.iface n hn).trans hif')
        (by rw [ha.chunk]; exact hpend) hsent fun c hc hact => whole_of_sentAll hlast' ha hsent hc hact
      have htype : routeType a n = routeType r n := by rw [routeType, routeType, (ha.keeps.kept n).eof]
      have hact : Act (fun _ _ => True) a b := .sentAll (o := o) (n := n) trivial hl hif hr ha (htype ▸ hsent) (by
        rw [(ha.keeps.kept n).eof, ha.chunk]
        exact hgo)
      obtain ⟨hsb, hsidesb⟩ := hsound hact ⟨hsa, hsidesa⟩
      exact (fanned_of_quiet hb ⟨hsb, hsidesb, hfanb⟩).2.2
    | noEid a heof hpos _ hfree => exact absurd ⟨hfree, heof, hpos⟩ hnew
    | deferred a b _ cs heof hpos _ hfree => exact absurd ⟨hfree, heof, hpos⟩ hnew
    | opened a b _ cs obs heof hpos _ hfree => exact absurd ⟨hfree, heof, hpos⟩ hnew

theorem fanned_law : CallLaw LastHolds fun st => Sides st ∧ Fanned st where
  acts := fanned_lawful fun n o _ h => absurd rfl (h.1 n o)
  read {st i o} hs hl hc h := by
    refine ⟨((sides_lawful (C := fun _ _ => True)).preserved.callIn hs.toBase trivial hl ⟨hs, h.1⟩).2, ?_⟩
    by_cases hif : (st.ep i).iface = .north
    · exact callIn_fanned hs hl hif hc h.1 h.2
    · -- what the read of a transport does is done by acts that forward nothing
      have hlaw : Lawful (fun c s => c = .inn i o ∧ (s.ep i).iface ≠ .north) fun st => Sides st ∧ Fanned st :=
        fanned_lawful fun n o' s hc => by
          cases hc.1
          exact hc.2
      exact (hlaw.preserved.callIn hs.toBase ⟨rfl, hif⟩ hl ⟨hs, h⟩).2.2

theorem Run.fanned (hr : Run LastHolds st) : Fanned st :=
  (fanned_law.run (fun mode => ⟨⟨nofun, nofun⟩, fanned_init mode⟩) hr).2

end

/-! ## A transport without room -/

section

variable {n : StreamId} {p : Nat} {st : Connector}

variable {s : Sockstream} {c : Connection}

/-- A stream that has failed has room for any chunk. -/
theorem not_failed_of_full (hp : p ≤ MAXCHUNK) (h : ¬ Fits s p) : s.flush.fail = false := by
  by_contra hf
  apply h
  unfold Fits Sockstream.tellp
  rw [if_pos (by simpa using hf)]
  simp only [MAXCHUNK, UINT16_MAX, HDRLEN, MAX_BUFSIZE] at *
  omega

theorem flush_of_fail (h : s.fail) : s.flush = s := by
  rw [Sockstream.flush, Sockstream.not_good_of_fail h, if_neg (by simp)]

theorem fail_of_bad (h : s.bad) : s.fail = true := by
  rw [Sockstream.bad] at h
  rw [Sockstream.fail, Iostate.fail, h, Bool.or_true]

/-- One transport without room is enough. The transports before it may be flushed, and those that
failed are passed over. -/
theorem write_prepare_stops (cs : List Connection) (hp : p ≤ MAXCHUNK) (hc : c ∈ cs) (hn : c.north = n)
    (hl : st.live c.south) (hfull : ¬ Fits (st.sock c.south) p) : (write_prepare n p cs st).2 = true := by
  induction cs generalizing st with
  | nil => cases hc
  | cons d cs ih =>
    have hgood := not_failed_of_full hp hfull
    have hlive : (st.sock c.south).fail = false := by
      by_contra hf
      rw [flush_of_fail (by simpa using hf)] at hgood
      exact hf hgood
    have hlow := (st.sock c.south).flush_tellp
    have htail : d ≠ c → c ∈ cs := fun hne => (List.mem_cons.mp hc).resolve_left (Ne.symm hne)
    unfold write_prepare
    split
    · dsimp only
      split
      · -- it failed, so it is another transport
        rename_i hf
        refine ih (htail ?_) hl hfull
        rintro rfl
        rw [hlive] at hf
        cases hf
      · generalize hst1 : (if (MAX_BUFSIZE : Int) - (p + HDRLEN : Nat) ≤ (st.sock d.south).tellp then
          st.flushSock d.south else st) = st1
        have hlive1 : st1.live c.south := by
          rw [← hst1]
          split
          · rw [flushSock, live_setSock]
            exact hl
          · exact hl
        have hother : d.south ≠ c.south → st1.sock c.south = st.sock c.south := by
          intro hne
          rw [← hst1]
          split
          · rw [flushSock, sock_setSock, if_neg (Ne.symm hne)]
          · rfl
        -- the transport of `c` is flushed, and stays full
        have hsame : d.south = c.south →
            (st1.sock d.south).bad = false ∧ (MAX_BUFSIZE : Int) - (p + HDRLEN : Nat) < (st1.sock d.south).tellp := by
          intro heq
          have hpos : (MAX_BUFSIZE : Int) - (p + HDRLEN : Nat) < (st.sock c.south).flush.tellp := by
            unfold Fits at hfull
            omega
          rw [← hst1, if_pos (by rw [heq]; omega), heq, flushSock, sock_setSock, if_pos rfl]
          refine ⟨?_, hpos⟩
          by_contra hbad
          rw [fail_of_bad (by simpa using hbad)] at hgood
          cases hgood
        have hrest : d.south ≠ c.south → (write_prepare n p cs st1).2 = true := fun hne =>
          ih (htail fun h => hne (h ▸ rfl)) hlive1 (by rw [hother hne]; exact hfull)
        split
        · rename_i hbad
          refine hrest fun heq => ?_
          rw [(hsame heq).1] at hbad
          cases hbad
        · split
          · rfl
          · rename_i hnot
            exact hrest fun heq => hnot (hsame heq).2
    · rename_i hnot
      refine ih (htail ?_) hl hfull
      rintro rfl
      exact hnot ⟨hn, hl⟩

theorem route_north_full (o : Oracle) (h : (write_prepare n (st.chunk n).tellp st.connections st).2 = true) :
    ∃ st', route_north o n st = (st', false) ∧ Quiet st st' := by
  have hprepared := write_prepare_quiet n (st.chunk n).tellp st.connections st
  unfold route_north
  dsimp only
  generalize write_prepare n (st.chunk n).tellp st.connections st = r at h hprepared
  obtain ⟨st1, full⟩ := r
  cases h
  by_cases hgo : (st.sock n).eof || decide ((st.chunk n).tellp > 0)
  · exact ⟨st1.deferInput n, if_pos hgo, hprepared.trans (deferInput_quiet st1 n)⟩
  · exact ⟨finishNorth n st, if_neg hgo, finishNorth_quiet n st⟩

/-- When a transport of the session has no room, the read of the client ends with its chunk in the
buffer. -/
theorem call_full {o : Oracle} (hs : Sound st) (hsmall : (st.chunk n).ppos ≤ MAXCHUNK) (hl : st.live n)
    (hif : (st.ep n).iface = .north) (hc : c ∈ st.connections) (hn : c.north = n)
    (hlive : st.live c.south) (hfull : ¬ Fits ((readClient n st).sock c.south) ((readClient n st).chunk n).tellp) :
    (call (.inn n o) st).log = st.log ∧ (call (.inn n o) st).chunk n = (readClient n st).chunk n ∧
      consumed (call (.inn n o) st) n = consumed st n := by
  obtain ⟨bs, hr⟩ := readClient_spec n st (hs.chunk n)
  have hdrop := (readClient n st).dropInput_quiet n
  have hquiet : Quiet ((readClient n st).dropInput n) (call (.inn n o) st) := by
    rw [call, if_pos hl, callIn_north o hif]
    rw [← dropInput_sock _ n, ← hdrop.chunk n] at hfull
    have hp := hr.chunked.small hsmall
    generalize (readClient n st).dropInput n = r at hr hfull hp ⊢
    have hfulls : (write_prepare n (r.chunk n).tellp r.connections r).2 = true :=
      write_prepare_stops _ hp (hr.connections ▸ hc) hn (by rw [hr.live]; exact hlive) hfull
    obtain ⟨st', hroute, hq⟩ := route_north_full o hfulls
    rw [hroute]
    exact hq
  refine ⟨?_, (hquiet.chunk n).trans (hdrop.chunk n), ?_⟩
  · rw [hquiet.log]
    simpa using hr.effect.log
  · rw [consumed_congr (hquiet.keeps.kept n).taken (hquiet.chunk n), consumed_of_read hr]

end

/-! ## Exactly once -/

/-- A session with two backends. Their sockets are 11 and 12, and the write to the second one that
finds its put area full will fail. -/
def tornBackend : List Event :=
  [.env (.accept 10), .env (.tx 2 (.error 0)), .env (.rx 0 (.data 1 [])),
    .poll 0 Mask.POLLIN ⟨.ofNode 1, [.make (some 11), .make (some 12)]⟩]

/-- A second chunk was sent. -/
def twoChunks : Connector := play (tornBackend ++ [.env (.rx 0 (.data 2 [3])), .poll 0 Mask.POLLIN {}]) {}

/-- The kernel takes nothing of the put area, and the write that finds it full fails. -/
structure Tight (s : Sockstream) : Prop where
  clean : s.rdstate.eofbit = false ∧ s.rdstate.failbit = false
  handle : s.native_handle ≠ BAD_SOCKET
  full : s.bad = false → s.tx = [.error 0] ∧ s.cap = io.MIN_BUFSIZE ∧ s.parea.length ≤ io.MIN_BUFSIZE

section

variable {s : Sockstream}

theorem Tight.good (h : Tight s) (hb : s.bad = false) : s.good := by
  have hb' : s.rdstate.badbit = false := hb
  simp [Sockstream.good, Iostate.good, h.clean.1, h.clean.2, hb']

theorem sputn_tight (bs : List UInt8) (hh : s.native_handle ≠ BAD_SOCKET) (htx : s.tx = [.error 0])
    (hcap : s.cap = io.MIN_BUFSIZE) (hlen : s.parea.length ≤ io.MIN_BUFSIZE) (hok : (s.sputn bs).2 = true) :
    (s.sputn bs).1.tx = [.error 0] ∧ (s.sputn bs).1.cap = io.MIN_BUFSIZE ∧
      (s.sputn bs).1.parea.length = s.parea.length + bs.length ∧ s.parea.length + bs.length ≤ io.MIN_BUFSIZE := by
  induction bs generalizing s with
  | nil => exact ⟨htx, hcap, rfl, hlen⟩
  | cons b bs ih =>
    by_cases hroom : s.parea.length < s.cap
    · have hone : s.sputc b = ({ s with parea := s.parea ++ [b] }, true) := if_pos hroom
      rw [Sockstream.sputn, hone] at hok ⊢
      dsimp only at hok ⊢
      have hlong : (s.parea ++ [b]).length = s.parea.length + 1 := List.length_append
      obtain ⟨h1, h2, h3, h4⟩ := ih (s := { s with parea := s.parea ++ [b] }) hh htx hcap (by
        dsimp only
        omega) hok
      dsimp only at h3 h4
      rw [List.length_cons]
      exact ⟨h1, h2, by omega, by omega⟩
    · -- the put area is full, and the kernel fails
      exfalso
      have hsome : s.parea ≠ [] := by
        intro hnil
        rw [hnil, hcap] at hroom
        exact hroom (by decide)
      have hone : (s.sputc b).2 = false := by
        rw [Sockstream.sputc, if_neg hroom, Sockstream.sync, if_neg hh, if_neg hsome, htx]
      rw [Sockstream.sputn] at hok
      generalize s.sputc b = r at hone hok
      obtain ⟨s', ok⟩ := r
      cases hone
      cases hok

theorem Tight.write (h : Tight s) (bs : List UInt8) :
    Tight (s.write bs) ∧ ((s.write bs).bad = false → (s.write bs).parea.length = s.parea.length + bs.length) := by
  have hp := s.write_pushed bs
  have hkeep : (s.write bs).bad = false → s.bad = false := by
    intro hb
    by_contra hbad
    rw [hp.badbit (by simpa using hbad)] at hb
    cases hb
  have hspec : (s.write bs).bad = false → (s.write bs).tx = [.error 0] ∧ (s.write bs).cap = io.MIN_BUFSIZE ∧
      (s.write bs).parea.length = s.parea.length + bs.length ∧ s.parea.length + bs.length ≤ io.MIN_BUFSIZE := by
    intro hb
    obtain ⟨htx, hcap, hlen⟩ := h.full (hkeep hb)
    have hput := sputn_tight bs h.handle htx hcap hlen
    have hgood := h.good (hkeep hb)
    rw [Sockstream.write, if_pos hgood] at hb ⊢
    generalize s.sputn bs = r at hput hb ⊢
    obtain ⟨s', ok⟩ := r
    cases ok with
    | true => exact hput rfl
    | false => cases hb
  refine ⟨⟨⟨hp.eofbit.trans h.clean.1, hp.failbit.trans h.clean.2⟩, hp.handle ▸ h.handle, fun hb => ?_⟩,
    fun hb => (hspec hb).2.2.1⟩
  obtain ⟨h1, h2, h3, h4⟩ := hspec hb
  exact ⟨h1, h2, by omega⟩

/-- The copy stops at the slice that does not fit into the put area. -/
theorem torn_copy (h : Tight s) (hb : s.bad = false) (fuel : Nat) (is : Stringstream) (maxlen : Nat) :
    (stream_write_upto fuel s is maxlen).2.gpos + s.parea.length ≤ is.gpos + io.MIN_BUFSIZE + 256 := by
  induction fuel generalizing s is maxlen with
  | zero =>
    have := (h.full hb).2.2
    simp only [stream_write_upto]
    omega
  | succ fuel ih =>
    have hlen := (h.full hb).2.2
    unfold stream_write_upto
    split
    · dsimp only
      omega
    · have hslice : ((is.data.drop is.gpos).take (min maxlen 256)).length ≤ 256 := by
        rw [List.length_take]
        omega
      split
      · rename_i is' heq
        simp only [Istream.readsome, Stringstream.readsome, Prod.mk.injEq] at heq
        obtain ⟨-, rfl⟩ := heq
        dsimp only
        omega
      · rename_i b bs is' heq
        simp only [Istream.readsome, Stringstream.readsome, Prod.mk.injEq] at heq
        obtain ⟨hbs, his⟩ := heq
        have hgpos : is'.gpos = is.gpos + (b :: bs).length := by simp only [← his, hbs]
        rw [hbs] at hslice
        obtain ⟨htight, hgrown⟩ := h.write (b :: bs)
        dsimp only
        split
        · dsimp only
          omega
        · rename_i hgood
          have hgood' : (s.write (b :: bs)).bad = false := by simpa using hgood
          have hrest := ih htight hgood' is' (maxlen - (b :: bs).length)
          rw [hgrown hgood'] at hrest
          omega

/-- A bad stream takes nothing, and the copy stops after one slice. -/
theorem bad_copy (hb : s.bad) (fuel : Nat) (is : Stringstream) (maxlen : Nat) :
    (stream_write_upto fuel s is maxlen).2.gpos ≤ is.gpos + 256 := by
  cases fuel with
  | zero => exact Nat.le_add_right _ _
  | succ fuel =>
    unfold stream_write_upto
    split
    · exact Nat.le_add_right _ _
    · have hslice : ((is.data.drop is.gpos).take (min maxlen 256)).length ≤ 256 := by
        rw [List.length_take]
        omega
      split
      · rename_i is' heq
        simp only [Istream.readsome, Stringstream.readsome, Prod.mk.injEq] at heq
        obtain ⟨-, rfl⟩ := heq
        dsimp only
        omega
      · rename_i b bs is' heq
        simp only [Istream.readsome, Stringstream.readsome, Prod.mk.injEq] at heq
        obtain ⟨-, rfl⟩ := heq
        dsimp only
        rw [if_pos ((s.write_pushed (b :: bs)).badbit hb)]
        dsimp only
        omega

/-- The bytes that are there are all read, when they fit into a chunk. -/
theorem copyLoop_all (hg : s.good) (hh : s.native_handle ≠ BAD_SOCKET) (hrx : s.rx = []) (fuel : Nat)
    (os : Stringstream) (maxlen : Nat) (hlen : s.garea.length ≤ maxlen) (hf : maxlen < fuel) :
    copyLoop false fuel os s maxlen =
      (os.write s.garea, { s with garea := [], taken := s.taken ++ s.garea, gcount := 0 }) := by
  induction fuel generalizing s os maxlen with
  | zero => omega
  | succ fuel ih =>
    unfold copyLoop
    cases hga : s.garea with
    | nil =>
      have hread : s.readsome (min maxlen 256) = ([], { s with garea := [], taken := s.taken, gcount := 0 }) := by
        unfold Sockstream.readsome Sockstream.in_avail Sockstream.recv
        rw [if_pos hg, if_pos hga, if_neg hh, hrx]
        simp [hga, hrx]
      rw [hread]
      simp [Stringstream.write]
    | cons b bs =>
      have hread : s.readsome (min maxlen 256) = ((b :: bs).take (min maxlen 256),
          { s with
            garea := (b :: bs).drop (min maxlen 256)
            taken := s.taken ++ (b :: bs).take (min maxlen 256)
            gcount := ((b :: bs).take (min maxlen 256)).length }) := by
        unfold Sockstream.readsome Sockstream.in_avail
        rw [if_pos hg, if_neg (by rw [hga]; exact List.cons_ne_nil b bs)]
        simp [hga]
      rw [hga] at hlen
      obtain ⟨m, hm⟩ : ∃ m, min maxlen 256 = m + 1 := by
        rw [List.length_cons] at hlen
        exact ⟨min maxlen 256 - 1, by omega⟩
      rw [hread, hm, List.take_succ_cons]
      dsimp only
      rw [Bool.false_and, if_neg Bool.false_ne_true]
      have hrest := ih (s := { s with
        garea := (b :: bs).drop (m + 1)
        taken := s.taken ++ b :: bs.take m
        gcount := (b :: bs.take m).length }) hg hh hrx (os.write (b :: bs.take m))
        (maxlen - (b :: bs.take m).length) (by
          simp only [List.length_drop, List.length_cons, List.length_take] at hlen ⊢
          omega) (by
          simp only [List.length_cons]
          omega)
      rw [hrest, Stringstream.write_write]
      simp

/-- The first read takes the bytes from the kernel. -/
theorem copyChunk_all (hg : s.good) (hh : s.native_handle ≠ BAD_SOCKET) (hga : s.garea = []) {b : UInt8}
    {bs : List UInt8} (hrx : s.rx = [.data b bs]) (hlen : (b :: bs).length ≤ MAXCHUNK) (os : Stringstream) :
    copyChunk false os s = (os.write (b :: bs), { s with rx := [], taken := s.taken ++ b :: bs, gcount := 0 }) := by
  have hread : ∀ n, s.readsome n = ({ s with garea := b :: bs, rx := [] } : Sockstream).readsome n := by
    intro n
    have hg' : ({ s with garea := b :: bs, rx := [] } : Sockstream).good := hg
    unfold Sockstream.readsome Sockstream.in_avail Sockstream.recv
    rw [if_pos hg, if_pos hg', if_pos hga, if_neg hh, hrx]
    simp [hga]
  have hloop : copyChunk false os s = copyChunk false os { s with garea := b :: bs, rx := [] } := by
    unfold copyChunk copyLoop
    rw [hread]
  rw [hloop, copyChunk, copyLoop_all (s := { s with garea := b :: bs, rx := [] }) hg hh rfl _ os _ hlen (Nat.lt_succ_self _)]
  simp [hga]

end

/-! ## The chunk that is sent twice -/

/-- Client 0 has connections to the transports 1 and 2, and at most `k` bytes were written to each. -/
structure Two (k : Nat) (st : Connector) : Prop where
  conns : ∃ c d, st.connections = [c, d] ∧ (c.north = 0 ∧ c.south = 1 ∧ c.cid = 0 ∧ c.base = [] ∧ c.state ≠ .CLOSED) ∧
    d.north = 0 ∧ d.south = 2 ∧ d.cid = 1 ∧ d.state ≠ .CLOSED
  client : st.live 0 ∧ (st.ep 0).iface = .north
  live : st.live 1 ∧ st.live 2
  first : (st.sock 1).good ∧ (st.sock 1).tx = []
  small : (st.sock 1).written.length ≤ k ∧ (st.sock 2).written.length ≤ k

section

variable {k : Nat} {st st' : Connector}

/-- What is done to the client alone does not change the rest. -/
theorem Two.of_client (h : Two k st) (hc : st'.connections = st.connections) (hl : ∀ i, st'.live i = st.live i)
    (hi : (st'.ep 0).iface = (st.ep 0).iface) (hs : ∀ i, i ≠ 0 → st'.sock i = st.sock i) : Two k st' where
  conns := by rw [hc]; exact h.conns
  client := by rw [hl, hi]; exact h.client
  live := by rw [hl, hl]; exact h.live
  first := by rw [hs 1 Nat.one_ne_zero]; exact h.first
  small := by rw [hs 1 Nat.one_ne_zero, hs 2 (by decide)]; exact h.small

theorem written_tellp (s : Sockstream) : s.tellp ≤ s.written.length := by
  have hle := s.tellp_le
  rw [Sockstream.written, List.length_append]
  omega

/-- Transports that have room are not flushed. -/
theorem write_prepare_free {n : StreamId} {p : Nat} (cs : List Connection)
    (h : ∀ c ∈ cs, ((st.sock c.south).written.length + (p + HDRLEN) : Nat) < MAX_BUFSIZE) :
    write_prepare n p cs st = (st, false) := by
  induction cs with
  | nil => rfl
  | cons c cs ih =>
    have htail := ih fun d hd => h d (.tail _ hd)
    have hhead := h c (.head _)
    have hlow := written_tellp (st.sock c.south)
    have hroom : (st.sock c.south).tellp < (MAX_BUFSIZE : Int) - (p + HDRLEN : Nat) := by omega
    unfold write_prepare
    split
    · dsimp only
      split
      · exact htail
      · simp only [if_neg (Int.not_le.mpr hroom), if_neg (Int.not_lt.mpr (Int.le_of_lt hroom))]
        split
        · exact htail
        · exact htail
    · exact htail

/-- The chunk of client 0 went to the connection `c` at `j`. -/
structure SentOne (j : Nat) (c : Connection) (st st' : Connector) : Prop where
  connections : st'.connections = st.connections.set j (state_update c ⟨DATA, 0⟩)
  live : ∀ i, st'.live i = st.live i
  iface : (st'.ep 0).iface = (st.ep 0).iface
  sock : Pushed (st.sock c.south) (frameBytes ⟨DATA, 0⟩ (st.chunk 0).chunk c) (st'.sock c.south)
  others : ∀ i, i ≠ c.south → st'.sock i = st.sock i
  data : (st'.chunk 0).data = (st.chunk 0).data
  ppos : (st'.chunk 0).ppos = (st.chunk 0).ppos
  gpos : Tight (st.sock c.south) → (st'.chunk 0).gpos ≤ io.MIN_BUFSIZE + 256
  log : st'.log = st.log ++
    [.sent (some c.cid) c.south c.uuid ⟨DATA, 0⟩ (st.chunk 0).chunk (st.sock c.south).good]

/-- The get position after a copy to a transport that is torn. -/
theorem writeChunk_torn (st : Connector) (c : Connection) (type : Msgtype) (h : Tight (st.sock c.south)) :
    ((writeChunk 0 type st c).chunk 0).gpos ≤ io.MIN_BUFSIZE + 256 := by
  have hchunk : (writeChunk 0 type st c).chunk 0 = (stream_write_upto (st.chunk 0).tellp
      ((st.sock c.south).write (Msgheader.of c.uuid (st.chunk 0).tellp type).encode)
      (st.chunk 0).rewindg (st.chunk 0).tellp).2 := by
    unfold writeChunk
    simp
  obtain ⟨htight, -⟩ := h.write (Msgheader.of c.uuid (st.chunk 0).tellp type).encode
  rw [hchunk]
  by_cases hb : ((st.sock c.south).write (Msgheader.of c.uuid (st.chunk 0).tellp type).encode).bad
  · have hstop := bad_copy hb (st.chunk 0).tellp (st.chunk 0).rewindg (st.chunk 0).tellp
    have hzero : (st.chunk 0).rewindg.gpos = 0 := rfl
    omega
  · have hstop := torn_copy htight (by simpa using hb) (st.chunk 0).tellp (st.chunk 0).rewindg (st.chunk 0).tellp
    have hzero : (st.chunk 0).rewindg.gpos = 0 := rfl
    omega

variable {c : Connection} {s : Sockstream}

/-- The turn of the loop for a connection that is active. -/
theorem send_active {j : Nat} (hj : st.connections[j]? = some c) (ha : active 0 st c) :
    SentOne j c st (send 0 ⟨DATA, 0⟩ st j) := by
  have hspec := writeChunk_spec 0 ⟨DATA, 0⟩ st c
  obtain ⟨hpush, hothers⟩ := writeChunk_sock 0 ⟨DATA, 0⟩ st c
  have htorn := writeChunk_torn st c ⟨DATA, 0⟩
  have hiface : ((writeChunk 0 ⟨DATA, 0⟩ st c).ep 0).iface = (st.ep 0).iface := by
    unfold writeChunk
    simp
  have hsend : send 0 ⟨DATA, 0⟩ st j =
      ((writeChunk 0 ⟨DATA, 0⟩ st c).setTriggerOpen c.south Mask.POLLOUT).setConn j (state_update c ⟨DATA, 0⟩) := by
    unfold send
    rw [hj]
    exact if_pos (active_iff.mp ha)
  rw [hsend]
  generalize writeChunk 0 ⟨DATA, 0⟩ st c = w at *
  -- the trigger and the table do not touch the streams
  have heps : ((w.setTriggerOpen c.south Mask.POLLOUT).setConn j (state_update c ⟨DATA, 0⟩)).eps = w.eps := by
    unfold setTriggerOpen
    split
    · rfl
    · rfl
  have hep : ∀ i, ((w.setTriggerOpen c.south Mask.POLLOUT).setConn j (state_update c ⟨DATA, 0⟩)).ep i = w.ep i :=
    fun i => by rw [Connector.ep, Connector.ep, heps]
  have hq := w.setTriggerOpen_quiet c.south Mask.POLLOUT
  simp only [Connector.sock, Connector.chunk] at hpush hothers htorn ⊢
  constructor
  · show (w.setTriggerOpen c.south Mask.POLLOUT).connections.set j _ = _
    rw [hq.connections, hspec.connections]
  all_goals simp only [Connector.live, Connector.sock, Connector.chunk, hep]
  · exact hspec.keeps.live
  · exact hiface
  · exact hpush
  · exact hothers
  · exact (hspec.chunk 0).1
  · exact (hspec.chunk 0).2
  · exact htorn
  · exact hq.log.trans hspec.effect.log

theorem Pushed.length_le {s' : Sockstream} {bs : List UInt8} (h : Pushed s bs s') :
    s'.written.length ≤ s.written.length + bs.length := by
  obtain ⟨m, hm⟩ := h.some
  rw [hm, List.length_append, List.length_take]
  omega

theorem update_data_ne (h : c.state ≠ .CLOSED) : (state_update c ⟨DATA, 0⟩).state ≠ .CLOSED := by
  cases hc : c.state with
  | CLOSED => exact absurd hc h
  | _ => simp [state_update, ConnState.update, hc, DATA, STOP]

/-- The chunk of the client goes to both transports. When the second one is torn, the chunk is not read
to its end. -/
theorem Two.route (h : Two k st) (heof : (st.sock 0).eof = false) (hpos : 0 < (st.chunk 0).ppos)
    (hroom : k + ((st.chunk 0).ppos + HDRLEN) < MAX_BUFSIZE) :
    ∃ st', route_north {} 0 st = (st', false) ∧ Two (k + ((st.chunk 0).ppos + HDRLEN)) st' ∧
      st'.sock 0 = st.sock 0 ∧ (st'.chunk 0).data = (st.chunk 0).data ∧ (st'.chunk 0).ppos = (st.chunk 0).ppos ∧
      (Tight (st.sock 2) → (st'.chunk 0).gpos ≤ io.MIN_BUFSIZE + 256) ∧
      ∃ eid eid' ok, st'.log = st.log ++ [.sent (some 0) 1 eid ⟨DATA, 0⟩ (st.chunk 0).chunk true,
        .sent (some 1) 2 eid' ⟨DATA, 0⟩ (st.chunk 0).chunk ok] := by
  obtain ⟨c, d, hconns, ⟨hcn, hcs, hcid, hbase, hcst⟩, hdn, hds, hdid, hdst⟩ := h.conns
  have hframe : ∀ e : Connection, (frameBytes ⟨DATA, 0⟩ (st.chunk 0).chunk e).length = (st.chunk 0).ppos + HDRLEN := by
    intro e
    simp [frameBytes, Stringstream.chunk_length, HDRLEN, Nat.add_comm]
  -- the first connection
  obtain ⟨a, ha, hfirst⟩ : ∃ a, a = send 0 ⟨DATA, 0⟩ st 0 ∧ SentOne 0 c st a :=
    ⟨_, rfl, send_active (by rw [hconns]; rfl) (active_iff.mpr ⟨hcn, by rw [hcs]; exact h.live.1, hcst⟩)⟩
  have haconns : a.connections = [state_update c ⟨DATA, 0⟩, d] := by rw [hfirst.connections, hconns]; rfl
  have hachunk : (a.chunk 0).chunk = (st.chunk 0).chunk := Stringstream.chunk_congr hfirst.data hfirst.ppos
  have hasock : a.sock 2 = st.sock 2 := hfirst.others 2 (by rw [hcs]; decide)
  -- the second connection
  obtain ⟨b, hb, hsecond⟩ : ∃ b, b = send 0 ⟨DATA, 0⟩ a 1 ∧ SentOne 1 d a b :=
    ⟨_, rfl, send_active (by rw [haconns]; rfl)
      (active_iff.mpr ⟨hdn, by rw [hds, hfirst.live]; exact h.live.2, hdst⟩)⟩
  have hbconns : b.connections = [state_update c ⟨DATA, 0⟩, state_update d ⟨DATA, 0⟩] := by
    rw [hsecond.connections, haconns]
    rfl
  have hblive : ∀ i, b.live i = st.live i := fun i => (hsecond.live i).trans (hfirst.live i)
  have hbclient : b.sock 0 = st.sock 0 :=
    (hsecond.others 0 (by rw [hds]; decide)).trans (hfirst.others 0 (by rw [hcs]; decide))
  have hbone : b.sock 1 = a.sock 1 := hsecond.others 1 (by rw [hds]; decide)
  have hpush1 := hfirst.sock
  have hpush2 := hsecond.sock
  rw [hachunk] at hpush2
  rw [hcs] at hpush1
  rw [hds, hasock] at hpush2
  have hall : sendAll 0 ⟨DATA, 0⟩ st = b := by
    rw [hb, ha]
    unfold sendAll
    rw [hconns]
    rfl
  have hprepared : write_prepare 0 (st.chunk 0).tellp st.connections st = (st, false) := by
    refine write_prepare_free _ fun e he => ?_
    rw [hconns] at he
    have hsmall := h.small
    have hp : (st.chunk 0).tellp = (st.chunk 0).ppos := rfl
    rcases List.mem_pair.mp he with rfl | rfl
    · rw [hcs]
      omega
    · rw [hds]
      omega
  have hconnected : connected 0 b = true := by
    unfold connected
    rw [hbconns]
    simp [hblive, state_update, hcn, hcs, h.live.1]
  refine ⟨b, ?_, ⟨⟨_, _, hbconns, ⟨hcn, hcs, hcid, hbase, update_data_ne hcst⟩, hdn, hds, hdid, update_data_ne hdst⟩,
    ?_, ?_, ?_, ?_⟩, hbclient, hsecond.data.trans hfirst.data, hsecond.ppos.trans hfirst.ppos, ?_, ?_⟩
  · have hgo : (st.chunk 0).tellp > 0 := hpos
    have hfin : finishNorth 0 b = b := if_neg (by rw [hbclient, heof]; exact Bool.false_ne_true)
    unfold route_north
    simp only [heof, hprepared]
    simp [hgo, hall, hconnected, hfin]
  · rw [hblive, hsecond.iface, hfirst.iface]
    exact h.client
  · rw [hblive, hblive]
    exact h.live
  · rw [hbone]
    have hhealthy : (st.sock 1).Healthy := fun x hx => by
      rw [h.first.2] at hx
      cases hx
    refine ⟨?_, List.suffix_nil.mp (h.first.2 ▸ hpush1.tx)⟩
    rw [hpush1.good_eq, hpush1.healthy hhealthy, h.first.1, Sockstream.bad_of_good h.first.1]
    rfl
  · have h1 := Pushed.length_le hpush1
    have h2 := Pushed.length_le hpush2
    rw [hframe] at h1 h2
    have hsmall := h.small
    rw [hbone]
    omega
  · intro htight
    exact hsecond.gpos (by rw [hds, hasock]; exact htight)
  · refine ⟨c.uuid, d.uuid, (st.sock 2).good, ?_⟩
    rw [hsecond.log, hfirst.log, hachunk, hcid, hcs, hdid, hds, hasock, h.first.1, List.append_assoc]
    rfl

/-- The client is read, and what is in its buffer then goes to both transports. -/
theorem Two.poll (h : Two k st) {buf : Stringstream} (hread : unmarshal (st.chunk 0) (st.sock 0) = (buf, s))
    (heof : s.eof = false) (hpos : 0 < buf.ppos) (hroom : k + (buf.ppos + HDRLEN) < MAX_BUFSIZE) :
    ∃ st', handle (.poll 0 Mask.POLLIN {}) st = st' ∧ Two (k + (buf.ppos + HDRLEN)) st' ∧ st'.sock 0 = s ∧
      (st'.chunk 0).data = buf.data ∧ (st'.chunk 0).ppos = buf.ppos ∧
      (Tight (st.sock 2) → (st'.chunk 0).gpos ≤ io.MIN_BUFSIZE + 256) ∧
      ∃ eid eid' ok, st'.log = st.log ++
        [.sent (some 0) 1 eid ⟨DATA, 0⟩ buf.chunk true, .sent (some 1) 2 eid' ⟨DATA, 0⟩ buf.chunk ok] := by
  have hhandle : handle (.poll 0 Mask.POLLIN {}) st = callIn 0 {} (st.setRevents Mask.POLLIN) := by
    change (if st.live 0 then callIn 0 {} (st.setRevents Mask.POLLIN) else _) = _
    exact if_pos h.client.1
  have hform : readClient 0 (st.setRevents Mask.POLLIN) =
      ((st.setRevents Mask.POLLIN).setChunk 0 buf).setSock 0 s := by
    unfold readClient
    rw [show (st.setRevents Mask.POLLIN).chunk 0 = st.chunk 0 from rfl,
      show (st.setRevents Mask.POLLIN).sock 0 = st.sock 0 from rfl, hread]
  obtain ⟨r, hr⟩ : ∃ r, r = (readClient 0 (st.setRevents Mask.POLLIN)).dropInput 0 := ⟨_, rfl⟩
  have hq := (readClient 0 (st.setRevents Mask.POLLIN)).dropInput_quiet 0
  have hsock : ∀ i, r.sock i = if i = 0 then s else st.sock i := by
    intro i
    rw [hr, dropInput_sock, hform, sock_setSock, sock_setChunk]
    rfl
  have hchunk : r.chunk 0 = buf := by
    rw [hr, hq.chunk, hform, chunk_setSock, chunk_setChunk, if_pos rfl]
  have htwo : Two k r := by
    refine h.of_client ?_ (fun i => ?_) ?_ fun i hi => (hsock i).trans (if_neg hi)
    · rw [hr, hq.connections, hform]
      rfl
    · rw [hr, hq.live, hform, live_setSock, live_setChunk]
      rfl
    · rw [hr, dropInput]
      split
      · show ((readClient 0 (st.setRevents Mask.POLLIN)).ep 0).iface = _
        rw [hform, iface_setSock, iface_setChunk]
        rfl
      · rw [hform, iface_setSock, iface_setChunk]
        rfl
  have hlog : r.log = st.log := by
    rw [hr, hq.log, hform]
    rfl
  obtain ⟨st', hroute, h1, h2, h3, h4, h5, eid, eid', ok, h6⟩ := htwo.route (by rw [hsock, if_pos rfl]; exact heof)
    (by rw [hchunk]; exact hpos) (by rw [hchunk]; exact hroom)
  rw [hchunk] at h1 h3 h4 h6
  refine ⟨st', ?_, h1, h2.trans ((hsock 0).trans (if_pos rfl)), h3, h4, fun htight => h5 ?_, eid, eid', ok, ?_⟩
  · have hnorth : ((st.setRevents Mask.POLLIN).ep 0).iface = .north := h.client.2
    rw [hhandle, callIn_north _ hnorth, ← hr, hroute]
  · rw [hsock, if_neg (by decide)]
    exact htight
  · rw [h6, hlog]

theorem appended_append (cid : Nat) (a b : List Obs) : appended cid (a ++ b) = appended cid a ++ appended cid b := by
  simp [appended]

end

end controller

end cloudbus
