-- In half duplex all bytes of a client's session come from one backend. The
-- controller latches on the first answer, but only when the connection that
-- answers is still half open: one more chunk of the client, or a frame without
-- payload, moves it on, and then nobody is aborted. The law holds while first
-- answers come to half open connections.
import Cloudbus.ConnectOnce

namespace cloudbus

/-- The entry wrote a payload to the client `n`. -/
def Obs.feeds (n : StreamId) : Obs → Bool
  | .fed _ _ dst _ ok => dst == n && ok
  | _ => false

end cloudbus

namespace cloudbus.controller

open cloudbus.io cloudbus.messages Connector

/-! ## The condition -/

/-- Some payload was written to the client. -/
def Answered (n : StreamId) (log : List Obs) : Prop := ∃ o ∈ log, o.feeds n

instance (n : StreamId) (log : List Obs) : Decidable (Answered n log) :=
  inferInstanceAs (Decidable (∃ o ∈ log, o.feeds n = true))

/-- The payload of the frame can reach the client of the connection. -/
def Reaches (f : Frame) (c : Connection) (st : Connector) : Prop :=
  f.payload ≠ [] ∧ c.state ≠ .CLOSED ∧ st.live c.north ∧ (st.sock c.north).good ∧
    (c.state = .HALF_CLOSED → f.type.has ABORT)

instance (f : Frame) (c : Connection) (st : Connector) : Decidable (Reaches f c st) :=
  inferInstanceAs (Decidable (_ ∧ _))

/-- A client that was answered keeps a transport, as long as it has something to say. The
first payload for a client is for a connection that is half open and comes under its own
eid, and no payload is for a connection that is half closed. -/
def Exclusive : Call → Connector → Prop
  | .inn i _, st => (Answered i st.log → connected i st ∨ Silent i st) ∧
      ∀ f ∈ arriving i st, ∀ c ∈ target i f st, Reaches f c st → c.state ≠ .HALF_CLOSED ∧
        (Answered c.north st.log ∨ c.state = .HALF_OPEN ∧ f.eid = c.uuid)
  | _, _ => True

instance (c : Call) (st : Connector) : Decidable (Exclusive c st) :=
  match c with
  | .inn _ _ => inferInstanceAs (Decidable (_ ∧ _))
  | .out _ => isTrue trivial
  | .env _ => isTrue trivial

/-! ## The latch -/

/-- The transport that answered the client is the only one that can do so. -/
structure Latch (st : Connector) : Prop where
  uuids : ∀ c ∈ st.connections, ∀ d ∈ st.connections, c.north = d.north → st.live c.south →
    st.live d.south → c.uuid = d.uuid
  single : ∀ cid s n p, .fed cid s n p true ∈ st.log → ∀ cid' s' p', .fed cid' s' n p' true ∈ st.log → s' = s
  others : ∀ cid s n p, .fed cid s n p true ∈ st.log → ∀ c ∈ st.connections, c.north = n →
    c.south = s ∨ ConnState.HALF_CLOSED.rank ≤ c.state.rank ∨ st.live c.south = false

variable {st st' : Connector} {s n : StreamId} {obs : List Obs}

variable {log fed aborts : List Obs} {f : Frame} {k : Nat} {c : Connection}

theorem answered_of_fed {cid : Nat} {p : List UInt8}
    (h : .fed cid s n p true ∈ log) : Answered n log := ⟨_, h, by simp [Obs.feeds]⟩

theorem fed_of_answered (h : Answered n log) : ∃ cid s p, .fed cid s n p true ∈ log := by
  obtain ⟨o, ho, hf⟩ := h
  cases o with
  | fed cid s dst p ok =>
    simp only [Obs.feeds, Bool.and_eq_true, beq_iff_eq] at hf
    obtain ⟨rfl, rfl⟩ := hf
    exact ⟨cid, s, p, ho⟩
  | _ => cases hf

section Old

variable {C : Call → Connector → Prop} {st st' : Connector} {obs : List Obs}

theorem Latch.uuids_old (h : Latch st) (hs : Sound st) (hg : Grows st st')
    (ht : Turned (rules C) st st' obs) (hno : ∀ n cid, Obs.opened n cid ∉ obs) :
    ∀ c ∈ st'.connections, ∀ d ∈ st'.connections, c.north = d.north → st'.live c.south →
      st'.live d.south → c.uuid = d.uuid := by
  intro c hc d hd hn hlc hld
  obtain ⟨c0, hc0, _, rfl, -⟩ := ht.old hno hc
  obtain ⟨d0, hd0, _, rfl, -⟩ := ht.old hno hd
  exact h.uuids c0 hc0 d0 hd0 hn (hg.was_live (hs.souths c0 hc0) hlc) (hg.was_live (hs.souths d0 hd0) hld)

/-- What was written before keeps the others away. -/
theorem Latch.others_old (h : Latch st) (hs : Sound st) (hg : Grows st st')
    (ht : Turned (rules C) st st' obs) (hno : ∀ n cid, Obs.opened n cid ∉ obs) {cid : Nat}
    {s n : StreamId} {p : List UInt8} (hf : .fed cid s n p true ∈ st.log) {c : Connection}
    (hc : c ∈ st'.connections) (hn : c.north = n) :
    c.south = s ∨ ConnState.HALF_CLOSED.rank ≤ c.state.rank ∨ st'.live c.south = false := by
  obtain ⟨c0, hc0, _, rfl, hrank⟩ := ht.old hno hc
  rcases h.others cid s n p hf c0 hc0 hn with h | h | h
  · exact .inl h
  · exact .inr (.inl (Nat.le_trans h hrank))
  · exact .inr (.inr (hg.gone (hs.souths c0 hc0) h))

end Old

/-- No payload was written, and no connection made. -/
theorem Latch.of_plain {C : Call → Connector → Prop} (h : Latch st) (hs : Sound st) (hg : Grows st st')
    (ht : Turned (rules C) st st' obs) (hp : ∀ o ∈ obs, o.plain) : Latch st' := by
  have hfed : ∀ {cid s n p}, Obs.fed cid s n p true ∈ st'.log → Obs.fed cid s n p true ∈ st.log := by
    intro cid s n p hmem
    rw [ht.log, List.mem_append] at hmem
    exact hmem.resolve_right fun hmem => absurd (hp _ hmem) (by simp [Obs.plain])
  have hno : ∀ n cid, Obs.opened n cid ∉ obs := fun n cid hmem =>
    absurd (hp _ hmem) (by simp [Obs.plain])
  exact ⟨h.uuids_old hs hg ht hno, fun cid s n p hf cid' s' p' hf' =>
    h.single cid s n p (hfed hf) cid' s' p' (hfed hf'), fun cid s n p hf c hc hn =>
    h.others_old hs hg ht hno (hfed hf) hc hn⟩

/-- A client that is connected now was not answered before. -/
theorem Latch.of_connects {eid : Uuid} {cs : List Connection} (h : Latch st) (hm : st.mode = .HALF_DUPLEX)
    (hs : Sound st) (hg : Grows st st') (hc : Connects Exclusive n eid st st' cs obs) : Latch st' := by
  obtain ⟨st1, hd, hk, -⟩ := hc.opened.dials
  have hnot : ¬ Answered n st.log := by
    obtain ⟨o, st0, hcond, hlog, hnot⟩ := hc.routing.speaks hc.eof hc.pos hc.alone
    exact fun ha => hnot (hcond.1 (by rw [hlog]; exact ha))
  have hfed : ∀ {cid s m p}, Obs.fed cid s m p true ∈ st'.log → Obs.fed cid s m p true ∈ st.log := by
    intro cid s m p hmem
    rw [hc.log, List.mem_append] at hmem
    refine hmem.resolve_right fun hmem => ?_
    obtain ⟨c, -, -, -, h | ⟨ok, h⟩⟩ := hc.mem_log hmem <;> cases h
  have hlive : ∀ c ∈ st.connections, st'.live c.south → st.live c.south := fun c hc hl =>
    hg.was_live (hs.souths c hc) hl
  -- the old connections of the client have lost their transports
  have hdead : ∀ c ∈ st.connections, c.north = n → st'.live c.south → False := by
    intro c hmem hn hl
    have : connected n st = true := List.any_eq_true.mpr ⟨c, hmem, by simp [hn, hlive c hmem hl]⟩
    rw [hc.alone] at this
    cases this
  refine ⟨fun c hc' d hd' hn hlc hld => ?_, fun cid s m p hf cid' s' p' hf' => ?_,
    fun cid s m p hf c hc' hn => ?_⟩
  · rw [hc.opened.connections, List.mem_append] at hc' hd'
    rcases hc' with hc' | hc' <;> rcases hd' with hd' | hd'
    · exact h.uuids c hc' d hd' hn (hlive c hc' hlc) (hlive d hd' hld)
    · exact (hdead c hc' (hn.trans (hd.north d hd')) hlc).elim
    · exact (hdead d hd' (hn.symm.trans (hd.north c hc')) hld).elim
    · rw [hd.half hm c hc', hd.half hm d hd']
  · exact h.single cid s m p (hfed hf) cid' s' p' (hfed hf')
  · rw [hc.opened.connections, List.mem_append] at hc'
    rcases hc' with hc' | hc'
    · exact (h.others cid s m p (hfed hf) c hc' hn).imp_right
        (Or.imp_right (hg.gone (hs.souths c hc')))
    · refine absurd (answered_of_fed (hfed hf)) ?_
      rw [← hn, hd.north c hc']
      exact hnot

/-- After the latch no other transport of the session is there that could answer. -/
theorem latched_others {d : Connection} (h : Latch st) (hm : st.mode = .HALF_DUPLEX)
    (hd : Delivers Exclusive s f k c st st' fed aborts) (hp : f.payload ≠ []) (hs : st.live s)
    (ho : c.state = .HALF_OPEN) (he : f.eid = c.uuid) (hmem : d ∈ st'.connections)
    (hn : d.north = c.north) : d.south = s ∨ ConnState.HALF_CLOSED.rank ≤ d.state.rank ∨ st'.live d.south = false := by
  have hsouth := (south_of_findConn hd.found hd.get).1
  have hcmem := List.mem_of_getElem? hd.get
  have hlatch : latching f c st = true := by
    simp only [latching, hm, ho, Bool.and_eq_true, beq_self_eq_true, bne_iff_ne, true_and]
    refine ⟨?_, hp⟩
    simp only [state_update, ho, ConnState.update]
    repeat' split
    all_goals simp
  have hconn := hd.delivered.connections
  rw [if_pos hlatch] at hconn
  rw [hconn, List.mem_map] at hmem
  obtain ⟨e, hemem, rfl⟩ := hmem
  -- the place of `c` holds `c` itself, which has the transport that answered
  rcases List.mem_or_eq_of_mem_set hemem with hemem | rfl
  · by_cases hlat : latched s f.eid st e = true
    · rw [if_pos hlat]
      refine .inr (.inl ?_)
      rw [state_update, update_abort]
      exact Nat.le_succ 2
    · rw [if_neg hlat] at hn ⊢
      rw [hd.delivered.keeps.live]
      by_contra hne
      simp only [not_or, Nat.not_le, Bool.not_eq_false] at hne
      have huuid := h.uuids e hemem c hcmem hn hne.2.2 (by rw [hsouth]; exact hs)
      refine hlat ?_
      simp [latched, huuid, he, hne.1, hne.2.1, hne.2.2]
  · left
    split <;> exact hsouth

theorem Latch.of_delivers (h : Latch st) (hm : st.mode = .HALF_DUPLEX) (hs : Sound st) (hg : Grows st st')
    (hd : Delivers Exclusive s f k c st st' fed aborts) (ht : Turned (rules Exclusive) st st' obs) : Latch st' := by
  have hsouth := (south_of_findConn hd.found hd.get).1
  have hcmem := List.mem_of_getElem? hd.get
  obtain ⟨o, st0, bs, hcond, hlive0, hread⟩ := hd.taking
  have hlive : st.live s := by rw [hread.live]; exact hlive0
  -- what is new in the log
  have hfed : ∀ {cid t n p}, Obs.fed cid t n p true ∈ st'.log → Obs.fed cid t n p true ∈ st.log ∨
      t = s ∧ n = c.north ∧ f.payload ≠ [] ∧ (st.sock c.north).good := by
    intro cid t n p hmem
    rw [hd.delivered.effect.log, List.mem_append, List.mem_append] at hmem
    rcases hmem with hmem | hmem | hmem
    · exact .inl hmem
    · cases hd.delivered.fed with
      | none => cases hmem
      | fed ok hp hgood _ =>
        cases List.mem_singleton.mp hmem
        exact .inr ⟨rfl, rfl, hp, hgood rfl⟩
    · exact absurd (plain_of_delivered hd.delivered hmem) (by simp [Obs.plain])
  have hmeets : f.payload ≠ [] → (st.sock c.north).good → c.state ≠ .HALF_CLOSED ∧
      (Answered c.north st.log ∨ c.state = .HALF_OPEN ∧ f.eid = c.uuid) := by
    intro hp hgood
    have hreach : Reaches f c st0 := by
      refine ⟨hp, hd.state, by rw [← hread.live]; exact hd.live, hread.good hgood, fun hhalf => ?_⟩
      refine (hd.half hhalf).resolve_left fun he => ?_
      rw [Sockstream.eof] at he
      simp [Sockstream.good, Iostate.good, he] at hgood
    have := hcond.2 f (arriving_of_read hread hd.frame) c (target_of_read hread hd.found hd.get) hreach
    rwa [← List.append_nil st0.log, ← hread.effect.log] at this
  -- a payload that is written now comes from the transport that answered before
  have hsame : f.payload ≠ [] → (st.sock c.north).good → ∀ cid t p,
      Obs.fed cid t c.north p true ∈ st.log → t = s := by
    intro hp hgood cid t p hmem
    rcases h.others cid t c.north p hmem c hcmem rfl with h | h | h
    · exact h.symm.trans hsouth
    · have h1 := (hmeets hp hgood).1
      have h2 := hd.state
      revert h
      cases hst : c.state <;> simp_all [ConnState.rank]
    · rw [hsouth, hlive] at h
      cases h
  have hno : ∀ n cid, Obs.opened n cid ∉ obs := by
    intro n cid hmem
    rw [List.append_cancel_left (ht.log.symm.trans hd.delivered.effect.log), List.mem_append] at hmem
    rcases hmem with hmem | hmem
    · obtain ⟨p, ok, he⟩ := hd.delivered.fed.cid _ hmem
      cases he
    · exact absurd (plain_of_delivered hd.delivered hmem) (by simp [Obs.plain])
  refine ⟨h.uuids_old hs hg ht hno, fun cid t n p hf cid' t' p' hf' => ?_,
    fun cid t n p hf d hd' hn => ?_⟩
  · rcases hfed hf with hf | ⟨rfl, rfl, hp, hgood⟩ <;> rcases hfed hf' with hf' | ⟨rfl, hn, hp', hgood'⟩
    · exact h.single cid t n p hf cid' t' p' hf'
    · subst hn
      exact (hsame hp' hgood' cid t p hf).symm
    · exact hsame hp hgood cid' t' p' hf'
    · rfl
  · rcases hfed hf with hf | ⟨rfl, rfl, hp, hgood⟩
    · exact h.others_old hs hg ht hno hf hd' hn
    · rcases (hmeets hp hgood).2 with ha | ⟨ho, he⟩
      · obtain ⟨cid0, s0, p0, hmem⟩ := fed_of_answered ha
        obtain rfl := hsame hp hgood cid0 s0 p0 hmem
        exact h.others_old hs hg ht hno hmem hd' hn
      · exact latched_others h hm hd hp hlive ho he hd' hn

theorem latch_lawful : Lawful Exclusive fun st => st.mode = .HALF_DUPLEX → Latch st := by
  intro st st' obs act hs ht h hm
  have hg := act.grows
  rw [hg.mode] at hm
  rcases act.kinds with ⟨obs', hl, hp⟩ | ⟨n, eid, cs, obs', hc⟩ | ⟨s, f, k, c, fed, aborts, hd⟩
  · rw [List.append_cancel_left (hl.symm.trans ht.log)] at hp
    exact (h hm).of_plain hs hg ht hp
  · exact (h hm).of_connects hm hs hg hc
  · exact (h hm).of_delivers hm hs hg hd ht

/-! ## The laws -/

/-- The answer of a service. -/
def answer (b : UInt8) : Frame := ⟨.ofNode 1, ⟨DATA, 0⟩, [b], by simp [MAXCHUNK, UINT16_MAX, HDRLEN]⟩

/-- The client 0 sends a byte and is connected to two backends. -/
def twoBackends : List Event :=
  [.env (.accept 10), .env (.rx 0 (.data 1 [])),
    .poll 0 Mask.POLLIN ⟨.ofNode 1, [.make (some 20), .make (some 21)]⟩]

/-- Both backends answer. -/
def bothAnswer : List Event :=
  [.env (.rx 1 (answer 7).recv), .poll 1 Mask.POLLIN {}, .env (.rx 2 (answer 8).recv),
    .poll 2 Mask.POLLIN {}]

/-- The client sends another byte before the answers. -/
def talkative : List Event :=
  twoBackends ++ [.env (.rx 0 (.data 2 [])), .poll 0 Mask.POLLIN {}] ++ bothAnswer

end cloudbus.controller
