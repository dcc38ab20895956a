-- One state counts the STOPs of both directions, and does not keep which side
-- ended. When the EOF of a client or a service is routed twice, its connection
-- is closed before the peer ended, and a half close of one side shuts the socket
-- of the other. Here the STOPs of a connection are read from the log, and the
-- laws hold while each side ends once.
import Cloudbus.ControllerTurns
import Cloudbus.SegmentTurns
import Mathlib.Data.List.Induction

namespace cloudbus

open cloudbus.io cloudbus.messages

/-! ## What ended a connection -/

/-- A STOP without ABORT was sent. -/
def Obs.sendsStop : Obs → Bool
  | .sent _ _ _ t _ _ => t.op == STOP && !t.has ABORT
  | _ => false

/-- A STOP was taken. -/
def Obs.getsStop : Obs → Bool
  | .got _ _ _ t _ => t.op == STOP
  | _ => false

/-- An ABORT was sent or taken, or a stream failed. -/
def Obs.breaks : Obs → Bool
  | .sent _ _ _ t _ _ => t.op == STOP && t.has ABORT
  | .got _ _ _ t _ => t.op == STOP && t.has ABORT
  | .failed _ => true
  | _ => false

def SentStop (cid : Nat) (log : List Obs) : Prop := ∃ o ∈ about cid log, o.sendsStop
def GotStop (cid : Nat) (log : List Obs) : Prop := ∃ o ∈ about cid log, o.getsStop
def Broken (cid : Nat) (log : List Obs) : Prop := ∃ o ∈ about cid log, o.breaks

instance (cid : Nat) (log : List Obs) : Decidable (SentStop cid log) :=
  inferInstanceAs (Decidable (∃ o ∈ about cid log, o.sendsStop = true))

instance (cid : Nat) (log : List Obs) : Decidable (GotStop cid log) :=
  inferInstanceAs (Decidable (∃ o ∈ about cid log, o.getsStop = true))

instance (cid : Nat) (log : List Obs) : Decidable (Broken cid log) :=
  inferInstanceAs (Decidable (∃ o ∈ about cid log, o.breaks = true))

variable {obs log : List Obs} {own : Connection → StreamId} {cid : Nat} {t : Msgtype} {c : Connection} {i : StreamId}
  {p : Obs → Bool} {s : ConnState} {o : Obs} {eof eof' : Bool} {st : Connector}

theorem exists_about_append :
    (∃ o ∈ about cid (log ++ obs), p o) ↔ (∃ o ∈ about cid log, p o) ∨ ∃ o ∈ about cid obs, p o := by
  simp [or_and_right, exists_or]

/-- What was sent stays sent. -/
theorem exists_about_mono (h : ∃ o ∈ about cid log, p o) : ∃ o ∈ about cid (log ++ obs), p o :=
  exists_about_append.mpr (.inl h)

/-! ## The states -/

theorem update_rank_half (h : ConnState.HALF_CLOSED.rank ≤ (s.update t).rank) :
    ConnState.HALF_CLOSED.rank ≤ s.rank ∨ t.op = STOP := by
  cases s <;> simp only [ConnState.update] at h
  all_goals (repeat' split at h) <;> simp_all [ConnState.rank]

theorem update_eq_half (h : s.update t = .HALF_CLOSED) : s = .HALF_CLOSED ∨ t.op = STOP ∧ t.has ABORT = false := by
  cases s <;> simp only [ConnState.update] at h
  all_goals (repeat' split at h) <;> simp_all

theorem update_eq_closed (h : s.update t = .CLOSED) : s = .CLOSED ∨ t.op = STOP ∧ (t.has ABORT ∨ s = .HALF_CLOSED) := by
  cases s <;> simp only [ConnState.update] at h
  all_goals (repeat' split at h) <;> simp_all

/-! ## The laws of one connection -/

/-- A connection that is half closed or closed was ended by one side, or broke. -/
def Told (c : Connection) (log : List Obs) : Prop :=
  ConnState.HALF_CLOSED.rank ≤ c.state.rank →
    Broken c.cid log ∨ SentStop c.cid log ∨ GotStop c.cid log

/-- What the state of a connection tells, when its own stream is at its end or not. -/
structure Ended (c : Connection) (eof : Bool) (log : List Obs) : Prop where
  half : c.state = .HALF_CLOSED → SentStop c.cid log ∨ GotStop c.cid log
  sent : SentStop c.cid log → eof = true
  closed : c.state = .CLOSED → Broken c.cid log ∨ eof = true ∧ GotStop c.cid log

/-- The end of the own stream is sent as a STOP, and a new connection is half closed only
when it was made by a STOP. -/
structure Marks (R : Rules) (st : Connector) : Prop where
  own : ∀ c t, R.own (state_update c t) = R.own c
  type : ∀ c t p, R.sends st c t p → t = ⟨if (st.sock (R.own c)).eof then STOP else DATA, 0⟩
  opened : ∀ st' c h, R.opens st st' c h → c.state = .HALF_OPEN ∨
    c.state = .HALF_CLOSED ∧ ∃ o ∈ h, o.getsStop
  quiet : ∀ st' c h, R.opens st st' c h → ∀ o ∈ h, o.sendsStop = false

/-- Each side ends once: the end of the own stream is sent once, and a second STOP is
taken only when the own stream is at its end. -/
structure EndsOnce (R : Rules) (st : Connector) : Prop extends Marks R st where
  once : ∀ c ∈ st.connections, ∀ t p, R.sends st c t p → c.state = .HALF_CLOSED →
    ¬ SentStop c.cid st.log
  taken : ∀ c ∈ st.connections, ∀ f, R.takes st c f → c.state = .HALF_CLOSED → f.type.op = STOP →
    f.type.has ABORT = false → GotStop c.cid st.log → (st.sock (R.own c)).eof

theorem exists_of_about (h : o ∈ about cid obs) (hp : p o) : ∃ o ∈ about cid (log ++ obs), p o :=
  exists_about_append.mpr (.inr ⟨o, h, hp⟩)

theorem Told.update (h : Told c log)
    (hstop : t.op = STOP → Broken c.cid (log ++ obs) ∨ SentStop c.cid (log ++ obs) ∨
      GotStop c.cid (log ++ obs)) : Told (state_update c t) (log ++ obs) := by
  intro hr
  rcases update_rank_half hr with hr | hr
  · exact (h hr).imp exists_about_mono (.imp exists_about_mono exists_about_mono)
  · exact hstop hr

theorem Told.mono (h : Told c log) : Told c (log ++ obs) :=
  fun hr => (h hr).imp exists_about_mono (.imp exists_about_mono exists_about_mono)

/-- The law is kept when a frame of type `t` moves the state on. -/
theorem Ended.update (h : Ended c eof log) (he : eof = true → eof' = true)
    (hsent : SentStop c.cid obs → eof' = true)
    (hhalf : t.op = STOP → t.has ABORT = false → SentStop c.cid obs ∨ GotStop c.cid obs)
    (hclosed : t.op = STOP → t.has ABORT ∨ c.state = .HALF_CLOSED →
      Broken c.cid (log ++ obs) ∨ eof' = true ∧ GotStop c.cid (log ++ obs)) :
    Ended (state_update c t) eof' (log ++ obs) where
  half hs := by
    rcases update_eq_half hs with hs | ⟨hop, hab⟩
    · exact (h.half hs).imp exists_about_mono exists_about_mono
    · exact (hhalf hop hab).imp (fun h => exists_about_append.mpr (.inr h))
        fun h => exists_about_append.mpr (.inr h)
  sent hs := (exists_about_append.mp hs).elim (fun hs => he (h.sent hs)) hsent
  closed hs := by
    rcases update_eq_closed hs with hs | ⟨hop, hs⟩
    · exact (h.closed hs).imp exists_about_mono fun ⟨h1, h2⟩ => ⟨he h1, exists_about_mono h2⟩
    · exact hclosed hop hs

/-- The law is kept when no STOP is sent and the state stays. -/
theorem Ended.mono (h : Ended c eof log) (he : eof = true → eof' = true)
    (ho : ¬ SentStop c.cid obs) : Ended c eof' (log ++ obs) where
  half hs := (h.half hs).imp exists_about_mono exists_about_mono
  sent hs := (exists_about_append.mp hs).elim (fun hs => he (h.sent hs)) fun hs => absurd hs ho
  closed hs := (h.closed hs).imp exists_about_mono fun ⟨h1, h2⟩ => ⟨he h1, exists_about_mono h2⟩

/-- A connection that breaks is closed by that. -/
theorem Ended.broken (h : Ended c eof log) (he : eof = true → eof' = true) (ho : ¬ SentStop c.cid obs)
    (hb : Broken c.cid obs) : Ended (state_update c abortType) eof' (log ++ obs) :=
  h.update he (fun hs => absurd hs ho) (fun _ hab => absurd hab (by decide))
    fun _ _ => .inl (exists_about_append.mpr (.inr hb))

theorem not_sentStop (h : ∀ o ∈ about cid obs, o.sendsStop = false) : ¬ SentStop cid obs := fun ⟨o, hmem, hs⟩ => by
  rw [h o hmem] at hs
  cases hs

section Turn

variable {R : Rules} {st st' : Connector} {obs : List Obs} {c : Connection}

theorem Told.of_turn (hm : Marks R st) (h : ∀ c ∈ st.connections, Told c st.log)
    (ht : Turn R st st' obs c) : Told c (st.log ++ obs) := by
  cases ht with
  | kept hc _ => exact (h c hc).mono
  | @sent c t p ok hc hs ha =>
    refine (h c hc).update fun hop => .inr (.inl (exists_of_about (by rw [ha]; exact .head _) ?_))
    have htype := hm.type c t p hs
    rw [htype] at hop ⊢
    simpa [Obs.sendsStop, Msgtype.has] using hop
  | idle hc _ => exact (h _ hc).update fun hop => by cases hop
  | @got c f fed hc _ _ ha =>
    refine (h c hc).update fun hop => .inr (.inr (exists_of_about
      (by rw [ha]; exact List.mem_append_right _ (.head _)) ?_))
    simp [Obs.getsStop, hop]
  | dropped hc _ => exact (h c hc).mono
  | aborted hc _ ha =>
    exact (h _ hc).update fun _ => .inl (exists_of_about (by rw [ha]; exact .head _) rfl)
  | failed hc ha =>
    exact (h _ hc).update fun _ => .inl (exists_of_about (by rw [ha]; exact .head _) rfl)
  | opened hnew _ ho =>
    intro hr
    rcases hm.opened _ _ _ ho with hs | ⟨-, o, hmem, hs⟩
    · rw [hs] at hr
      exact absurd hr (by decide)
    · exact .inr (.inr (exists_of_about hmem hs))

theorem Ended.of_turn (hn : Numbered st) (hm : EndsOnce R st)
    (h : ∀ c ∈ st.connections, Ended c (st.sock (R.own c)).eof st.log)
    (he : ∀ c ∈ st.connections, (st.sock (R.own c)).eof → (st'.sock (R.own c)).eof)
    (ht : Turn R st st' obs c) : Ended c (st'.sock (R.own c)).eof (st.log ++ obs) := by
  cases ht with
  | kept hc ha => exact (h c hc).mono (he c hc) (not_sentStop (by simp [ha]))
  | @sent c t p ok hc hs ha =>
    have htype := hm.type c t p hs
    rw [hm.own]
    cases heof : (st.sock (R.own c)).eof with
    | true =>
      rw [heof, if_pos rfl] at htype
      subst htype
      refine (h c hc).update (he c hc) (fun _ => he c hc heof)
        (fun _ _ => .inl ⟨_, by rw [ha]; exact .head _, rfl⟩) fun _ hwhy => ?_
      -- the STOP closes a half closed connection: it was the peer that ended first
      have hhalf := hwhy.resolve_left (by decide)
      exact .inr ⟨he c hc heof, exists_about_mono
        (((h c hc).half hhalf).resolve_left (hm.once c hc _ p hs hhalf))⟩
    | false =>
      rw [heof, if_neg (by simp)] at htype
      subst htype
      exact (h c hc).update (he c hc) (fun hs => absurd hs (not_sentStop (by simp [ha, Obs.sendsStop, DATA, STOP])))
        (fun hop => by cases hop) fun hop => by cases hop
  | idle hc ha =>
    rw [hm.own]
    exact (h _ hc).update (he _ hc) (fun hs => absurd hs (not_sentStop (by simp [ha])))
      (fun hop => by cases hop) fun hop => by cases hop
  | @got c f fed hc hs hfed ha =>
    have hgot : f.type.op = STOP → GotStop c.cid obs := fun hop =>
      ⟨_, by rw [ha]; exact List.mem_append_right _ (.head _), by simp [Obs.getsStop, hop]⟩
    rw [hm.own]
    refine (h c hc).update (he c hc) (fun hs => absurd hs (not_sentStop fun o hmem => ?_))
      (fun hop _ => .inr (hgot hop)) fun hop hwhy => ?_
    · rw [ha, List.mem_append, List.mem_singleton] at hmem
      rcases hmem with hmem | rfl
      · obtain ⟨p, ok, rfl⟩ := hfed.cid o hmem
        rfl
      · rfl
    · cases hab : f.type.has ABORT with
      | true =>
        refine .inl (exists_of_about (by rw [ha]; exact List.mem_append_right _ (.head _)) ?_)
        simp [Obs.breaks, hop, hab]
      | false =>
        -- the second STOP of a half closed connection
        have hhalf := hwhy.resolve_left (by simp [hab])
        refine .inr ⟨he c hc ?_, exists_about_append.mpr (.inr (hgot hop))⟩
        rcases (h c hc).half hhalf with hsent | hgot'
        · exact (h c hc).sent hsent
        · exact hm.taken c hc f hs hhalf hop hab hgot'
  | dropped hc ha => exact (h c hc).mono (he c hc) (not_sentStop (by simp [ha, Obs.sendsStop]))
  | aborted hc _ ha =>
    rw [hm.own]
    exact (h _ hc).broken (he _ hc) (not_sentStop (by simp [ha, Obs.sendsStop, abortType, Msgtype.has, ABORT]))
      ⟨_, by rw [ha]; exact .head _, rfl⟩
  | failed hc ha =>
    rw [hm.own]
    exact (h _ hc).broken (he _ hc) (not_sentStop (by simp [ha, Obs.sendsStop]))
      ⟨_, by rw [ha]; exact .head _, rfl⟩
  | opened hnew _ ho =>
    have habout : about c.cid (st.log ++ obs) = about c.cid obs := by
      rw [about_append, hn.about_new hnew, List.nil_append]
    refine ⟨fun hs => .inr ?_, fun hs => absurd hs ?_, fun hs => ?_⟩
    · rcases hm.opened _ _ _ ho with h | ⟨-, h⟩
      · rw [hs] at h
        cases h
      · rw [GotStop, habout]
        exact h
    · exact not_sentStop fun o hmem => hm.quiet _ _ _ ho o (by rwa [habout] at hmem)
    · rcases hm.opened _ _ _ ho with h | ⟨h, -⟩ <;> rw [hs] at h <;> cases h

end Turn

/-- A connection is closed only when it broke, or both sides ended. -/
def ClosedWell (c : Connection) (eof : Bool) (log : List Obs) : Prop :=
  c.state = .CLOSED → Broken c.cid log ∨ eof = true ∧ GotStop c.cid log

/-- The same for the connections of a stream that is erased. -/
def ErasedWell (own : Connection → StreamId) (log : List Obs) (o : Obs) : Prop :=
  ∀ i conns s, o = .erased i conns s → ∀ c ∈ conns, own c = i → ClosedWell c s.eof log

/-- A stream is shut only after the peer of each of its connections ended, when nothing
broke before. -/
def ShutWell (own : Connection → StreamId) (log : List Obs) (o : Obs) : Prop :=
  ∀ i conns s, o = .shut i conns s → (∀ o ∈ log, o.breaks = false) →
    ∀ c ∈ conns, own c = i → GotStop c.cid log

theorem erasedWell_of_not_closes (h : o.closes = false) (log : List Obs) : ErasedWell own log o := by
  rintro i conns s rfl
  cases h

theorem shutWell_of_not_closes (h : o.closes = false) (log : List Obs) : ShutWell own log o := by
  rintro i conns s rfl
  cases h

theorem shutWell_of_erased {conns : List Connection} {s : Sockstream}
    (log : List Obs) : ShutWell own log (.erased i conns s) := nofun

theorem ErasedWell.entry {s : Sockstream} (h : ∀ c ∈ st.connections, Ended c (st.sock (own c)).eof st.log)
    (hs : s.eof = (st.sock i).eof) (obs : List Obs) : ErasedWell own (st.log ++ obs) (.erased i (st.connsOf i) s) := by
  rintro i' conns s' ⟨⟩ c hc rfl hclosed
  refine ((h c (List.mem_of_mem_filter hc)).closed hclosed).imp exists_about_mono
    fun ⟨he, hstop⟩ => ⟨?_, exists_about_mono hstop⟩
  rw [hs]
  exact he

variable {hit keep : Connection → Bool} {upd : Connection → Connection} {R : Connection → Obs → Prop}
  {st' : Connector}

/-- The last entry of a stream that goes away is about it, and the others about its
connections. -/
theorem ErasedWell.of_gone (hg : Gone i hit upd keep R st st' obs) (hR : ∀ c o, R c o → o.closes = false)
    (ha : Always (ErasedWell own) st.log) (h : ∀ c ∈ st.connections, Ended c (st.sock (own c)).eof st.log) :
    Always (ErasedWell own) st'.log := by
  rw [hg.effect.log, ← List.append_assoc]
  refine Always.snoc (ha.append_of_mem fun o ho => ?_) (.entry h (hg.kept i).eof obs)
  obtain ⟨c, -, hr⟩ := exists_of_forall₂ hg.logged ho
  exact erasedWell_of_not_closes (hR c o hr)

theorem ShutWell.of_gone (hg : Gone i hit upd keep R st st' obs) (hR : ∀ c o, R c o → o.closes = false)
    (ha : Always (ShutWell own) st.log) : Always (ShutWell own) st'.log := by
  rw [hg.effect.log]
  refine ha.append_of_mem fun o ho => ?_
  rcases List.mem_append.mp ho with ho | ho
  · obtain ⟨c, -, hr⟩ := exists_of_forall₂ hg.logged ho
    exact shutWell_of_not_closes (hR c o hr)
  · rw [List.mem_singleton.mp ho]
    exact shutWell_of_erased

theorem not_broken (h : ∀ o ∈ log, o.breaks = false) : ¬ Broken cid log :=
  fun ⟨o, hmem, hb⟩ => by
    rw [h o (mem_about.mp hmem).1] at hb
    cases hb

end cloudbus

namespace cloudbus.controller

open cloudbus.io cloudbus.messages Connector

variable {C : Call → Connector → Prop} {st : Connector}

/-- When a client is read, it did not end before, as far as its half closed connections
know. -/
def EndOnce : Call → Connector → Prop
  | .inn i _, st => ∀ c ∈ st.connections, c.north = i → st.live c.south → c.state = .HALF_CLOSED →
      ¬ SentStop c.cid st.log
  | _, _ => True

instance (c : Call) (st : Connector) : Decidable (EndOnce c st) :=
  match c with
  | .inn i _ => inferInstanceAs (Decidable (∀ c ∈ st.connections, c.north = i → st.live c.south →
      c.state = .HALF_CLOSED → ¬ SentStop c.cid st.log))
  | .out _ => isTrue trivial
  | .env _ => isTrue trivial

/-- When the session of a client is half closed, the client did not end. -/
def PeerEnded : Call → Connector → Prop
  | .out i, st => session_state i st.connections = .HALF_CLOSED →
      ∀ c ∈ st.connections, c.north = i → ¬ SentStop c.cid st.log
  | _, _ => True

instance (c : Call) (st : Connector) : Decidable (PeerEnded c st) :=
  match c with
  | .out i => inferInstanceAs (Decidable (session_state i st.connections = .HALF_CLOSED →
      ∀ c ∈ st.connections, c.north = i → ¬ SentStop c.cid st.log))
  | .inn _ _ => isTrue trivial
  | .env _ => isTrue trivial

theorem marks (C : Call → Connector → Prop) (st : Connector) : Marks (rules C) st where
  own _ _ := rfl
  type _ _ _ h := h.2.2.1
  opened _ _ _ h := .inl h.2.2.2.2.2.2.2.1
  quiet _ c log h o ho := by
    rcases h.2.2.2.2.2.2.2.2 with rfl | ⟨ok, rfl⟩
    · rw [List.mem_singleton.mp ho]
      rfl
    · simp only [List.mem_cons, List.not_mem_nil, or_false] at ho
      rcases ho with rfl | rfl <;> rfl

theorem endsOnce (st : Connector) : EndsOnce (rules EndOnce) st where
  toMarks := marks EndOnce st
  once c hc t p h hhalf := by
    obtain ⟨⟨o, st0, st1, bs, hcond, -, -, hr, hq⟩, hactive, -, -⟩ := h
    obtain ⟨-, hlive, -⟩ := active_iff.mp hactive
    rw [hq.log, hr.effect.log, List.append_nil]
    refine hcond c ?_ rfl ?_ hhalf
    · rw [← hr.connections, ← hq.connections]
      exact hc
    · rw [← hr.live, ← hq.live]
      exact hlive
  taken c _ f h hhalf _ hab _ := (h.2.2.2.2 hhalf).resolve_right (by simp [hab])

/-- The law of the connections and of the streams that were erased. -/
structure EndLaw (st : Connector) : Prop where
  ended : ∀ c ∈ st.connections, Ended c (st.sock c.north).eof st.log
  erased : Always (ErasedWell Connection.north) st.log

theorem endLaw_lawful : Lawful EndOnce EndLaw := by
  intro st st' obs act hs ht h
  have hended : ∀ c ∈ st'.connections, Ended c (st'.sock c.north).eof st'.log := fun c hc => by
    rw [ht.log]
    exact Ended.of_turn hs.toNumbered (endsOnce st) h.ended
      (fun c hc => act.grows.eof _ (hs.norths c hc)) (ht.turn c hc)
  refine ⟨hended, ?_⟩
  rcases act.closings ht.log with ho | ⟨n, st0, -, -, -, -, -, rfl⟩ | ⟨n, obs', -, hg⟩ | ⟨s, obs', -, hg⟩ |
    ⟨s, n, j, st0, -, hl⟩
  · rw [ht.log]
    exact h.erased.append_of_mem fun o hmem => erasedWell_of_not_closes (ho o hmem)
  · exact h.erased.snoc nofun
  · exact ErasedWell.of_gone hg (fun c o ⟨eid, ok, ho, _⟩ => by rw [ho]; rfl) h.erased h.ended
  · exact ErasedWell.of_gone hg (fun c o ho => by rw [ho]; rfl) h.erased h.ended
  · obtain ⟨obs', he, rfl | rfl⟩ := hl.effect
    · rw [he.log, List.append_nil]
      exact h.erased
    · rw [he.log]
      refine h.erased.snoc ?_
      rw [← List.append_nil st.log]
      exact .entry h.ended rfl []

/-- The law of the streams that were shut. -/
structure ShutLaw (st : Connector) : Prop where
  told : ∀ c ∈ st.connections, Told c st.log
  shut : Always (ShutWell Connection.north) st.log

theorem session_state_concat (n : StreamId) (cs : List Connection) (c : Connection) :
    session_state n (cs ++ [c]) =
      if c.north = n then
        if c.state = .OPEN then .OPEN
        else if session_state n cs ≠ .OPEN then
          (if c.state.rank < (session_state n cs).rank then c.state else session_state n cs)
        else session_state n cs
      else session_state n cs := by
  rw [session_state, List.foldl_append]
  rfl

/-- A state that is not OPEN is the least one of the session. -/
theorem rank_of_session_state {n : StreamId} {cs : List Connection} (h : session_state n cs ≠ .OPEN)
    {c : Connection} (hc : c ∈ cs) (hn : c.north = n) :
    (session_state n cs).rank ≤ c.state.rank := by
  induction cs using List.reverseRecOn with
  | nil => cases hc
  | append_singleton cs d ih =>
    rw [session_state_concat] at h ⊢
    rw [List.mem_append, List.mem_singleton] at hc
    by_cases hd : d.north = n
    · rw [if_pos hd] at h ⊢
      by_cases hopen : d.state = .OPEN
      · rw [if_pos hopen] at h
        exact absurd rfl h
      · rw [if_neg hopen] at h ⊢
        split at h
        · rename_i hne
          have hmin : (if d.state.rank < (session_state n cs).rank then d.state else session_state n cs).rank ≤
              min d.state.rank (session_state n cs).rank := by
            split <;> omega
          rw [if_pos hne]
          rcases hc with hc | rfl
          · exact Nat.le_trans hmin (Nat.le_trans (Nat.min_le_right _ _) (ih hne hc))
          · exact Nat.le_trans hmin (Nat.min_le_left _ _)
        · rename_i hne
          exact absurd h hne
    · rw [if_neg hd] at h ⊢
      exact ih h (hc.resolve_right fun he => hd (he ▸ hn))

theorem shutLaw_lawful : Lawful PeerEnded ShutLaw := by
  intro st st' obs act hs ht h
  refine ⟨fun c hc => ?_, ?_⟩
  · rw [ht.log]
    exact Told.of_turn (marks PeerEnded st) h.told (ht.turn c hc)
  rcases act.closings ht.log with ho | ⟨n, st0, hcond, -, -, hp, hstate, rfl⟩ | ⟨n, obs', -, hg⟩ |
    ⟨s, obs', -, hg⟩ | ⟨s, n, j, st0, -, hl⟩
  · rw [ht.log]
    exact h.shut.append_of_mem fun o hmem => shutWell_of_not_closes (ho o hmem)
  · have hsame := Same.pollout hp
    refine h.shut.snoc ?_
    rintro i conns s ⟨⟩ hwhole c hc hn
    have hmem := List.mem_of_mem_filter hc
    have hrank := rank_of_session_state (by rw [hstate]; simp) hmem hn
    rw [hstate] at hrank
    refine (((h.told c hmem) hrank).resolve_left (not_broken hwhole)).resolve_left ?_
    rw [hsame.log]
    rw [hsame.connections] at hmem hstate
    exact hcond hstate c hmem hn
  · exact ShutWell.of_gone hg (fun c o ⟨eid, ok, ho, _⟩ => by rw [ho]; rfl) h.shut
  · exact ShutWell.of_gone hg (fun c o ho => by rw [ho]; rfl) h.shut
  · obtain ⟨obs', he, rfl | rfl⟩ := hl.effect
    · rw [he.log, List.append_nil]
      exact h.shut
    · rw [he.log]
      exact h.shut.snoc (shutWell_of_erased _)

end cloudbus.controller

namespace cloudbus.segment

open cloudbus.io cloudbus.messages Connector

/-- When a service is read, it did not end before, as far as its half closed connection
knows. A second STOP for a half closed connection comes after the end of its service. -/
def EndOnce : Call → Connector → Prop
  | .inn i _, st => (∀ c ∈ st.connections, c.south = i → st.live c.north → c.state = .HALF_CLOSED →
      ¬ SentStop c.cid st.log) ∧
      ∀ f ∈ arriving i st, ∀ c ∈ target i f st, c.state = .HALF_CLOSED → f.type.op = STOP →
        f.type.has ABORT = false → GotStop c.cid st.log → (st.sock c.south).eof
  | _, _ => True

instance (c : Call) (st : Connector) : Decidable (EndOnce c st) :=
  match c with
  | .inn _ _ => inferInstanceAs (Decidable (_ ∧ _))
  | .out _ => isTrue trivial
  | .env _ => isTrue trivial

/-- When the connection of a service is half closed, the service did not end. -/
def PeerEnded : Call → Connector → Prop
  | .out i, st => ∀ c ∈ st.connections.find? fun c => c.south == i, c.state = .HALF_CLOSED →
      ¬ SentStop c.cid st.log
  | _, _ => True

instance (c : Call) (st : Connector) : Decidable (PeerEnded c st) :=
  match c with
  | .out i => inferInstanceAs (Decidable (∀ c ∈ st.connections.find? fun c => c.south == i,
      c.state = .HALF_CLOSED → ¬ SentStop c.cid st.log))
  | .inn _ _ => isTrue trivial
  | .env _ => isTrue trivial

theorem marks (C : Call → Connector → Prop) (st : Connector) : Marks (rules C) st where
  own _ _ := rfl
  type _ _ _ h := h.2.2.2.1
  opened _ c log h := by
    obtain ⟨f, -, -, -, -, -, -, -, hc, rfl⟩ := h
    rw [hc]
    simp only [newConn]
    split
    · rename_i hop
      exact .inr ⟨rfl, _, .tail _ (.head _), by simp [Obs.getsStop, hop]⟩
    · exact .inl rfl
  quiet _ c log h o ho := by
    obtain ⟨f, -, -, -, -, -, -, -, -, rfl⟩ := h
    simp only [openObs, List.mem_cons, List.not_mem_nil, or_false] at ho
    rcases ho with rfl | rfl | rfl <;> rfl

theorem endsOnce {st : Connector} (hs : Sound st) : EndsOnce (rules EndOnce) st where
  toMarks := marks EndOnce st
  once c hc t p h hhalf := by
    obtain ⟨⟨fd, st0, bs, hcond, -, hr⟩, ⟨k, hk, hget⟩, -⟩ := h
    rw [hr.effect.log, List.append_nil]
    refine hcond.1 c ?_ rfl ?_ hhalf
    · rw [← hr.connections]
      exact hc
    · rw [← hr.live]
      exact (south_of_findSouth hk hget).2
  taken c hc f h hhalf hop hab hgot := by
    obtain ⟨⟨fd, st0, bs, hcond, -, hr⟩, ⟨hf, k, hk, hget⟩, -⟩ := h
    rw [hr.effect.log, List.append_nil] at hgot
    have hlt := hs.souths c hc
    rw [hr.next] at hlt
    exact hr.effect.grows.eof c.south hlt
      (hcond.2 f (arriving_of_read hr hf) c (target_of_read hr hk hget) hhalf hop hab hgot)

/-- The law of the connections and of the streams that were erased. -/
structure EndLaw (st : Connector) : Prop where
  ended : ∀ c ∈ st.connections, Ended c (st.sock c.south).eof st.log
  erased : Always (ErasedWell Connection.south) st.log

theorem endLaw_lawful : Lawful EndOnce EndLaw := by
  intro st st' obs act hs ht h
  have hended : ∀ c ∈ st'.connections, Ended c (st'.sock c.south).eof st'.log := fun c hc => by
    rw [ht.log]
    exact Ended.of_turn hs.toNumbered (endsOnce hs) h.ended
      (fun c hc => act.grows.eof _ (hs.souths c hc)) (ht.turn c hc)
  refine ⟨hended, ?_⟩
  rcases act.closings ht.log with ho | ⟨v, st0, c, -, -, -, -, -, rfl⟩ | ⟨t, obs', -, hg⟩ |
    ⟨v, obs', -, hg⟩ | ⟨v, t, j, st0, obs', -, hg⟩
  · rw [ht.log]
    exact h.erased.append_of_mem fun o hmem => erasedWell_of_not_closes (ho o hmem)
  · exact h.erased.snoc nofun
  · exact ErasedWell.of_gone hg (fun c o ho => by rw [ho]; rfl) h.erased h.ended
  · exact ErasedWell.of_gone hg (fun c o ⟨ok, ho⟩ => by rw [ho]; rfl) h.erased h.ended
  · exact ErasedWell.of_gone hg (fun c o ⟨ok, ho⟩ => by rw [ho]; rfl) h.erased h.ended

/-- The law of the streams that were shut. -/
structure ShutLaw (st : Connector) : Prop where
  told : ∀ c ∈ st.connections, Told c st.log
  shut : Always (ShutWell Connection.south) st.log

theorem shutLaw_lawful : Lawful PeerEnded ShutLaw := by
  intro st st' obs act hs ht h
  refine ⟨fun c hc => ?_, ?_⟩
  · rw [ht.log]
    exact Told.of_turn (marks PeerEnded st) h.told (ht.turn c hc)
  rcases act.closings ht.log with ho | ⟨v, st0, c, hcond, -, hp, hfind, hstate, rfl⟩ | ⟨t, obs', -, hg⟩ |
    ⟨v, obs', -, hg⟩ | ⟨v, t, j, st0, obs', -, hg⟩
  · rw [ht.log]
    exact h.shut.append_of_mem fun o hmem => shutWell_of_not_closes (ho o hmem)
  · have hsame := Same.pollout hp
    have hc := List.mem_of_find?_eq_some hfind
    have hsouth : c.south = v := by simpa using List.find?_some hfind
    refine h.shut.snoc ?_
    rintro i conns s ⟨⟩ hwhole d hd hn
    -- the service stream has one connection
    obtain rfl := hs.eq_of_south hc (List.mem_of_mem_filter hd) (hsouth.trans hn.symm)
    refine ((h.told c hc (hstate ▸ Nat.le_refl _)).resolve_left
      (not_broken hwhole)).resolve_left ?_
    rw [hsame.log]
    rw [hsame.connections] at hfind
    exact hcond c hfind hstate
  · exact ShutWell.of_gone hg (fun c o ho => by rw [ho]; rfl) h.shut
  · exact ShutWell.of_gone hg (fun c o ⟨ok, ho⟩ => by rw [ho]; rfl) h.shut
  · exact ShutWell.of_gone hg (fun c o ⟨ok, ho⟩ => by rw [ho]; rfl) h.shut

end cloudbus.segment

namespace cloudbus

open cloudbus.io cloudbus.messages

/-! ## Both directions end before a connection is closed -/

/-- In the controller and in the segment, a connection is closed only when it broke, or its
client or service is at its end and the peer sent a STOP. This is so for the connections of
the table, and for those of a stream that was erased. -/
theorem a_connection_is_closed_by_both_sides (st : Connector) :
    (controller.Run controller.EndOnce st →
      (∀ c ∈ st.connections, ClosedWell c (st.sock c.north).eof st.log) ∧
        Always (ErasedWell Connection.north) st.log) ∧
      (segment.Run segment.EndOnce st →
        (∀ c ∈ st.connections, ClosedWell c (st.sock c.south).eof st.log) ∧
          Always (ErasedWell Connection.south) st.log) := by
  refine ⟨fun hr => ?_, fun hr => ?_⟩
  · have h := controller.endLaw_lawful.run (fun _ => ⟨nofun, nofun⟩) hr
    exact ⟨fun c hc => (h.ended c hc).closed, h.erased⟩
  · have h := segment.endLaw_lawful.run (fun _ => ⟨nofun, nofun⟩) hr
    exact ⟨fun c hc => (h.ended c hc).closed, h.erased⟩

def stopFrame : Frame := ⟨.ofNode 1, ⟨STOP, 0⟩, [], Nat.zero_le _⟩

def initFrame : Frame := ⟨.ofNode 1, ⟨DATA, INIT⟩, [1], by simp [MAXCHUNK, UINT16_MAX, HDRLEN]⟩

/-- The client 0 of the controller sends a byte and is connected. -/
def clientSpeaks : List controller.Event :=
  [.env (.accept 10), .env (.rx 0 (.data 1 [])), .poll 0 Mask.POLLIN ⟨.ofNode 1, [.make (some 20)]⟩]

/-- The backend ends, the client is shut, and then the client ends. -/
def backendEndsFirst : List controller.Event :=
  clientSpeaks ++ [.env (.rx 1 stopFrame.recv), .poll 1 Mask.POLLIN {}, .poll 0 Mask.POLLOUT {},
    .env (.rx 0 .eof), .poll 0 Mask.POLLIN {}]

/-- The transport 0 of the segment starts a session with the service 1. -/
def sessionStarts : List segment.Event :=
  [.env (.accept 10), .env (.rx 0 initFrame.recv), .poll 0 Mask.POLLIN (some 20)]

/-- The session ends, the service is shut, and then the service ends. -/
def sessionEndsFirst : List segment.Event :=
  sessionStarts ++ [.env (.rx 0 stopFrame.recv), .poll 0 Mask.POLLIN none, .poll 1 Mask.POLLOUT none,
    .env (.rx 1 .eof), .poll 1 Mask.POLLIN none]

theorem both_sides_end :
    ((∀ c ∈ (controller.play backendEndsFirst {}).connections, ClosedWell c
        ((controller.play backendEndsFirst {}).sock c.north).eof (controller.play backendEndsFirst {}).log) ∧
      Always (ErasedWell Connection.north) (controller.play backendEndsFirst {}).log) ∧
    (∀ c ∈ (segment.play sessionEndsFirst {}).connections, ClosedWell c
        ((segment.play sessionEndsFirst {}).sock c.south).eof (segment.play sessionEndsFirst {}).log) ∧
      Always (ErasedWell Connection.south) (segment.play sessionEndsFirst {}).log :=
  ⟨(a_connection_is_closed_by_both_sides _).1 ((controller.Run.init .HALF_DUPLEX).after (by decide +kernel)),
    (a_connection_is_closed_by_both_sides _).2 ((segment.Run.init .HALF_DUPLEX).after (by decide +kernel))⟩

/-- The client ends, and can be written. -/
def clientEndsFirst : List controller.Event :=
  clientSpeaks ++ [.env (.rx 0 .eof), .poll 0 Mask.POLLIN {}, .poll 0 Mask.POLLOUT {}]

/-- Two STOPs come for one session. -/
def sessionEndsTwice : List segment.Event :=
  sessionStarts ++ [.env (.rx 0 stopFrame.recv), .poll 0 Mask.POLLIN none,
    .env (.rx 0 stopFrame.recv), .poll 0 Mask.POLLIN none]

/-- In the controller the half closed session of the client makes its EOF be routed again,
and the second STOP closes the connection, though the backend sent nothing. In the segment
a second STOP closes the connection, though the service did not end. -/
theorem one_side_closes_a_connection :
    (controller.Run (fun _ _ => True) (controller.play clientEndsFirst {}) ∧
      ∃ c ∈ (controller.play clientEndsFirst {}).connections, c.state = .CLOSED ∧
        ¬ Broken c.cid (controller.play clientEndsFirst {}).log ∧
        ¬ GotStop c.cid (controller.play clientEndsFirst {}).log) ∧
    segment.Run (fun _ _ => True) (segment.play sessionEndsTwice {}) ∧
      ∃ c ∈ (segment.play sessionEndsTwice {}).connections, c.state = .CLOSED ∧
        ¬ Broken c.cid (segment.play sessionEndsTwice {}).log ∧
        ((segment.play sessionEndsTwice {}).sock c.south).eof = false :=
  ⟨⟨.of_events clientEndsFirst .HALF_DUPLEX, by decide +kernel⟩,
    .of_events sessionEndsTwice .HALF_DUPLEX, by decide +kernel⟩

/-! ## A half close ends its own direction -/

/-- In the controller and in the segment, as long as nothing breaks, the writing half of a
client or a service is shut only after the peer of each of its connections ended. -/
theorem a_half_close_ends_its_own_direction (st : Connector) :
    (controller.Run controller.PeerEnded st → Always (ShutWell Connection.north) st.log) ∧
      (segment.Run segment.PeerEnded st → Always (ShutWell Connection.south) st.log) :=
  ⟨fun hr => (controller.shutLaw_lawful.run (fun _ => ⟨nofun, nofun⟩) hr).shut,
    fun hr => (segment.shutLaw_lawful.run (fun _ => ⟨nofun, nofun⟩) hr).shut⟩

theorem the_shut_follows_the_stop :
    Always (ShutWell Connection.north) (controller.play backendEndsFirst {}).log ∧
      Always (ShutWell Connection.south) (segment.play sessionEndsFirst {}).log :=
  ⟨(a_half_close_ends_its_own_direction _).1 ((controller.Run.init .HALF_DUPLEX).after (by decide +kernel)),
    (a_half_close_ends_its_own_direction _).2 ((segment.Run.init .HALF_DUPLEX).after (by decide +kernel))⟩

/-- The writing half of the stream `i` was shut. -/
def Obs.shuts (i : StreamId) : Obs → Bool
  | .shut j _ _ => j == i
  | _ => false

/-- The service ends, and can be written. -/
def serviceEndsFirst : List segment.Event :=
  sessionStarts ++ [.env (.rx 1 .eof), .poll 1 Mask.POLLIN none, .poll 1 Mask.POLLOUT none]

/-- A client and a service that end are shut, though nothing broke and no STOP came. -/
theorem the_own_end_shuts_the_stream :
    (controller.Run (fun _ _ => True) (controller.play clientEndsFirst {}) ∧
      (∃ o ∈ (controller.play clientEndsFirst {}).log, o.shuts 0) ∧
      ∀ o ∈ (controller.play clientEndsFirst {}).log, o.breaks = false ∧ o.getsStop = false) ∧
    segment.Run (fun _ _ => True) (segment.play serviceEndsFirst {}) ∧
      (∃ o ∈ (segment.play serviceEndsFirst {}).log, o.shuts 1) ∧
      ∀ o ∈ (segment.play serviceEndsFirst {}).log, o.breaks = false ∧ o.getsStop = false :=
  ⟨⟨.of_events clientEndsFirst .HALF_DUPLEX, by decide +kernel, by decide +kernel⟩,
    .of_events serviceEndsFirst .HALF_DUPLEX, by decide +kernel, by decide +kernel⟩

end cloudbus
