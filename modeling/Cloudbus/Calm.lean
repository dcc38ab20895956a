-- When the clients and the services say nothing more, the controller and the
-- segment only answer each other, and each answer is paid for: by a frame that
-- was taken out of a wire, or by a connection that comes closer to its end. An
-- ABORT pays for nothing, so that the answers come to an end.
import Cloudbus.Fabric
import Cloudbus.Lib.Charge

namespace cloudbus

open cloudbus.io cloudbus.messages Connector Charge

/-! ## What a frame is worth -/

/-- What the segment may do for a frame: to start a session, or to refuse it. -/
def downWorth (t : Msgtype) : Nat := if t.has INIT || !t.has ABORT then 8 else 0

/-- What the controller may do for a frame: to refuse it. -/
def upWorth (t : Msgtype) : Nat := if t.has ABORT then 0 else 1

@[simp] theorem downWorth_abort : downWorth abortType = 0 := by decide
@[simp] theorem upWorth_abort : upWorth abortType = 0 := by decide

/-! ## States -/

theorem rank_le (s : ConnState) : s.rank ≤ 3 := by
  cases s <;> decide

/-- A STOP brings a connection closer to its end. -/
theorem rank_stop {s : ConnState} (h : s ≠ .CLOSED) : s.rank + 1 ≤ (s.update ⟨STOP, 0⟩).rank := by
  cases s with
  | CLOSED => exact absurd rfl h
  | _ => decide

/-! ## Paying for frames -/

/-- A frame that is written costs itself and what it is worth at the other end. -/
def Obs.cost (worth : Msgtype → Nat) : Obs → Nat
  | .sent _ _ _ type _ _ => 1 + worth type
  | _ => 0

/-- A frame that is taken pays what it is worth. -/
def Obs.gain (worth : Msgtype → Nat) : Obs → Nat
  | .got _ _ _ type _ => worth type
  | _ => 0

/-- The transport that a frame was taken from. -/
def Obs.source : Obs → Option StreamId
  | .got _ src _ _ _ => some src
  | _ => none

/-- The frames that were written are paid for by those that were taken, which came from the
transports `W`, and by the connections, which are worth `pot`. -/
def Paid (own other : Msgtype → Nat) (pot : Connection → Nat) (W : List StreamId) (st st' : Connector) : Prop :=
  ∃ obs, st'.log = st.log ++ obs ∧ (∀ o ∈ obs, ∀ s ∈ o.source, s ∈ W) ∧
    weight (Obs.cost other) obs + weight pot st'.connections ≤
      weight pot st.connections + weight (Obs.gain own) obs

namespace Paid

variable {own other : Msgtype → Nat} {pot : Connection → Nat} {W : List StreamId} {st st' st'' : Connector}

theorem refl (st : Connector) : Paid own other pot W st st :=
  ⟨[], (List.append_nil _).symm, by simp, by simp⟩

theorem trans (h : Paid own other pot W st st') (h' : Paid own other pot W st' st'') :
    Paid own other pot W st st'' := by
  obtain ⟨a, ha, hsa, hpa⟩ := h
  obtain ⟨b, hb, hsb, hpb⟩ := h'
  refine ⟨a ++ b, by rw [hb, ha, List.append_assoc], fun o ho => ?_, ?_⟩
  · rcases List.mem_append.mp ho with ho | ho
    · exact hsa o ho
    · exact hsb o ho
  · rw [weight_append, weight_append]
    omega

variable {obs : List Obs}

/-- Nothing was written, and no connection is worth more than before. -/
theorem of_silent (hlog : st'.log = st.log ++ obs) (hobs : ∀ o ∈ obs, o.source = none ∧ o.cost other = 0)
    (hpot : weight pot st'.connections ≤ weight pot st.connections) : Paid own other pot W st st' := by
  refine ⟨obs, hlog, fun o ho => by simp [(hobs o ho).1], ?_⟩
  rw [weight_eq_zero _ fun o ho => (hobs o ho).2]
  omega

theorem of_same (hlog : st'.log = st.log) (hconn : st'.connections = st.connections) :
    Paid own other pot W st st' :=
  of_silent (by rw [hlog, List.append_nil] : st'.log = st.log ++ []) (by simp) (by rw [hconn])

/-- A stream was erased. Each connection in `hit` pays for its own entry. -/
theorem of_gone {i : StreamId} {hit : Connection → Bool} {upd : Connection → Connection} {keep : Connection → Bool}
    {R : Connection → Obs → Prop} {n : Nat} (h : Gone i hit upd keep R st st' obs)
    (hR : ∀ c o, R c o → o.source = none ∧ o.cost other ≤ n)
    (hkeep : ∀ c ∈ st.connections, keep (if hit c then upd c else c) →
      pot (if hit c then upd c else c) + (if hit c then n else 0) ≤ pot c)
    (hdrop : ∀ c ∈ st.connections, hit c → n ≤ pot c) : Paid own other pot W st st' := by
  have hsource : ∀ o ∈ obs, o.source = none := by
    intro o ho
    obtain ⟨c, -, hc⟩ := exists_of_forall₂ h.logged ho
    exact (hR c o hc).1
  refine ⟨_, h.effect.log, fun o ho => ?_, ?_⟩
  · rcases List.mem_append.mp ho with ho | ho
    · simp [hsource o ho]
    · simp [List.mem_singleton.mp ho, Obs.source]
  · have hcost : weight (Obs.cost other) obs ≤ n * (st.connections.filter hit).length :=
      weight_forall₂ _ h.logged fun c o hc => (hR c o hc).2
    have hsweep := weight_sweep pot hkeep hdrop
    rw [h.connections, weight_append, weight_cons]
    simp only [Obs.cost, weight_nil]
    omega

end Paid

/-! ## Streams with nothing to say -/

/-- The live transports are `W`, and nothing is left to be read from the other streams. -/
structure Still (P : Iface → Prop) (W : List StreamId) (st : Connector) : Prop where
  ends : ∀ s ∈ W, s < st.next ∧ P (st.ep s).iface
  covers : ∀ s, st.live s → P (st.ep s).iface → s ∈ W
  avail : ∀ i, i ∉ W → (st.sock i).avail = []
  chunk : ∀ i, i ∉ W → (st.chunk i).pending = []

namespace Still

variable {P : Iface → Prop} {W : List StreamId} {st st' : Connector}

theorem outside (h : Still P W st) {i : StreamId} (hi : ¬ P (st.ep i).iface) : i ∉ W :=
  fun hmem => hi (h.ends i hmem).2

theorem next (h : Still P W st) (hu : IdsUsed st) (hg : Grows st st')
    (hnew : ∀ s, st.next ≤ s → st'.live s → ¬ P (st'.ep s).iface) (ha : ∀ i, i ∉ W → (st'.sock i).avail = [])
    (hc : ∀ i, i ∉ W → (st'.chunk i).pending = []) : Still P W st' := by
  refine ⟨fun s hs => ?_, fun s hl hP => ?_, ha, hc⟩
  · obtain ⟨hlt, hP⟩ := h.ends s hs
    exact ⟨Nat.lt_of_lt_of_le hlt hg.next, by rw [hg.iface s hlt]; exact hP⟩
  · rcases hg.live s hl with hl0 | hge
    · rw [hg.iface s (hu s hl0)] at hP
      exact h.covers s hl0 hP
    · exact absurd hP (hnew s hge hl)

/-- In a state with given streams it is enough to look at those. -/
theorem of_table (hends : ∀ s ∈ W, s < st.next ∧ P (st.ep s).iface)
    (h : ∀ i < st.eps.entries.length, (st.live i → P (st.ep i).iface → i ∈ W) ∧
      (i ∉ W → (st.sock i).avail = [] ∧ (st.chunk i).pending = [])) : Still P W st := by
  have hdefault : ∀ i, st.eps.entries.length ≤ i → st.ep i = default := fun i hi => by
    rw [Connector.ep, Table.get, List.getD_eq_getElem?_getD, List.getElem?_eq_none hi]
    rfl
  refine ⟨hends, fun i hl hP => ?_, fun i hi => ?_, fun i hi => ?_⟩ <;>
    rcases Nat.lt_or_ge i st.eps.entries.length with hlt | hge
  · exact (h i hlt).1 hl hP
  · rw [Connector.live, hdefault i hge] at hl
    cases hl
  · exact ((h i hlt).2 hi).1
  · rw [Connector.sock, hdefault i hge]
    rfl
  · exact ((h i hlt).2 hi).2
  · rw [Connector.chunk, hdefault i hge]
    rfl

end Still

variable {st st' : Connector}

/-- Nothing came in, also when the stream was read. -/
theorem avail_of_effect {obs : List Obs} (h : Effect st st' obs) {i : StreamId}
    (hi : (st.sock i).avail = []) : (st'.sock i).avail = [] := by
  have := h.avail i
  rwa [hi, List.suffix_nil] at this

/-- No stream was made. -/
theorem Still.step {P : Iface → Prop} {W : List StreamId} {st st' : Connector} {obs : List Obs} (h : Still P W st)
    (hu : IdsUsed st) (he : Effect st st' obs) (hlive : ∀ i, st'.live i → st.live i)
    (hc : ∀ i, i ∉ W → (st'.chunk i).pending = []) : Still P W st' :=
  h.next hu he.grows (fun s hge hl => absurd (hu s (hlive s hl)) (Nat.not_lt.mpr hge))
    (fun i hi => avail_of_effect he (h.avail i hi)) hc

theorem avail_pushRx (st : Connector) (i j : StreamId) {r : Recv} (hr : i = j → r.bytes = []) :
    ((st.pushRx i r).sock j).avail = (st.sock j).avail := by
  rw [Connector.pushRx, sock_setSock]
  split
  · rename_i hj
    simp [Sockstream.avail, hr hj.symm, hj]
  · rfl

theorem avail_pushTx (st : Connector) (i j : StreamId) (a : Send) :
    ((st.pushTx i a).sock j).avail = (st.sock j).avail := by
  rw [Connector.pushTx, sock_setSock]
  split
  · rename_i hj
    rw [hj]
    rfl
  · rfl

variable {n : StreamId} {bs : List UInt8} {W : List StreamId}

/-- A read of a stream with nothing to read finds nothing. -/
theorem ChunkRead.pending_nil (h : ChunkRead n st st' bs) (ha : (st.sock n).avail = [])
    (hc : (st.chunk n).pending = []) : (st'.chunk n).pending = [] := by
  have hbs : bs = [] := (List.append_eq_nil_iff.mp (h.chunked.pulled.avail.trans ha)).1
  rw [h.chunked.pending, hc, hbs]
  rfl

/-- When a read leaves nothing to be forwarded, the chunk is empty. -/
theorem ChunkRead.tellp_zero (h : ChunkRead n st st' bs)
    (hc : (st'.chunk n).pending = []) : (st'.chunk n).tellp = 0 := by
  have hnil := hc
  rw [h.chunked.pending] at hnil
  obtain ⟨hold, hbs⟩ := List.append_eq_nil_iff.mp hnil
  have hlen : (st'.chunk n).chunk.length = (st'.chunk n).ppos := by
    rw [Stringstream.chunk, List.length_take]
    exact Nat.min_eq_left (st'.chunk n).ppos_le
  rw [(h.chunked.fresh hold).1, hbs] at hlen
  exact hlen.symm

theorem pending_of_ppos_zero {c : Stringstream} (h : c.ppos = 0) : c.pending = [] := by
  unfold Stringstream.pending Stringstream.chunk
  split
  · rfl
  · rw [h]
    rfl

/-! ## The controller pays -/

namespace controller

variable {C : Call → Connector → Prop} {W : List StreamId} {st st' : Connector}

/-- What a connection can still cost: a STOP that is answered for each state it has before it. -/
def pot (c : Connection) : Nat := 9 * (3 - c.state.rank)

theorem pot_update (c : Connection) (t : Msgtype) : pot (state_update c t) ≤ pot c := by
  have : c.state.rank ≤ (state_update c t).state.rank := rank_update c.state t
  unfold pot
  omega

variable {c : Connection} {s : StreamId}

theorem pot_stop (h : c.state ≠ .CLOSED) : pot (state_update c ⟨STOP, 0⟩) + 9 ≤ pot c := by
  have hrank : c.state.rank + 1 ≤ (state_update c ⟨STOP, 0⟩).state.rank := rank_stop h
  have hle : (state_update c ⟨STOP, 0⟩).state.rank ≤ 3 := rank_le _
  unfold pot
  omega

theorem nine_le_pot (h : c.state.rank < ConnState.CLOSED.rank) : 9 ≤ pot c := by
  have : c.state.rank < 3 := h
  unfold pot
  omega

theorem source_of_abortSent {o : Obs} (h : abortSent c o) : o.source = none ∧ o.cost downWorth ≤ 1 := by
  obtain ⟨eid, ok, rfl, -⟩ := h
  exact ⟨rfl, by simp [Obs.cost]⟩

/-- No client is accepted, and only the wires `W` bring bytes. -/
def Mute (W : List StreamId) : Call → Connector → Prop
  | .env (.rx i r), _ => i ∉ W → r.bytes = []
  | .env (.accept _), _ => False
  | _, _ => True

variable {obs : List Obs} {f : Frame}

/-- A client that said nothing more can only come to its end, and each of its connections pays
for the STOP. -/
theorem SentAll.paid {n : StreamId} (h : SentAll n ⟨STOP, 0⟩ st st' obs) : Paid upWorth downWorth pot W st st' := by
  refine ⟨obs, h.effect.log, fun o ho => ?_, ?_⟩
  · obtain ⟨c, -, ok, rfl⟩ := exists_of_forall₂ h.sent ho
    simp [Obs.source]
  · have hcost : weight (Obs.cost downWorth) obs ≤ 9 * (st.connections.filter (active n st)).length := by
      refine weight_forall₂ _ h.sent fun c o hc => ?_
      obtain ⟨ok, rfl⟩ := hc
      exact (by decide : 1 + downWorth ⟨STOP, 0⟩ ≤ 9)
    have hpay : weight pot st'.connections + 9 * (st.connections.filter (active n st)).length ≤
        weight pot st.connections := by
      rw [h.connections]
      refine weight_map pot fun c _ => ?_
      split
      · exact pot_stop (active_iff.mp ‹_›).2.2
      · exact Nat.le_refl _
    omega

/-- A frame with no connection pays for the ABORT that answers it. -/
theorem paid_of_refused (hW : s ∈ W) (hd : Dropped s st st' obs)
    (hr : refusal s f st obs) : Paid upWorth downWorth pot W st st' := by
  refine ⟨obs, hd.effect.log, ?_, ?_⟩
  · unfold refusal at hr
    split at hr
    · obtain ⟨ok, rfl⟩ := hr
      simp [Obs.source, hW]
    · subst hr
      simp [Obs.source, hW]
  · rw [hd.connections]
    unfold refusal at hr
    split at hr
    · rename_i hansw
      obtain ⟨ok, rfl⟩ := hr
      have hworth : upWorth f.type = 1 := by
        rw [Bool.and_eq_true, Bool.not_eq_true', Bool.not_eq_true'] at hansw
        rw [upWorth, hansw.2, if_neg (by simp)]
      simp only [weight_cons, weight_nil, Obs.cost, Obs.gain, hworth, downWorth_abort]
      omega
    · subst hr
      simp [Obs.cost]

theorem Delivered.paid {k : Nat} {fed aborts : List Obs} (hW : s ∈ W) (hget : st.connections[k]? = some c)
    (h : Delivered s f k c st st' fed aborts) : Paid upWorth downWorth pot W st st' := by
  have hfed : ∀ o ∈ fed, o.source = none ∧ o.cost downWorth = 0 := by
    intro o ho
    obtain ⟨p, ok, rfl⟩ := h.fed.cid o ho
    exact ⟨rfl, rfl⟩
  have hset : weight pot (st.connections.set k (state_update c f.type)) ≤ weight pot st.connections :=
    weight_set pot (n := 0) hget (pot_update c f.type)
  -- the latch: each connection that it aborts pays for its ABORT
  have hlatch : (∀ o ∈ aborts, o.source = none) ∧
      weight (Obs.cost downWorth) aborts + weight pot st'.connections ≤ weight pot st.connections := by
    have ha := h.aborts
    rw [h.connections]
    split
    · rename_i hl
      rw [if_pos hl] at ha
      refine ⟨fun o ho => ?_, ?_⟩
      · obtain ⟨d, -, hd⟩ := exists_of_forall₂ ha ho
        exact (source_of_abortSent hd).1
      · have hcost := weight_forall₂ (Obs.cost downWorth) ha fun d o hd => (source_of_abortSent hd).2
        have hmap := @weight_map _ pot (st.connections.set k (state_update c f.type)) 1 (latched s f.eid st)
          (fun c => if latched s f.eid st c then state_update c abortType else c) fun d _ => by
            split
            · rename_i hd
              have hrank : d.state.rank < 2 := by
                simp only [latched, Bool.and_eq_true, decide_eq_true_eq] at hd
                exact hd.1.1.2
              have hzero : pot (state_update d abortType) = 0 := by simp [pot, state_update, ConnState.rank]
              have := nine_le_pot (c := d) (Nat.lt_trans hrank (by decide))
              omega
            · exact Nat.le_refl _
        omega
    · rename_i hl
      rw [if_neg hl] at ha
      subst ha
      simpa using hset
  refine ⟨_, h.effect.log, fun o ho => ?_, ?_⟩
  · rcases List.mem_append.mp ho with ho | ho
    · simp [(hfed o ho).1]
    · rcases List.mem_cons.mp ho with rfl | ho
      · simp [Obs.source, hW]
      · simp [hlatch.1 o ho]
  · rw [weight_append, weight_append, weight_cons, weight_eq_zero _ fun o ho => (hfed o ho).2]
    simp only [Obs.cost]
    omega

theorem Taking.live (h : Taking C s st) : st.live s := by
  obtain ⟨_, _, _, -, hl, hr⟩ := h
  rw [hr.live]
  exact hl

/-- In one act: the streams stay as they are, and the frames are paid for. -/
theorem Act.paid (act : Act (Mute W) st st') (hs : Sound st) (hsides : Sides st) (h : Still Transport W st) :
    Still Transport W st' ∧ Paid upWorth downWorth pot W st st' := by
  have havail : ∀ i, i ∉ W → (st'.sock i).avail = [] := by
    intro i hi
    rcases act.effect with ⟨obs, he⟩ | ⟨j, r, hc, rfl⟩ | ⟨j, a, -, rfl⟩
    · exact avail_of_effect he (h.avail i hi)
    · rw [avail_pushRx st j i fun hj => hc (hj ▸ hi)]
      exact h.avail i hi
    · rw [avail_pushTx]
      exact h.avail i hi
  have hused := (base_preserved _ act hs.toBase).used
  have hstill : st'.next = st.next → (∀ i, i ∉ W → (st'.chunk i).pending = []) → Still Transport W st' :=
    fun hnext hc => h.next hs.used act.grows
      (fun s hge hl => absurd (hused s hl) (by rw [hnext]; exact Nat.not_lt.mpr hge)) havail hc
  have hsame : (∀ i, st'.chunk i = st.chunk i) → ∀ i, i ∉ W → (st'.chunk i).pending = [] :=
    fun hc i hi => by rw [hc]; exact h.chunk i hi
  -- a client is none of the wires, and a transport that was read is one of them
  have hclient : ∀ {n : StreamId}, Routing (Mute W) n st → n ∉ W :=
    fun hr hmem => (h.ends _ hmem).2 (hr.iface (h.ends _ hmem).1)
  have hwire : ∀ {s : StreamId} {c : Connection}, Taking (Mute W) s st → c ∈ st.connections → c.south = s →
      s ∈ W := by
    rintro s c htake hc rfl
    obtain ⟨b, hb⟩ := hsides.south c hc
    exact h.covers c.south htake.live (by rw [hb]; nofun)
  cases act with
  | quiet hq => exact ⟨hstill hq.keeps.next (hsame hq.chunk), .of_same hq.log hq.connections⟩
  | errors _ =>
    have hq := Same.takeErrors st
    exact ⟨hstill (hq _).next (hsame (hq _).chunk), .of_same (hq _).log (hq _).connections⟩
  | @clientRead n _ _ _ bs hc hl hif hr =>
    refine ⟨hstill hr.next fun i hi => ?_, .of_same (by simpa using hr.effect.log) hr.connections⟩
    by_cases hin : i = n
    · subst hin
      exact hr.pending_nil (h.avail i hi) (h.chunk i hi)
    · rw [hr.others i hin]
      exact h.chunk i hi
  | transportRead _ _ _ hr =>
    exact ⟨hstill hr.next (hsame hr.chunk), .of_same (by simpa using hr.effect.log) hr.connections⟩
  | @sentAll n o st0 st1 _ _ _ obs hc hl hif hr hq hsent hwhy =>
    have hn : n ∉ W := hclient ⟨o, st0, st1, _, hc, hl, hif, hr, hq⟩
    have hzero : (st.chunk n).tellp = 0 := by
      rw [hq.chunk]
      exact hr.tellp_zero (by rw [← hq.chunk]; exact h.chunk n hn)
    have heof : (st.sock n).eof = true := hwhy.resolve_right (by rw [hzero]; exact Nat.lt_irrefl 0)
    rw [routeType, if_pos heof] at hsent
    refine ⟨hstill hsent.keeps.next fun i hi => ?_, hsent.paid⟩
    by_cases hin : i = n
    · subst hin
      exact pending_of_ppos_zero ((hsent.chunk i).2.trans hzero)
    · rw [hsent.others i hin]
      exact h.chunk i hi
  | @opened n o st0 st1 _ _ _ _ _ hc hl hif hr _ hpos _ hq _ _ =>
    have hn : n ∉ W := hclient ⟨o, st0, st1, _, hc, hl, hif, hr, hq⟩
    have hzero : (st.chunk n).tellp = 0 := by
      rw [hq.chunk]
      exact hr.tellp_zero (by rw [← hq.chunk]; exact h.chunk n hn)
    exact absurd hpos (by rw [hzero]; exact Nat.lt_irrefl 0)
  | @refused s _ st0 _ _ _ _ _ _ hl hr _ _ hd hrefuse hif =>
    have hW : s ∈ W := by
      refine h.covers s (by rw [hr.live]; exact hl) ?_
      rw [hr.effect.iface s (by rw [← hr.next]; exact hs.used s (by rw [hr.live]; exact hl))]
      exact hif
    exact ⟨hstill hd.keeps.next (hsame hd.chunk), paid_of_refused hW hd hrefuse⟩
  | @orphan s o st0 _ _ _ f _ c hc hl hr _ hk hget _ _ hd =>
    have hW : s ∈ W := hwire ⟨o, st0, _, hc, hl, hr⟩ (List.mem_of_getElem? hget) (south_of_findConn hk hget).1
    refine ⟨hstill hd.keeps.next (hsame hd.chunk), _, hd.effect.log, by simp [Obs.source, hW], ?_⟩
    rw [hd.connections, weight_cons]
    simp [Obs.cost]
  | deferred _ _ _ hd =>
    exact ⟨hstill hd.keeps.next (hsame hd.chunk), .of_same (by simpa using hd.effect.log) hd.connections⟩
  | @delivered s o st0 _ _ _ _ _ c _ _ hc hl hr _ hk hget _ _ _ hd =>
    have hW : s ∈ W := hwire ⟨o, st0, _, hc, hl, hr⟩ (List.mem_of_getElem? hget) (south_of_findConn hk hget).1
    exact ⟨hstill hd.keeps.next (hsame hd.chunk), hd.paid hW hget⟩
  | @clientGone n _ _ _ _ hg =>
    refine ⟨hstill hg.next (hsame hg.chunk), .of_gone hg (fun _ _ => source_of_abortSent) (fun c _ hkeep => ?_)
      fun c _ hhit => ?_⟩
    · have hn : (c.north != n) = true := by simpa using hkeep
      have hhit : aborting n st c = false := by
        rw [aborting, bne_iff_ne.mp hn |> beq_false_of_ne]
        rfl
      rw [hhit]
      exact Nat.le_refl _
    · simp only [aborting, Bool.and_eq_true, decide_eq_true_eq] at hhit
      exact Nat.le_trans (by decide) (nine_le_pot hhit.2)
  | transportGone _ hg =>
    refine ⟨hstill hg.next (hsame hg.chunk), .of_gone (n := 0) hg (fun c o ho => ?_) (fun c _ _ => ?_)
      fun c _ _ => Nat.zero_le _⟩
    · rw [ho]
      exact ⟨rfl, Nat.le_refl 0⟩
    · split
      · exact pot_update c abortType
      · exact Nat.le_refl _
  | shut =>
    exact ⟨hstill rfl (hsame fun _ => rfl),
      .of_silent (shutdown_effect _ _).log (by simp [Obs.source, Obs.cost]) (Nat.le_refl _)⟩
  | dialed hd _ _ hnext =>
    have hn : st'.next = st.next := hnext.resolve_right fun h => h.elim fun _ hc => hc
    exact ⟨hstill hn (hsame hd.chunk), .of_same (by simpa using hd.effect.log) hd.connections⟩
  | connectLost _ _ _ _ _ hl =>
    obtain ⟨obs, he, hobs⟩ := hl.effect
    refine ⟨hstill hl.next (hsame hl.chunk), .of_silent he.log ?_ ?_⟩
    · rcases hobs with rfl | rfl <;> simp [Obs.source, Obs.cost]
    · rw [hl.connections]
      exact weight_sublist pot List.filter_sublist
  | pushRx _ => exact ⟨hstill rfl (hsame fun i => (Same.pushRx st _ _).chunk i), .of_same rfl rfl⟩
  | pushTx _ => exact ⟨hstill rfl (hsame fun i => (Same.pushTx st _ _).chunk i), .of_same rfl rfl⟩

theorem paid_lawful (st0 : Connector) :
    Lawful (Mute W) fun st => Sides st ∧ Still Transport W st ∧ Paid upWorth downWorth pot W st0 st := by
  intro st st' obs act hs ht ⟨hsides, hstill, hpaid⟩
  obtain ⟨hstill', hpaid'⟩ := act.paid hs hsides hstill
  exact ⟨sides_lawful act hs ht hsides, hstill', hpaid.trans hpaid'⟩

theorem handle_paid {ev : Event} (hs : Sound st) (hsides : Sides st) (h : Still Transport W st)
    (hev : ∀ p ∈ calls ev st, Mute W p.1 p.2) :
    Still Transport W (handle ev st) ∧ Paid upWorth downWorth pot W st (handle ev st) :=
  ((paid_lawful st).preserved.handle (base_preserved _) hs.toBase ⟨hs, hsides, h, .refl st⟩ hev).1.2.2

end controller

/-! ## The segment pays -/

namespace segment

variable {C : Call → Connector → Prop} {W : List StreamId} {st st' : Connector}

/-- What a connection can still cost: a STOP for each state it has before it, and one more, since
a service that comes to its end sends a STOP also when the connection is closed. -/
def pot (c : Connection) : Nat := 2 * (4 - c.state.rank)

theorem pot_update (c : Connection) (t : Msgtype) : pot (state_update c t) ≤ pot c := by
  have : c.state.rank ≤ (state_update c t).state.rank := rank_update c.state t
  unfold pot
  omega

variable {c : Connection} {t v : StreamId} {f : Frame} {obs : List Obs}

theorem pot_stop (h : c.state ≠ .CLOSED) : pot (state_update c ⟨STOP, 0⟩) + 2 ≤ pot c := by
  have hrank : c.state.rank + 1 ≤ (state_update c ⟨STOP, 0⟩).state.rank := rank_stop h
  have hle : (state_update c ⟨STOP, 0⟩).state.rank ≤ 3 := rank_le _
  unfold pot
  omega

theorem two_le_pot (c : Connection) : 2 ≤ pot c := by
  have := rank_le c.state
  unfold pot
  omega

theorem source_of_abortSent {o : Obs} (h : abortSent c o) : o.source = none ∧ o.cost upWorth ≤ 1 := by
  obtain ⟨ok, rfl⟩ := h
  exact ⟨rfl, by simp [Obs.cost]⟩

/-- No transport is accepted, and only the wires `W` bring bytes. -/
def Mute (W : List StreamId) : Call → Connector → Prop
  | .env (.rx i r), _ => i ∉ W → r.bytes = []
  | .env (.accept _), _ => False
  | _, _ => True

/-- And only the wires are read. -/
def Deaf (W : List StreamId) (call : Call) (st : Connector) : Prop :=
  Mute W call st ∧ ∀ i fd, call = .inn i fd → i ∈ W

/-- A frame with no connection pays for the ABORT that answers it. -/
theorem paid_of_refused (hW : t ∈ W) (hd : Dropped t st st' obs)
    (hr : refusal t f st obs) : Paid downWorth upWorth pot W st st' := by
  refine ⟨obs, hd.effect.log, ?_, ?_⟩
  · unfold refusal at hr
    split at hr
    · obtain ⟨ok, rfl⟩ := hr
      simp [Obs.source, hW]
    · subst hr
      simp [Obs.source, hW]
  · rw [hd.connections]
    unfold refusal at hr
    split at hr
    · rename_i hansw
      obtain ⟨ok, rfl⟩ := hr
      have hworth : downWorth f.type = 8 := by
        rw [Bool.and_eq_true, Bool.not_eq_true', Bool.not_eq_true'] at hansw
        rw [downWorth, hansw.2, if_pos (by simp)]
      simp only [weight_cons, weight_nil, Obs.cost, Obs.gain, hworth, upWorth_abort]
      omega
    · subst hr
      simp [Obs.cost]

/-- A session is paid for by the frame that starts it. -/
theorem Opened.paid (hW : t ∈ W) (hinit : f.type.has INIT) (h : Opened t f st st') :
    Paid downWorth upWorth pot W st st' := by
  refine ⟨_, h.effect.log, by simp [openObs, Obs.source, hW], ?_⟩
  have hworth : downWorth f.type = 8 := by rw [downWorth, hinit, if_pos (by simp)]
  have hpot : pot (newConn t f st) ≤ 8 := by
    unfold pot
    omega
  rw [h.connections, weight_append]
  simp only [openObs, weight_cons, weight_nil, Obs.cost, Obs.gain, hworth]
  omega

theorem Delivered.paid {k : Nat} {fed : List Obs} (hW : t ∈ W) (hget : st.connections[k]? = some c)
    (h : Delivered t f k c st st' fed) : Paid downWorth upWorth pot W st st' := by
  have hfed : ∀ o ∈ fed, o.source = none ∧ o.cost upWorth = 0 := by
    intro o ho
    obtain ⟨p, ok, rfl⟩ := h.fed.cid o ho
    exact ⟨rfl, rfl⟩
  have hset : weight pot (st.connections.set k (state_update c f.type)) ≤ weight pot st.connections :=
    weight_set pot (n := 0) hget (pot_update c f.type)
  refine ⟨_, h.effect.log, fun o ho => ?_, ?_⟩
  · rcases List.mem_append.mp ho with ho | ho
    · simp [(hfed o ho).1]
    · simp [List.mem_singleton.mp ho, Obs.source, hW]
  · rw [weight_append, weight_append, weight_eq_zero _ fun o ho => (hfed o ho).2, h.connections]
    simp only [weight_cons, weight_nil, Obs.cost]
    omega

theorem ServiceGone.paid (h : ServiceGone v st st' obs) : Paid downWorth upWorth pot W st st' := by
  refine .of_gone h (fun _ _ => source_of_abortSent) (fun c _ hkeep => ?_) fun c _ _ => ?_
  · have hv : (c.south != v) = true := by simpa using hkeep
    have hhit : aborting v st c = false := by
      rw [aborting, bne_iff_ne.mp hv |> beq_false_of_ne]
      rfl
    rw [hhit]
    exact Nat.le_refl _
  · exact Nat.le_trans (by decide) (two_le_pot c)

/-- In one act of a call that reads no service. -/
theorem Act.paid (hC : ∀ call st, C call st → Deaf W call st) (act : Act C st st') (hs : Sound st)
    (h : Still Transport W st) : Still Transport W st' ∧ Paid downWorth upWorth pot W st st' := by
  have havail : ∀ i, i ∉ W → (st'.sock i).avail = [] := by
    intro i hi
    rcases act.effect with ⟨obs, he⟩ | ⟨j, r, hc, rfl⟩ | ⟨j, a, -, rfl⟩
    · exact avail_of_effect he (h.avail i hi)
    · rw [avail_pushRx st j i fun hj => (hC _ _ hc).1 (hj ▸ hi)]
      exact h.avail i hi
    · rw [avail_pushTx]
      exact h.avail i hi
  have hused := (base_preserved _ act hs.toBase).used
  have hstill : st'.next = st.next → (∀ i, i ∉ W → (st'.chunk i).pending = []) → Still Transport W st' :=
    fun hnext hc => h.next hs.used act.grows
      (fun s hge hl => absurd (hused s hl) (by rw [hnext]; exact Nat.not_lt.mpr hge)) havail hc
  have hsame : (∀ i, st'.chunk i = st.chunk i) → ∀ i, i ∉ W → (st'.chunk i).pending = [] :=
    fun hc i hi => by rw [hc]; exact h.chunk i hi
  -- the service of a connection is none of the wires
  have hservice : ∀ {v : StreamId} {k : Nat} {c : Connection}, findSouth v st = some k →
      st.connections[k]? = some c → v ∉ W := by
    intro v k c hk hget hmem
    have hside := (hs.sides c (List.mem_of_getElem? hget)).2
    rw [(south_of_findSouth hk hget).1] at hside
    have : (st.ep v).iface = .north := (h.ends v hmem).2
    rw [hside] at this
    cases this
  cases act with
  | quiet hq => exact ⟨hstill hq.keeps.next (hsame hq.chunk), .of_same hq.log hq.connections⟩
  | errors _ =>
    have hq := Same.takeErrors st
    exact ⟨hstill (hq _).next (hsame (hq _).chunk), .of_same (hq _).log (hq _).connections⟩
  | frameRead _ _ _ hr =>
    exact ⟨hstill hr.next (hsame hr.chunk), .of_same (by simpa using hr.effect.log) hr.connections⟩
  | chunkRead hc _ hif _ =>
    have : _ = Iface.north := (h.ends _ ((hC _ _ hc).2 _ _ rfl)).2
    rw [hif] at this
    cases this
  | refused hc _ _ _ _ hd hrefuse _ =>
    exact ⟨hstill hd.keeps.next (hsame hd.chunk), paid_of_refused ((hC _ _ hc).2 _ _ rfl) hd hrefuse⟩
  | opened hc _ _ _ _ _ _ hinit _ ho =>
    refine ⟨h.next hs.used ho.effect.grows (fun s hge hl hP => ?_) havail (hsame ho.chunk),
      ho.paid ((hC _ _ hc).2 _ _ rfl) hinit⟩
    have hlt := hused s hl
    rw [ho.next] at hlt
    obtain rfl : s = st.next := Nat.le_antisymm (Nat.lt_succ_iff.mp hlt) hge
    have : _ = Iface.north := hP
    rw [ho.iface] at this
    cases this
  | deferred _ _ _ hd =>
    exact ⟨hstill hd.keeps.next (hsame hd.chunk), .of_same (by simpa using hd.effect.log) hd.connections⟩
  | delivered hc _ _ _ _ hget _ hd =>
    exact ⟨hstill hd.next (hsame hd.chunk), hd.paid ((hC _ _ hc).2 _ _ rfl) hget⟩
  | idle hc _ _ hk hget => exact absurd ((hC _ _ hc).2 _ _ rfl) (hservice hk hget)
  | sent hc _ _ hk hget => exact absurd ((hC _ _ hc).2 _ _ rfl) (hservice hk hget)
  | full hc _ _ hw =>
    refine ⟨hstill hw.keeps.next fun i hi => ?_, .of_same (by simpa using hw.effect.log) hw.connections⟩
    rw [hw.others i fun hv => hi (hv ▸ (hC _ _ hc).2 _ _ rfl)]
    exact h.chunk i hi
  | transportGone _ hg =>
    refine ⟨hstill hg.next (hsame hg.chunk), .of_gone (n := 0) hg (fun c o ho => ?_) (fun c _ _ => ?_)
      fun c _ _ => Nat.zero_le _⟩
    · rw [ho]
      exact ⟨rfl, Nat.le_refl 0⟩
    · split
      · exact pot_update c abortType
      · exact Nat.le_refl _
  | serviceGone _ hg => exact ⟨hstill hg.next (hsame hg.chunk), ServiceGone.paid hg⟩
  | shut =>
    exact ⟨hstill rfl (hsame fun _ => rfl),
      .of_silent (shutdown_effect _ _).log (by simp [Obs.source, Obs.cost]) (Nat.le_refl _)⟩
  | dialed hd _ _ hnext =>
    have hn : st'.next = st.next := hnext.resolve_right fun h => h.elim fun _ hc => (hC _ _ hc).1
    exact ⟨hstill hn (hsame hd.chunk), .of_same (by simpa using hd.effect.log) hd.connections⟩
  | @connectLost v _ _ _ _ _ _ _ _ _ hg =>
    refine ⟨hstill hg.next (hsame hg.chunk), .of_gone (n := 1) hg (fun c o ho => ?_) (fun c _ hkeep => ?_)
      fun c _ _ => Nat.le_trans (by decide) (two_le_pot c)⟩
    · obtain ⟨ok, rfl⟩ := ho
      exact ⟨rfl, by simp [Obs.cost]⟩
    · have hv : c.south ≠ v := by simpa using hkeep
      simp [hv]
  | pushRx _ => exact ⟨hstill rfl (hsame fun i => (Same.pushRx st _ _).chunk i), .of_same rfl rfl⟩
  | pushTx _ => exact ⟨hstill rfl (hsame fun i => (Same.pushTx st _ _).chunk i), .of_same rfl rfl⟩

/-- A service that said nothing more can only come to its end. -/
theorem SouthRouted.paid {failed : Bool} (hW : v ∉ W) (h : SouthRouted v st st' failed) (hzero : (st.chunk v).tellp = 0)
    (hu : IdsUsed st) (hstill : Still Transport W st) :
    Still Transport W st' ∧ (Paid downWorth upWorth pot W st st' ∨ failed = true ∧
      st'.connections = st.connections ∧ (∃ cid t eid p ok, st'.log = st.log ++ [.sent cid t eid ⟨STOP, 0⟩ p ok]) ∧
      ∃ c ∈ st.connections, c.south = v ∧ c.state = .CLOSED) := by
  have hlive : ∀ i, st'.live i → st.live i := fun i hi => by rwa [h.keeps.live] at hi
  cases h with
  | lost _ => exact ⟨hstill, .inl (.refl st)⟩
  | idle k c st' _ hget _ _ hl hconn =>
    refine ⟨hstill.step hu hl.effect hlive fun i hi => by rw [hl.chunk]; exact hstill.chunk i hi,
      .inl (.of_silent hl.effect.log (by simp) ?_)⟩
    rw [hconn]
    exact weight_set pot (n := 0) hget (pot_update c _)
  | full k c st' _ _ _ hw =>
    refine ⟨hstill.step hu hw.effect hlive fun i hi => ?_,
      .inl (.of_same (by simpa using hw.effect.log) hw.connections)⟩
    by_cases hv : i = v
    · subst hv
      rw [hw.chunk]
      exact pending_of_ppos_zero hzero
    · rw [hw.others i hv]
      exact hstill.chunk i hi
  | sent k c mid st' ok hk hget hwhy hsent hl hconn =>
    have heof : (st.sock v).eof = true := hwhy.resolve_right (by rw [hzero]; exact Nat.lt_irrefl 0)
    rw [routeType, if_pos heof] at hsent hconn ⊢
    have he := hsent.effect.trans hl.effect
    refine ⟨hstill.step hu he hlive fun i hi => ?_, ?_⟩
    · rw [hl.chunk]
      by_cases hv : i = v
      · subst hv
        exact pending_of_ppos_zero ((hsent.chunk i).2.trans hzero)
      · rw [hsent.others i hv]
        exact hstill.chunk i hi
    · by_cases hclosed : c.state = .CLOSED
      · have hsame : state_update c ⟨STOP, 0⟩ = c := by
          rw [state_update, hclosed]
          show { c with state := ConnState.CLOSED } = c
          rw [← hclosed]
        refine .inr ⟨by rw [hsame, hclosed]; rfl, ?_, ⟨_, _, _, _, _, he.log⟩, c, List.mem_of_getElem? hget,
          (south_of_findSouth hk hget).1, hclosed⟩
        obtain ⟨hlt, hc⟩ := List.getElem?_eq_some_iff.mp hget
        rw [hconn, hsame, ← hc, List.set_getElem_self]
      · refine .inl ⟨_, he.log, by simp [Obs.source], ?_⟩
        have hset := weight_set pot hget (pot_stop hclosed)
        rw [hconn]
        simp only [List.append_nil, weight_cons, weight_nil, Obs.cost]
        have : upWorth ⟨STOP, 0⟩ = 1 := by decide
        omega

/-- The service of a closed connection is erased with it, so that the connection pays for the
STOP that was sent for it. -/
theorem ServiceGone.paid_closed {mid : Connector} {cid : Option Nat} {eid : Uuid} {p : List UInt8} {ok : Bool}
    (hc : c ∈ st.connections) (hv : c.south = v) (hclosed : c.state = .CLOSED)
    (halone : ∀ d ∈ st.connections, d.south = v → d = c) (hlog : mid.log = st.log ++ [.sent cid t eid ⟨STOP, 0⟩ p ok])
    (hconn : mid.connections = st.connections)
    (h : ServiceGone v mid st' obs) : Paid downWorth upWorth pot W st st' := by
  have hnone : mid.connections.filter (aborting v mid) = [] := by
    rw [List.filter_eq_nil_iff, hconn]
    intro d hd hab
    simp only [aborting, Bool.and_eq_true, beq_iff_eq, decide_eq_true_eq] at hab
    rw [halone d hd hab.1.1, hclosed] at hab
    exact absurd hab.2 (by decide)
  have hnil : obs = [] := by
    have := h.logged
    rw [hnone] at this
    exact List.forall₂_nil_left_iff.mp this
  subst hnil
  refine ⟨_, by rw [h.effect.log, hlog, List.append_assoc], by simp [Obs.source], ?_⟩
  have hsweep := @weight_sweep _ pot st.connections 2 (fun c => c.south == v) (fun c => c.south != v) id
    (fun d _ hd => by
      have : d.south ≠ v := by simpa using hd
      simp [this])
    fun d _ _ => two_le_pot d
  have hone : 1 ≤ (st.connections.filter fun c => c.south == v).length :=
    List.length_pos_of_mem (List.mem_filter.mpr ⟨hc, beq_iff_eq.mpr hv⟩)
  have hrest : st'.connections = (st.connections.map id).filter fun c => c.south != v := by
    rw [h.connections, hconn]
    simp
  have hstop : upWorth ⟨STOP, 0⟩ = 1 := by decide
  rw [hrest]
  simp only [List.nil_append, List.singleton_append, weight_cons, weight_nil, Obs.cost, Obs.gain, hstop]
  omega

/-- A read of a service, as a whole. -/
theorem callIn_paid {v : StreamId} {fd : Option Int} (hs : Sound st) (hready : Ready st) (hl : st.live v)
    (hif : (st.ep v).iface ≠ .north) (h : Still Transport W st) :
    Still Transport W (callIn v fd st) ∧ Paid downWorth upWorth pot W st (callIn v fd st) := by
  have hW : v ∉ W := h.outside hif
  obtain ⟨bs, hr⟩ := readService_spec v st (hready.chunk v)
  rw [callIn_south fd hif]
  generalize (readService v st).dropInput v = r at hr ⊢
  have hstill : Still Transport W r := by
    refine h.step hs.used hr.effect (fun i hi => by rwa [hr.live] at hi) fun i hi => ?_
    by_cases hv : i = v
    · subst hv
      exact hr.pending_nil (h.avail i hi) (h.chunk i hi)
    · rw [hr.others i hv]
      exact h.chunk i hi
  have hpaid : Paid downWorth upWorth pot W st r := .of_same (by simpa using hr.effect.log) hr.connections
  have hused : IdsUsed r := hs.used.of_live hr.next fun i hi => by rwa [hr.live] at hi
  have hroute := @route_south_spec v r (by rw [hr.live]; exact hl)
  generalize route_south v r = x at hroute ⊢
  obtain ⟨st2, failed⟩ := x
  obtain ⟨hstill2, hpaid2⟩ := SouthRouted.paid hW hroute (hr.tellp_zero (hstill.chunk v hW)) hused hstill
  cases failed with
  | false => exact ⟨hstill2, hpaid.trans (hpaid2.resolve_right fun hbad => absurd hbad.1 (by simp))⟩
  | true =>
    obtain ⟨obs, hg⟩ := south_err_handler_spec v st2
    refine ⟨hstill2.step (hused.of_keeps hroute.keeps) hg.effect (fun i hi => ?_) fun i hi => ?_, hpaid.trans ?_⟩
    · rw [hg.live] at hi
      split at hi
      · cases hi
      · exact hi
    · rw [hg.chunk]
      exact hstill2.chunk i hi
    · rcases hpaid2 with hpaid2 | ⟨-, hconn, ⟨cid, t, eid, p, ok, hlog⟩, c, hc, hv, hclosed⟩
      · exact hpaid2.trans (ServiceGone.paid hg)
      · refine ServiceGone.paid_closed hc hv hclosed (fun d hd hdv => ?_) hlog hconn hg
        rw [hr.connections] at hc hd
        exact hs.eq_of_south hd hc (hdv.trans hv.symm)

theorem paid_law (st0 : Connector) :
    CallLaw (Mute W) fun st => Still Transport W st ∧ Paid downWorth upWorth pot W st0 st where
  acts := by
    intro st st' obs act hs _ ⟨hstill, hpaid⟩
    have hC : ∀ call st, Outside (Mute W) call st → Deaf W call st :=
      fun call st hc => ⟨hc.2, fun i fd hcall => absurd hcall (hc.1 i fd)⟩
    obtain ⟨hstill', hpaid'⟩ := act.paid hC hs hstill
    exact ⟨hstill', hpaid.trans hpaid'⟩
  read := by
    intro st i fd hs hready hl _ ⟨hstill, hpaid⟩
    by_cases hif : (st.ep i).iface = .north
    · -- all acts of this call read the wire `i`
      have hi : i ∈ W := hstill.covers i hl hif
      have hC : ∀ (call : Call) (st : Connector), call = .inn i fd → Deaf W call st := by
        rintro _ st rfl
        exact ⟨trivial, fun j fd' hj => by cases hj; exact hi⟩
      have hlaw : Lawful (fun call _ => call = .inn i fd) fun a =>
          Still Transport W a ∧ Paid downWorth upWorth pot W st a := by
        intro a b obs act hs ht ⟨ha, hp⟩
        obtain ⟨hb, hp'⟩ := act.paid hC hs ha
        exact ⟨hb, hp.trans hp'⟩
      obtain ⟨-, hstill', hpaid'⟩ := hlaw.preserved.callIn hready rfl hl ⟨hs, hstill, .refl st⟩
      exact ⟨hstill', hpaid.trans hpaid'⟩
    · obtain ⟨hstill', hpaid'⟩ := @callIn_paid W st i fd hs hready hl hif hstill
      exact ⟨hstill', hpaid.trans hpaid'⟩

theorem handle_paid {ev : Event} (hs : Sound st) (hready : Ready st) (h : Still Transport W st)
    (hev : ∀ p ∈ calls ev st, Mute W p.1 p.2) :
    Still Transport W (handle ev st) ∧ Paid downWorth upWorth pot W st (handle ev st) :=
  (paid_law st).handle hs hready hev ⟨h, .refl st⟩

end segment

/-! ## What is in flight -/

/-- The frames that were written and not taken yet. -/
def flying (sent got : List Packet) : List Packet := sent.drop got.length

/-- What the frames of a list are worth. -/
def worthOf (worth : Msgtype → Nat) (l : List Packet) : Nat := weight (fun p => worth p.type) l

def Obs.isSent : Obs → Bool
  | .sent .. => true
  | _ => false

/-- What a frame that is written is worth at the other end. -/
def Obs.gift (worth : Msgtype → Nat) : Obs → Nat
  | .sent _ _ _ type _ _ => worth type
  | _ => 0

theorem weight_cost (worth : Msgtype → Nat) (obs : List Obs) :
    weight (Obs.cost worth) obs = obs.countP Obs.isSent + weight (Obs.gift worth) obs := by
  induction obs with
  | nil => rfl
  | cons o obs ih =>
    rw [weight_cons, weight_cons, List.countP_cons, ih]
    have hentry : o.cost worth = (if o.isSent = true then 1 else 0) + o.gift worth := by
      cases o <;> simp [Obs.cost, Obs.gift, Obs.isSent]
    omega

/-- What the frames to the streams `ss` are worth was paid for by the one who wrote them. -/
theorem worth_sents_le {worth : Msgtype → Nat} {ss : List StreamId} (hss : ss.Nodup) (obs : List Obs) :
    (ss.map fun s => worthOf worth (sents s obs)).sum ≤ weight (Obs.gift worth) obs := by
  refine sum_weight_le hss (fun o s s' hs hs' => ?_) fun o s p hp => ?_
  · cases o with
    | sent _ dst _ _ _ ok =>
      simp only [Obs.sentTo, Option.isSome_ite] at hs hs'
      exact hs.1.symm.trans hs'.1
    | _ => cases hs
  · cases o with
    | sent _ dst _ type _ ok =>
      simp only [Obs.sentTo, Option.ite_none_right_eq_some, Option.some.injEq] at hp
      rw [← hp.2]
      exact Nat.le_refl _
    | _ => cases hp

/-- All that was earned came from the streams `ts`. -/
theorem gain_le_gots {worth : Msgtype → Nat} {ts : List StreamId} {obs : List Obs}
    (h : ∀ o ∈ obs, ∀ s ∈ o.source, s ∈ ts) :
    weight (Obs.gain worth) obs ≤ (ts.map fun t => worthOf worth (gots t obs)).sum := by
  refine le_sum_weight fun o ho hne => ?_
  cases o with
  | got _ src _ _ _ => exact ⟨src, h _ ho src rfl, _, if_pos rfl, Nat.le_refl _⟩
  | _ => exact absurd rfl hne

/-- One wire: what is taken is in flight before, or it is written now. -/
theorem worth_gots_le {worth : Msgtype → Nat} {s t : StreamId} {a a' b b' : List Obs}
    (hold : gots t b <+: sents s a) (hnew : gots t (b ++ b') <+: sents s (a ++ a')) :
    worthOf worth (gots t b') ≤ worthOf worth (flying (sents s a) (gots t b)) + worthOf worth (sents s a') := by
  obtain ⟨rest, hrest⟩ := hold
  have hfly : flying (sents s a) (gots t b) = rest := by rw [flying, ← hrest, List.drop_left]
  rw [sents_append, gots_append, ← hrest, List.append_assoc, List.prefix_append_right_inj] at hnew
  rw [hfly, worthOf, worthOf, worthOf, ← weight_append]
  exact weight_sublist _ hnew.sublist

/-- All wires in one direction, from the streams `s` to the streams `t`. -/
theorem gain_le {worth : Msgtype → Nat} {ws : List Wire} {s t : Wire → StreamId} {a a' b b' : List Obs}
    (hs : (ws.map s).Nodup) (hsource : ∀ o ∈ b', ∀ i ∈ o.source, i ∈ ws.map t)
    (hold : ∀ w ∈ ws, gots (t w) b <+: sents (s w) a)
    (hnew : ∀ w ∈ ws, gots (t w) (b ++ b') <+: sents (s w) (a ++ a')) :
    weight (Obs.gain worth) b' ≤
      (ws.map fun w => worthOf worth (flying (sents (s w) a) (gots (t w) b))).sum + weight (Obs.gift worth) a' := by
  have hgots := @gain_le_gots worth _ _ hsource
  have hsents := @worth_sents_le worth _ hs a'
  rw [List.map_map] at hgots hsents
  have hwires : (ws.map fun w => worthOf worth (gots (t w) b')).sum ≤
      (ws.map fun w => worthOf worth (flying (sents (s w) a) (gots (t w) b)) + worthOf worth (sents (s w) a')).sum :=
    List.sum_le_sum fun w hw => worth_gots_le (hold w hw) (hnew w hw)
  rw [List.sum_map_add] at hwires
  exact hgots.trans (hwires.trans (Nat.add_le_add_left hsents _))

/-! ## The storm ends -/

/-- No client is accepted and no byte comes in. A client may still come to its end. -/
def controller.NoInput : controller.Call → Connector → Prop
  | .env (.rx _ r), _ => r.bytes = []
  | .env (.accept _), _ => False
  | _, _ => True

/-- No transport is accepted and no byte comes in. A service may still come to its end. -/
def segment.NoInput : segment.Call → Connector → Prop
  | .env (.rx _ r), _ => r.bytes = []
  | .env (.accept _), _ => False
  | _, _ => True

theorem controller.NoInput.mute {call : controller.Call}
    (h : controller.NoInput call st) : controller.Mute W call st := by
  cases call with
  | env e =>
    cases e with
    | rx i r => exact fun _ => h
    | accept _ => exact h
    | _ => trivial
  | _ => trivial

theorem segment.NoInput.mute {call : segment.Call} (h : segment.NoInput call st) : segment.Mute W call st := by
  cases call with
  | env e =>
    cases e with
    | rx i r => exact fun _ => h
    | accept _ => exact h
    | _ => trivial
  | _ => trivial

namespace Fabric

variable {x y : Fabric}

/-- The transports have their wires, and nothing is left to be read from the clients and the
services. -/
structure Calm (x : Fabric) : Prop where
  ctl : Still controller.Transport x.souths x.ctl
  seg : Still segment.Transport x.norths x.seg

/-- The frames that can still be written. -/
def budget (x : Fabric) : Nat :=
  weight controller.pot x.ctl.connections + weight segment.pot x.seg.connections +
    (x.wires.map fun w => worthOf downWorth (flying (sents w.south x.ctl.log) (gots w.north x.seg.log))).sum +
    (x.wires.map fun w => worthOf upWorth (flying (sents w.north x.seg.log) (gots w.south x.ctl.log))).sum

/-- The frames that were written on the way from `x` to `y`. -/
def generated (x y : Fabric) : Nat :=
  (y.ctl.log.drop x.ctl.log.length).countP Obs.isSent + (y.seg.log.drop x.seg.log.length).countP Obs.isSent

/-- Both ends paid for what they wrote on the way from `x` to `y`. -/
structure Balanced (x y : Fabric) : Prop where
  wires : y.wires = x.wires
  ctl : Paid upWorth downWorth controller.pot x.souths x.ctl y.ctl
  seg : Paid downWorth upWorth segment.pot x.norths x.seg y.seg

theorem Calm.step (h : Calm x) (hx : Consistent x) (hs : Step controller.NoInput segment.NoInput x y) :
    Calm y ∧ Balanced x y := by
  cases hs with
  | ctl ev hev =>
    obtain ⟨hstill, hpaid⟩ := controller.handle_paid hx.ctl.sound hx.ctl.sides h.ctl fun p hp => (hev p hp).1.mute
    exact ⟨⟨hstill, h.seg⟩, rfl, hpaid, .refl _⟩
  | seg ev hev =>
    obtain ⟨hstill, hpaid⟩ := segment.handle_paid hx.seg.sound hx.seg.ready h.seg fun p hp => (hev p hp).1.mute
    exact ⟨⟨h.ctl, hstill⟩, rfl, .refl _, hpaid⟩
  | down w r hw _ =>
    obtain ⟨hstill, hpaid⟩ := @segment.handle_paid x.norths x.seg (.env (.rx w.north r)) hx.seg.sound hx.seg.ready
      h.seg fun p hp => by
        rw [List.mem_singleton.mp hp]
        exact fun hno => absurd (List.mem_map_of_mem hw) hno
    exact ⟨⟨h.ctl, hstill⟩, rfl, .refl _, hpaid⟩
  | up w r hw _ =>
    obtain ⟨hstill, hpaid⟩ := @controller.handle_paid x.souths x.ctl (.env (.rx w.south r)) hx.ctl.sound hx.ctl.sides
      h.ctl fun p hp => by
        rw [List.mem_singleton.mp hp]
        exact fun hno => absurd (List.mem_map_of_mem hw) hno
    exact ⟨⟨hstill, h.seg⟩, rfl, hpaid, .refl _⟩

theorem Calm.steps (h : Calm x) (hx : Consistent x) (hs : Steps controller.NoInput segment.NoInput x y) :
    Calm y ∧ Balanced x y := by
  induction hs with
  | refl => exact ⟨h, rfl, .refl _, .refl _⟩
  | @tail b c hsteps hstep ih =>
    obtain ⟨hcalm, hwires, hctl, hseg⟩ := ih
    obtain ⟨hcalm', hwires', hctl', hseg'⟩ := hcalm.step (hx.steps hsteps) hstep
    have hsouths : b.souths = x.souths := by rw [souths, souths, hwires]
    have hnorths : b.norths = x.norths := by rw [norths, norths, hwires]
    exact ⟨hcalm', hwires'.trans hwires, hctl.trans (hsouths ▸ hctl'), hseg.trans (hnorths ▸ hseg')⟩

theorem Balanced.generated_le (h : Balanced x y) (hx : Consistent x) (hy : Consistent y) :
    generated x y ≤ budget x := by
  obtain ⟨hwires, ⟨a, ha, hsa, hpa⟩, b, hb, hsb, hpb⟩ := h
  have hdown := @gain_le downWorth x.wires Wire.south Wire.north x.ctl.log a x.seg.log b hx.souths hsb
    (fun w hw => hx.down hw) fun w hw => by
      rw [← ha, ← hb]
      exact hy.down (hwires ▸ hw)
  have hup := @gain_le upWorth x.wires Wire.north Wire.south x.seg.log b x.ctl.log a hx.norths hsa
    (fun w hw => hx.up hw) fun w hw => by
      rw [← ha, ← hb]
      exact hy.up (hwires ▸ hw)
  rw [weight_cost] at hpa hpb
  rw [generated, budget, ha, hb, List.drop_left, List.drop_left]
  omega

end Fabric

end cloudbus
