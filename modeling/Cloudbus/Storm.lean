-- No storm of ABORTs. When the clients and the services say nothing more, the
-- frames come to an end. And an ABORT is not answered: not when it is taken, and
-- not by the handlers that run later because of it.
import Cloudbus.Calm
import Cloudbus.Lookup

namespace cloudbus

open cloudbus.io cloudbus.messages Connector Charge

/-! ## ABORTs have no answer -/

/-- The stream that a frame was written to. -/
def Obs.dest : Obs → Option StreamId
  | .sent _ dst _ _ _ _ => some dst
  | _ => none

/-- On the way from `st` to `st'` no frame was written to the stream `s`. -/
def Unanswered (s : StreamId) (st st' : Connector) : Prop :=
  ∀ o ∈ st'.log.drop st.log.length, o.dest ≠ some s

instance (s : StreamId) (st st' : Connector) : Decidable (Unanswered s st st') :=
  inferInstanceAs (Decidable (∀ _ ∈ _, _))

/-- On the way from `st` to `st'` the frame `f` was taken out of the stream `s`. -/
def TookFrame (s : StreamId) (f : Frame) (st st' : Connector) : Prop := f.packet ∈ gots s (st'.log.drop st.log.length)

instance (s : StreamId) (f : Frame) (st st' : Connector) : Decidable (TookFrame s f st st') :=
  inferInstanceAs (Decidable (_ ∈ _))

/-- The connection `cid` of the transport `t` is closed, or its north is gone, or it is not there
any more. -/
def Finished (via : Connection → StreamId) (t : StreamId) (cid : Nat) (st : Connector) : Prop :=
  ∀ d ∈ st.connections, d.cid = cid → via d = t ∧ (d.state = .CLOSED ∨ st.live d.north = false)

section Answers

variable {via : Connection → StreamId} {s : StreamId} {cid : Nat} {st st' : Connector} {obs : List Obs}

theorem Unanswered.of_log (hlog : st'.log = st.log ++ obs) (h : ∀ o ∈ obs, o.dest ≠ some s) :
    Unanswered s st st' := by
  rw [Unanswered, hlog, List.drop_left]
  exact h

theorem Unanswered.of_quiet (h : st'.log = st.log) : Unanswered s st st' :=
  .of_log (by rw [h, List.append_nil] : st'.log = st.log ++ []) (by simp)

variable {f : Frame} {i : StreamId} {hit keep : Connection → Bool}

theorem not_tookFrame (h : st'.log = st.log) : ¬ TookFrame s f st st' := by
  rw [TookFrame, h, List.drop_length]
  exact List.not_mem_nil

/-- A connection that is finished stays so. -/
theorem Finished.turned {R : Rules} (h : Finished via s cid st) (hvia : ∀ c s, via { c with state := s } = via c)
    (hlt : cid < st.ncid) (hnorth : ∀ c ∈ st.connections, c.north < st.next) (hg : Grows st st')
    (ht : Turned R st st' obs) : Finished via s cid st' := by
  intro d hd hcid
  rcases (ht.turn d hd).origin with ⟨d0, hd0, state, rfl, hrank⟩ | ⟨hnew, -⟩
  · obtain ⟨hs, hwhy⟩ := h d0 hd0 hcid
    refine ⟨(hvia d0 state).trans hs, ?_⟩
    rcases hwhy with hclosed | hgone
    · rw [hclosed] at hrank
      exact .inl (closed_of_rank hrank)
    · exact .inr (hg.gone (hnorth d0 hd0) hgone)
  · rw [hcid] at hnew
    exact absurd hlt (Nat.not_lt.mpr hnew)

/-- A frame that no connection takes is not answered when it has the ABORT flag. -/
theorem dest_of_refusal (h : refusal s f st obs) (habort : f.type.has ABORT) : ∀ o ∈ obs, o.dest = none := by
  rw [refusal, habort, if_neg (by simp)] at h
  subst h
  simp [Obs.dest]

theorem dest_of_feed {cid : Nat} {src dst : StreamId} {p : List UInt8} (h : Feed cid src dst p st st' obs) :
    ∀ o ∈ obs, o.dest = none := by
  intro o ho
  obtain ⟨p, ok, rfl⟩ := h.cid o ho
  rfl

/-- Nothing is taken and nothing is written when a transport is erased. -/
theorem quiet_of_gone {i : StreamId} {hit : Connection → Bool} {upd : Connection → Connection}
    {keep : Connection → Bool} (h : Gone i hit upd keep (fun c o => o = Obs.failed c.cid) st st' obs) :
    ∀ o ∈ obs ++ [.erased i (st.connsOf i) (st'.sock i)], o.dest = none ∧ o.gotFrom s = none := by
  intro o ho
  rcases List.mem_append.mp ho with ho | ho
  · obtain ⟨c, -, rfl⟩ := exists_of_forall₂ h.logged ho
    exact ⟨rfl, rfl⟩
  · rw [List.mem_singleton.mp ho]
    exact ⟨rfl, rfl⟩

variable {mid : Connector} {upd : Connection → Connection} {obs' : List Obs}

theorem Unanswered.gone (hlog : mid.log = st.log ++ obs) (h : ∀ o ∈ obs, o.dest ≠ some s)
    (hg : Gone i hit upd keep (fun c o => o = Obs.failed c.cid) mid st' obs') : Unanswered s st st' := by
  refine .of_log (by rw [hg.effect.log, hlog, List.append_assoc]) fun o ho => ?_
  rcases List.mem_append.mp ho with ho | ho
  · exact h o ho
  · simp [(@quiet_of_gone s _ _ _ _ _ _ _ hg o ho).1]

theorem TookFrame.of_gone (hlog : mid.log = st.log ++ obs)
    (hg : Gone i hit upd keep (fun c o => o = Obs.failed c.cid) mid st' obs')
    (h : TookFrame s f st st') : TookFrame s f st mid := by
  rw [TookFrame, hg.effect.log, hlog, List.append_assoc, List.drop_left, gots_append,
    gots_eq_nil fun o ho => (quiet_of_gone hg o ho).2, List.append_nil] at h
  rw [TookFrame, hlog, List.drop_left]
  exact h

theorem Finished.gone {R : Connection → Obs → Prop} (hfin : Finished via s cid st)
    (hvia : ∀ c s, via { c with state := s } = via c)
    (h : Gone i hit (state_update · abortType) keep R st st' obs) : Finished via s cid st' := by
  intro d hd hcid
  rw [h.connections] at hd
  obtain ⟨d0, hd0, rfl⟩ := List.mem_map.mp (List.mem_filter.mp hd).1
  rw [h.live]
  split at hcid
  · rename_i hhit
    rw [if_pos hhit]
    exact ⟨(hvia d0 _).trans (hfin d0 hd0 hcid).1, .inl (update_abort d0.state)⟩
  · rename_i hhit
    rw [if_neg hhit]
    obtain ⟨hs, hwhy⟩ := hfin d0 hd0 hcid
    refine ⟨hs, hwhy.imp_right fun hgone => ?_⟩
    rw [hgone, ite_self]

end Answers

namespace controller

variable {C : Call → Connector → Prop} {s : StreamId} {st st' : Connector} {f : Frame}

variable {failed : Bool}

theorem SouthRouted.unanswered (h : SouthRouted s st st' failed) (hf : frameOf (st.frame s) = some f)
    (habort : f.type.has ABORT) : ∃ obs, st'.log = st.log ++ obs ∧ ∀ o ∈ obs, o.dest ≠ some s := by
  cases h with
  | idle hnone =>
    rw [hf] at hnone
    cases hnone
  | refused g obs st' hg hd hr _ =>
    obtain rfl : f = g := Option.some.inj (hf.symm.trans hg)
    exact ⟨obs, hd.effect.log, fun o ho => by simp [dest_of_refusal hr habort o ho]⟩
  | orphan g k c st' _ _ _ _ _ hd => exact ⟨_, hd.effect.log, by simp [Obs.dest]⟩
  | deferred g k c st' _ _ _ _ hd => exact ⟨_, hd.effect.log, by simp⟩
  | delivered g k c fed aborts st' _ _ _ _ _ _ hd =>
    refine ⟨_, hd.effect.log, fun o ho => ?_⟩
    rcases List.mem_append.mp ho with ho | ho
    · simp [dest_of_feed hd.fed o ho]
    · rcases List.mem_cons.mp ho with rfl | ho
      · simp [Obs.dest]
      · -- the latch spares the transport of the frame
        have ha := hd.aborts
        split at ha
        · obtain ⟨d, hd, eid, ok, rfl, -⟩ := exists_of_forall₂ ha ho
          have hne := (List.mem_filter.mp hd).2
          simp only [latched, Bool.and_eq_true, bne_iff_ne, ne_eq] at hne
          simpa [Obs.dest] using hne.1.2
        · rw [ha] at ho
          cases ho

/-- The connection that took a STOP with the ABORT flag is finished. -/
theorem SouthRouted.finished {c : Connection} (h : SouthRouted s st st' failed)
    (hcids : (st.connections.map (·.cid)).Nodup) (hf : frameOf (st.frame s) = some f) (hop : f.type.op = STOP)
    (habort : f.type.has ABORT) (ht : target s f st = some c) (hh : TookFrame s f st st') :
    Finished Connection.south s c.cid st' := by
  obtain ⟨j, hj, hcj⟩ := Option.bind_eq_some_iff.mp ht
  have hsouth : c.south = s := (south_of_findConn hj hcj).1
  have hone : ∀ d ∈ st.connections, d.cid = c.cid → d = c :=
    fun d hd hcid => List.inj_on_of_nodup_map hcids hd (List.mem_of_getElem? hcj) hcid
  have hsame : ∀ {g : Frame} {k : Nat} {e : Connection}, frameOf (st.frame s) = some g →
      findConn s g.eid st.connections = some k → st.connections[k]? = some e → g = f ∧ e = c := by
    intro g k e hg hk hget
    obtain rfl : f = g := Option.some.inj (hf.symm.trans hg)
    rw [target, hk, Option.bind_some, hget] at ht
    exact ⟨rfl, Option.some.inj ht⟩
  cases h with
  | idle hnone =>
    rw [hf] at hnone
    cases hnone
  | refused g obs st' hg hd _ hwhy =>
    obtain rfl : f = g := Option.some.inj (hf.symm.trans hg)
    intro d hmem hcid
    rw [hd.connections] at hmem
    rw [hone d hmem hcid]
    refine ⟨hsouth, ?_⟩
    rcases hwhy with hnone | ⟨k, e, hk, hget, hwhy⟩
    · rw [target, hnone] at ht
      cases ht
    · obtain ⟨-, rfl⟩ := hsame hg hk hget
      rcases hwhy with hclosed | ⟨-, -, -, hno⟩
      · exact .inl hclosed
      · rw [habort] at hno
        cases hno
  | orphan g k e st' hg hk hget _ hgone hd =>
    obtain ⟨-, rfl⟩ := hsame hg hk hget
    intro d hmem hcid
    rw [hd.connections] at hmem
    rw [hone d hmem hcid, hd.keeps.live]
    exact ⟨hsouth, .inr hgone⟩
  | deferred g k e st' _ _ _ _ hd => exact absurd hh (not_tookFrame (by simpa using hd.effect.log))
  | delivered g k e fed aborts st' hg hk hget _ _ _ hd =>
    obtain ⟨rfl, rfl⟩ := hsame hg hk hget
    have hclosed : (state_update e g.type).state = .CLOSED := by
      simp only [state_update, ConnState.update, hop, habort]
      cases e.state <;> rfl
    -- with or without the latch
    have hset : ∀ d ∈ st.connections.set k (state_update e g.type), d.cid = e.cid →
        d.south = s ∧ d.state = .CLOSED := by
      intro d hmem hcid
      rw [Loop.set_key (·.cid) hcids hget] at hmem
      obtain ⟨d0, -, rfl⟩ := List.mem_map.mp hmem
      split
      · exact ⟨hsouth, hclosed⟩
      · rename_i hne
        rw [if_neg hne] at hcid
        exact absurd (beq_iff_eq.mpr hcid) hne
    intro d hmem hcid
    refine And.imp_right .inl ?_
    rw [hd.connections] at hmem
    split at hmem
    · obtain ⟨d0, hd0, rfl⟩ := List.mem_map.mp hmem
      split
      · rename_i hl
        rw [if_pos hl] at hcid
        exact ⟨(hset d0 hd0 hcid).1, update_abort d0.state⟩
      · rename_i hl
        rw [if_neg hl] at hcid
        exact hset d0 hd0 hcid
    · exact hset d hmem hcid

/-- A read of a transport with a STOP that has the ABORT flag, as a whole. -/
theorem callIn_abort {o : Oracle} (hs : Sound st) (hif : Transport (st.ep s).iface) (ha : arriving s st = some f)
    (hop : f.type.op = STOP) (habort : f.type.has ABORT) : Unanswered s st (callIn s o st) ∧
      ∀ c, target s f st = some c → TookFrame s f st (callIn s o st) →
        Finished Connection.south s c.cid (callIn s o st) := by
  obtain ⟨bs, hr⟩ := readTransport_spec s st (hs.frame s)
  obtain ⟨hok, hnew⟩ := hr.frameOk (hs.frame s)
  have hf : frameOf (((readTransport s st).dropInput s).frame s) = some f := by
    rw [(dropInput_quiet _ s).frame]
    exact ha
  have hroute := route_south_spec hok hnew
  rw [callIn_south o hif]
  generalize (readTransport s st).dropInput s = r at hr hf hroute ⊢
  generalize route_south s r = x at hroute ⊢
  obtain ⟨st2, failed⟩ := x
  obtain ⟨obs, hlog, hdest⟩ := hroute.unanswered hf habort
  have hlog0 : r.log = st.log := by simpa using hr.effect.log
  have hcids : (r.connections.map (·.cid)).Nodup := by
    rw [hr.connections]
    exact hs.cids
  rw [hlog0] at hlog
  have hfin : ∀ c, target s f st = some c → TookFrame s f st st2 → Finished Connection.south s c.cid st2 := by
    intro c hc hh
    refine hroute.finished hcids hf hop habort (by rw [target, hr.connections]; exact hc) ?_
    rw [TookFrame, hlog0]
    exact hh
  cases failed with
  | false => exact ⟨.of_log hlog hdest, hfin⟩
  | true =>
    obtain ⟨obs', hg⟩ := south_err_handler_spec s st2
    exact ⟨.gone hlog hdest hg, fun c hc hh => (hfin c hc (.of_gone hlog hg hh)).gone (fun _ _ => rfl) hg⟩

variable {cid : Nat}

/-- The handlers of a client whose connection is finished write nothing to its transport. -/
theorem callOut_finished {d : Connection} (hs : Consistent st) (h : Finished Connection.south s cid st)
    (hd : d ∈ st.connections) (hcid : d.cid = cid) : Unanswered s st (call (.out d.north) st) := by
  simp only [call]
  split
  · rename_i hlive
    have hq := (Same.takeErrors st d.north).trans (st.pollout_handler_quiet d.north).same
    unfold callOut
    rw [hs.sides.north d hd]
    generalize st.pollout_handler d.north = x at hq ⊢
    obtain ⟨st1, failed⟩ := x
    -- the client has no other connection on this transport
    have hgone : Unanswered s st (north_err_handler d.north st1) := by
      obtain ⟨obs, hg⟩ := north_err_handler_spec d.north st1
      refine .of_log (by rw [hg.effect.log, hq.log]) fun o ho => ?_
      rcases List.mem_append.mp ho with ho | ho
      · obtain ⟨e, he, eid, ok, rfl, -⟩ := exists_of_forall₂ hg.logged ho
        obtain ⟨hmem, hab⟩ := List.mem_filter.mp he
        simp only [aborting, Bool.and_eq_true, beq_iff_eq, decide_eq_true_eq] at hab
        rw [hq.connections] at hmem
        simp only [Obs.dest, ne_eq, Option.some.injEq]
        intro hes
        have hcid' : e.cid = cid := by
          rw [← hcid]
          refine hs.single e hmem d hd hab.1.1 (hes.trans (h d hd hcid).1.symm) ?_
          rw [← hq.live]
          exact hab.1.2
        rcases (h e hmem hcid').2 with hclosed | hdead
        · rw [hclosed] at hab
          exact absurd hab.2 (Nat.lt_irrefl _)
        · rw [hab.1.1, hlive] at hdead
          cases hdead
      · simp [List.mem_singleton.mp ho, Obs.dest]
    cases failed with
    | true => exact hgone
    | false =>
      dsimp only
      unfold north_state_handler
      split
      · exact hgone
      · exact .of_log (by rw [(shutdown_effect _ _).log]; exact congrArg (· ++ _) hq.log) (by simp [Obs.dest])
      · exact .of_quiet hq.log
  · exact .of_quiet rfl

/-- What was finished stays so, whatever comes. -/
theorem finished_lawful : Lawful C fun st => cid < st.ncid ∧ Finished Connection.south s cid st := by
  intro st st' obs act hs ht ⟨hlt, h⟩
  exact ⟨Nat.lt_of_lt_of_le hlt ht.ncid, h.turned (fun _ _ => rfl) hlt hs.norths act.grows ht⟩

theorem Consistent.play (h : Consistent st) (evs : List Event) : Consistent (play evs st) := by
  induction evs generalizing st with
  | nil => exact h
  | cons ev evs ih => exact ih (h.handle ev)

theorem finished_play (hs : Consistent st) (hlt : cid < st.ncid) (h : Finished Connection.south s cid st)
    (evs : List Event) : Finished Connection.south s cid (play evs st) := by
  induction evs generalizing st with
  | nil => exact h
  | cons ev evs ih =>
    obtain ⟨⟨-, hlt', h'⟩, -⟩ := @Preserved.handle (fun _ _ => True) _ finished_lawful.preserved (base_preserved _)
      ev st hs.sound.toBase ⟨hs.sound, hlt, h⟩ fun _ _ => trivial
    exact ih (hs.handle ev) hlt' h'

/-- A frame `f` of the transport `s` is not answered: not when it is read, and not by the handlers
that run later for the client of its connection. -/
def NotAnswered (s : StreamId) (o : Oracle) (f : Frame) (st : Connector) : Prop :=
  Unanswered s st (call (.inn s o) st) ∧
    ∀ c, target s f st = some c → TookFrame s f st (call (.inn s o) st) →
      ∀ evs, ∀ d ∈ (play evs (call (.inn s o) st)).connections, d.cid = c.cid →
        Unanswered s (play evs (call (.inn s o) st)) (call (.out d.north) (play evs (call (.inn s o) st)))

theorem notAnswered_of_abort {o : Oracle} (hs : Consistent st) (hl : st.live s) (hif : Transport (st.ep s).iface)
    (ha : arriving s st = some f) (hop : f.type.op = STOP) (habort : f.type.has ABORT) : NotAnswered s o f st := by
  have hcall : call (.inn s o) st = callIn s o st := if_pos hl
  have hnumber : ∀ cid, Lawful (fun _ _ => True) fun a => cid < a.ncid :=
    fun cid _ _ _ _ _ ht hlt => Nat.lt_of_lt_of_le hlt ht.ncid
  have hcons : Consistent (callIn s o st) :=
    (@consistent_preserved fun _ _ => True).callIn hs.sound.toBase trivial hl hs
  obtain ⟨hun, hfin⟩ := @callIn_abort s st f o hs.sound hif ha hop habort
  rw [NotAnswered, hcall]
  refine ⟨hun, fun c hc hh evs d hd hcid => ?_⟩
  obtain ⟨k, -, hget⟩ := Option.bind_eq_some_iff.mp hc
  have hbound := hs.sound.bound c (List.mem_of_getElem? hget)
  have hlt := ((hnumber c.cid).preserved.callIn (o := o) hs.sound.toBase trivial hl ⟨hs.sound, hbound⟩).2
  exact callOut_finished (hcons.play evs) (finished_play hcons hlt (hfin c hc hh) evs) hd hcid

end controller

namespace segment

variable {C : Call → Connector → Prop} {t : StreamId} {st st' : Connector} {f : Frame}

variable {failed : Bool}

theorem NorthRouted.unanswered (h : NorthRouted t st st' failed) (hf : frameOf (st.frame t) = some f)
    (habort : f.type.has ABORT) (hinit : f.type.has INIT = false) :
    (∃ obs, st'.log = st.log ++ obs ∧ ∀ o ∈ obs, o.dest ≠ some t) ∧ st'.ncid = st.ncid := by
  cases h with
  | idle hnone =>
    rw [hf] at hnone
    cases hnone
  | refused g obs st' hg _ hd hr =>
    obtain rfl : f = g := Option.some.inj (hf.symm.trans hg)
    exact ⟨⟨obs, hd.effect.log, fun o ho => by simp [dest_of_refusal hr habort o ho]⟩, hd.keeps.ncid⟩
  | opened g st' hg _ _ hi =>
    obtain rfl : f = g := Option.some.inj (hf.symm.trans hg)
    rw [hinit] at hi
    cases hi
  | deferred g k c st' _ _ _ _ hd => exact ⟨⟨_, hd.effect.log, by simp⟩, hd.keeps.ncid⟩
  | delivered g k c fed st' _ _ _ _ hd =>
    refine ⟨⟨_, hd.effect.log, fun o ho => ?_⟩, hd.ncid⟩
    rcases List.mem_append.mp ho with ho | ho
    · simp [dest_of_feed hd.fed o ho]
    · simp [List.mem_singleton.mp ho, Obs.dest]

/-- The connection that took a STOP with the ABORT flag is finished. -/
theorem NorthRouted.finished {c : Connection} (h : NorthRouted t st st' failed)
    (hcids : (st.connections.map (·.cid)).Nodup) (hf : frameOf (st.frame t) = some f) (hop : f.type.op = STOP)
    (habort : f.type.has ABORT) (hinit : f.type.has INIT = false) (ht : target t f st = some c)
    (hh : TookFrame t f st st') : Finished Connection.north t c.cid st' := by
  obtain ⟨j, hj, hcj⟩ := Option.bind_eq_some_iff.mp ht
  have hnorth : c.north = t := (north_of_findConn hj hcj).1
  have hsame : ∀ {g : Frame} {k : Nat} {e : Connection}, frameOf (st.frame t) = some g →
      findConn t g.eid st.connections = some k → st.connections[k]? = some e → g = f ∧ e = c := by
    intro g k e hg hk hget
    obtain rfl : f = g := Option.some.inj (hf.symm.trans hg)
    rw [target, hk, Option.bind_some, hget] at ht
    exact ⟨rfl, Option.some.inj ht⟩
  cases h with
  | idle hnone =>
    rw [hf] at hnone
    cases hnone
  | refused g obs st' hg hwhy hd _ =>
    intro d hmem hcid
    rw [hd.connections] at hmem
    rw [List.inj_on_of_nodup_map hcids hmem (List.mem_of_getElem? hcj) hcid]
    rcases hwhy with hnone | ⟨k, e, hk, hget, hclosed⟩
    · obtain rfl : f = g := Option.some.inj (hf.symm.trans hg)
      rw [target, hnone] at ht
      cases ht
    · obtain ⟨-, rfl⟩ := hsame hg hk hget
      exact ⟨hnorth, .inl hclosed⟩
  | opened g st' hg _ _ hi =>
    obtain rfl : f = g := Option.some.inj (hf.symm.trans hg)
    rw [hinit] at hi
    cases hi
  | deferred g k e st' _ _ _ _ hd => exact absurd hh (not_tookFrame (by simpa using hd.effect.log))
  | delivered g k e fed st' hg hk hget _ hd =>
    obtain ⟨rfl, rfl⟩ := hsame hg hk hget
    have hclosed : (state_update e g.type).state = .CLOSED := by
      simp only [state_update, ConnState.update, hop, habort]
      cases e.state <;> rfl
    intro d hmem hcid
    rw [hd.connections, Loop.set_key (·.cid) hcids hget] at hmem
    obtain ⟨d0, -, rfl⟩ := List.mem_map.mp hmem
    split
    · exact ⟨hnorth, .inl hclosed⟩
    · rename_i hne
      rw [if_neg hne] at hcid
      exact absurd (beq_iff_eq.mpr hcid) hne

/-- A read of a transport with a STOP that has the ABORT flag and no INIT, as a whole. -/
theorem callIn_abort {fd : Option Int} (hs : Sound st) (hready : Ready st) (hl : st.live t)
    (hif : Transport (st.ep t).iface) (ha : arriving t st = some f) (hop : f.type.op = STOP)
    (habort : f.type.has ABORT) (hinit : f.type.has INIT = false) : Unanswered t st (callIn t fd st) ∧
      (callIn t fd st).ncid = st.ncid ∧ ∀ c, target t f st = some c → TookFrame t f st (callIn t fd st) →
        Finished Connection.north t c.cid (callIn t fd st) := by
  obtain ⟨bs, hr⟩ := readTransport_spec t st (hready.frames t (.inl hl))
  obtain ⟨hok, hnew⟩ := hr.frameOk (hready.frames t (.inl hl))
  have hf : frameOf (((readTransport t st).dropInput t).frame t) = some f := by
    rw [(dropInput_quiet _ t).frame]
    exact ha
  have hroute := @route_north_spec fd _ _ hok hnew
  rw [callIn_north fd hif]
  generalize (readTransport t st).dropInput t = r at hr hf hroute ⊢
  generalize route_north fd t r = x at hroute ⊢
  obtain ⟨st2, failed⟩ := x
  obtain ⟨⟨obs, hlog, hdest⟩, hncid⟩ := hroute.unanswered hf habort hinit
  have hlog0 : r.log = st.log := by simpa using hr.effect.log
  have hcids : (r.connections.map (·.cid)).Nodup := by
    rw [hr.connections]
    exact hs.cids
  rw [hlog0] at hlog
  have hfin : ∀ c, target t f st = some c → TookFrame t f st st2 → Finished Connection.north t c.cid st2 := by
    intro c hc hh
    refine hroute.finished hcids hf hop habort hinit (by rw [target, hr.connections]; exact hc) ?_
    rw [TookFrame, hlog0]
    exact hh
  cases failed with
  | false => exact ⟨.of_log hlog hdest, hncid.trans hr.ncid, hfin⟩
  | true =>
    obtain ⟨obs', hg⟩ := north_err_handler_spec t st2
    exact ⟨.gone hlog hdest hg, hg.ncid.trans (hncid.trans hr.ncid),
      fun c hc hh => (hfin c hc (.of_gone hlog hg hh)).gone (fun _ _ => rfl) hg⟩

variable {cid : Nat}

/-- The handlers of a service whose connection is finished write nothing. -/
theorem callOut_finished {d : Connection} (hs : Sound st) (h : Finished Connection.north t cid st)
    (hd : d ∈ st.connections) (hcid : d.cid = cid) : Unanswered t st (call (.out d.south) st) := by
  simp only [call]
  split
  · have hq := (Same.takeErrors st d.south).trans (st.pollout_handler_quiet d.south).same
    unfold callOut
    rw [(hs.sides d hd).2]
    generalize st.pollout_handler d.south = x at hq ⊢
    obtain ⟨st1, failed⟩ := x
    -- the service has no other connection
    have hgone : Unanswered t st (south_err_handler d.south st1) := by
      obtain ⟨obs, hg⟩ := south_err_handler_spec d.south st1
      refine .of_log (by rw [hg.effect.log, hq.log]) fun o ho => ?_
      rcases List.mem_append.mp ho with ho | ho
      · obtain ⟨e, he, ok, rfl⟩ := exists_of_forall₂ hg.logged ho
        obtain ⟨hmem, hab⟩ := List.mem_filter.mp he
        simp only [aborting, Bool.and_eq_true, beq_iff_eq, decide_eq_true_eq] at hab
        rw [hq.connections] at hmem
        obtain rfl := hs.eq_of_south hmem hd hab.1.1
        rcases (h e hmem hcid).2 with hclosed | hdead
        · rw [hclosed] at hab
          exact absurd hab.2 (Nat.lt_irrefl _)
        · rw [hq.live, hdead] at hab
          cases hab.1.2
      · simp [List.mem_singleton.mp ho, Obs.dest]
    cases failed with
    | true => exact hgone
    | false =>
      dsimp only
      unfold south_state_handler
      split
      · exact .of_quiet hq.log
      · split
        · exact hgone
        · exact .of_log (by rw [(shutdown_effect _ _).log]; exact congrArg (· ++ _) hq.log) (by simp [Obs.dest])
        · exact .of_quiet hq.log
  · exact .of_quiet rfl

/-- What was finished stays so, whatever comes. -/
theorem finished_lawful : Lawful C fun st => cid < st.ncid ∧ Finished Connection.north t cid st := by
  intro st st' obs act hs ht ⟨hlt, h⟩
  exact ⟨Nat.lt_of_lt_of_le hlt ht.ncid, h.turned (fun _ _ => rfl) hlt hs.norths act.grows ht⟩

theorem Consistent.play (h : Consistent st) (evs : List Event) : Consistent (play evs st) := by
  induction evs generalizing st with
  | nil => exact h
  | cons ev evs ih => exact ih (h.handle ev)

theorem finished_play (hs : Consistent st) (hlt : cid < st.ncid) (h : Finished Connection.north t cid st)
    (evs : List Event) : Finished Connection.north t cid (play evs st) := by
  induction evs generalizing st with
  | nil => exact h
  | cons ev evs ih =>
    obtain ⟨⟨-, hlt', h'⟩, -⟩ := @Preserved.handle (fun _ _ => True) _ finished_lawful.preserved ev st hs.ready
      ⟨hs.sound, hlt, h⟩ fun _ _ => trivial
    exact ih (hs.handle ev) hlt' h'

/-- A frame `f` of the transport `t` is not answered: not when it is read, and not by the handlers
that run later for the service of its connection. And it starts no session. -/
def NotAnswered (t : StreamId) (fd : Option Int) (f : Frame) (st : Connector) : Prop :=
  Unanswered t st (call (.inn t fd) st) ∧ (call (.inn t fd) st).ncid = st.ncid ∧
    ∀ c, target t f st = some c → TookFrame t f st (call (.inn t fd) st) →
      ∀ evs, ∀ d ∈ (play evs (call (.inn t fd) st)).connections, d.cid = c.cid →
        Unanswered t (play evs (call (.inn t fd) st)) (call (.out d.south) (play evs (call (.inn t fd) st)))

theorem notAnswered_of_abort {fd : Option Int} (hs : Consistent st) (hl : st.live t)
    (hif : Transport (st.ep t).iface) (ha : arriving t st = some f) (hop : f.type.op = STOP)
    (habort : f.type.has ABORT) (hinit : f.type.has INIT = false) : NotAnswered t fd f st := by
  have hcall : call (.inn t fd) st = callIn t fd st := if_pos hl
  have hcons : Consistent (callIn t fd st) :=
    ⟨(@sound_preserved fun _ _ => True).callIn hs.ready trivial hl hs.sound, hcall ▸ call_ready hs.ready,
      (@carried_law fun _ _ => True).read hs.sound hs.ready hl trivial hs.carried⟩
  obtain ⟨hun, hncid, hfin⟩ := @callIn_abort t st f fd hs.sound hs.ready hl hif ha hop habort hinit
  rw [NotAnswered, hcall]
  refine ⟨hun, hncid, fun c hc hh evs d hd hcid => ?_⟩
  obtain ⟨k, -, hget⟩ := Option.bind_eq_some_iff.mp hc
  have hlt : c.cid < (callIn t fd st).ncid := by
    rw [hncid]
    exact hs.sound.bound c (List.mem_of_getElem? hget)
  exact callOut_finished (hcons.play evs).sound (finished_play hcons hlt (hfin c hc hh) evs) hd hcid

end segment

instance (call : controller.Call) (st : Connector) : Decidable (controller.NoInput call st) :=
  match call with
  | .env (.rx _ r) => inferInstanceAs (Decidable (r.bytes = []))
  | .env (.accept _) => inferInstanceAs (Decidable False)
  | .env (.connected _ _) | .env (.refused _) | .env (.timeout _) | .env (.tx _ _) | .out _ | .inn _ _ =>
    inferInstanceAs (Decidable True)

instance (call : segment.Call) (st : Connector) : Decidable (segment.NoInput call st) :=
  match call with
  | .env (.rx _ r) => inferInstanceAs (Decidable (r.bytes = []))
  | .env (.accept _) => inferInstanceAs (Decidable False)
  | .env (.connected _ _) | .env (.refused _) | .env (.tx _ _) | .out _ | .inn _ _ =>
    inferInstanceAs (Decidable True)

variable {W : List StreamId} {st : Connector} {x : Fabric}

/-- Without input nothing comes in on the wires either. -/
theorem controller.NoInput.sealed {call : controller.Call}
    (h : controller.NoInput call st) : controller.Sealed W call st := by
  cases call with
  | env e =>
    cases e with
    | rx i r => exact fun _ => h
    | _ => trivial
  | _ => trivial

theorem segment.NoInput.sealed {call : segment.Call} (h : segment.NoInput call st) : segment.Sealed W call st := by
  cases call with
  | env e =>
    cases e with
    | rx i r => exact fun _ => h
    | _ => trivial
  | _ => trivial

theorem Fabric.steps_ctl {D : segment.Call → Connector → Prop} {evs : List controller.Event}
    (h : controller.Meets controller.NoInput evs x.ctl) :
    Steps controller.NoInput D x { x with ctl := controller.play evs x.ctl } := by
  induction evs generalizing x with
  | nil => exact .refl
  | cons ev evs ih =>
    have hstep : Step controller.NoInput D x { x with ctl := controller.handle ev x.ctl } :=
      .ctl x ev fun p hp => ⟨h.1 p hp, (h.1 p hp).sealed⟩
    exact .head hstep (ih h.2)

theorem Fabric.steps_seg {C : controller.Call → Connector → Prop} {evs : List segment.Event}
    (h : segment.Meets segment.NoInput evs x.seg) :
    Steps C segment.NoInput x { x with seg := segment.play evs x.seg } := by
  induction evs generalizing x with
  | nil => exact .refl
  | cons ev evs ih =>
    have hstep : Step C segment.NoInput x { x with seg := segment.handle ev x.seg } :=
      .seg x ev fun p hp => ⟨h.1 p hp, (h.1 p hp).sealed⟩
    exact .head hstep (ih h.2)

/-- A client started a session, and its first frame is on the way to the segment. -/
def firstFrameFlies : Fabric where
  ctl := controller.play clientSpeaks {}
  seg := segment.play [.env (.accept 10)] {}
  wires := [⟨1, 0⟩]

/-- The frame arrives, and the service refuses. -/
def serviceRefuses : Fabric where
  ctl := controller.play [.env (.tx 1 (.accept 25)), .poll 1 Mask.POLLOUT {}] firstFrameFlies.ctl
  seg := segment.play [.poll 0 Mask.POLLIN none, .env (.refused 0)]
    (segment.handle (.env (.rx 0 initFrame.recv)) firstFrameFlies.seg)
  wires := [⟨1, 0⟩]

theorem firstFrameFlies_consistent : firstFrameFlies.Consistent where
  ctl := controller.Run.consistent (.of_events clientSpeaks .HALF_DUPLEX)
  seg := segment.Run.consistent (.of_events [.env (.accept 10)] .HALF_DUPLEX)
  souths := by decide
  norths := by decide
  wires := by
    intro w hw
    rw [List.mem_singleton.mp hw]
    exact ⟨⟨by decide +kernel, by unfold controller.Transport; decide +kernel⟩,
      ⟨by decide +kernel, by unfold segment.Transport; decide +kernel⟩, by decide +kernel, by decide +kernel⟩

theorem firstFrameFlies_calm : firstFrameFlies.Calm where
  ctl := by
    refine .of_table (fun s hs => ?_) (by unfold controller.Transport; decide +kernel)
    rw [List.mem_singleton.mp hs]
    exact ⟨by decide +kernel, by unfold controller.Transport; decide +kernel⟩
  seg := by
    refine .of_table (fun s hs => ?_) (by unfold segment.Transport; decide +kernel)
    rw [List.mem_singleton.mp hs]
    exact ⟨by decide +kernel, by unfold segment.Transport; decide +kernel⟩

theorem service_refuses_steps :
    Fabric.Steps controller.NoInput segment.NoInput firstFrameFlies serviceRefuses := by
  have hctl : Fabric.Steps controller.NoInput segment.NoInput firstFrameFlies
      { firstFrameFlies with ctl := serviceRefuses.ctl } := Fabric.steps_ctl (by decide +kernel)
  have hdown : Fabric.Step controller.NoInput segment.NoInput { firstFrameFlies with ctl := serviceRefuses.ctl }
      { firstFrameFlies with
        ctl := serviceRefuses.ctl
        seg := segment.handle (.env (.rx 0 initFrame.recv)) firstFrameFlies.seg } :=
    .down _ ⟨1, 0⟩ initFrame.recv (by decide) (by decide +kernel)
  exact (hctl.tail hdown).trans (Fabric.steps_seg (by decide +kernel))

/-- An ABORT for the session arrives at both ends. -/
def controller.abortArrives : List controller.Event := clientSpeaks ++ [.env (.rx 1 segment.abortFrame.recv)]

def segment.abortArrives : List segment.Event := sessionStarts ++ [.env (.rx 0 segment.abortFrame.recv)]

/-- A STOP with both flags and a payload. -/
def abortingInit : Frame := { initFrame with type := ⟨STOP, INIT ||| ABORT⟩ }

def abortingInitArrives : List segment.Event := [.env (.accept 10), .env (.rx 0 abortingInit.recv)]

end cloudbus
