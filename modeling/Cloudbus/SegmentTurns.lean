-- The acts of the segment, seen from one connection.
import Cloudbus.SegmentRuns
import Cloudbus.History
import Mathlib.Data.List.Nodup

namespace cloudbus.segment

open cloudbus.io cloudbus.messages Connector

/-- The call in which a chunk of the service is routed, up to the state `st`. -/
def Routing (C : Call → Connector → Prop) (v : StreamId) (st : Connector) : Prop :=
  ∃ fd st0 bs, C (.inn v fd) st0 ∧ st0.live v ∧ ChunkRead v st0 st bs

/-- The call in which a frame of the transport is routed, up to the state `st`. -/
def Taking (C : Call → Connector → Prop) (t : StreamId) (st : Connector) : Prop :=
  ∃ fd st0 bs, C (.inn t fd) st0 ∧ st0.live t ∧ TransportRead t st0 st bs

/-- The frame of the transport `t` finds the connection `c`. -/
def Found (t : StreamId) (f : Frame) (c : Connection) (st : Connector) : Prop :=
  frameOf (st.frame t) = some f ∧ ∃ k, findConn t f.eid st.connections = some k ∧
    st.connections[k]? = some c

/-- The chunk of the service goes to the connection `c`. -/
def Chosen (v : StreamId) (c : Connection) (st : Connector) : Prop :=
  ∃ k, findSouth v st = some k ∧ st.connections[k]? = some c

variable {t : StreamId} {c : Connection} {I : Connector → Prop} {k : Nat} {f : Frame} {st : Connector}

theorem north_of_findConn {eid : Uuid} {cs : List Connection} (h : findConn t eid cs = some k)
    (hc : cs[k]? = some c) : c.north = t ∧ c.uuid = eid := by
  obtain ⟨hk, hp, -⟩ := List.findIdx?_eq_some_iff_getElem.mp h
  rw [List.getElem?_eq_getElem hk, Option.some.injEq] at hc
  rw [hc] at hp
  simpa [and_comm] using hp

theorem south_of_findSouth {v : StreamId} (h : findSouth v st = some k)
    (hc : st.connections[k]? = some c) : c.south = v ∧ st.live c.north := by
  obtain ⟨hk, hp, -⟩ := List.findIdx?_eq_some_iff_getElem.mp h
  rw [List.getElem?_eq_getElem hk, Option.some.injEq] at hc
  rw [hc] at hp
  simpa using hp

/-- The frame that is complete once the transport `t` is read. -/
def arriving (t : StreamId) (st : Connector) : Option Frame := frameOf ((readTransport t st).frame t)

/-- The connection that a frame of the transport `t` belongs to. -/
def target (t : StreamId) (f : Frame) (st : Connector) : Option Connection :=
  (findConn t f.eid st.connections).bind fun k => st.connections[k]?

variable {st0 : Connector} {bs : List UInt8} {obs : List Obs}

theorem arriving_of_read (hr : TransportRead t st0 st bs)
    (hf : frameOf (st.frame t) = some f) : arriving t st0 = some f := by
  rw [hr.eq, (dropInput_quiet _ t).frame] at hf
  exact hf

theorem target_of_read (hr : TransportRead t st0 st bs) (hk : findConn t f.eid st.connections = some k)
    (hget : st.connections[k]? = some c) : target t f st0 = some c := by
  rw [hr.connections] at hk hget
  rw [target, hk, Option.bind_some, hget]

/-- What the segment does with its connections. -/
def rules (C : Call → Connector → Prop) : Rules where
  own := Connection.south
  via := Connection.north
  sends st c t p := Routing C c.south st ∧ Chosen c.south c st ∧
    ((st.sock c.south).eof ∨ 0 < (st.chunk c.south).tellp) ∧ t = routeType c.south st ∧
    p = (st.chunk c.south).chunk
  takes st c f := Taking C c.north st ∧ Found c.north f c st ∧ c.state ≠ .CLOSED
  opens st st' c h := ∃ f, (c.south < st'.next ∧ (st.ep c.north).iface = .north ∧
      (st'.ep c.south).iface = .south 0) ∧ Taking C c.north st ∧ frameOf (st.frame c.north) = some f ∧
    Untaken c.north f st ∧ (st.sock c.north).eof = false ∧ f.type.has INIT ∧ f.payload ≠ [] ∧
    c = newConn c.north f st ∧ h = openObs c.north f st

variable {C : Call → Connector → Prop} {st st' : Connector}

theorem iface_readTransport (t i : StreamId) (st : Connector) :
    (((readTransport t st).dropInput t).ep i).iface = (st.ep i).iface := by
  unfold readTransport dropInput
  dsimp only
  split
  · exact (iface_setSock _ _ _ _).trans (iface_setFrame _ _ _ _)
  · exact (iface_setSock _ _ _ _).trans (iface_setFrame _ _ _ _)

theorem turned_of_opened (hn : Numbered st) (hr : Taking C t st) (hif : (st.ep t).iface = .north)
    (hf : frameOf (st.frame t) = some f) (hun : Untaken t f st) (he : (st.sock t).eof = false) (hinit : f.type.has INIT)
    (hpay : f.payload ≠ []) (ho : Opened t f st st') : Turned (rules C) st st' (openObs t f st) := by
  have hcid : ∀ o ∈ openObs t f st, o.cid = some st.ncid := by simp [openObs, Obs.cid]
  have hlt : st.ncid < st'.ncid := by
    rw [ho.ncid]
    exact Nat.lt_succ_self _
  refine ⟨ho.effect.log, ho.effect.ncid, fun o hmem cid hc => ?_, ?_, fun c hc => ?_, fun c hc => ?_⟩
  · rw [hcid o hmem, Option.some.injEq] at hc
    rw [← hc]
    exact hlt
  · rw [ho.connections, List.map_append, List.nodup_append]
    refine ⟨hn.cids, by simp, fun a ha b hb => ?_⟩
    obtain ⟨c, hc, rfl⟩ := List.mem_map.mp ha
    rw [List.mem_singleton.mp hb]
    exact Nat.ne_of_lt (hn.bound c hc)
  · rw [ho.connections, List.mem_append, List.mem_singleton] at hc
    rcases hc with hc | rfl
    · exact Nat.lt_trans (hn.bound c hc) hlt
    · exact hlt
  · rw [ho.connections, List.mem_append, List.mem_singleton] at hc
    rcases hc with hc | rfl
    · refine .kept hc (about_eq_nil fun o hmem hc' => ?_)
      rw [hcid o hmem, Option.some.injEq] at hc'
      exact Nat.ne_of_gt (hn.bound c hc) hc'
    · refine .opened (Nat.le_refl _) (.head _) ⟨f, ⟨?_, hif, ho.iface⟩, hr, hf, hun, he, hinit, hpay, rfl, ?_⟩
      · rw [ho.next]
        exact Nat.lt_succ_self _
      · exact List.filter_eq_self.mpr fun o ho => by rw [hcid o ho]; simp [newConn]

theorem turned_of_delivered {fed : List Obs} (hn : Numbered st) (hr : Taking C t st)
    (hf : frameOf (st.frame t) = some f) (hk : findConn t f.eid st.connections = some k)
    (hget : st.connections[k]? = some c) (hst : c.state ≠ .CLOSED) (hd : Delivered t f k c st st' fed) :
    Turned (rules C) st st' (fed ++ [.got (some c.cid) t f.eid f.type f.payload]) := by
  obtain rfl := (north_of_findConn hk hget).1
  have hcid : ∀ o ∈ fed ++ [Obs.got (some c.cid) c.north f.eid f.type f.payload], o.cid = some c.cid := by
    intro o ho
    rcases List.mem_append.mp ho with ho | ho
    · obtain ⟨p, ok, rfl⟩ := hd.fed.cid o ho
      rfl
    · rw [List.mem_singleton.mp ho]
      rfl
  refine .set hn hget hd.effect.log hd.ncid
    (fun o ho cid he => by rw [hcid o ho] at he; exact (Option.some.inj he).symm)
    (cid_state_update c f.type) hd.connections
    (.got (List.mem_of_getElem? hget) ⟨hr, ⟨hf, k, hk, hget⟩, hst⟩ hd.fed ?_)
  exact List.filter_eq_self.mpr fun o ho => by rw [hcid o ho, beq_self_eq_true]

theorem Act.turned (hn : Numbered st) (act : Act C st st') : ∃ obs, Turned (rules C) st st' obs := by
  have same : Same st st' → ∃ obs, Turned (rules C) st st' obs := fun h =>
    ⟨[], .same hn (by simp [h.log]) (by simp) h.connections (Nat.le_of_eq h.ncid.symm)⟩
  cases act with
  | quiet hq => exact same hq.same
  | errors => exact same (Same.takeErrors _ _)
  | frameRead _ _ _ hr =>
    exact ⟨[], .same hn hr.effect.log (by simp) hr.connections hr.effect.ncid⟩
  | chunkRead _ _ _ hr =>
    exact ⟨[], .same hn hr.effect.log (by simp) hr.connections hr.effect.ncid⟩
  | refused _ _ _ _ _ hd hr =>
    refine ⟨_, .same hn hd.effect.log ?_ hd.connections hd.effect.ncid⟩
    unfold refusal at hr
    split at hr
    · obtain ⟨ok, rfl⟩ := hr
      simp [Obs.cid]
    · subst hr
      simp [Obs.cid]
  | opened hc hl hif hr hf hun he hinit hpay ho =>
    refine ⟨_, turned_of_opened hn ⟨_, _, _, hc, hl, hr⟩ ?_ hf hun he hinit hpay ho⟩
    rw [hr.eq, iface_readTransport]
    exact hif
  | deferred _ _ _ hd => exact ⟨[], .same hn hd.effect.log (by simp) hd.connections hd.effect.ncid⟩
  | delivered hc hl hr hf hk hget hst hd =>
    exact ⟨_, turned_of_delivered hn ⟨_, _, _, hc, hl, hr⟩ hf hk hget hst hd⟩
  | idle _ _ _ _ hget _ _ hl hconn =>
    exact ⟨[], .set hn hget hl.effect.log hl.keeps.ncid (by simp) (cid_state_update _ _) hconn
      (.idle (List.mem_of_getElem? hget) rfl)⟩
  | full _ _ _ hw => exact ⟨[], .same hn hw.effect.log (by simp) hw.connections hw.effect.ncid⟩
  | @sent v _ _ _ mid _ _ k c ok hc hl hr hk hget hwhy hs hlog hconn =>
    obtain rfl := (south_of_findSouth hk hget).1
    refine ⟨_, .set hn hget (hs.effect.nil_trans hlog.effect).log
      (hlog.keeps.ncid.trans hs.keeps.ncid) (fun o ho cid he => ?_) (cid_state_update _ _) hconn
      (@Turn.sent (rules C) _ _ _ c _ (st.chunk c.south).chunk ok (List.mem_of_getElem? hget)
        ⟨⟨_, _, _, hc, hl, hr⟩, ⟨k, hk, hget⟩, hwhy, rfl, rfl⟩ ?_)⟩
    · rw [List.mem_singleton] at ho
      subst ho
      exact (Option.some.inj he).symm
    · simp [about_cons, Obs.cid]
      rfl
  | transportGone _ hg =>
    refine ⟨_, .loop _ _ hn hg.effect.log hg.ncid (fun c o h => by rw [h]; rfl) (by simp [Obs.cid])
      (fun c => cid_state_update c abortType) hg.logged hg.connections fun c o hc _ _ ho hab => ?_⟩
    subst ho
    exact .failed hc hab
  | serviceGone _ hg =>
    refine ⟨_, .loop _ _ hn hg.effect.log hg.ncid (fun c o h => ?_) (by simp [Obs.cid]) (fun _ => rfl)
      hg.logged hg.connections fun c o _ hp hkeep _ _ => ?_⟩
    · obtain ⟨ok, rfl⟩ := h
      rfl
    · simp only [aborting, Bool.and_eq_true, beq_iff_eq] at hp
      simp [hp.1.1] at hkeep
  | shut => exact ⟨_, .same hn (shutdown_effect _ _).log (by simp [Obs.cid]) rfl (Nat.le_refl _)⟩
  | dialed hd _ _ => exact ⟨[], .same hn hd.effect.log (by simp) hd.connections hd.effect.ncid⟩
  | connectLost _ _ _ hg =>
    refine ⟨_, .loop _ _ hn hg.effect.log hg.ncid (fun c o h => ?_) (by simp [Obs.cid]) (fun _ => rfl)
      hg.logged hg.connections fun c o _ hp hkeep _ _ => ?_⟩
    · obtain ⟨ok, rfl⟩ := h
      rfl
    · simp at hp hkeep
      exact absurd hp hkeep
  | pushRx => exact same (Same.pushRx _ _ _)
  | pushTx => exact same (Same.pushTx _ _ _)

/-- An act is an effect, or the kernel got an answer. -/
theorem Act.effect (act : Act C st st') : (∃ obs, Effect st st' obs) ∨
    (∃ i r, C (.env (.rx i r)) st ∧ st' = st.pushRx i r) ∨ ∃ i a, C (.env (.tx i a)) st ∧ st' = st.pushTx i a := by
  cases act with
  | quiet hq => exact .inl ⟨_, hq.effect⟩
  | errors => exact .inl ⟨_, st.takeErrors_effect _⟩
  | frameRead _ _ _ hr => exact .inl ⟨_, hr.effect⟩
  | chunkRead _ _ _ hr => exact .inl ⟨_, hr.effect⟩
  | refused _ _ _ _ _ hd _ => exact .inl ⟨_, hd.effect⟩
  | opened _ _ _ _ _ _ _ _ _ ho => exact .inl ⟨_, ho.effect⟩
  | deferred _ _ _ hd => exact .inl ⟨_, hd.effect⟩
  | delivered _ _ _ _ _ _ _ hd => exact .inl ⟨_, hd.effect⟩
  | idle _ _ _ _ _ _ _ hl _ => exact .inl ⟨_, hl.effect⟩
  | full _ _ _ hw => exact .inl ⟨_, hw.effect⟩
  | sent _ _ _ _ _ _ hs hl _ => exact .inl ⟨_, hs.effect.trans hl.effect⟩
  | transportGone _ hg => exact .inl ⟨_, hg.effect⟩
  | serviceGone _ hg => exact .inl ⟨_, hg.effect⟩
  | shut => exact .inl ⟨_, shutdown_effect _ _⟩
  | dialed hd _ _ => exact .inl ⟨_, hd.effect⟩
  | connectLost _ _ _ hg => exact .inl ⟨_, hg.effect⟩
  | pushRx hc => exact .inr (.inl ⟨_, _, hc, rfl⟩)
  | pushTx hc => exact .inr (.inr ⟨_, _, hc, rfl⟩)

theorem Act.grows (act : Act C st st') : Grows st st' := by
  rcases act.effect with ⟨obs, he⟩ | ⟨i, r, -, rfl⟩ | ⟨i, a, -, rfl⟩
  · exact he.grows
  · exact (Same.pushRx st i r).grows
  · exact (Same.pushTx st i a).grows

/-- A stream is shut or erased by the handlers that do so, and by no other act. -/
theorem Act.closings (act : Act C st st') (hlog : st'.log = st.log ++ obs) :
    (∀ o ∈ obs, o.closes = false) ∨
      (∃ v st0 c, C (.out v) st0 ∧ st0.live v ∧ st0.pollout_handler v = (st, false) ∧
        (st.connections.find? fun c => c.south == v) = some c ∧ c.state = .HALF_CLOSED ∧
        st' = st.shutdown v) ∨
      (∃ t obs', TransportCause C t st ∧ TransportGone t st st' obs') ∨
      (∃ v obs', ServiceCause C v st ∧ ServiceGone v st st' obs') ∨
      ∃ v t j st0 obs', C (.env (.refused j)) st0 ∧ ConnectLost v t st st' obs' := by
  have entries : ∀ {obs'}, st'.log = st.log ++ obs' → (∀ o ∈ obs', o.closes = false) →
      ∀ o ∈ obs, o.closes = false := fun hl h => by
    rwa [List.append_cancel_left (hlog.symm.trans hl)]
  have same : Same st st' → ∀ o ∈ obs, o.closes = false := fun h =>
    @entries [] (by rw [h.log, List.append_nil]) (by simp)
  have silent : Effect st st' [] → ∀ o ∈ obs, o.closes = false := fun h => entries h.log (by simp)
  cases act with
  | quiet hq => exact .inl (same hq.same)
  | errors => exact .inl (same (.takeErrors st _))
  | frameRead _ _ _ hr => exact .inl (silent hr.effect)
  | chunkRead _ _ _ hr => exact .inl (silent hr.effect)
  | refused _ _ _ _ _ hd hr =>
    refine .inl (entries hd.effect.log ?_)
    unfold refusal at hr
    split at hr
    · obtain ⟨ok, rfl⟩ := hr
      simp [Obs.closes]
    · subst hr
      simp [Obs.closes]
  | opened _ _ _ _ _ _ _ _ _ ho => exact .inl (entries ho.effect.log (by simp [openObs, Obs.closes]))
  | deferred _ _ _ hd => exact .inl (silent hd.effect)
  | delivered _ _ _ _ _ _ _ hd =>
    refine .inl (entries hd.effect.log fun o ho => ?_)
    rcases List.mem_append.mp ho with ho | ho
    · obtain ⟨p, ok, rfl⟩ := hd.fed.cid o ho
      rfl
    · rw [List.mem_singleton.mp ho]
      rfl
  | idle _ _ _ _ _ _ _ hl _ => exact .inl (silent hl.effect)
  | full _ _ _ hw => exact .inl (silent hw.effect)
  | sent _ _ _ _ _ _ hs hl _ =>
    refine .inl (entries (hs.effect.nil_trans hl.effect).log ?_)
    simp [Obs.closes]
  | transportGone hc hg => exact .inr (.inr (.inl ⟨_, _, hc, hg⟩))
  | serviceGone hc hg => exact .inr (.inr (.inr (.inl ⟨_, _, hc, hg⟩)))
  | shut hc hl hp hf hs => exact .inr (.inl ⟨_, _, _, hc, hl, hp, hf, hs, rfl⟩)
  | dialed hd _ _ => exact .inl (silent hd.effect)
  | connectLost hc _ _ hg => exact .inr (.inr (.inr (.inr ⟨_, _, _, _, _, hc, hg⟩)))
  | pushRx => exact .inl (same (.pushRx st _ _))
  | pushTx => exact .inl (same (.pushTx st _ _))

/-! ## Laws of runs -/

/-- What holds in every run. -/
structure Sound (st : Connector) : Prop extends Base st, Numbered st where
  norths : ∀ c ∈ st.connections, c.north < st.next
  alone : ∀ c ∈ st.connections, ∀ d ∈ st.connections, c.south = d.south → c.cid = d.cid
  sides : ∀ c ∈ st.connections, (st.ep c.north).iface = .north ∧ (st.ep c.south).iface = .south 0

theorem sound_init (mode : Mode) : Sound { mode := mode } :=
  ⟨(ready_init mode).toBase, numbered_init mode, nofun, nofun, nofun⟩

theorem Taking.live (h : Taking C t st) : st.live t := by
  obtain ⟨_, _, _, -, hl, hr⟩ := h
  rw [hr.live]
  exact hl

theorem Act.sound (act : Act C st st') (h : Sound st) (ht : Turned (rules C) st st' obs) : Sound st' := by
  refine ⟨base_preserved C act h.toBase, ht.numbered h.toNumbered, fun c hc => ?_, fun c hc d hd he => ?_,
    fun c hc => ?_⟩
  · rcases (ht.turn c hc).origin with ⟨d, hd, s, rfl, -⟩ | ⟨-, -, f, -, hr, -⟩
    · exact Nat.lt_of_lt_of_le (h.norths d hd) act.grows.next
    · exact Nat.lt_of_lt_of_le (h.used _ hr.live) act.grows.next
  · -- the service stream of a new connection is new
    have hnew : ∀ {c : Connection} {log : List Obs}, (rules C).opens st st' c log →
        c.south = st.next ∧ c.cid = st.ncid := by
      rintro c log ⟨f, -, -, -, -, -, -, -, heq, -⟩
      rw [heq]
      exact ⟨rfl, rfl⟩
    rcases (ht.turn c hc).origin with ⟨c0, hc0, _, rfl, -⟩ | ⟨-, -, hc'⟩ <;>
      rcases (ht.turn d hd).origin with ⟨d0, hd0, _, rfl, -⟩ | ⟨-, -, hd'⟩
    · exact h.alone c0 hc0 d0 hd0 he
    · exact absurd (he.trans (hnew hd').1) (Nat.ne_of_lt (h.souths c0 hc0))
    · exact absurd (he.symm.trans (hnew hc').1) (Nat.ne_of_lt (h.souths d0 hd0))
    · exact (hnew hc').2.trans (hnew hd').2.symm
  · rcases (ht.turn c hc).origin with ⟨d, hd, s, rfl, -⟩ | ⟨-, -, f, ⟨-, h1, h2⟩, hr, -⟩
    · rw [act.grows.iface _ (h.norths d hd), act.grows.iface _ (h.souths d hd)]
      exact h.sides d hd
    · rw [act.grows.iface _ (h.used _ hr.live)]
      exact ⟨h1, h2⟩

theorem Sound.eq_of_south (h : Sound st) {d : Connection} (hc : c ∈ st.connections) (hd : d ∈ st.connections)
    (he : c.south = d.south) : c = d :=
  List.inj_on_of_nodup_map h.cids hc hd (h.alone c hc d hd he)

theorem sound_preserved : Preserved C Sound := by
  intro st st' act hs
  obtain ⟨obs, ht⟩ := act.turned hs.toNumbered
  exact act.sound hs ht

/-- Each act keeps `I`, and may use what holds in every run. -/
def Lawful (C : Call → Connector → Prop) (I : Connector → Prop) : Prop :=
  ∀ ⦃st st' : Connector⦄ ⦃obs : List Obs⦄, Act C st st' → Sound st → Turned (rules C) st st' obs →
    I st → I st'

theorem Lawful.preserved (h : Lawful C I) : Preserved C fun st => Sound st ∧ I st := by
  rintro st st' act ⟨hs, hi⟩
  obtain ⟨obs, ht⟩ := act.turned hs.toNumbered
  exact ⟨act.sound hs ht, h act hs ht hi⟩

theorem Lawful.run (h : Lawful C I) (h0 : ∀ mode, I { mode := mode }) (hr : Run C st) : I st :=
  (h.preserved.run (fun mode => ⟨sound_init mode, h0 mode⟩) hr).1.2

theorem Run.sound (hr : Run C st) : Sound st ∧ Ready st :=
  sound_preserved.run sound_init hr

/-- The same when a call is made after a run. -/
theorem Lawful.called (h : Lawful C I) (hr : Run C st) {ev : Event} (hev : ∀ p ∈ calls ev st, C p.1 p.2) (hi : I st)
    {p : Call × Connector} (hp : p ∈ calls ev st) : (Sound p.2 ∧ I p.2) ∧ Ready p.2 :=
  h.preserved.called hr.sound.2 ⟨hr.sound.1, hi⟩ hev hp

/-- The calls of a run may be taken to meet the laws of the run. -/
theorem Lawful.strengthen (h : Lawful C I) (h0 : ∀ mode, I { mode := mode })
    (hr : Run C st) : Run (fun c s => C c s ∧ Sound s ∧ I s) st := by
  induction hr with
  | init mode => exact .init mode
  | step ev hrun hev ih => exact ih.step ev fun p hp => ⟨hev p hp, (h.called hrun hev (h.run h0 hrun) hp).1⟩

/-! ## Laws of calls

A read may break a law for a moment and mend it before it returns. Such a law is proved for
the acts of the other calls, and for a read as a whole. -/

/-- The call is not a read. -/
def Outside (C : Call → Connector → Prop) (c : Call) (st : Connector) : Prop := (∀ i fd, c ≠ .inn i fd) ∧ C c st

/-- What the acts of the other calls keep, and each read as a whole. -/
structure CallLaw (C : Call → Connector → Prop) (I : Connector → Prop) : Prop where
  acts : Lawful (Outside C) I
  read : ∀ {st : Connector} {i : StreamId} {fd : Option Int}, Sound st → Ready st → st.live i →
    C (.inn i fd) st → I st → I (callIn i fd st)

theorem CallLaw.handle {I : Connector → Prop} (h : CallLaw C I) {ev : Event} (hs : Sound st) (hready : Ready st)
    (hev : ∀ p ∈ calls ev st, C p.1 p.2) (hi : I st) : I (handle ev st) := by
  have hacts := h.acts.preserved
  cases ev with
  | env e => exact (hacts.call hready (c := .env e) ⟨nofun, hev _ List.mem_cons_self⟩ ⟨hs, hi⟩).2
  | poll i m fd =>
    have hi0 := hacts (.quiet (st.enter_quiet i m)) ⟨hs, hi⟩
    have hready0 := enter_ready (i := i) (m := m) hready
    have hi1 : (Sound (afterOut i (st.enter i m)) ∧ I (afterOut i (st.enter i m))) ∧
        Ready (afterOut i (st.enter i m)) := by
      unfold afterOut
      split
      · rename_i hout
        have hc : Outside C (.out i) (st.enter i m) :=
          ⟨nofun, hev (.out i, st.enter i m) (by simp [calls, hout])⟩
        exact ⟨hacts.call hready0 hc hi0, call_ready hready0⟩
      · exact ⟨hi0, hready0⟩
    have hin : (afterOut i (st.enter i m)).revents.isIn → C (.inn i fd) (afterOut i (st.enter i m)) := fun hin =>
      hev (.inn i fd, afterOut i (st.enter i m)) (by simp [calls, hin])
    unfold segment.handle
    dsimp only
    generalize afterOut i (st.enter i m) = st1 at hi1 hin ⊢
    split
    · unfold call
      dsimp only
      split
      · exact h.read hi1.1.1 hi1.2 ‹_› (hin ‹_›) hi1.1.2
      · exact hi1.1.2
    · exact hi1.1.2

theorem CallLaw.run (h : CallLaw C I) (h0 : ∀ mode, I { mode := mode }) (hr : Run C st) : I st := by
  induction hr with
  | init mode => exact h0 mode
  | step ev hrun hev ih => exact h.handle hrun.sound.1 hrun.sound.2 hev ih

end cloudbus.segment
