-- The acts of the controller, seen from one connection.
import Cloudbus.ControllerRuns
import Cloudbus.History

namespace cloudbus.controller

open cloudbus.io cloudbus.messages Connector

/-- The call in which a chunk of the client is routed, up to the state `st`. -/
def Routing (C : Call → Connector → Prop) (n : StreamId) (st : Connector) : Prop :=
  ∃ o st0 st1 bs, C (.inn n o) st0 ∧ st0.live n ∧ (st0.ep n).iface = .north ∧
    ChunkRead n st0 st1 bs ∧ Quiet st1 st

variable {I : Connector → Prop} {s n : StreamId} {obs : List Obs} {c : Connection} {f : Frame} {st : Connector}
  {k : Nat}

variable {C D : Call → Connector → Prop} {eid : Uuid} {cs : List Connection} {st0 : Connector} {bs : List UInt8}
  {fed aborts : List Obs} {o : Obs} {ev : Event} {p : Call × Connector}

theorem Routing.live (h : Routing C n st) : st.live n := by
  obtain ⟨_, _, _, _, -, hl, -, hr, hq⟩ := h
  rw [hq.live, hr.live]
  exact hl

theorem Routing.iface (h : Routing C n st) (hn : n < st.next) : (st.ep n).iface = .north := by
  obtain ⟨_, _, _, _, -, -, hif, hr, hq⟩ := h
  rw [hq.keeps.next] at hn
  rw [hq.effect.iface n hn]
  rw [hr.next] at hn
  rw [hr.effect.iface n hn, hif]

/-- The call in which a frame of the transport is routed, up to the state `st`. -/
def Taking (C : Call → Connector → Prop) (s : StreamId) (st : Connector) : Prop :=
  ∃ o st0 bs, C (.inn s o) st0 ∧ st0.live s ∧ TransportRead s st0 st bs

/-- The frame of the transport `s` finds the connection `c`. -/
def Found (s : StreamId) (f : Frame) (c : Connection) (st : Connector) : Prop :=
  frameOf (st.frame s) = some f ∧ ∃ k, findConn s f.eid st.connections = some k ∧
    st.connections[k]? = some c

theorem south_of_findConn (h : findConn s eid cs = some k)
    (hc : cs[k]? = some c) : c.south = s ∧ c.uuid.sameNode eid := by
  obtain ⟨hk, hp, -⟩ := List.findIdx?_eq_some_iff_getElem.mp h
  rw [List.getElem?_eq_getElem hk, Option.some.injEq] at hc
  rw [hc] at hp
  simpa [and_comm] using hp

/-- The frame that is complete once the transport `s` is read. -/
def arriving (s : StreamId) (st : Connector) : Option Frame := frameOf ((readTransport s st).frame s)

/-- The connection that a frame of the transport `s` belongs to. -/
def target (s : StreamId) (f : Frame) (st : Connector) : Option Connection :=
  (findConn s f.eid st.connections).bind fun k => st.connections[k]?

theorem arriving_of_read (hr : TransportRead s st0 st bs)
    (hf : frameOf (st.frame s) = some f) : arriving s st0 = some f := by
  rw [hr.eq, (dropInput_quiet _ s).frame] at hf
  exact hf

theorem target_of_read (hr : TransportRead s st0 st bs) (hk : findConn s f.eid st.connections = some k)
    (hget : st.connections[k]? = some c) : target s f st0 = some c := by
  rw [hr.connections] at hk hget
  rw [target, hk, Option.bind_some, hget]

/-- What the controller does with its connections. -/
def rules (C : Call → Connector → Prop) : Rules where
  own := Connection.north
  via := Connection.south
  sends st c t p := Routing C c.north st ∧ active c.north st c ∧ t = routeType st c.north ∧
    p = (st.chunk c.north).chunk
  takes st c f := Taking C c.south st ∧ Found c.south f c st ∧ c.state ≠ .CLOSED ∧ st.live c.north ∧
    (c.state = .HALF_CLOSED → (st.sock c.north).eof ∨ f.type.has ABORT)
  opens st st' c h := Routing C c.north st ∧ (st.sock c.north).eof = false ∧
    0 < (st.chunk c.north).tellp ∧ connected c.north st = false ∧ c.south < st'.next ∧
    st'.live c.south ∧ c.base = consumed st c.north ∧
    c.state = .HALF_OPEN ∧ (h = [.opened c.north c.cid] ∨ ∃ ok, h =
      [.sent (some c.cid) c.south c.uuid ⟨DATA, INIT⟩ (st.chunk c.north).chunk ok, .opened c.north c.cid])

variable {C : Call → Connector → Prop} {st st' : Connector}

theorem turned_of_sentAll (hn : Numbered st) (hr : Routing C n st)
    (hs : SentAll n (routeType st n) st st' obs) : Turned (rules C) st st' obs := by
  have h := Turned.loop (R := rules C) (fun _ => true) [] hn
    (by rw [List.append_nil]; exact hs.effect.log) hs.keeps.ncid
    (fun c o ho => by obtain ⟨ok, rfl⟩ := ho; rfl) (by simp) (fun c => cid_state_update c (routeType st n)) hs.sent
    (by rw [hs.connections, List.filter_true]) fun c o hc hp _ ho hab => by
      obtain ⟨ok, rfl⟩ := ho
      obtain rfl := (active_iff.mp hp).1
      exact .sent hc ⟨hr, hp, rfl, rfl⟩ hab
  rwa [List.append_nil] at h

theorem turned_of_opened (hn : Numbered st) (hr : Routing C n st) (he : (st.sock n).eof = false)
    (hpos : 0 < (st.chunk n).tellp) (hcon : connected n st = false)
    (ho : Opened n eid st st' cs obs)
    (hs : obs = [] ∧ st'.chunk n = st.chunk n ∧ Full n st cs ∨
      SentInit n ⟨DATA, INIT⟩ st st' cs obs) :
    Turned (rules C) st st' (obs ++ cs.map fun c => .opened c.north c.cid) := by
  obtain ⟨st1, hd, hk, hef⟩ := ho.dials
  have hcid : ∀ c ∈ cs, st.ncid ≤ c.cid ∧ c.cid < st'.ncid := by
    intro c hc
    have := List.mem_map_of_mem (f := Connection.cid) hc
    rw [hd.cids, List.mem_range'_1] at this
    rw [hk.ncid, hd.ncid]
    exact this
  have hnodup : (cs.map (·.cid)).Nodup := by
    rw [hd.cids]
    exact List.nodup_range'
  have hnew : ∀ o ∈ obs ++ cs.map (fun c => Obs.opened c.north c.cid), ∀ cid, o.cid = some cid →
      ∃ c ∈ cs, c.cid = cid := by
    intro o hmem cid hc
    rcases List.mem_append.mp hmem with hmem | hmem
    · rcases hs with ⟨rfl, -⟩ | hs
      · cases hmem
      · obtain ⟨c, hc', ok, rfl⟩ := exists_of_forall₂ hs.sent hmem
        exact ⟨c, hc', Option.some.inj hc⟩
    · obtain ⟨c, hc', rfl⟩ := List.mem_map.mp hmem
      exact ⟨c, hc', Option.some.inj hc⟩
  have hold : st.ncid ≤ st'.ncid := by
    rw [hk.ncid, hd.ncid]
    exact Nat.le_add_right _ _
  refine ⟨?_, hold, fun o hmem cid hc => ?_, ?_, fun c hc => ?_, fun c hc => ?_⟩
  · rw [hef.log, hd.dialed.effect.log, List.append_nil]
  · obtain ⟨c, hc', rfl⟩ := hnew o hmem cid hc
    exact (hcid c hc').2
  · rw [ho.connections, List.map_append, List.nodup_append]
    refine ⟨hn.cids, hnodup, fun a ha b hb => ?_⟩
    obtain ⟨c, hc, rfl⟩ := List.mem_map.mp ha
    obtain ⟨d, hd', rfl⟩ := List.mem_map.mp hb
    exact Nat.ne_of_lt (Nat.lt_of_lt_of_le (hn.bound c hc) (hcid d hd').1)
  · rw [ho.connections, List.mem_append] at hc
    rcases hc with hc | hc
    · exact Nat.lt_of_lt_of_le (hn.bound c hc) hold
    · exact (hcid c hc).2
  · rw [ho.connections, List.mem_append] at hc
    rcases hc with hc | hc
    · refine .kept hc (about_eq_nil fun o hmem hc' => ?_)
      obtain ⟨d, hd', heq⟩ := hnew o hmem _ hc'
      have := hn.bound c hc
      have := (hcid d hd').1
      omega
    · have h1 : about c.cid (cs.map fun c => Obs.opened c.north c.cid) = [.opened c.north c.cid] := by
        obtain ⟨o, rfl, h⟩ := about_of_all (R := fun c o => o = Obs.opened c.north c.cid)
          (fun c o h => by rw [h]; rfl)
          (List.forall₂_map_right_iff.mpr (List.forall₂_same.mpr fun _ _ => rfl)) hnodup hc
        exact h
      have hnorth := hd.north c hc
      subst hnorth
      refine .opened (hcid c hc).1 (List.mem_append_right _ (List.mem_map.mpr ⟨c, hc, rfl⟩)) ⟨hr, he, hpos, hcon, ?_, ?_, hd.base c hc, ?_, ?_⟩
      · rw [hk.next]
        exact hd.souths c hc
      · rw [hk.live]
        exact hd.live c hc
      · rw [hd.state c hc, he, if_neg (by simp)]
      · rw [about_append, h1]
        rcases hs with ⟨rfl, -⟩ | hs
        · exact .inl rfl
        · obtain ⟨o, ⟨ok, rfl⟩, h⟩ := about_of_all
            (fun c o h => by obtain ⟨ok, rfl⟩ := h; rfl) hs.sent hnodup hc
          exact .inr ⟨ok, by rw [h]; rfl⟩

theorem turned_of_delivered (hn : Numbered st) (hr : Taking C s st) (hf : frameOf (st.frame s) = some f)
    (hk : findConn s f.eid st.connections = some k) (hget : st.connections[k]? = some c) (hst : c.state ≠ .CLOSED)
    (hl : st.live c.north) (hh : c.state = .HALF_CLOSED → (st.sock c.north).eof ∨ f.type.has ABORT)
    (hd : Delivered s f k c st st' fed aborts) :
    Turned (rules C) st st' (fed ++ .got (some c.cid) s f.eid f.type f.payload :: aborts) := by
  obtain rfl := (south_of_findConn hk hget).1
  have hmem := List.mem_of_getElem? hget
  have hcid : ∀ o ∈ fed ++ [Obs.got (some c.cid) c.south f.eid f.type f.payload], o.cid = some c.cid := by
    intro o ho
    rcases List.mem_append.mp ho with ho | ho
    · obtain ⟨p, ok, rfl⟩ := hd.fed.cid o ho
      rfl
    · rw [List.mem_singleton.mp ho]
      rfl
  have hown : about c.cid (fed ++ [Obs.got (some c.cid) c.south f.eid f.type f.payload]) =
      fed ++ [Obs.got (some c.cid) c.south f.eid f.type f.payload] :=
    List.filter_eq_self.mpr fun o ho => by rw [hcid o ho, beq_self_eq_true]
  have hturn : ∀ {obs : List Obs}, about c.cid obs =
      fed ++ [.got (some c.cid) c.south f.eid f.type f.payload] →
      Turn (rules C) st st' obs (state_update c f.type) := fun h =>
    .got hmem ⟨hr, ⟨hf, k, hk, hget⟩, hst, hl, hh⟩ hd.fed h
  have hconns := hd.connections
  have haborts := hd.aborts
  have hlog := hd.effect.log
  rw [List.append_cons] at hlog ⊢
  split at hconns
  · rename_i hlatch
    rw [if_pos hlatch] at haborts
    have hset := Loop.set_key (·.cid) hn.cids hget (state_update c f.type)
    have hcids : ((st.connections.set k (state_update c f.type)).map (·.cid)).Nodup := by
      rw [Loop.map_set_self (·.cid) hget (cid_state_update c f.type)]
      exact hn.cids
    have habort := fun d hd' => about_of_loop (c := d)
      (fun c o h => by obtain ⟨eid, ok, rfl, -⟩ := h; rfl) haborts hcids hd'
    -- the connection itself is not aborted: its transport is the one that answered
    have hself : latched c.south f.eid st (state_update c f.type) = false := by
      simp [latched, state_update]
    have hsource : ∀ o ∈ aborts, ∀ cid, o.cid = some cid → ∃ d ∈ st.connections, d.cid = cid := by
      intro o ho cid he
      obtain ⟨d, hd', eid, ok, rfl, -⟩ := exists_of_forall₂ haborts ho
      rw [← Option.some.inj he]
      have := List.mem_map_of_mem (f := Connection.cid) (List.mem_of_mem_filter hd')
      rwa [Loop.map_set_self (·.cid) hget (cid_state_update c f.type), List.mem_map] at this
    refine .map _ (fun _ => true) hn hlog hd.keeps.ncid (fun o ho cid he => ?_) (fun d => ?_)
      (by rw [hconns, hset, List.map_map, List.filter_true]) fun d hd' _ => ?_
    · rcases List.mem_append.mp ho with ho | ho
      · exact ⟨c, hmem, Option.some.inj ((hcid o ho).symm.trans he)⟩
      · exact hsource o ho cid he
    · dsimp only [Function.comp_apply]
      by_cases hdc : d.cid = c.cid
      · rw [if_pos (beq_iff_eq.mpr hdc), hself, if_neg (by simp), cid_state_update, hdc]
      · rw [if_neg (c := (d.cid == c.cid) = true) (by simpa using hdc)]
        split <;> rfl
    · dsimp only [Function.comp_apply]
      by_cases hdc : d.cid = c.cid
      · rw [if_pos (beq_iff_eq.mpr hdc), hself, if_neg (by simp)]
        have h := habort (state_update c f.type) (by rw [hset]; exact List.mem_map.mpr ⟨d, hd', by simp [hdc]⟩)
        rw [hself, if_neg (by simp), cid_state_update] at h
        exact hturn (by rw [about_append, hown, h, List.append_nil])
      · have hother : about d.cid (fed ++ [Obs.got (some c.cid) c.south f.eid f.type f.payload]) = [] :=
          about_eq_nil fun o ho he => hdc (Option.some.inj ((hcid o ho).symm.trans he)).symm
        rw [if_neg (c := (d.cid == c.cid) = true) (by simpa using hdc)]
        have h := habort d (by rw [hset]; exact List.mem_map.mpr ⟨d, hd', by simp [hdc]⟩)
        split
        · rename_i hlat
          rw [if_pos hlat] at h
          obtain ⟨o, ⟨eid, ok, rfl, rfl⟩, h⟩ := h
          refine .aborted hd' ?_ (by rw [about_append, hother, h, List.nil_append]; rfl)
          simp only [latched, Bool.and_eq_true, decide_eq_true_eq] at hlat
          intro hclosed
          rw [hclosed] at hlat
          exact absurd hlat.1.1.2 (by decide)
        · rename_i hlat
          rw [if_neg hlat] at h
          exact .kept hd' (by rw [about_append, hother, h, List.append_nil])
  · rename_i hlatch
    rw [if_neg hlatch] at haborts
    subst haborts
    rw [List.append_nil] at hlog ⊢
    exact .set hn hget hlog hd.keeps.ncid
      (fun o ho cid he => by rw [hcid o ho] at he; exact (Option.some.inj he).symm)
      (cid_state_update c f.type) hconns (hturn hown)

theorem Act.turned (hn : Numbered st) (act : Act C st st') : ∃ obs, Turned (rules C) st st' obs := by
  have same : Same st st' → ∃ obs, Turned (rules C) st st' obs := fun h =>
    ⟨[], .same hn (by simp [h.log]) (by simp) h.connections (Nat.le_of_eq h.ncid.symm)⟩
  cases act with
  | quiet hq => exact same hq.same
  | errors => exact same (Same.takeErrors _ _)
  | clientRead _ _ _ hr =>
    exact ⟨[], .same hn hr.effect.log (by simp) hr.connections hr.effect.ncid⟩
  | transportRead _ _ _ hr =>
    exact ⟨[], .same hn hr.effect.log (by simp) hr.connections hr.effect.ncid⟩
  | sentAll hc hl hif hr hq hs => exact ⟨_, turned_of_sentAll hn ⟨_, _, _, _, hc, hl, hif, hr, hq⟩ hs⟩
  | opened hc hl hif hr he hpos hcon hq ho hs =>
    exact ⟨_, turned_of_opened hn ⟨_, _, _, _, hc, hl, hif, hr, hq⟩ he hpos hcon ho hs⟩
  | @refused s _ _ _ _ _ f obs _ _ _ _ _ hd hr =>
    refine ⟨_, .same hn hd.effect.log ?_ hd.connections hd.effect.ncid⟩
    unfold refusal at hr
    split at hr
    · obtain ⟨ok, rfl⟩ := hr
      simp [Obs.cid]
    · subst hr
      simp [Obs.cid]
  | @orphan _ _ _ _ _ _ f _ _ hc hl hr hf hk hget _ _ hd =>
    obtain rfl := (south_of_findConn hk hget).1
    refine ⟨_, .set hn hget hd.effect.log hd.keeps.ncid
      (fun o ho cid he => ?_) rfl ?_ (.dropped (f := f) (List.mem_of_getElem? hget) ?_)⟩
    · rw [List.mem_singleton] at ho
      subst ho
      exact (Option.some.inj he).symm
    · obtain ⟨hlt, rfl⟩ := List.getElem?_eq_some_iff.mp hget
      rw [hd.connections, List.set_getElem_self]
    · simp [about_cons, Obs.cid]
      rfl
  | deferred _ _ _ hd => exact ⟨[], .same hn hd.effect.log (by simp) hd.connections hd.effect.ncid⟩
  | delivered hc hl hr hf hk hget hst hn' hh hd =>
    exact ⟨_, turned_of_delivered hn ⟨_, _, _, hc, hl, hr⟩ hf hk hget hst hn' hh hd⟩
  | clientGone _ hg =>
    refine ⟨_, .loop _ _ hn hg.effect.log hg.ncid (fun c o h => ?_) (by simp [Obs.cid]) (fun _ => rfl)
      hg.logged hg.connections fun c o _ hp hkeep _ _ => ?_⟩
    · obtain ⟨eid, ok, rfl, -⟩ := h
      rfl
    · simp only [aborting, Bool.and_eq_true, beq_iff_eq] at hp
      simp [hp.1.1] at hkeep
  | transportGone _ hg =>
    refine ⟨_, .loop _ _ hn hg.effect.log hg.ncid (fun c o h => by rw [h]; rfl) (by simp [Obs.cid])
      (fun c => cid_state_update c abortType) hg.logged hg.connections fun c o hc _ _ ho hab => ?_⟩
    subst ho
    exact .failed hc hab
  | shut => exact ⟨_, .same hn (shutdown_effect _ _).log (by simp [Obs.cid]) rfl (Nat.le_refl _)⟩
  | dialed hd hk _ => exact ⟨[], .same hn hd.effect.log (by simp) hd.connections hd.effect.ncid⟩
  | connectLost _ _ _ _ _ hl =>
    obtain ⟨obs, he, hobs⟩ := hl.effect
    have hnone : ∀ o ∈ obs, o.cid = none := by
      rcases hobs with rfl | rfl <;> simp [Obs.cid]
    refine ⟨obs, .map id _ hn he.log hl.ncid (fun o ho cid hc => ?_) (fun _ => rfl)
      (by rw [hl.connections, List.map_id]) fun c hc _ => .kept hc (about_eq_nil fun o ho hc => ?_)⟩
    · rw [hnone o ho] at hc
      cases hc
    · rw [hnone o ho] at hc
      cases hc
  | pushRx => exact same (Same.pushRx _ _ _)
  | pushTx => exact same (Same.pushTx _ _ _)

/-- An act is an effect, or the kernel got an answer. -/
theorem Act.effect (act : Act C st st') : (∃ obs, Effect st st' obs) ∨
    (∃ i r, C (.env (.rx i r)) st ∧ st' = st.pushRx i r) ∨ ∃ i a, C (.env (.tx i a)) st ∧ st' = st.pushTx i a := by
  cases act with
  | quiet hq => exact .inl ⟨_, hq.effect⟩
  | errors => exact .inl ⟨_, st.takeErrors_effect _⟩
  | clientRead _ _ _ hr => exact .inl ⟨_, hr.effect⟩
  | transportRead _ _ _ hr => exact .inl ⟨_, hr.effect⟩
  | sentAll _ _ _ _ _ hs => exact .inl ⟨_, hs.effect⟩
  | opened _ _ _ _ _ _ _ _ ho _ =>
    obtain ⟨st1, hd, -, hef⟩ := ho.dials
    exact .inl ⟨_, hd.dialed.effect.trans_nil hef⟩
  | refused _ _ _ _ _ hd _ => exact .inl ⟨_, hd.effect⟩
  | orphan _ _ _ _ _ _ _ _ hd => exact .inl ⟨_, hd.effect⟩
  | deferred _ _ _ hd => exact .inl ⟨_, hd.effect⟩
  | delivered _ _ _ _ _ _ _ _ _ hd => exact .inl ⟨_, hd.effect⟩
  | clientGone _ hg => exact .inl ⟨_, hg.effect⟩
  | transportGone _ hg => exact .inl ⟨_, hg.effect⟩
  | shut => exact .inl ⟨_, shutdown_effect _ _⟩
  | dialed hd _ _ => exact .inl ⟨_, hd.effect⟩
  | connectLost _ _ _ _ _ hl =>
    obtain ⟨obs, he, -⟩ := hl.effect
    exact .inl ⟨obs, he⟩
  | pushRx hc => exact .inr (.inl ⟨_, _, hc, rfl⟩)
  | pushTx hc => exact .inr (.inr ⟨_, _, hc, rfl⟩)

theorem Act.grows (act : Act C st st') : Grows st st' := by
  rcases act.effect with ⟨obs, he⟩ | ⟨i, r, -, rfl⟩ | ⟨i, a, -, rfl⟩
  · exact he.grows
  · exact (Same.pushRx st i r).grows
  · exact (Same.pushTx st i a).grows

/-! ## The two acts that matter most -/

/-- A session was opened for the client `n`. -/
structure Connects (C : Call → Connector → Prop) (n : StreamId) (eid : Uuid) (st st' : Connector)
    (cs : List Connection) (obs : List Obs) : Prop where
  routing : Routing C n st
  eof : (st.sock n).eof = false
  pos : 0 < (st.chunk n).tellp
  alone : connected n st = false
  opened : Opened n eid st st' cs obs
  sent : obs = [] ∧ st'.chunk n = st.chunk n ∧ Full n st cs ∨ SentInit n ⟨DATA, INIT⟩ st st' cs obs

/-- A frame of the transport `s` went to the connection `c`. -/
structure Delivers (C : Call → Connector → Prop) (s : StreamId) (f : Frame) (k : Nat) (c : Connection)
    (st st' : Connector) (fed aborts : List Obs) : Prop where
  taking : Taking C s st
  frame : frameOf (st.frame s) = some f
  found : findConn s f.eid st.connections = some k
  get : st.connections[k]? = some c
  state : c.state ≠ .CLOSED
  live : st.live c.north
  half : c.state = .HALF_CLOSED → (st.sock c.north).eof ∨ f.type.has ABORT
  delivered : Delivered s f k c st st' fed aborts

theorem plain_of_abortSent (h : abortSent c o) : o.plain := by
  obtain ⟨eid, ok, rfl, -⟩ := h
  rfl

theorem plain_of_refusal (h : refusal s f st obs) : ∀ o ∈ obs, o.plain := by
  unfold refusal at h
  split at h
  · obtain ⟨ok, rfl⟩ := h
    intro o ho
    simp only [List.mem_cons, List.not_mem_nil, or_false] at ho
    rcases ho with rfl | rfl <;> rfl
  · subst h
    simp [Obs.plain]

theorem plain_of_sentAll (h : SentAll n (routeType st n) st st' obs) : ∀ o ∈ obs, o.plain := by
  intro o ho
  obtain ⟨c, -, ok, rfl⟩ := exists_of_forall₂ h.sent ho
  show (!(routeType st n).has INIT) = true
  unfold routeType
  split <;> rfl

theorem plain_of_delivered (h : Delivered s f k c st st' fed aborts)
    (ho : o ∈ .got (some c.cid) s f.eid f.type f.payload :: aborts) : o.plain := by
  rcases List.mem_cons.mp ho with rfl | ho
  · rfl
  · have ha := h.aborts
    split at ha
    · obtain ⟨d, -, hd⟩ := exists_of_forall₂ ha ho
      exact plain_of_abortSent hd
    · rw [ha] at ho
      cases ho

/-- Only `_north_connect` starts a session, and only a frame that is delivered feeds a
client. -/
theorem Act.kinds (act : Act C st st') :
    (∃ obs, st'.log = st.log ++ obs ∧ ∀ o ∈ obs, o.plain) ∨
      (∃ n eid cs obs, Connects C n eid st st' cs obs) ∨
      ∃ s f k c fed aborts, Delivers C s f k c st st' fed aborts := by
  have same : Same st st' → ∃ obs, st'.log = st.log ++ obs ∧ ∀ o ∈ obs, o.plain :=
    fun h => ⟨[], by rw [h.log, List.append_nil], by simp⟩
  have silent : Effect st st' [] → ∃ obs, st'.log = st.log ++ obs ∧ ∀ o ∈ obs, o.plain :=
    fun h => ⟨[], h.log, by simp⟩
  cases act with
  | quiet hq => exact .inl (same hq.same)
  | errors => exact .inl (same (.takeErrors st _))
  | clientRead _ _ _ hr => exact .inl (silent hr.effect)
  | transportRead _ _ _ hr => exact .inl (silent hr.effect)
  | sentAll _ _ _ _ _ hs => exact .inl ⟨_, hs.effect.log, plain_of_sentAll hs⟩
  | opened hc hl hif hr he hpos hcon hq ho hs =>
    exact .inr (.inl ⟨_, _, _, _, ⟨_, _, _, _, hc, hl, hif, hr, hq⟩, he, hpos, hcon, ho, hs⟩)
  | refused _ _ _ _ _ hd hr => exact .inl ⟨_, hd.effect.log, plain_of_refusal hr⟩
  | orphan _ _ _ _ _ _ _ _ hd => exact .inl ⟨_, hd.effect.log, by simp [Obs.plain]⟩
  | deferred _ _ _ hd => exact .inl (silent hd.effect)
  | delivered hc hl hr hf hk hget hst hn hh hd =>
    exact .inr (.inr ⟨_, _, _, _, _, _, ⟨_, _, _, hc, hl, hr⟩, hf, hk, hget, hst, hn, hh, hd⟩)
  | clientGone _ hg =>
    refine .inl ⟨_, hg.effect.log, fun o ho => ?_⟩
    rcases List.mem_append.mp ho with ho | ho
    · obtain ⟨c, -, hc⟩ := exists_of_forall₂ hg.logged ho
      exact plain_of_abortSent hc
    · rw [List.mem_singleton.mp ho]
      rfl
  | transportGone _ hg =>
    refine .inl ⟨_, hg.effect.log, fun o ho => ?_⟩
    rcases List.mem_append.mp ho with ho | ho
    · obtain ⟨c, -, rfl⟩ := exists_of_forall₂ hg.logged ho
      rfl
    · rw [List.mem_singleton.mp ho]
      rfl
  | shut => exact .inl ⟨_, (shutdown_effect _ _).log, by simp [Obs.plain]⟩
  | dialed hd _ _ => exact .inl (silent hd.effect)
  | connectLost _ _ _ _ _ hl =>
    obtain ⟨obs, he, hobs⟩ := hl.effect
    refine .inl ⟨obs, he.log, ?_⟩
    rcases hobs with rfl | rfl <;> simp [Obs.plain]
  | pushRx => exact .inl (same (.pushRx st _ _))
  | pushTx => exact .inl (same (.pushTx st _ _))

namespace Connects

variable {n : StreamId} {eid : Uuid} {cs : List Connection} {obs : List Obs}

theorem log (h : Connects C n eid st st' cs obs) :
    st'.log = st.log ++ (obs ++ cs.map fun c => .opened c.north c.cid) := by
  obtain ⟨st1, hd, -, hef⟩ := h.opened.dials
  rw [hef.log, hd.dialed.effect.log, List.append_nil]

/-- The entries are about new connections of the client. -/
theorem mem_log (h : Connects C n eid st st' cs obs) {o : Obs}
    (ho : o ∈ obs ++ cs.map fun c => .opened c.north c.cid) :
    ∃ c ∈ cs, c.north = n ∧ st.ncid ≤ c.cid ∧
      (o = .opened n c.cid ∨ chunkSent ⟨DATA, INIT⟩ (st.chunk n).chunk c o) := by
  obtain ⟨st1, hd, -, -⟩ := h.opened.dials
  have hcid : ∀ c ∈ cs, st.ncid ≤ c.cid := fun c hc => by
    have := List.mem_map_of_mem (f := Connection.cid) hc
    rw [hd.cids, List.mem_range'_1] at this
    exact this.1
  rcases List.mem_append.mp ho with ho | ho
  · rcases h.sent with ⟨rfl, -⟩ | hs
    · cases ho
    · obtain ⟨c, hc, ho⟩ := exists_of_forall₂ hs.sent ho
      exact ⟨c, hc, hd.north c hc, hcid c hc, .inr ho⟩
  · obtain ⟨c, hc, rfl⟩ := List.mem_map.mp ho
    exact ⟨c, hc, hd.north c hc, hcid c hc, .inl (by rw [hd.north c hc])⟩

end Connects

/-- A stream is shut or erased by the handlers that do so, and by no other act. -/
theorem Act.closings (act : Act C st st') (hlog : st'.log = st.log ++ obs) :
    (∀ o ∈ obs, o.closes = false) ∨
      (∃ n st0, C (.out n) st0 ∧ st0.live n ∧ (st0.ep n).iface = .north ∧
        st0.pollout_handler n = (st, false) ∧ session_state n st.connections = .HALF_CLOSED ∧
        st' = st.shutdown n) ∨
      (∃ n obs', ClientCause C n st ∧ ClientGone n st st' obs') ∨
      (∃ s obs', TransportCause C s st ∧ TransportGone s st st' obs') ∨
      ∃ s n j st0, C (.env (.refused j)) st0 ∧ ConnectLost s n st st' := by
  have entries : ∀ {obs'}, st'.log = st.log ++ obs' → (∀ o ∈ obs', o.closes = false) →
      ∀ o ∈ obs, o.closes = false := fun hl h => by
    rwa [List.append_cancel_left (hlog.symm.trans hl)]
  have same : Same st st' → ∀ o ∈ obs, o.closes = false := fun h =>
    @entries [] (by rw [h.log, List.append_nil]) (by simp)
  have silent : Effect st st' [] → ∀ o ∈ obs, o.closes = false := fun h => entries h.log (by simp)
  cases act with
  | quiet hq => exact .inl (same hq.same)
  | errors => exact .inl (same (.takeErrors st _))
  | clientRead _ _ _ hr => exact .inl (silent hr.effect)
  | transportRead _ _ _ hr => exact .inl (silent hr.effect)
  | sentAll _ _ _ _ _ hs =>
    refine .inl (entries hs.effect.log fun o ho => ?_)
    obtain ⟨c, -, ok, rfl⟩ := exists_of_forall₂ hs.sent ho
    rfl
  | opened hc hl hif hr he hpos hcon hq ho hs =>
    have h : Connects C _ _ st st' _ _ := ⟨⟨_, _, _, _, hc, hl, hif, hr, hq⟩, he, hpos, hcon, ho, hs⟩
    refine .inl (entries h.log fun o ho => ?_)
    obtain ⟨c, -, -, -, rfl | ⟨ok, rfl⟩⟩ := h.mem_log ho <;> rfl
  | refused _ _ _ _ _ hd hr =>
    refine .inl (entries hd.effect.log ?_)
    unfold refusal at hr
    split at hr
    · obtain ⟨ok, rfl⟩ := hr
      simp [Obs.closes]
    · subst hr
      simp [Obs.closes]
  | orphan _ _ _ _ _ _ _ _ hd => exact .inl (entries hd.effect.log (by simp [Obs.closes]))
  | deferred _ _ _ hd => exact .inl (silent hd.effect)
  | delivered _ _ _ _ _ _ _ _ _ hd =>
    refine .inl (entries hd.effect.log fun o ho => ?_)
    rcases List.mem_append.mp ho with ho | ho
    · obtain ⟨p, ok, rfl⟩ := hd.fed.cid o ho
      rfl
    · rcases List.mem_cons.mp ho with rfl | ho
      · rfl
      · have ha := hd.aborts
        split at ha
        · obtain ⟨d, -, eid, ok, rfl, -⟩ := exists_of_forall₂ ha ho
          rfl
        · rw [ha] at ho
          cases ho
  | clientGone hc hg => exact .inr (.inr (.inl ⟨_, _, hc, hg⟩))
  | transportGone hc hg => exact .inr (.inr (.inr (.inl ⟨_, _, hc, hg⟩)))
  | shut hc hl hif hp hs => exact .inr (.inl ⟨_, _, hc, hl, hif, hp, hs, rfl⟩)
  | dialed hd _ _ => exact .inl (silent hd.effect)
  | connectLost hc _ _ _ _ hl => exact .inr (.inr (.inr (.inr ⟨_, _, _, _, hc, hl⟩)))
  | pushRx => exact .inl (same (.pushRx st _ _))
  | pushTx => exact .inl (same (.pushTx st _ _))

/-! ## Laws of runs -/

/-- What holds in every run. -/
structure Sound (st : Connector) : Prop extends Base st, Numbered st where
  norths : ∀ c ∈ st.connections, c.north < st.next
  souths : ∀ c ∈ st.connections, c.south < st.next

theorem sound_init (mode : Mode) : Sound { mode := mode } :=
  ⟨base_init mode, numbered_init mode, nofun, nofun⟩

theorem Act.sound (act : Act C st st') (h : Sound st) (ht : Turned (rules C) st st' obs) : Sound st' := by
  have hnext := act.grows.next
  have hplace : ∀ c ∈ st'.connections, c.north < st'.next ∧ c.south < st'.next := by
    intro c hc
    rcases (ht.turn c hc).origin with ⟨d, hd, s, rfl, -⟩ | ⟨-, -, hr, -, -, -, hs, -⟩
    · exact ⟨Nat.lt_of_lt_of_le (h.norths d hd) hnext, Nat.lt_of_lt_of_le (h.souths d hd) hnext⟩
    · exact ⟨Nat.lt_of_lt_of_le (h.used _ hr.live) hnext, hs⟩
  exact ⟨base_preserved C act h.toBase, ht.numbered h.toNumbered, fun c hc => (hplace c hc).1,
    fun c hc => (hplace c hc).2⟩

/-- Each act keeps `I`, and may use what holds in every run. -/
def Lawful (C : Call → Connector → Prop) (I : Connector → Prop) : Prop :=
  ∀ ⦃st st' : Connector⦄ ⦃obs : List Obs⦄, Act C st st' → Sound st → Turned (rules C) st st' obs →
    I st → I st'

theorem Lawful.preserved (h : Lawful C I) : Preserved C fun st => Sound st ∧ I st := by
  rintro st st' act ⟨hs, hi⟩
  obtain ⟨obs, ht⟩ := act.turned hs.toNumbered
  exact ⟨act.sound hs ht, h act hs ht hi⟩

theorem Lawful.run (h : Lawful C I) (h0 : ∀ mode, I { mode := mode }) (hr : Run C st) : I st :=
  (h.preserved.run (fun mode => ⟨sound_init mode, h0 mode⟩) hr).1.2

theorem Run.sound (hr : Run C st) : Sound st := by
  have hl : Lawful C fun _ => True := fun _ _ _ _ _ _ _ => trivial
  exact (hl.preserved.run (fun mode => ⟨sound_init mode, trivial⟩) hr).1.1

/-- The same when a call is made after a run. -/
theorem Lawful.called (h : Lawful C I) (hr : Run C st) (hev : ∀ p ∈ calls ev st, C p.1 p.2) (hi : I st)
    (hp : p ∈ calls ev st) : Sound p.2 ∧ I p.2 :=
  (h.preserved.called (base_preserved C) hr.sound.toBase ⟨hr.sound, hi⟩ hev hp).1

/-- The same for one event after a run. -/
theorem Lawful.handle {I : Connector → Prop} (h : Lawful C I) (hr : Run C st) {ev : Event}
    (hev : ∀ p ∈ calls ev st, C p.1 p.2) (hi : I st) : I (handle ev st) :=
  (h.preserved.handle (base_preserved C) hr.sound.toBase ⟨hr.sound, hi⟩ hev).1.2

/-! ## Laws of calls

A read may break a law for a moment and mend it before it returns. Such a law is proved for
the acts of the other calls, and for a read as a whole. -/

/-- The call is not a read. -/
def Outside (C : Call → Connector → Prop) (c : Call) (st : Connector) : Prop := (∀ i o, c ≠ .inn i o) ∧ C c st

/-- What the acts of the other calls keep, and each read as a whole. -/
structure CallLaw (C : Call → Connector → Prop) (I : Connector → Prop) : Prop where
  acts : Lawful (Outside C) I
  read : ∀ {st : Connector} {i : StreamId} {o : Oracle}, Sound st → st.live i → C (.inn i o) st → I st →
    I (callIn i o st)

theorem CallLaw.handle {I : Connector → Prop} (h : CallLaw C I) {ev : Event} (hs : Sound st)
    (hev : ∀ p ∈ calls ev st, C p.1 p.2) (hi : I st) : I (handle ev st) := by
  have hacts := h.acts.preserved
  cases ev with
  | env e => exact (hacts.call hs.toBase (c := .env e) ⟨nofun, hev _ List.mem_cons_self⟩ ⟨hs, hi⟩).2
  | poll i m o =>
    have hi0 := hacts (.quiet (st.enter_quiet i m)) ⟨hs, hi⟩
    have hi1 : Sound (afterOut i (st.enter i m)) ∧ I (afterOut i (st.enter i m)) := by
      unfold afterOut
      split
      · rename_i hout
        have hc : Outside C (.out i) (st.enter i m) :=
          ⟨nofun, hev (.out i, st.enter i m) (by simp [calls, hout])⟩
        exact hacts.call hi0.1.toBase hc hi0
      · exact hi0
    have hin : (afterOut i (st.enter i m)).revents.isIn → C (.inn i o) (afterOut i (st.enter i m)) := fun hin =>
      hev (.inn i o, afterOut i (st.enter i m)) (by simp [calls, hin])
    unfold controller.handle
    dsimp only
    generalize afterOut i (st.enter i m) = st1 at hi1 hin ⊢
    split
    · unfold call
      dsimp only
      split
      · exact h.read hi1.1 ‹_› (hin ‹_›) hi1.2
      · exact hi1.2
    · exact hi1.2

theorem CallLaw.run (h : CallLaw C I) (h0 : ∀ mode, I { mode := mode }) (hr : Run C st) : I st := by
  induction hr with
  | init mode => exact h0 mode
  | step ev hrun hev ih => exact h.handle hrun.sound hev ih

/-- The law holds whenever a call is made. -/
theorem CallLaw.called (h : CallLaw C I) (hs : Sound st) (hev : ∀ p ∈ calls ev st, C p.1 p.2) (hi : I st)
    (hp : p ∈ calls ev st) : Sound p.2 ∧ I p.2 := by
  have hacts := h.acts.preserved
  cases ev with
  | env e =>
    rw [List.mem_singleton.mp hp]
    exact ⟨hs, hi⟩
  | poll i m o =>
    have hi0 := hacts (.quiet (st.enter_quiet i m)) ⟨hs, hi⟩
    rcases List.mem_append.mp hp with hp | hp
    · split at hp
      · rw [List.mem_singleton.mp hp]
        exact hi0
      · cases hp
    · split at hp
      · rw [List.mem_singleton.mp hp]
        unfold afterOut
        split
        · rename_i hout
          have hc : Outside C (.out i) (st.enter i m) :=
            ⟨nofun, hev (.out i, st.enter i m) (by simp [calls, hout])⟩
          exact hacts.call hi0.1.toBase hc hi0
        · exact hi0
      · cases hp

/-- The calls of a run may be taken to meet the laws of the run. -/
theorem CallLaw.strengthen (h : CallLaw D I) (h0 : ∀ mode, I { mode := mode })
    (hr : Run C st) (hD : ∀ c s, C c s → D c s) : Run (fun c s => C c s ∧ Sound s ∧ I s) st := by
  induction hr with
  | init mode => exact .init mode
  | step ev hrun hev ih =>
    exact ih.step ev fun p hp => ⟨hev p hp, h.called hrun.sound (fun p hp => hD _ _ (hev p hp))
      (h.run h0 (hrun.weaken hD)) hp⟩

theorem Lawful.strengthen (h : Lawful D I) (h0 : ∀ mode, I { mode := mode })
    (hr : Run C st) (hD : ∀ c s, C c s → D c s) : Run (fun c s => C c s ∧ Sound s ∧ I s) st := by
  induction hr with
  | init mode => exact .init mode
  | step ev hrun hev ih =>
    exact ih.step ev fun p hp => ⟨hev p hp, h.called (hrun.weaken hD) (fun p hp => hD _ _ (hev p hp))
      (h.run h0 (hrun.weaken hD)) hp⟩

end cloudbus.controller
