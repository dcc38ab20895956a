-- From the client to the service. Each service of a segment gets the bytes of one
-- session, and no byte of another one.
import Cloudbus.Ledger
import Cloudbus.Network

namespace cloudbus

open cloudbus.io cloudbus.messages Connector

/-- A read makes no stream good. -/
theorem ChunkRead.good {n : StreamId} {st st' : Connector} {bs : List UInt8} (h : ChunkRead n st st' bs)
    {i : StreamId} (hg : (st'.sock i).good) : (st.sock i).good := by
  by_cases hi : i = n
  · subst hi
    exact h.chunked.pulled.good hg
  · exact h.socks i hi ▸ hg

variable {t : StreamId} {e : Uuid} {log l r : List Obs} {a b : Nat} {ty ty' : Msgtype} {p p' : List UInt8}

theorem mem_gots (h : .got (some a) t e ty p ∈ log) : (⟨e, ty, p⟩ : Packet) ∈ gots t log :=
  List.mem_filterMap.mpr ⟨_, h, by simp [Obs.gotFrom]⟩

/-- A frame with INIT comes before all others of its session that are no ABORTs. -/
theorem InitFirst.not_before (h : InitFirst e (gots t (l ++ .got (some a) t e ty p :: r))) (hty : ty.has INIT)
    (hb : .got (some b) t e ty' p' ∈ l) : ty'.has INIT = false := by
  have hsplit : gots t (l ++ .got (some a) t e ty p :: r) = gots t l ++ ⟨e, ty, p⟩ :: gots t r := by
    rw [gots_append]
    simp [gots, Obs.gotFrom]
  have habort : ty' = abortType := (h _ _ _ hsplit rfl hty _ (mem_gots hb) rfl).1
  rw [habort]
  exact has_init_abort

/-- A session is started once. -/
theorem InitFirst.unique (h : InitFirst e (gots t log)) (ha : .got (some a) t e ty p ∈ log) (hty : ty.has INIT)
    (hb : .got (some b) t e ty' p' ∈ log) (hty' : ty'.has INIT) : a = b := by
  obtain ⟨l, r, rfl⟩ := List.append_of_mem ha
  rw [List.mem_append, List.mem_cons] at hb
  rcases hb with hb | hb | hb
  · rw [h.not_before hty hb] at hty'
    cases hty'
  · cases hb
    rfl
  · obtain ⟨l', r', rfl⟩ := List.append_of_mem hb
    rw [← List.cons_append, ← List.append_assoc] at h
    rw [h.not_before hty' (List.mem_append_right _ List.mem_cons_self)] at hty
    cases hty

namespace segment

variable {C : Call → Connector → Prop} {st st' : Connector} {obs fed : List Obs} {t t' v : StreamId} {e : Uuid}
  {f : Frame} {a k : Nat} {c : Connection}

/-! ## What an act does for the services -/

/-- The entry takes no frame and feeds no service, and what it sends goes to a transport. -/
def Unheard (st : Connector) : Obs → Prop
  | .sent _ dst _ _ _ _ => dst < st.next ∧ (st.ep dst).iface = .north
  | .opened _ _ => False
  | .got _ _ _ _ _ => False
  | .fed _ _ _ _ _ => False
  | _ => True

/-- What an act does with the frames of the transports. -/
inductive Hears (st st' : Connector) : List Obs → Prop
  | unheard {obs : List Obs} : (∀ o ∈ obs, Unheard st o) → Hears st st' obs
  | refused {t : StreamId} {f : Frame} {obs : List Obs} : t < st.next → (st.ep t).iface = .north →
      Untaken t f st → (∀ o ∈ obs, Unheard st o) →
      Hears st st' (.got none t f.eid f.type f.payload :: obs)
  | opened {t : StreamId} {f : Frame} : t < st.next → f.type.has INIT → Opened t f st st' →
      Hears st st' (openObs t f st)
  | delivered {t : StreamId} {f : Frame} {k : Nat} {c : Connection} {fed : List Obs} :
      findConn t f.eid st.connections = some k → st.connections[k]? = some c → c.state ≠ .CLOSED →
      Delivered t f k c st st' fed → Hears st st' (fed ++ [.got (some c.cid) t f.eid f.type f.payload])

/-- What an act logs. No stream gets good again, a service goes with its connections, and a stream
that is made was not written before. -/
structure Outline (st st' : Connector) (obs : List Obs) : Prop where
  log : st'.log = st.log ++ obs
  hears : Hears st st' obs
  good : ∀ i, i < st.next → (st'.sock i).good → (st.sock i).good
  stays : ∀ i, st.live i → (st.ep i).iface ≠ .north → st'.live i ∨ ∀ c ∈ st'.connections, c.south ≠ i
  born : ∀ i, st.next ≤ i → i < st'.next → ∃ fd rx tx, Passed (newborn fd rx tx) (outBytes i obs) (st'.sock i)

theorem Outline.same (hlog : st'.log = st.log ++ obs) (hears : Hears st st' obs) (hnext : st'.next = st.next)
    (hlive : ∀ i, st'.live i = st.live i) (hgood : ∀ i, (st'.sock i).good → (st.sock i).good) : Outline st st' obs :=
  ⟨hlog, hears, fun i _ => hgood i, fun i hi _ => .inl (hlive i ▸ hi),
    fun _ hi hi' => absurd (hnext ▸ hi') (Nat.not_lt.mpr hi)⟩

theorem good_of_stuck {s s' : Sockstream} (h : s.good = false → s'.good = false) (hg : s'.good) : s.good := by
  by_contra hbad
  rw [h (Bool.not_eq_true _ ▸ hbad)] at hg
  cases hg

theorem Outline.kept (hlog : st'.log = st.log ++ obs) (hears : Hears st st' obs) (hk : Keeps st st') :
    Outline st st' obs :=
  .same hlog hears hk.next hk.live fun i => good_of_stuck (hk.kept i).stuck

theorem Outline.gone {hit keep : Connection → Bool} {upd : Connection → Connection} {R : Connection → Obs → Prop}
    (hg : Gone v hit upd keep R st st' obs) (hobs : ∀ o ∈ obs, Unheard st o)
    (hv : (st.ep v).iface = .north ∨ ∀ c, keep c → c.south ≠ v) :
    Outline st st' (obs ++ [.erased v (st.connsOf v) (st'.sock v)]) := by
  refine ⟨hg.effect.log, .unheard fun o ho => ?_, fun i _ => good_of_stuck (hg.kept i).stuck, fun i hi hif => ?_,
    fun _ hi hi' => absurd (hg.next ▸ hi') (Nat.not_lt.mpr hi)⟩
  · rcases List.mem_append.mp ho with ho | ho
    · exact hobs o ho
    · rw [List.mem_singleton.mp ho]
      trivial
  · rw [hg.live]
    split
    · rename_i hiv
      subst hiv
      refine .inr fun c hc => hv.resolve_left hif c ?_
      rw [hg.connections] at hc
      exact (List.mem_filter.mp hc).2
    · exact .inl hi

theorem openObs_bytes : outBytes st.next (openObs t f st) = f.payload := by
  simp [openObs, outBytes, Obs.bytes]

theorem Opened.outline (ht : t < st.next) (hinit : f.type.has INIT) (ho : Opened t f st st') :
    Outline st st' (openObs t f st) := by
  refine ⟨ho.effect.log, .opened ht hinit ho, fun i hi => ?_, fun i hi _ => .inl ?_, fun i hi hi' => ?_⟩
  · exact good_of_stuck (ho.kept i (Nat.ne_of_lt hi)).stuck
  · rw [ho.live]
    split
    · rfl
    · exact hi
  · rw [ho.next] at hi'
    obtain rfl : i = st.next := Nat.le_antisymm (Nat.le_of_lt_succ hi') hi
    obtain ⟨fd, rx, tx, -, hran⟩ := ho.born
    exact ⟨fd, rx, tx, openObs_bytes ▸ .of_ran hran⟩

theorem good_of_takeErrors {i j : StreamId} (h : ((st.takeErrors j).sock i).good) : (st.sock i).good := by
  unfold takeErrors at h
  split at h
  · rw [sock_setSock] at h
    split at h
    · simp [Sockstream.good, Sockstream.set_badbit, Iostate.good] at h
    · exact h
  · exact h

theorem good_of_setSock {i j : StreamId} {s : Sockstream} (h : ((st.setSock j s).sock i).good)
    (hs : s.good = (st.sock j).good) : (st.sock i).good := by
  rw [sock_setSock] at h
  split at h
  · rename_i hij
    rw [hij, ← hs]
    exact h
  · exact h

/-- A frame is refused, and the rest is not heard. -/
theorem refusal_split (ht : t < st.next) (hif : (st.ep t).iface = .north) (h : refusal t f st obs) :
    ∃ rest, obs = .got none t f.eid f.type f.payload :: rest ∧ ∀ o ∈ rest, Unheard st o := by
  unfold refusal at h
  split at h
  · obtain ⟨ok, rfl⟩ := h
    refine ⟨_, rfl, fun o ho => ?_⟩
    rw [List.mem_singleton.mp ho]
    exact ⟨ht, hif⟩
  · exact ⟨[], h, nofun⟩

theorem NorthRouted.iface {failed : Bool} (h : NorthRouted t st st' failed) (ht : t < st.next) :
    (st'.ep t).iface = (st.ep t).iface := by
  cases h with
  | idle => rfl
  | refused _ _ _ _ _ hd => exact hd.effect.iface t ht
  | opened _ _ _ _ _ _ _ ho => exact ho.effect.iface t ht
  | deferred _ _ _ _ _ _ _ _ hd => exact hd.effect.iface t ht
  | delivered _ _ _ _ _ _ _ _ _ hd => exact hd.effect.iface t ht

theorem TransportCause.iface (h : TransportCause C t st) (hC : ∀ c st, C c st → IdsUsed st) :
    (st.ep t).iface = .north := by
  cases h with
  | failed st0 hc hl hif ho =>
    rw [(Same.pollout ho).iface t (hC _ _ hc t hl)]
    exact hif
  | routed fd st0 st1 bs hc hl hif hr hroute =>
    have hlt := hC _ _ hc t hl
    rw [hroute.iface (hr.next.symm ▸ hlt), hr.effect.iface t hlt]
    exact hif

theorem Act.outline (hC : ∀ c st, C c st → IdsUsed st) (hs : Sound st) (act : Act C st st') :
    ∃ obs, Outline st st' obs := by
  have north : ∀ {c}, c ∈ st.connections → c.north < st.next ∧ (st.ep c.north).iface = .north :=
    fun hc => ⟨hs.norths _ hc, (hs.sides _ hc).1⟩
  cases act with
  | quiet hq => exact ⟨[], .kept hq.effect.log (.unheard nofun) hq.keeps⟩
  | errors =>
    have hsame := Same.takeErrors st
    exact ⟨[], .same (takeErrors_effect _ _).log (.unheard nofun) (hsame _).next (hsame _).live
      fun i => good_of_takeErrors⟩
  | frameRead _ _ _ hr => exact ⟨[], .same hr.effect.log (.unheard nofun) hr.next hr.live fun i => hr.good⟩
  | chunkRead _ _ _ hr => exact ⟨[], .same hr.effect.log (.unheard nofun) hr.next hr.live fun i => hr.good⟩
  | refused _ hl hr _ hun hd href hif =>
    have ht0 := hr.next ▸ hs.used _ (hr.live _ ▸ hl)
    have ht := hr.next.symm ▸ ht0
    have hnorth := (hr.effect.iface _ ht0).trans hif
    obtain ⟨rest, rfl, hrest⟩ := refusal_split ht hnorth href
    exact ⟨_, .kept hd.effect.log (.refused ht hnorth hun hrest) hd.keeps⟩
  | opened _ hl _ hr _ _ _ hinit _ ho => exact ⟨_, ho.outline (hs.used _ (hr.live _ ▸ hl)) hinit⟩
  | deferred _ _ _ hd => exact ⟨[], .kept hd.effect.log (.unheard nofun) hd.keeps⟩
  | delivered _ _ _ _ hk hget hst hd =>
    exact ⟨_, .same hd.effect.log (.delivered hk hget hst hd) hd.next hd.live fun i => good_of_stuck (hd.stuck i)⟩
  | idle _ _ _ _ _ _ _ hl _ => exact ⟨[], .kept hl.effect.log (.unheard nofun) hl.keeps⟩
  | full _ _ _ hr => exact ⟨[], .kept hr.effect.log (.unheard nofun) hr.keeps⟩
  | sent _ _ _ hk hget _ hsent hl _ =>
    refine ⟨_, .kept (hsent.effect.trans hl.effect).log (.unheard fun o ho => ?_) (hsent.keeps.trans hl.keeps)⟩
    rw [List.append_nil, List.mem_singleton] at ho
    rw [ho]
    exact north (List.mem_of_getElem? hget)
  | transportGone hcause hg =>
    refine ⟨_, .gone hg (fun o ho => ?_) (.inl (hcause.iface hC))⟩
    obtain ⟨c, -, rfl⟩ := exists_of_forall₂ hg.logged ho
    trivial
  | serviceGone _ hg =>
    refine ⟨_, .gone hg (fun o ho => ?_) (.inr fun c => bne_iff_ne.mp)⟩
    obtain ⟨c, hc, ok, rfl⟩ := exists_of_forall₂ hg.logged ho
    exact north (List.mem_of_mem_filter hc)
  | shut =>
    refine ⟨_, .same (shutdown_effect _ _).log (.unheard fun o ho => ?_) rfl (fun _ => rfl) fun i hg => hg⟩
    rw [List.mem_singleton.mp ho]
    trivial
  | dialed hd _ _ _ hgood =>
    refine ⟨[], hd.effect.log, .unheard nofun, fun i hi hg => hgood i hi ▸ hg, fun i hi _ => .inl (hd.live i hi),
      fun i hi hi' => ?_⟩
    obtain ⟨fd, rx, tx, hborn⟩ := hd.born i hi hi'
    exact ⟨fd, rx, tx, .of_same (by rw [hborn]) (by rw [hborn]; exact id)⟩
  | connectLost _ _ hown hg =>
    refine ⟨_, .gone hg (fun o ho => ?_) (.inr fun c => bne_iff_ne.mp)⟩
    obtain ⟨c, hc, ok, rfl⟩ := exists_of_forall₂ hg.logged ho
    obtain ⟨hc, hv⟩ := List.mem_filter.mp hc
    exact hown c hc (beq_iff_eq.mp hv) ▸ north hc
  | pushRx =>
    exact ⟨[], .same (List.append_nil _).symm (.unheard nofun) rfl (Same.pushRx _ _ _).live
      fun i hg => good_of_setSock hg rfl⟩
  | pushTx =>
    exact ⟨[], .same (List.append_nil _).symm (.unheard nofun) rfl (Same.pushTx _ _ _).live
      fun i hg => good_of_setSock hg rfl⟩

/-! ## The names of the sessions -/

/-- What the log says of the connections of the table. -/
structure Named (st : Connector) : Prop where
  live : ∀ c ∈ st.connections, st.live c.south
  made : ∀ c ∈ st.connections, MadeBy c st.log
  session : ∀ c ∈ st.connections, ∀ t e ty p, .got (some c.cid) t e ty p ∈ st.log → t = c.north ∧ e = c.uuid
  once : ∀ v v' a a', .opened v a ∈ st.log → .opened v' a' ∈ st.log → (v = v' ↔ a = a')
  born : ∀ v a, .opened v a ∈ st.log → v < st.next ∧ (st.ep v).iface = .south 0
  unborn : ∀ i, st.next ≤ i → outBytes i st.log = []

theorem outBytes_unheard (h : ∀ o ∈ obs, Unheard st o) (hv : st.next ≤ v ∨ (st.ep v).iface ≠ .north) :
    outBytes v obs = [] := by
  refine List.flatMap_eq_nil_iff.mpr fun o ho => ?_
  have hun := h o ho
  cases o with
  | sent cid dst eid ty p ok =>
    refine if_neg fun hdst => ?_
    obtain ⟨rfl, -⟩ := hdst
    rcases hv with hv | hv
    · exact absurd hun.1 (Nat.not_lt.mpr hv)
    · exact hv hun.2
  | fed => exact hun.elim
  | _ => rfl

theorem gots_unheard (h : ∀ o ∈ obs, Unheard st o) (t : StreamId) : gots t obs = [] := by
  refine gots_eq_nil fun o ho => ?_
  have hun := h o ho
  cases o with
  | got => exact hun.elim
  | _ => rfl

/-- No session was opened, and the frames that were taken are those of connections. -/
theorem Named.old (h : Named st) (out : Outline st st' obs) (hs : Sound st) (ht : Turned (rules C) st st' obs)
    (hg : Grows st st') (hmade : ∀ c ∈ st'.connections, MadeBy c st'.log) (hno : ∀ v a, Obs.opened v a ∉ obs)
    (hgot : ∀ a t e ty p, .got (some a) t e ty p ∈ obs → ∃ c ∈ st.connections, c.cid = a ∧ c.north = t ∧ c.uuid = e)
    (hout : ∀ i, st.next ≤ i → outBytes i obs = []) : Named st' := by
  have hopened : ∀ v a, .opened v a ∈ st'.log → .opened v a ∈ st.log := by
    intro v a hmem
    rw [ht.log, List.mem_append] at hmem
    exact hmem.resolve_right (hno v a)
  refine ⟨fun c hc => ?_, hmade, fun c hc t e ty p hmem => ?_,
    fun v v' a a' hmem hmem' => h.once v v' a a' (hopened v a hmem) (hopened v' a' hmem'), fun v a hmem => ?_,
    fun i hi => ?_⟩
  · -- a connection goes with its service, not before it
    obtain ⟨d, hd, _, rfl, -⟩ := ht.old hno hc
    refine (out.stays d.south (h.live d hd) ?_).resolve_right fun hnone => hnone _ hc rfl
    rw [(hs.sides d hd).2]
    exact nofun
  · obtain ⟨d, hd, _, rfl, -⟩ := ht.old hno hc
    rw [ht.log, List.mem_append] at hmem
    rcases hmem with hmem | hmem
    · exact h.session d hd t e ty p hmem
    · obtain ⟨d', hd', hcid, rfl, rfl⟩ := hgot _ _ _ _ _ hmem
      obtain rfl := List.inj_on_of_nodup_map hs.cids hd' hd hcid
      exact ⟨rfl, rfl⟩
  · obtain ⟨hlt, hif⟩ := h.born v a (hopened v a hmem)
    exact ⟨Nat.lt_of_lt_of_le hlt hg.next, (hg.iface v hlt).trans hif⟩
  · have hi0 := Nat.le_trans hg.next hi
    rw [ht.log, outBytes_append, h.unborn i hi0, hout i hi0]
    rfl

theorem opened_mem_openObs : .opened v a ∈ openObs t f st ↔ v = st.next ∧ a = st.ncid := by
  simp [openObs]

theorem got_mem_openObs {ty : Msgtype} {p : List UInt8} (h : .got (some a) t' e ty p ∈ openObs t f st) :
    a = st.ncid ∧ t' = t ∧ e = f.eid := by
  simp only [openObs, List.mem_cons, List.not_mem_nil, reduceCtorEq, false_or, or_false, Obs.got.injEq,
    Option.some.injEq] at h
  exact ⟨h.1, h.2.1, h.2.2.1⟩

theorem outBytes_openObs (hv : v ≠ st.next) : outBytes v (openObs t f st) = [] := by
  simp [openObs, outBytes, Obs.bytes, hv.symm]

theorem Named.opened (h : Named st) (hs : Sound st) (ho : Opened t f st st')
    (hmade : ∀ c ∈ st'.connections, MadeBy c st'.log) : Named st' := by
  have hopened : ∀ v a, .opened v a ∈ st'.log → .opened v a ∈ st.log ∨ v = st.next ∧ a = st.ncid := by
    intro v a hmem
    rw [ho.effect.log, List.mem_append, opened_mem_openObs] at hmem
    exact hmem
  refine ⟨fun c hc => ?_, hmade, fun c hc t' e ty p hmem => ?_, fun v v' a a' hmem hmem' => ?_, fun v a hmem => ?_,
    fun i hi => ?_⟩
  · rw [ho.connections, List.mem_append, List.mem_singleton] at hc
    rw [ho.live]
    split
    · rfl
    · rename_i hne
      exact h.live c (hc.resolve_right fun hnew => hne (hnew ▸ rfl))
  · rw [ho.effect.log, List.mem_append] at hmem
    rw [ho.connections, List.mem_append, List.mem_singleton] at hc
    rcases hmem.imp_right got_mem_openObs with hmem | ⟨hcid, rfl, rfl⟩ <;> rcases hc with hc | rfl
    · exact h.session c hc t' e ty p hmem
    · exact absurd (hs.logged _ hmem _ rfl) (Nat.lt_irrefl _)
    · exact absurd hcid (Nat.ne_of_lt (hs.bound c hc))
    · exact ⟨rfl, rfl⟩
  · have hlt : ∀ {v a}, .opened v a ∈ st.log → v < st.next ∧ a < st.ncid :=
      fun hmem => ⟨(h.born _ _ hmem).1, hs.logged _ hmem _ rfl⟩
    rcases hopened v a hmem with hmem | ⟨rfl, rfl⟩ <;> rcases hopened v' a' hmem' with hmem' | ⟨rfl, rfl⟩
    · exact h.once v v' a a' hmem hmem'
    · exact iff_of_false (Nat.ne_of_lt (hlt hmem).1) (Nat.ne_of_lt (hlt hmem).2)
    · exact iff_of_false (Nat.ne_of_gt (hlt hmem').1) (Nat.ne_of_gt (hlt hmem').2)
    · exact iff_of_true rfl rfl
  · rcases hopened v a hmem with hmem | ⟨rfl, -⟩
    · obtain ⟨hlt, hif⟩ := h.born v a hmem
      exact ⟨Nat.lt_of_lt_of_le hlt ho.effect.next, (ho.effect.iface v hlt).trans hif⟩
    · exact ⟨ho.next ▸ Nat.lt_succ_self _, ho.iface⟩
  · have hne : i ≠ st.next := by
      rw [ho.next] at hi
      exact Nat.ne_of_gt hi
    rw [ho.effect.log, outBytes_append, h.unborn i (Nat.le_trans ho.effect.next hi), outBytes_openObs hne]
    rfl

theorem Delivered.mem {o : Obs} (h : Delivered t f k c st st' fed)
    (ho : o ∈ fed ++ [.got (some c.cid) t f.eid f.type f.payload]) :
    (∃ p ok, o = .fed c.cid t c.south p ok) ∨ o = .got (some c.cid) t f.eid f.type f.payload :=
  (List.mem_append.mp ho).imp (h.fed.cid o) List.mem_singleton.mp

theorem Delivered.outBytes_ne (h : Delivered t f k c st st' fed) (hv : v ≠ c.south) :
    outBytes v (fed ++ [.got (some c.cid) t f.eid f.type f.payload]) = [] := by
  refine List.flatMap_eq_nil_iff.mpr fun o ho => ?_
  rcases h.mem ho with ⟨p, ok, rfl⟩ | rfl
  · exact if_neg fun hdst => hv hdst.1.symm
  · rfl

theorem Outline.named (out : Outline st st' obs) (act : Act C st st') (hs : Sound st)
    (ht : Turned (rules C) st st' obs) (h : Named st) : Named st' := by
  have hmade := madeBy_lawful act hs ht h.made
  cases out.hears with
  | unheard hun =>
    exact h.old out hs ht act.grows hmade (fun v a hmem => hun _ hmem) (fun a t e ty p hmem => (hun _ hmem).elim)
      fun i hi => outBytes_unheard hun (.inl hi)
  | @refused _ _ rest _ _ _ hun =>
    refine h.old out hs ht act.grows hmade (fun v a hmem => ?_) (fun a t e ty p hmem => ?_)
      fun i hi => @outBytes_unheard st rest i hun (.inl hi)
    all_goals
      rcases List.mem_cons.mp hmem with hx | hmem
      · cases hx
      · exact (hun _ hmem).elim
  | opened _ _ ho => exact h.opened hs ho hmade
  | @delivered t f k c fed hk hget _ hd =>
    have hc := List.mem_of_getElem? hget
    obtain ⟨hnorth, huuid⟩ := north_of_findConn hk hget
    refine h.old out hs ht act.grows hmade (fun v a hmem => ?_) (fun a t e ty p hmem => ?_) fun i hi => ?_
    · rcases hd.mem hmem with ⟨p, ok, hx⟩ | hx <;> cases hx
    · rcases hd.mem hmem with ⟨p, ok, hx⟩ | hx <;> cases hx
      exact ⟨c, hc, rfl, hnorth, huuid⟩
    · exact hd.outBytes_ne (Nat.ne_of_gt (Nat.lt_of_lt_of_le (hs.souths c hc) hi))

/-! ## What a service gets -/

/-- The session `a` of the service `v` was started by a frame of the transport `t` with the eid `e`. -/
def Served (t : StreamId) (e : Uuid) (v : StreamId) (a : Nat) (log : List Obs) : Prop :=
  .opened v a ∈ log ∧ ∃ ty p, ty.has INIT ∧ .got (some a) t e ty p ∈ log

/-- The service `v` got the bytes of the session that was started with the eid `e`, up to some frame.
While it is good it got all of them. -/
structure Piping (t : StreamId) (e : Uuid) (v : StreamId) (a : Nat) (st : Connector) : Prop where
  heard : outBytes v st.log <+: said e (gots t st.log)
  whole : ∀ c ∈ st.connections, c.cid = a → c.state ≠ .CLOSED → (st.sock v).good →
    outBytes v st.log = said e (gots t st.log)

def Piped (st : Connector) : Prop :=
  ∀ t e v a, InitFirst e (gots t st.log) → Served t e v a st.log → Piping t e v a st

theorem Piping.of_eq (h : outBytes v st.log = said e (gots t st.log)) : Piping t e v a st :=
  ⟨h ▸ List.prefix_refl _, fun _ _ _ _ _ => h⟩

/-- Nothing went to the service. A frame of its session was lost only when the session is closed. -/
theorem Piping.idle (h : Piping t e v a st) (ht : Turned (rules C) st st' obs) (ha : a < st.ncid)
    (hgood : (st'.sock v).good → (st.sock v).good) (hout : outBytes v obs = [])
    (hsaid : said e (gots t obs) = [] ∨ ∀ c ∈ st.connections, c.cid = a → c.state = .CLOSED) :
    Piping t e v a st' := by
  have hsame : outBytes v st'.log = outBytes v st.log := by
    rw [ht.log, outBytes_append, hout, List.append_nil]
  have hmore : said e (gots t st'.log) = said e (gots t st.log) ++ said e (gots t obs) := by
    rw [ht.log, gots_append, said_append]
  refine ⟨?_, fun c hc hcid hst hg => ?_⟩
  · rw [hsame, hmore]
    exact h.heard.trans (List.prefix_append _ _)
  · rcases (ht.turn c hc).origin with ⟨d, hd, s, rfl, hrank⟩ | ⟨hnew, -⟩
    · have hopen := controller.not_closed_of_rank hrank hst
      rcases hsaid with hsaid | hclosed
      · rw [hsame, hmore, hsaid, List.append_nil]
        exact h.whole d hd hcid hopen (hgood hg)
      · exact absurd (hclosed d hd hcid) hopen
    · exact absurd ha (Nat.not_lt.mpr (hcid ▸ hnew))

/-- A frame of another session says nothing for this one. -/
theorem said_of_ne (hgots : gots t obs = if t' = t then [f.packet] else []) (hne : ¬ (t' = t ∧ f.eid = e)) :
    said e (gots t obs) = [] := by
  rw [hgots]
  split
  · rename_i ht
    have he : f.packet.eid ≠ e := fun he => hne ⟨ht, he⟩
    simp [said, he]
  · rfl

theorem said_packet (f : Frame) : said f.eid [f.packet] = f.payload := by
  simp [said, Frame.packet]

theorem gots_got_self (cid : Option Nat) (t t' : StreamId) (f : Frame) :
    gots t' [.got cid t f.eid f.type f.payload] = if t = t' then [f.packet] else [] := by
  by_cases h : t = t' <;> simp [gots, Obs.gotFrom, Frame.packet, h]

theorem gots_openObs (t t' : StreamId) (f : Frame) : gots t' (openObs t f st) = if t = t' then [f.packet] else [] := by
  by_cases h : t = t' <;> simp [openObs, gots, List.filterMap_cons, Obs.gotFrom, Frame.packet, h]

theorem Delivered.gots (h : Delivered t f k c st st' fed) (t' : StreamId) :
    gots t' (fed ++ [.got (some c.cid) t f.eid f.type f.payload]) = if t = t' then [f.packet] else [] := by
  have hnil : cloudbus.gots t' fed = [] := gots_eq_nil fun o ho => by
    obtain ⟨p, ok, rfl⟩ := h.fed.cid o ho
    rfl
  rw [gots_append, hnil, gots_got_self]
  rfl

/-- A frame is refused when its connection is closed, or gone. -/
theorem Named.closed (h : Named st) (hs : Sound st) (hfirst : InitFirst f.eid (gots t st.log)) (hun : Untaken t f st)
    {d : Connection} (hd : d ∈ st.connections) (hdt : d.north = t) (hde : d.uuid = f.eid) : d.state = .CLOSED := by
  rcases hun with hnone | ⟨k, c, hk, hget, hst⟩
  · exact absurd hde (findConn_eq_none hnone hd hdt)
  · obtain ⟨hct, hce⟩ := north_of_findConn hk hget
    have hc := List.mem_of_getElem? hget
    obtain ⟨-, ty, p, hty, hgot⟩ := h.made c hc
    obtain ⟨-, ty', p', hty', hgot'⟩ := h.made d hd
    rw [hct, hce] at hgot
    rw [hdt, hde] at hgot'
    obtain rfl := List.inj_on_of_nodup_map hs.cids hc hd (hfirst.unique hgot hty hgot' hty')
    exact hst

/-- The session was started. -/
theorem Piping.opened (hn : Named st) (ho : Opened t f st st') (hinit : f.type.has INIT)
    (hfirst : InitFirst f.eid (gots t st'.log)) : Piping t f.eid st.next st.ncid st' := by
  have hgots : gots t st'.log = gots t st.log ++ [f.packet] := by
    rw [ho.effect.log, gots_append, gots_openObs, if_pos rfl]
  rw [hgots] at hfirst
  refine .of_eq ?_
  rw [ho.effect.log, outBytes_append, hn.unborn _ (Nat.le_refl _), openObs_bytes, ← ho.effect.log, hgots, said_append,
    hfirst.said_nil rfl hinit, said_packet]

/-- A frame of the session was delivered. -/
theorem Piping.delivered (h : Piping t f.eid c.south c.cid st) (hn : Named st) (hc : c ∈ st.connections)
    (hst : c.state ≠ .CLOSED) (hd : Delivered t f k c st st' fed) : Piping t f.eid c.south c.cid st' := by
  have hsaid : said f.eid (gots t st'.log) = said f.eid (gots t st.log) ++ f.payload := by
    rw [hd.effect.log, gots_append, hd.gots, if_pos rfl, said_append, said_packet]
  have hout : outBytes c.south st'.log = outBytes c.south st.log ++ outBytes c.south fed := by
    rw [hd.effect.log, outBytes_append, outBytes_append]
    simp [outBytes, Obs.bytes]
  have hwhole := h.whole c hc rfl hst
  have hsome : outBytes c.south fed = [] → outBytes c.south st'.log <+: said f.eid (gots t st'.log) := by
    intro hnil
    rw [hout, hsaid, hnil, List.append_nil]
    exact h.heard.trans (List.prefix_append _ _)
  generalize hfed : fed = obs at hout hsome
  cases hfed ▸ hd.fed with
  | none hwhy =>
    refine ⟨hsome rfl, fun _ _ _ _ hg => ?_⟩
    rcases hwhy with hnil | hbad | hgone
    · rw [hout, hsaid, outBytes_nil, hnil, hwhole (good_of_stuck (hd.stuck _) hg)]
    · exact absurd hg (by rw [hbad]; decide)
    · exact absurd (hn.live c hc) (by rw [← hd.live, hgone]; decide)
  | fed ok _ hok hbad =>
    cases ok with
    | true =>
      refine .of_eq ?_
      rw [hout, hsaid, hwhole (hok rfl)]
      simp [outBytes, Obs.bytes]
    | false =>
      refine ⟨hsome (by simp [outBytes, Obs.bytes]), fun _ _ _ _ hg => ?_⟩
      exact absurd hg (by rw [hbad rfl]; decide)

theorem Outline.piped (out : Outline st st' obs) (hs : Sound st) (ht : Turned (rules C) st st' obs) (hn : Named st)
    (h : Piped st) : Piped st' := by
  rintro t e v a hfirst ⟨hopen, ty, p, hty, hgot⟩
  have hfirst0 : InitFirst e (gots t st.log) := by
    refine hfirst.mono ?_
    rw [ht.log, gots_append]
    exact List.prefix_append _ _
  have idle (hold : Served t e v a st.log) :=
    (h t e v a hfirst0 hold).idle ht (hs.logged _ hold.1 a rfl) (out.good v (hn.born v a hold.1).1)
  have south : Served t e v a st.log → st.next ≤ v ∨ (st.ep v).iface ≠ .north := by
    intro hold
    rw [(hn.born v a hold.1).2]
    exact .inr nofun
  rw [ht.log, List.mem_append] at hopen hgot
  cases out.hears with
  | unheard hun =>
    have hold : Served t e v a st.log := ⟨hopen.resolve_right (hun _), ty, p, hty, hgot.resolve_right (hun _)⟩
    exact idle hold (outBytes_unheard hun (south hold)) (.inl (by rw [gots_unheard hun]; rfl))
  | @refused t' f rest _ _ hun hrest =>
    have hold : Served t e v a st.log := by
      refine ⟨hopen.resolve_right fun hmem => ?_, ty, p, hty, hgot.resolve_right fun hmem => ?_⟩
      all_goals
        rcases List.mem_cons.mp hmem with hx | hmem
        · cases hx
        · exact (hrest _ hmem).elim
    refine idle hold (@outBytes_unheard st rest v hrest (south hold)) ?_
    by_cases hmine : t' = t ∧ f.eid = e
    · obtain ⟨rfl, rfl⟩ := hmine
      refine .inr fun d hd hcid => ?_
      obtain ⟨-, ty, p, -, hgot⟩ := hold
      obtain ⟨hdt, hde⟩ := hn.session d hd t' f.eid ty p (by rw [hcid]; exact hgot)
      exact hn.closed hs hfirst0 hun hd hdt.symm hde.symm
    · have hgots : gots t (.got none t' f.eid f.type f.payload :: rest) = if t' = t then [f.packet] else [] := by
        rw [← List.singleton_append, gots_append, gots_unheard hrest, List.append_nil, gots_got_self]
      exact .inl (said_of_ne hgots hmine)
  | @opened t' f _ hinit ho =>
    by_cases hnew : a = st.ncid
    · subst hnew
      have hopen := hopen.resolve_left fun hmem => Nat.lt_irrefl _ (hs.logged _ hmem _ rfl)
      have hgot := hgot.resolve_left fun hmem => Nat.lt_irrefl _ (hs.logged _ hmem _ rfl)
      obtain ⟨rfl, -⟩ := opened_mem_openObs.mp hopen
      obtain ⟨-, rfl, rfl⟩ := got_mem_openObs hgot
      exact Piping.opened hn ho hinit hfirst
    · have hopen := hopen.resolve_right fun hmem => hnew (opened_mem_openObs.mp hmem).2
      have hgot := hgot.resolve_right fun hmem => hnew (got_mem_openObs hmem).1
      refine idle ⟨hopen, ty, p, hty, hgot⟩ (outBytes_openObs (Nat.ne_of_lt (hn.born v a hopen).1))
        (.inl (said_of_ne (gots_openObs t' t f) ?_))
      -- the session was started before, and is not started again
      rintro ⟨rfl, rfl⟩
      rw [ht.log, gots_append, gots_openObs, if_pos rfl] at hfirst
      have habort : ty = abortType := (hfirst _ _ [] rfl rfl hinit _ (mem_gots hgot) rfl).1
      rw [habort, has_init_abort] at hty
      cases hty
  | @delivered t' f k c fed hk hget hst hd =>
    have hc := List.mem_of_getElem? hget
    obtain ⟨rfl, huuid⟩ := north_of_findConn hk hget
    obtain ⟨hopen0, ty0, p0, hty0, hgot0⟩ := hn.made c hc
    rw [huuid] at hgot0
    have hold : Served t e v a st.log := by
      refine ⟨hopen.resolve_right fun hmem => ?_, ?_⟩
      · rcases hd.mem hmem with ⟨p, ok, hx⟩ | hx <;> cases hx
      · rcases hgot with hgot | hgot
        · exact ⟨ty, p, hty, hgot⟩
        · rcases hd.mem hgot with ⟨p, ok, hx⟩ | hx <;> cases hx
          exact ⟨ty0, p0, hty0, hgot0⟩
    have hservice : v = c.south ↔ a = c.cid := hn.once v c.south a c.cid hold.1 hopen0
    have ⟨_, ty1, p1, hty1, hgot1⟩ := hold
    by_cases hmine : c.north = t ∧ f.eid = e
    · obtain ⟨rfl, rfl⟩ := hmine
      obtain rfl : c.cid = a := hfirst0.unique hgot0 hty0 hgot1 hty1
      obtain rfl : v = c.south := hservice.mpr rfl
      exact (h _ _ _ _ hfirst0 hold).delivered hn hc hst hd
    · refine idle hold (hd.outBytes_ne ?_) (.inl (said_of_ne (hd.gots t) hmine))
      rintro rfl
      obtain rfl := hservice.mp rfl
      obtain ⟨rfl, rfl⟩ := hn.session c hc t e ty1 p1 hgot1
      exact hmine ⟨rfl, huuid.symm⟩

/-- What holds of the sessions of every run. -/
structure Voiced (st : Connector) : Prop where
  named : Named st
  piped : Piped st
  penned : ∀ i, i < st.next → Penned st i

theorem voiced_lawful (hC : ∀ c st, C c st → IdsUsed st) : Lawful C Voiced := by
  intro st st' obs act hs ht h
  obtain ⟨obs', out⟩ := act.outline hC hs
  obtain rfl := List.append_cancel_left (out.log.symm.trans ht.log)
  refine ⟨out.named act hs ht h.named, out.piped hs ht h.named h.piped, fun i hi => ?_⟩
  by_cases hold : i < st.next
  · rcases act.effect with ⟨obs', he⟩ | ⟨j, r, -, rfl⟩ | ⟨j, b, -, rfl⟩
    · exact (h.penned i hold).step he.log (.of_ran (he.ran i hold))
    · exact (h.penned i hold).setSock rfl id
    · exact (h.penned i hold).setSock rfl id
  · have hge := Nat.le_of_not_lt hold
    obtain ⟨fd, rx, tx, hp⟩ := out.born i hge hi
    exact .born ht.log (h.named.unborn i hge) hp

theorem voiced_init (mode : Mode) : Voiced { mode := mode } :=
  ⟨⟨nofun, nofun, nofun, nofun, nofun, fun _ _ => rfl⟩, fun _ _ _ _ _ h => absurd h.1 nofun, nofun⟩

theorem Run.voiced (hr : Run C st) : Voiced st := by
  have hs : Run (fun c s => C c s ∧ Sound s ∧ True) st :=
    Lawful.strengthen (fun _ _ _ _ _ _ _ => trivial) (fun _ => trivial) hr
  exact (voiced_lawful fun _ _ h => h.2.1.used).run voiced_init hs

end segment

/-! ## The sessions of the controller -/

namespace controller

variable {C : Call → Connector → Prop} {st : Connector}

/-- No chunk is torn, and each session has a node of its own. -/
def Unmixed (c : Call) (st : Connector) : Prop := LastHolds c st ∧ NewNode c st

instance (c : Call) (st : Connector) : Decidable (Unmixed c st) := inferInstanceAs (Decidable (_ ∧ _))

theorem Run.unmixed (hr : Run C st) (hC : ∀ c st, C c st → Unmixed c st) :
    Run (fun c s => C c s ∧ (IdsUsed s ∧ Fanned s) ∧ Ledger s) st := by
  have hfan := fanned_law.strengthen (fun mode => ⟨⟨nofun, nofun⟩, fanned_init mode⟩) hr fun c s h => (hC c s h).1
  have hledger := ledger_lawful.strengthen ledger_init hfan fun c s h => (hC c s h.1).2
  exact hledger.weaken fun c s h => ⟨h.1.1, ⟨h.2.1.used, h.1.2.2.2⟩, h.2.2⟩

/-- Nothing was forwarded of a client that starts its first session. -/
theorem Starts.consumed_nil {n : StreamId} {o : Oracle} {st' : Connector} {cs : List Connection} {obs : List Obs}
    (h : Starts C n o st st' cs obs) (hC : ∀ c st, C c st → Attached c st ∧ IdsUsed st ∧ FromStart st) :
    consumed st n = [] := by
  have hrouting : Routing Attached n st := by
    obtain ⟨o, st0, st1, bs, hc, hrest⟩ := h.routing
    exact ⟨o, st0, st1, bs, (hC _ _ hc).1, hrest⟩
  have hnot := not_initiated hrouting h.eof h.pos h.alone
  obtain ⟨o, st0, st1, bs, hc, hl, hif, hread, hq⟩ := h.routing
  obtain ⟨-, hused, hfrom⟩ := hC _ _ hc
  have hlog : st.log = st0.log := by rw [hq.log, hread.effect.log, List.append_nil]
  have hheld := hfrom.held n (hused n hl) hif (hlog ▸ hnot)
  calc consumed st n = consumed st1 n := consumed_congr (hq.keeps.kept n).taken (hq.chunk n)
    _ = consumed st0 n := consumed_of_read hread
    _ = [] := by rw [consumed, hheld, Nat.sub_self, List.take_zero]

/-- The payloads of a connection are a stretch of what its client sent. When clients are read only
while they are attached, it begins with the first byte. -/
theorem Run.echoed (hr : Run C st) (hC : ∀ c st, C c st → Unmixed c st) :
    Echoed (fun base => (∀ c st, C c st → Attached c st) → base = []) st := by
  by_cases hA : ∀ c st, C c st → Attached c st
  · have hfrom := fromStart_lawful.strengthen (fun _ => ⟨⟨fun _ _ => rfl, nofun⟩, nofun, nofun⟩) (hr.unmixed hC)
      fun c s h => hA c s h.1
    refine (echoed_lawful (fun _ _ h => ⟨h.1.2.1, h.1.2.2, fun d hd _ => h.2.2.base d hd⟩) fun hs _ => ?_).run
      (fun _ _ _ => nofun) hfrom
    exact hs.consumed_nil fun c s h => ⟨hA c s h.1.1, h.1.2.1.1, h.2.2⟩
  · exact (echoed_lawful (fun _ _ h => ⟨h.2.1, h.2.2, fun _ _ h => absurd h hA⟩) fun _ h => absurd h hA).run
      (fun _ _ _ => nofun) (hr.unmixed hC)

theorem Run.ledgered (hr : Run C st) (hC : ∀ c st, C c st → Unmixed c st) : Ledger st :=
  (hr.weaken fun c s h => (hC c s h).2).ledger

end controller

/-! ## From the client to the service -/

namespace Fabric

variable {C : controller.Call → Connector → Prop} {x : Fabric} {w : Wire} {e : Uuid} {v : StreamId} {a : Nat}

/-- A session of the segment is that of a connection of the controller. -/
theorem Consistent.source (h : Consistent x) (hl : controller.Ledger x.ctl) (hw : w ∈ x.wires)
    (hserved : segment.Served w.north e v a x.seg.log) :
    ∃ n cid, .opened n cid ∈ x.ctl.log ∧ controller.Signed x.ctl cid w.south e := by
  obtain ⟨-, ty, p, hty, hgot⟩ := hserved
  have hmem : (⟨e, ty, p⟩ : Packet) ∈ sents w.south x.ctl.log :=
    (h.down hw).mem (mem_gots hgot)
  obtain ⟨o, ho, hsent⟩ := List.mem_filterMap.mp hmem
  obtain ⟨cid, rfl⟩ := controller.sentTo_eq_some hsent
  cases cid with
  | none =>
    have hbare : ty = abortType := (hl.bare ho).1
    rw [hbare, has_init_abort] at hty
    cases hty
  | some cid =>
    have hsigned : controller.Signed x.ctl cid w.south e := .inl ⟨_, _, _, ho⟩
    obtain ⟨n, hn⟩ := hl.opened hsigned
    exact ⟨n, cid, hn, hsigned⟩

theorem Consistent.initFirst (h : Consistent x) (hl : controller.Ledger x.ctl) (hw : w ∈ x.wires) (e : Uuid) :
    InitFirst e (gots w.north x.seg.log) :=
  (hl.initFirst w.south e).mono (h.down hw)

/-- What was written to a service was sent for its session. -/
theorem Consistent.heard (h : Consistent x) (hl : controller.Ledger x.ctl) (hv : segment.Voiced x.seg)
    (hw : w ∈ x.wires) (hserved : segment.Served w.north e v a x.seg.log) {cid : Nat}
    (hs : controller.Signed x.ctl cid w.south e) : (x.seg.sock v).written <+: appended cid x.ctl.log := by
  have hwritten : (x.seg.sock v).written <+: outBytes v x.seg.log :=
    (hv.penned v (hv.named.born v a hserved.1).1).some
  have hheard := (hv.piped _ _ _ _ (h.initFirst hl hw e) hserved).heard
  rw [← hl.said_eq hs]
  exact (hwritten.trans hheard).trans (said_mono e (h.down hw))

/-- Client 0 starts a session with a byte, and the segment gives the byte to its service 1. -/
def hello : List Move :=
  [.ctl (.env (.accept 10)), .ctl (.env (.rx 0 (.data 1 []))),
    .ctl (.poll 0 Mask.POLLIN ⟨.ofNode 1, [.make (some 20)]⟩), .seg (.env (.accept 30)), .join ⟨1, 0⟩,
    .ctl (.env (.tx 1 (.accept 25))), .ctl (.poll 1 Mask.POLLOUT {}), .down ⟨1, 0⟩ initFrame.recv,
    .seg (.poll 0 Mask.POLLIN (some 40))]

def greeted : Fabric := play hello ⟨{}, {}, []⟩

end Fabric

end cloudbus
