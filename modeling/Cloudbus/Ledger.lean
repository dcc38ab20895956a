-- Whose frames are on a transport of the controller. A frame that carries a chunk
-- is one of a connection, and the connections of a transport have nodes of their
-- own. So the bytes of a session can be picked out of all that is on a transport.
import Cloudbus.ConnectOnce
import Cloudbus.Fabric
import Cloudbus.Fanout
import Cloudbus.Grammar

namespace cloudbus

open cloudbus.io cloudbus.messages Connector

/-! ## The bytes of a session -/

variable {e : Uuid} {ps qs : List Packet} {p q : Packet}

/-- The bytes of the frames with the eid `e`. -/
def said (e : Uuid) (ps : List Packet) : List UInt8 := ps.flatMap fun p => if p.eid = e then p.payload else []

theorem said_append (e : Uuid) (ps qs : List Packet) : said e (ps ++ qs) = said e ps ++ said e qs :=
  List.flatMap_append

/-- More frames say more. -/
theorem said_mono (e : Uuid) (h : ps <+: qs) : said e ps <+: said e qs := by
  obtain ⟨rs, rfl⟩ := h
  rw [said_append]
  exact List.prefix_append _ _

/-- A frame with INIT is the first one of its eid, but for ABORTs. -/
def InitFirst (e : Uuid) (ps : List Packet) : Prop :=
  ∀ l p r, ps = l ++ p :: r → p.eid = e → p.type.has INIT → ∀ q ∈ l, q.eid = e → q.type = abortType ∧ q.payload = []

theorem InitFirst.mono (h : InitFirst e qs) (hp : ps <+: qs) : InitFirst e ps := by
  obtain ⟨rs, rfl⟩ := hp
  rintro l p r rfl
  exact h l p (r ++ rs) (by simp)

/-- Nothing was said before the session started. -/
theorem InitFirst.said_nil (h : InitFirst e (ps ++ [p])) (he : p.eid = e) (hinit : p.type.has INIT) :
    said e ps = [] := by
  refine List.flatMap_eq_nil_iff.mpr fun q hq => ?_
  split
  · exact (h ps p [] rfl he hinit q hq ‹_›).2
  · rfl

theorem has_init_abort : abortType.has INIT = false := by decide

/-! ## What was written to a stream -/

variable {st st' : Connector} {i j : StreamId} {obs : List Obs}

/-- What was written to the stream is what the log says. When the stream went bad, a part of it may
be missing. -/
structure Penned (st : Connector) (i : StreamId) : Prop where
  some : (st.sock i).written <+: outBytes i st.log
  all : (st.sock i).bad = false → (st.sock i).written = outBytes i st.log

theorem Penned.step (h : Penned st i) (hlog : st'.log = st.log ++ obs)
    (hp : Passed (st.sock i) (outBytes i obs) (st'.sock i)) : Penned st' i := by
  refine ⟨?_, fun hbad => ?_⟩
  · obtain ⟨k, hk⟩ := hp.some
    rw [hk, hlog, outBytes_append]
    cases hbad : (st.sock i).bad with
    | true =>
      rw [hp.none hbad, List.take_nil, List.append_nil, List.append_nil]
      exact h.some
    | false =>
      rw [h.all hbad]
      exact (List.prefix_append_right_inj _).mpr (List.take_prefix _ _)
  · have hbad0 : (st.sock i).bad = false := by
      by_contra h0
      rw [hp.bad (Bool.not_eq_false _ ▸ h0)] at hbad
      cases hbad
    rw [hp.all hbad, h.all hbad0, hlog, outBytes_append]

/-- A stream that was made now. -/
theorem Penned.born {log : List Obs} {fd : Int} {rx : List Recv} {tx : List Send} (hlog : st.log = log ++ obs)
    (hnone : outBytes i log = []) (hp : Passed (newborn fd rx tx) (outBytes i obs) (st.sock i)) : Penned st i := by
  have hout : outBytes i st.log = outBytes i obs := by
    rw [hlog, outBytes_append, hnone]
    rfl
  refine ⟨?_, fun hbad => ?_⟩
  · obtain ⟨k, hk⟩ := hp.some
    rw [hk, hout]
    exact List.take_prefix _ _
  · rw [hp.all hbad, hout]
    rfl

theorem Penned.setSock {s : Sockstream} (h : Penned st i) (hw : s.written = (st.sock j).written)
    (hb : (st.sock j).bad → s.bad) : Penned (st.setSock j s) i := by
  refine h.step (List.append_nil _).symm ?_
  rw [sock_setSock]
  split
  · rename_i hij
    exact hij ▸ .of_same hw hb
  · exact .of_same rfl id

/-- The connection that the entry sends a frame with INIT for. -/
def Obs.inits : Obs → Option Nat
  | .sent cid _ _ t _ _ => if t.has INIT then cid else none
  | _ => none

theorem mem_inits {o : Obs} {a : Nat} (h : a ∈ o.inits) :
    o.cid = some a ∧ ∃ s e t p ok, o = .sent (some a) s e t p ok ∧ t.has INIT := by
  cases o with
  | sent cid s e t p ok =>
    rw [Obs.inits, Option.mem_def, Option.ite_none_right_eq_some] at h
    obtain ⟨hinit, rfl⟩ := h
    exact ⟨rfl, s, e, t, p, ok, rfl, hinit⟩
  | _ => cases h

/-! ## What an act of the controller sends -/

namespace controller

variable {C : Call → Connector → Prop} {st st' : Connector} {n s : StreamId} {o : Oracle} {a : Nat} {e eid : Uuid}
  {cs : List Connection} {obs : List Obs}

/-- The entry opens no connection, and a frame that it sends is an ABORT, for a connection of the
table or for none. -/
def Bare (st : Connector) : Obs → Prop
  | .opened _ _ => False
  | .sent cid dst eid t p _ => t = abortType ∧ p = [] ∧
      ∀ a ∈ cid, ∃ c ∈ st.connections, c.cid = a ∧ c.south = dst ∧ c.uuid = eid
  | _ => True

/-- The client `n` starts a session, in the call with the answers `o`. -/
structure Starts (C : Call → Connector → Prop) (n : StreamId) (o : Oracle) (st st' : Connector)
    (cs : List Connection) (obs : List Obs) : Prop extends Connects C n o.eid st st' cs obs where
  call : ∃ st0 st1 bs, C (.inn n o) st0 ∧ (st0.ep n).iface = .north ∧ ChunkRead n st0 st1 bs ∧ Quiet st1 st

theorem Opened.nodup (h : Opened n eid st st' cs obs) : (cs.map (·.cid)).Nodup := by
  obtain ⟨st1, hd, -, -⟩ := h.dials
  exact hd.cids ▸ List.nodup_range'

theorem Opened.new (h : Opened n eid st st' cs obs) {c : Connection} (hc : c ∈ cs) : st.ncid ≤ c.cid := by
  obtain ⟨st1, hd, -, -⟩ := h.dials
  have hmem := List.mem_map_of_mem (f := Connection.cid) hc
  rw [hd.cids] at hmem
  exact (List.mem_range'_1.mp hmem).1

theorem bare_of_abortSent {c d : Connection} {o : Obs} (h : abortSent c o) (hd : d ∈ st.connections)
    (hcid : d.cid = c.cid) (hs : d.south = c.south) (hu : d.uuid = c.uuid) : Bare st o := by
  obtain ⟨eid, ok, rfl, rfl⟩ := h
  refine ⟨rfl, rfl, fun a ha => ⟨d, hd, ?_, hs, hu⟩⟩
  rw [hcid]
  exact Option.some.inj ha

theorem bare_of_refusal {f : Frame} {a : Connector} (h : refusal s f a obs) : ∀ o ∈ obs, Bare st o := by
  intro o ho
  unfold refusal at h
  split at h
  · obtain ⟨ok, rfl⟩ := h
    rcases List.mem_pair.mp ho with rfl | rfl
    · trivial
    · exact ⟨rfl, rfl, nofun⟩
  · subst h
    rw [List.mem_singleton.mp ho]
    trivial

theorem bare_of_delivered {f : Frame} {k : Nat} {c : Connection} {fed aborts : List Obs}
    (hget : st.connections[k]? = some c) (hd : Delivered s f k c st st' fed aborts) :
    ∀ o ∈ fed ++ .got (some c.cid) s f.eid f.type f.payload :: aborts, Bare st o := by
  intro o ho
  rcases List.mem_append.mp ho with ho | ho
  · obtain ⟨p, ok, rfl⟩ := hd.fed.cid o ho
    trivial
  · rcases List.mem_cons.mp ho with rfl | ho
    · trivial
    · have haborts := hd.aborts
      split at haborts
      · obtain ⟨d, hd', hsent⟩ := exists_of_forall₂ haborts ho
        rcases List.mem_or_eq_of_mem_set (List.mem_of_mem_filter hd') with hmem | rfl
        · exact bare_of_abortSent hsent hmem rfl rfl rfl
        · exact bare_of_abortSent hsent (List.mem_of_getElem? hget) rfl rfl rfl
      · rw [haborts] at ho
        cases ho

/-- A chunk is sent to the connections of its client, or to those that are made for it. -/
theorem Act.sends (act : Act C st st') :
    (∃ obs, st'.log = st.log ++ obs ∧ ∀ o ∈ obs, Bare st o) ∨
      (∃ n obs, Routing C n st ∧ SentAll n (routeType st n) st st' obs) ∨
      ∃ n o cs obs, Starts C n o st st' cs obs := by
  have silent : Effect st st' [] → ∃ obs, st'.log = st.log ++ obs ∧ ∀ o ∈ obs, Bare st o :=
    fun he => ⟨[], he.log, nofun⟩
  cases act with
  | quiet hq => exact .inl (silent hq.effect)
  | errors => exact .inl (silent (takeErrors_effect _ _))
  | clientRead _ _ _ hr => exact .inl (silent hr.effect)
  | transportRead _ _ _ hr => exact .inl (silent hr.effect)
  | sentAll hc hl hif hr hq hs _ => exact .inr (.inl ⟨_, _, ⟨_, _, _, _, hc, hl, hif, hr, hq⟩, hs⟩)
  | opened hc hl hif hr he hpos hcon hq ho hs =>
    exact .inr (.inr ⟨_, _, _, _, ⟨⟨_, _, _, _, hc, hl, hif, hr, hq⟩, he, hpos, hcon, ho, hs⟩,
      _, _, _, hc, hif, hr, hq⟩)
  | refused _ _ _ _ _ hd href => exact .inl ⟨_, hd.effect.log, bare_of_refusal href⟩
  | orphan _ _ _ _ _ _ _ _ hd =>
    refine .inl ⟨_, hd.effect.log, fun o ho => ?_⟩
    rw [List.mem_singleton.mp ho]
    trivial
  | deferred _ _ _ hd => exact .inl (silent hd.effect)
  | delivered _ _ _ _ _ hget _ _ _ hd => exact .inl ⟨_, hd.effect.log, bare_of_delivered hget hd⟩
  | clientGone _ hg =>
    refine .inl ⟨_, hg.effect.log, fun o ho => ?_⟩
    rcases List.mem_append.mp ho with ho | ho
    · obtain ⟨c, hc, hsent⟩ := exists_of_forall₂ hg.logged ho
      exact bare_of_abortSent hsent (List.mem_of_mem_filter hc) rfl rfl rfl
    · rw [List.mem_singleton.mp ho]
      trivial
  | transportGone _ hg =>
    refine .inl ⟨_, hg.effect.log, fun o ho => ?_⟩
    rcases List.mem_append.mp ho with ho | ho
    · obtain ⟨c, -, rfl⟩ := exists_of_forall₂ hg.logged ho
      trivial
    · rw [List.mem_singleton.mp ho]
      trivial
  | shut =>
    refine .inl ⟨_, (shutdown_effect _ _).log, fun o ho => ?_⟩
    rw [List.mem_singleton.mp ho]
    trivial
  | dialed hd _ _ => exact .inl (silent hd.effect)
  | connectLost _ _ _ _ _ hl =>
    obtain ⟨obs, he, hobs⟩ := hl.effect
    refine .inl ⟨obs, he.log, fun o ho => ?_⟩
    rcases hobs with rfl | rfl
    · cases ho
    · rw [List.mem_singleton.mp ho]
      trivial
  | pushRx => exact .inl ⟨[], (List.append_nil _).symm, nofun⟩
  | pushTx => exact .inl ⟨[], (List.append_nil _).symm, nofun⟩

/-! ## The ledger -/

/-- The session that a client starts has a node of its own. -/
def NewNode : Call → Connector → Prop
  | .inn i o, st => (st.ep i).iface = .north → connected i st = false → Unused o.eid st
  | _, _ => True

instance (c : Call) (st : Connector) : Decidable (NewNode c st) :=
  match c with
  | .inn _ _ => inferInstanceAs (Decidable (_ → _ → _))
  | .out _ => isTrue trivial
  | .env _ => isTrue trivial

theorem Starts.unused (h : Starts NewNode n o st st' cs obs) : Unused o.eid st := by
  obtain ⟨st0, st1, bs, hc, hif, hr, hq⟩ := h.call
  have hsame : connected n st = connected n st0 :=
    (connected_of_quiet hq).trans (connected_congr hr.live (by rw [hr.connections]))
  have hu := hc hif (hsame ▸ h.alone)
  unfold Unused
  rw [hq.connections, hr.connections, hq.log, hr.effect.log, List.append_nil]
  exact hu

/-- The connection `a` has the eid `e` on the transport `s`. -/
def Signed (st : Connector) (a : Nat) (s : StreamId) (e : Uuid) : Prop :=
  (∃ t p ok, .sent (some a) s e t p ok ∈ st.log) ∨ ∃ c ∈ st.connections, c.cid = a ∧ c.south = s ∧ c.uuid = e

/-- Whose frames are in the log. -/
structure Ledger (st : Connector) : Prop where
  one : ∀ {a s s' e e'}, Signed st a s e → Signed st a s' e' → s = s' ∧ e = e'
  own : ∀ {a b s e e'}, Signed st a s e → Signed st b s e' → e.node = e'.node → a = b
  north : ∀ c ∈ st.connections, ∀ n, .opened n c.cid ∈ st.log ↔ n = c.north
  opened : ∀ {a s e}, Signed st a s e → ∃ n, .opened n a ∈ st.log
  first : Always (fun log o => ∀ a ∈ o.inits, about a log = []) st.log
  bare : ∀ {s e t p ok}, .sent none s e t p ok ∈ st.log → t = abortType ∧ p = []

theorem Signed.lt (h : Signed st a s e) (hn : Numbered st) : a < st.ncid := by
  rcases h with ⟨t, p, ok, hmem⟩ | ⟨c, hc, rfl, -⟩
  · exact hn.logged _ hmem a rfl
  · exact hn.bound c hc

theorem Signed.node_ne (h : Signed st a s e) (hu : Unused eid st) : e.node ≠ eid.node := by
  rcases h with ⟨t, p, ok, hmem⟩ | ⟨c, hc, -, -, rfl⟩
  · exact hu.2 _ hmem e rfl
  · exact hu.1 c hc

/-- An act that opens no connection: its frames are those of connections of the table. -/
theorem Ledger.old (h : Ledger st) (ht : Turned (rules C) st st' obs) (hno : ∀ n cid, Obs.opened n cid ∉ obs)
    (hsent : ∀ a s e t p ok, .sent (some a) s e t p ok ∈ obs →
      t.has INIT = false ∧ ∃ c ∈ st.connections, c.cid = a ∧ c.south = s ∧ c.uuid = e)
    (hnone : ∀ s e t p ok, .sent none s e t p ok ∈ obs → t = abortType ∧ p = []) : Ledger st' := by
  have hwas : ∀ {a s e}, Signed st' a s e → Signed st a s e := by
    rintro a s e (⟨t, p, ok, hmem⟩ | ⟨c, hc, rfl, rfl, rfl⟩)
    · rw [ht.log, List.mem_append] at hmem
      rcases hmem with hmem | hmem
      · exact .inl ⟨t, p, ok, hmem⟩
      · exact .inr (hsent _ _ _ _ _ _ hmem).2
    · obtain ⟨d, hd, _, rfl, -⟩ := ht.old hno hc
      exact .inr ⟨d, hd, rfl, rfl, rfl⟩
  have hopened : ∀ n cid, .opened n cid ∈ st'.log ↔ .opened n cid ∈ st.log := by
    intro n cid
    rw [ht.log, List.mem_append]
    exact or_iff_left (hno n cid)
  refine ⟨fun ha hb => h.one (hwas ha) (hwas hb), fun ha hb => h.own (hwas ha) (hwas hb), fun c hc n => ?_,
    fun ha => ?_, ?_, fun {s e t p ok} hmem => ?_⟩
  · obtain ⟨d, hd, _, rfl, -⟩ := ht.old hno hc
    rw [hopened]
    exact h.north d hd n
  · obtain ⟨n, hn⟩ := h.opened (hwas ha)
    exact ⟨n, (hopened n _).mpr hn⟩
  · rw [ht.log]
    refine h.first.append_of_mem fun o ho log a ha => ?_
    obtain ⟨-, s, e, t, p, ok, rfl, hinit⟩ := mem_inits ha
    rw [(hsent _ _ _ _ _ _ ho).1] at hinit
    cases hinit
  · rw [ht.log, List.mem_append] at hmem
    rcases hmem with hmem | hmem
    · exact h.bare hmem
    · exact hnone _ _ _ _ _ hmem

theorem cid_of_chunkSent {t : Msgtype} {p : List UInt8} (c : Connection) (o : Obs) (h : chunkSent t p c o) :
    o.cid = some c.cid := by
  obtain ⟨ok, rfl⟩ := h
  rfl

/-- The frames with INIT are the first ones of the new connections. -/
theorem first_of_starts (hs : Sound st) (h : Starts C n o st st' cs obs) {i : Nat} {x : Obs}
    (hi : (obs ++ cs.map fun c => Obs.opened c.north c.cid)[i]? = some x) :
    ∀ a ∈ x.inits, about a (st.log ++ (obs ++ cs.map fun c => Obs.opened c.north c.cid).take i) = [] := by
  intro a ha
  obtain ⟨c, hc, -, hnew, rfl | ⟨ok, rfl⟩⟩ := h.mem_log (List.mem_of_getElem? hi)
  · cases ha
  · obtain rfl : c.cid = a := Option.some.inj (mem_inits ha).1
    have hlt : i < obs.length := by
      by_contra hge
      rw [List.getElem?_append_right (Nat.not_lt.mp hge)] at hi
      obtain ⟨d, -, hd⟩ := List.mem_map.mp (List.mem_of_getElem? hi)
      cases hd
    rw [List.getElem?_append_left hlt] at hi
    rw [about_append, hs.about_new hnew, List.nil_append, List.take_append_of_le_length (Nat.le_of_lt hlt)]
    rcases h.sent with ⟨rfl, -⟩ | hsent
    · cases hi
    · -- there is one entry about the connection, and this is it
      obtain ⟨y, -, hone⟩ := about_of_all cid_of_chunkSent hsent.sent h.opened.nodup hc
      obtain ⟨hlt, hx⟩ := List.getElem?_eq_some_iff.mp hi
      have hsplit : obs = obs.take i ++ obs[i] :: obs.drop (i + 1) := by
        rw [← List.drop_eq_getElem_cons hlt, List.take_append_drop]
      have hself : obs[i].cid = some c.cid := by rw [hx]; rfl
      rw [hsplit, about_append, about_cons, if_pos hself] at hone
      have hlen := congrArg List.length hone
      simp only [List.length_append, List.length_cons, List.length_nil] at hlen
      exact List.eq_nil_of_length_eq_zero (by omega)

theorem Ledger.starts (h : Ledger st) (hs : Sound st) (hstart : Starts NewNode n o st st' cs obs) : Ledger st' := by
  obtain ⟨st1, hd, -, -⟩ := hstart.opened.dials
  have hunused := hstart.unused
  have hcids := hstart.opened.nodup
  have hnew : ∀ c ∈ cs, st.ncid ≤ c.cid := fun c => hstart.opened.new
  have hcases : ∀ {a s e}, Signed st' a s e →
      Signed st a s e ∨ ∃ c ∈ cs, c.cid = a ∧ c.south = s ∧ c.uuid = e := by
    rintro a s e (⟨t, p, ok, hmem⟩ | ⟨c, hc, rfl, rfl, rfl⟩)
    · rw [hstart.log, List.mem_append] at hmem
      rcases hmem with hmem | hmem
      · exact .inl (.inl ⟨t, p, ok, hmem⟩)
      · obtain ⟨c, hc, -, -, hx | ⟨ok', hx⟩⟩ := hstart.mem_log hmem
        · cases hx
        · cases hx
          exact .inr ⟨c, hc, rfl, rfl, rfl⟩
    · rw [hstart.opened.connections, List.mem_append] at hc
      exact hc.imp (fun hc => .inr ⟨c, hc, rfl, rfl, rfl⟩) fun hc => ⟨c, hc, rfl, rfl, rfl⟩
  have hopened : ∀ m cid, .opened m cid ∈ st'.log ↔
      .opened m cid ∈ st.log ∨ ∃ c ∈ cs, c.north = m ∧ c.cid = cid := by
    intro m cid
    rw [hstart.log, List.mem_append]
    refine or_congr_right ⟨fun hmem => ?_, ?_⟩
    · obtain ⟨c, hc, hn, -, hx | ⟨ok, hx⟩⟩ := hstart.mem_log hmem
      · cases hx
        exact ⟨c, hc, hn, rfl⟩
      · cases hx
    · rintro ⟨c, hc, rfl, rfl⟩
      exact List.mem_append_right _ (List.mem_map_of_mem (f := fun c => Obs.opened c.north c.cid) hc)
  refine ⟨fun ha hb => ?_, fun ha hb hnode => ?_, fun c hc m => ?_, fun ha => ?_, ?_, fun {s e t p ok} hmem => ?_⟩
  · rcases hcases ha with ha | ⟨c, hc, rfl, rfl, rfl⟩ <;> rcases hcases hb with hb | ⟨d, hd', hcid, rfl, rfl⟩
    · exact h.one ha hb
    · exact absurd (ha.lt hs.toNumbered) (Nat.not_lt.mpr (hcid ▸ hnew d hd'))
    · exact absurd (hb.lt hs.toNumbered) (Nat.not_lt.mpr (hnew c hc))
    · obtain rfl := List.inj_on_of_nodup_map hcids hd' hc hcid
      exact ⟨rfl, rfl⟩
  · rcases hcases ha with ha | ⟨c, hc, rfl, rfl, rfl⟩ <;> rcases hcases hb with hb | ⟨d, hd', rfl, hsouth, rfl⟩
    · exact h.own ha hb hnode
    · exact absurd (hnode.trans (hd.node d hd')) (ha.node_ne hunused)
    · exact absurd (hnode.symm.trans (hd.node c hc)) (hb.node_ne hunused)
    · rw [hd.single hc hd' hsouth.symm]
  · rw [hopened]
    rw [hstart.opened.connections, List.mem_append] at hc
    rcases hc with hc | hc
    · rw [h.north c hc m]
      refine or_iff_left ?_
      rintro ⟨d, hd', -, hcid⟩
      exact absurd (hs.bound c hc) (Nat.not_lt.mpr (hcid ▸ hnew d hd'))
    · refine ⟨fun hm => ?_, fun hm => .inr ⟨c, hc, hm.symm, rfl⟩⟩
      rcases hm with hm | ⟨d, hd', rfl, hcid⟩
      · exact absurd (hs.logged _ hm _ rfl) (Nat.not_lt.mpr (hnew c hc))
      · rw [List.inj_on_of_nodup_map hcids hd' hc hcid]
  · rcases hcases ha with ha | ⟨c, hc, rfl, -, -⟩
    · obtain ⟨m, hm⟩ := h.opened ha
      exact ⟨m, (hopened m _).mpr (.inl hm)⟩
    · exact ⟨c.north, (hopened _ _).mpr (.inr ⟨c, hc, rfl, rfl⟩)⟩
  · rw [hstart.log]
    exact h.first.append fun i x hi => first_of_starts hs hstart hi
  · rw [hstart.log, List.mem_append] at hmem
    rcases hmem with hmem | hmem
    · exact h.bare hmem
    · obtain ⟨c, -, -, -, hx | ⟨ok', hx⟩⟩ := hstart.mem_log hmem <;> cases hx

theorem ledger_lawful : Lawful NewNode Ledger := by
  intro st st' obs act hs ht h
  rcases act.sends with ⟨obs', hlog, hbare⟩ | ⟨n, obs', hr, hsent⟩ | ⟨n, o, cs, obs', hstart⟩
  · obtain rfl := List.append_cancel_left (hlog.symm.trans ht.log)
    refine h.old ht (fun n cid hmem => hbare _ hmem) (fun a s e t p ok hmem => ?_) fun s e t p ok hmem => ?_
    · obtain ⟨rfl, rfl, hc⟩ := hbare _ hmem
      exact ⟨has_init_abort, hc a rfl⟩
    · exact ⟨(hbare _ hmem).1, (hbare _ hmem).2.1⟩
  · obtain rfl := List.append_cancel_left (hsent.effect.log.symm.trans ht.log)
    refine h.old ht (fun n cid hmem => ?_) (fun a s e t p ok hmem => ?_) fun s e t p ok hmem => ?_
    · obtain ⟨c, -, ok, hx⟩ := exists_of_forall₂ hsent.sent hmem
      cases hx
    · obtain ⟨c, hc, ok', hx⟩ := exists_of_forall₂ hsent.sent hmem
      cases hx
      refine ⟨?_, c, List.mem_of_mem_filter hc, rfl, rfl, rfl⟩
      rw [routeType]
      split <;> rfl
    · obtain ⟨c, -, ok', hx⟩ := exists_of_forall₂ hsent.sent hmem
      cases hx
  · exact h.starts hs hstart

theorem not_signed_init {mode : Mode} : ¬ Signed { mode := mode } a s e := by
  rintro (⟨t, p, ok, hmem⟩ | ⟨c, hc, -⟩)
  · cases hmem
  · cases hc

theorem ledger_init (mode : Mode) : Ledger { mode := mode } :=
  ⟨fun h => absurd h not_signed_init, fun h => absurd h not_signed_init, nofun, fun h => absurd h not_signed_init,
    nofun, nofun⟩

theorem Run.ledger (hr : Run NewNode st) : Ledger st := ledger_lawful.run ledger_init hr

/-! ## What a transport says -/

theorem sentTo_eq_some {o : Obs} {p : Packet} (h : o.sentTo s = some p) :
    ∃ cid, o = .sent cid s p.eid p.type p.payload true := by
  cases o with
  | sent cid dst eid t payload ok =>
    rw [Obs.sentTo, Option.ite_none_right_eq_some] at h
    obtain ⟨⟨rfl, rfl⟩, hp⟩ := h
    cases hp
    exact ⟨cid, rfl⟩
  | _ => cases h

/-- The frame that starts a session is the first one of it on its transport. -/
theorem Ledger.initFirst (h : Ledger st) (s : StreamId) (e : Uuid) : InitFirst e (sents s st.log) := by
  intro l p r hsplit he hinit q hq heq
  obtain ⟨l1, l2, hlog, rfl, hrest⟩ := List.filterMap_eq_append_iff.mp hsplit
  obtain ⟨l3, o, l4, rfl, -, hp, -⟩ := List.filterMap_eq_cons_iff.mp hrest
  obtain ⟨x, hx, hxq⟩ := List.mem_filterMap.mp hq
  obtain ⟨cid, rfl⟩ := sentTo_eq_some hp
  obtain ⟨cid', rfl⟩ := sentTo_eq_some hxq
  have hmem : .sent cid s p.eid p.type p.payload true ∈ st.log := by simp [hlog]
  have hmem' : .sent cid' s q.eid q.type q.payload true ∈ st.log := hlog ▸ List.mem_append_left _ hx
  cases cid with
  | none =>
    rw [(h.bare hmem).1, has_init_abort] at hinit
    cases hinit
  | some a =>
    cases cid' with
    | none => exact h.bare hmem'
    | some b =>
      -- the two frames are of one connection, and the later one is its first
      have hab := h.own (.inl ⟨_, _, _, hmem⟩) (.inl ⟨_, _, _, hmem'⟩) (by rw [he, heq])
      subst hab
      have hfirst := h.first (l1 ++ l3).length (.sent (some a) s p.eid p.type p.payload true)
        (by rw [hlog, ← List.append_assoc, List.getElem?_append_right (le_refl _), Nat.sub_self]; rfl)
        a (by rw [Obs.inits, if_pos hinit]; rfl)
      rw [hlog, ← List.append_assoc, List.take_left, about_append] at hfirst
      have hin : .sent (some a) s q.eid q.type q.payload true ∈ about a l1 := mem_about.mpr ⟨hx, rfl⟩
      rw [List.append_eq_nil_iff.mp hfirst |>.1] at hin
      cases hin

theorem said_eq_appended {log : List Obs}
    (h : ∀ o ∈ log, said e (o.sentTo s).toList = if o.cid = some a then o.appended else []) :
    said e (sents s log) = appended a log := by
  induction log with
  | nil => rfl
  | cons o log ih =>
    have hcons : said e (sents s (o :: log)) = said e (o.sentTo s).toList ++ said e (sents s log) := by
      rw [← said_append, sents, List.filterMap_cons]
      cases o.sentTo s <;> rfl
    rw [hcons, h o List.mem_cons_self, ih fun x hx => h x (List.mem_cons_of_mem _ hx), appended, appended, about_cons]
    split <;> rfl

/-- The bytes of a session on its transport are those that were sent for its connection. -/
theorem Ledger.said_eq (h : Ledger st) (hs : Signed st a s e) : said e (sents s st.log) = appended a st.log := by
  refine said_eq_appended fun o ho => ?_
  match o, ho with
  | .sent (some b) dst eid t p true, ho =>
    have hb : Signed st b dst eid := .inl ⟨_, _, _, ho⟩
    have hiff : (dst = s ∧ eid = e) ↔ b = a := by
      constructor
      · rintro ⟨rfl, rfl⟩
        exact h.own hb hs rfl
      · rintro rfl
        exact h.one hb hs
    by_cases hba : b = a
    · obtain ⟨rfl, rfl⟩ := hiff.mpr hba
      simp [said, Obs.sentTo, Obs.cid, Obs.appended, hba]
    · have hne := mt hiff.mp hba
      by_cases hdst : dst = s
      · have heid : eid ≠ e := fun heid => hne ⟨hdst, heid⟩
        simp [said, Obs.sentTo, Obs.cid, hba, hdst, heid]
      · simp [said, Obs.sentTo, Obs.cid, hba, hdst]
  | .sent none dst eid t p true, ho =>
    obtain ⟨-, rfl⟩ := h.bare ho
    by_cases hdst : dst = s <;> simp [said, Obs.sentTo, Obs.cid, hdst]
  | .sent cid dst eid t p false, _ => simp [said, Obs.sentTo, Obs.appended]
  | .opened .., _ | .got .., _ | .fed .., _ | .failed .., _ | .shut .., _ | .erased .., _ =>
    simp [said, Obs.sentTo, Obs.appended]

/-! ## What a session got of its client -/

theorem Act.taken (act : Act C st st') {i : StreamId} (hi : i < st.next) :
    (st.sock i).taken <+: (st'.sock i).taken := by
  rcases act.effect with ⟨obs, he⟩ | ⟨j, r, -, rfl⟩ | ⟨j, a, -, rfl⟩
  · exact (he.ran i hi).taken
  · exact (Same.pushRx st j r).taken i ▸ List.prefix_refl _
  · exact (Same.pushTx st j a).taken i ▸ List.prefix_refl _

/-- The payloads of each connection follow each other in what its client sent. `P` is what is known
of the bytes before them. -/
def Echoed (P : List UInt8 → Prop) (st : Connector) : Prop :=
  ∀ n cid, .opened n cid ∈ st.log →
    n < st.next ∧ ∃ base, P base ∧ base ++ payloads cid st.log <+: (st.sock n).taken

theorem payload_of_bare {o : Obs} (h : Bare st o) : o.payload = [] := by
  cases o with
  | sent => exact h.2.1
  | _ => rfl

/-- The client was read. What was forwarded and the chunk are all that it sent, and what holds of the
connections of the call still does. -/
theorem Routing.spec (hr : Routing C n st) (hC : ∀ c st, C c st → IdsUsed st ∧ Fanned st) :
    consumed st n ++ (st.chunk n).chunk = (st.sock n).taken ∧
      (∀ c ∈ st.connections, c.north = n → c.state ≠ .CLOSED → st.live c.south →
        c.base ++ payloads c.cid st.log = consumed st n) ∧
      ∃ c st0, C c st0 ∧ st.connections = st0.connections ∧ st.log = st0.log := by
  obtain ⟨o, st0, st1, bs, hc, hl, hif, hread, hq⟩ := hr
  obtain ⟨hused, hfan⟩ := hC _ _ hc
  have hn := hused n hl
  have hfan1 := hfan.chunkRead hn hread
  have htail := hfan1.tail n (by rw [hread.next]; exact hn) ((hread.effect.iface n hn).trans hif)
  have hsame : consumed st n = consumed st1 n := consumed_congr (hq.keeps.kept n).taken (hq.chunk n)
  refine ⟨?_, fun c hmem hcn hst hlive => ?_, _, st0, hc, ?_, ?_⟩
  · rw [hsame, hq.chunk, (hq.keeps.kept n).taken, ← pending_of_read hread]
    exact consumed_append htail
  · rw [hq.log, hsame, ← hcn]
    exact hfan1.fanned c (hq.connections ▸ hmem) hst (hq.live _ ▸ hlive)
  · rw [hq.connections, hread.connections]
  · rw [hq.log, hread.effect.log, List.append_nil]

theorem payloads_of_chunkSent {type : Msgtype} {payload : List UInt8} {c : Connection} {o : Obs}
    (h : chunkSent type payload c o) (habout : about c.cid obs = [o]) : payloads c.cid obs = payload := by
  obtain ⟨ok, rfl⟩ := h
  rw [payloads, habout]
  exact List.append_nil _

theorem echoed_lawful {P : List UInt8 → Prop}
    (hC : ∀ c st, C c st → (IdsUsed st ∧ Fanned st) ∧ Ledger st ∧ ∀ d ∈ st.connections, P d.base)
    (hP : ∀ {n o st st' cs obs}, Starts C n o st st' cs obs → P (consumed st n)) : Lawful C (Echoed P) := by
  intro st st' obs act hs ht h m cid hopen
  have hkeep : .opened m cid ∈ st.log → payloads cid obs = [] →
      m < st'.next ∧ ∃ base, P base ∧ base ++ payloads cid st'.log <+: (st'.sock m).taken := by
    intro hold hnil
    obtain ⟨hm, base, hb, hpre⟩ := h m cid hold
    refine ⟨Nat.lt_of_lt_of_le hm act.grows.next, base, hb, ?_⟩
    rw [ht.log, payloads_append, hnil, List.append_nil]
    exact hpre.trans (act.taken hm)
  rcases act.sends with ⟨obs', hlog, hbare⟩ | ⟨n, obs', hr, hsent⟩ | ⟨n, o, cs, obs', hstart⟩
  · obtain rfl := List.append_cancel_left (hlog.symm.trans ht.log)
    rw [hlog, List.mem_append] at hopen
    exact hkeep (hopen.resolve_right fun hmem => hbare _ hmem)
      (payloads_eq_nil fun o ho => payload_of_bare (hbare o ho))
  · obtain rfl := List.append_cancel_left (hsent.effect.log.symm.trans ht.log)
    obtain ⟨hall, hconn, call, st0, hcall, hconns, hlog⟩ := hr.spec fun c st hc => (hC c st hc).1
    obtain ⟨-, hledger, hbases⟩ := hC _ _ hcall
    have hold : .opened m cid ∈ st.log := by
      rw [ht.log, List.mem_append] at hopen
      refine hopen.resolve_right fun hmem => ?_
      obtain ⟨c, -, ok, hx⟩ := exists_of_forall₂ hsent.sent hmem
      cases hx
    by_cases hex : ∃ c ∈ st.connections, c.cid = cid ∧ active n st c
    · -- the connection got the chunk, and with it all that its client sent
      obtain ⟨c, hc, rfl, hact⟩ := hex
      have hloop := about_of_loop cid_of_chunkSent hsent.sent hs.cids hc
      rw [if_pos hact] at hloop
      obtain ⟨x, hx, habout⟩ := hloop
      obtain ⟨hcn, hlive, hst⟩ := active_iff.mp hact
      obtain rfl : m = n := hcn ▸ (hledger.north c (hconns ▸ hc) m).mp (hlog ▸ hold)
      obtain ⟨hm, -⟩ := h m c.cid hold
      refine ⟨Nat.lt_of_lt_of_le hm act.grows.next, c.base, hbases c (hconns ▸ hc), ?_⟩
      rw [ht.log, payloads_append, payloads_of_chunkSent hx habout, ← List.append_assoc,
        hconn c hc hcn hst hlive, hall]
      exact act.taken hm
    · refine hkeep hold (List.flatMap_eq_nil_iff.mpr fun o ho => ?_)
      obtain ⟨hmem, hcid⟩ := mem_about.mp ho
      obtain ⟨c, hc, ok, rfl⟩ := exists_of_forall₂ hsent.sent hmem
      obtain ⟨hc, hact⟩ := List.mem_filter.mp hc
      exact absurd ⟨c, hc, Option.some.inj hcid, hact⟩ hex
  · obtain ⟨hall, -, -⟩ := hstart.routing.spec fun c st hc => (hC c st hc).1
    obtain rfl := List.append_cancel_left (hstart.log.symm.trans ht.log)
    rw [hstart.log, List.mem_append] at hopen
    rcases hopen with hold | hnew
    · refine hkeep hold (List.flatMap_eq_nil_iff.mpr fun x hx => ?_)
      obtain ⟨hmem, hcid⟩ := mem_about.mp hx
      obtain ⟨c, hc, -, hge, rfl | ⟨ok, rfl⟩⟩ := hstart.mem_log hmem
      · rfl
      · obtain rfl := Option.some.inj hcid
        exact absurd (hs.logged _ hold _ rfl) (Nat.not_lt.mpr hge)
    · -- the connection is new, and what was sent for it is the chunk or nothing
      obtain ⟨c, hc, rfl, hge, hx | ⟨ok, hx⟩⟩ := hstart.mem_log hnew <;> cases hx
      have hm : c.north < st.next := hs.used _ hstart.routing.live
      refine ⟨Nat.lt_of_lt_of_le hm act.grows.next, _, hP hstart, ?_⟩
      refine List.IsPrefix.trans ?_ (act.taken hm)
      have hopened : payloads c.cid (cs.map fun c => Obs.opened c.north c.cid) = [] := by
        refine payloads_eq_nil fun o ho => ?_
        obtain ⟨d, -, rfl⟩ := List.mem_map.mp ho
        rfl
      rw [ht.log, payloads_append, payloads_append, payloads, hs.about_new hge, hopened, List.append_nil, ← hall]
      rcases hstart.sent with ⟨rfl, -⟩ | hsent
      · exact ⟨_, List.append_assoc ..⟩
      · obtain ⟨x, hx, habout⟩ := about_of_all cid_of_chunkSent hsent.sent hstart.opened.nodup hc
        rw [payloads_of_chunkSent hx habout]
        exact List.prefix_refl _

end controller

end cloudbus
