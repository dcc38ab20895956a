-- A controller and a segment with the wires between them. A wire is a reliable
-- FIFO channel of bytes: what came in at one end is the first part of what the
-- kernel took at the other. So the frames that one side takes out of a wire are
-- the first ones that the other side wrote to it.
import Cloudbus.Transit
import Mathlib.Logic.Relation

namespace cloudbus

open cloudbus.io cloudbus.messages Connector

/-! ## Streams with a wire -/

/-- The bytes that came in on a stream. -/
def io.Sockstream.received (s : Sockstream) : List UInt8 := s.taken ++ s.avail

/-- Nothing came in on the streams of `W`, and what the kernel took is still taken. -/
structure Held (W : List StreamId) (st st' : Connector) : Prop where
  next : st.next ≤ st'.next
  iface : ∀ i, i < st.next → (st'.ep i).iface = (st.ep i).iface
  received : ∀ i ∈ W, i < st.next → (st'.sock i).received = (st.sock i).received
  kernel : ∀ i, i < st.next → (st.sock i).kernel <+: (st'.sock i).kernel

namespace Held

variable {W : List StreamId} {st st' st'' : Connector}

theorem refl (st : Connector) : Held W st st :=
  ⟨Nat.le_refl _, fun _ _ => rfl, fun _ _ _ => rfl, fun _ _ => List.prefix_refl _⟩

theorem trans (h : Held W st st') (h' : Held W st' st'') : Held W st st'' where
  next := Nat.le_trans h.next h'.next
  iface i hi := (h'.iface i (Nat.lt_of_lt_of_le hi h.next)).trans (h.iface i hi)
  received i hW hi := (h'.received i hW (Nat.lt_of_lt_of_le hi h.next)).trans (h.received i hW hi)
  kernel i hi := (h.kernel i hi).trans (h'.kernel i (Nat.lt_of_lt_of_le hi h.next))

theorem of_effect {obs : List Obs} (h : Effect st st' obs) : Held W st st' :=
  ⟨h.next, h.iface, fun i _ hi => (h.ran i hi).total, fun i hi => (h.ran i hi).kernel⟩

theorem pushTx (st : Connector) (i : StreamId) (a : Send) : Held W st (st.pushTx i a) := by
  refine ⟨Nat.le_refl _, fun j _ => iface_setSock st i j _, fun j _ _ => ?_, fun j _ => ?_⟩ <;>
    rw [Connector.pushTx, sock_setSock] <;> split
  · rename_i hj
    rw [hj]
    rfl
  · rfl
  · rename_i hj
    exact hj ▸ List.prefix_refl _
  · exact List.prefix_refl _

theorem received_pushRx (st : Connector) (i : StreamId) (r : Recv) :
    ((st.pushRx i r).sock i).received = (st.sock i).received ++ r.bytes := by
  rw [Connector.pushRx, sock_setSock, if_pos rfl]
  simp [Sockstream.received, Sockstream.avail]

theorem pushRx (st : Connector) {i : StreamId} {r : Recv} (hr : i ∈ W → r.bytes = []) :
    Held W st (st.pushRx i r) := by
  refine ⟨Nat.le_refl _, fun j _ => iface_setSock st i j _, fun j hW _ => ?_, fun j _ => ?_⟩
  · by_cases hj : j = i
    · subst hj
      rw [received_pushRx, hr hW, List.append_nil]
    · rw [Connector.pushRx, sock_setSock, if_neg hj]
  · rw [Connector.pushRx, sock_setSock]
    split
    · rename_i hj
      exact hj ▸ List.prefix_refl _
    · exact List.prefix_refl _

end Held

/-! ## The two ends -/

namespace controller

variable {C : Call → Connector → Prop} {W : List StreamId} {st st' : Connector}

/-- A client has one connection at most on each transport. -/
def Single (st : Connector) : Prop :=
  ∀ c ∈ st.connections, ∀ d ∈ st.connections, c.north = d.north → c.south = d.south → st.live c.south →
    c.cid = d.cid

variable {obs : List Obs} {n : StreamId} {eid : Uuid} {cs : List Connection}

theorem Single.of_old (h : Single st) (hs : Sound st) (hg : Grows st st') (ht : Turned (rules C) st st' obs)
    (hno : ∀ n cid, Obs.opened n cid ∉ obs) : Single st' := by
  intro c hc d hd hn hso hl
  obtain ⟨c0, hc0, _, rfl, -⟩ := ht.old hno hc
  obtain ⟨d0, hd0, _, rfl, -⟩ := ht.old hno hd
  exact h c0 hc0 d0 hd0 hn hso (hg.was_live (hs.souths c0 hc0) hl)

/-- The new connections of a client are on transports of their own. -/
theorem Dials.single {b : Nat} (h : Dials n b eid st st' cs) {c d : Connection} (hc : c ∈ cs) (hd : d ∈ cs)
    (hs : c.south = d.south) : c = d := by
  have hnodup : (cs.map fun c => (st'.ep c.south).iface).Nodup := by
    rw [h.ifaces]
    exact (List.nodup_range').map fun a b hab => Iface.south.inj hab
  exact List.inj_on_of_nodup_map hnodup hc hd (by rw [hs])

theorem Single.of_connects (h : Single st) (hs : Sound st) (hg : Grows st st')
    (hc : Connects C n eid st st' cs obs) : Single st' := by
  obtain ⟨st1, hd, -, -⟩ := hc.opened.dials
  -- the client had no connection on a transport that is there
  have hold : ∀ c ∈ st.connections, c.north = n → ¬ st'.live c.south := by
    intro c hmem hn hl
    have hcon : connected n st = true :=
      List.any_eq_true.mpr ⟨c, hmem, by simp [hn, hg.was_live (hs.souths c hmem) hl]⟩
    rw [hc.alone] at hcon
    cases hcon
  intro c hmem d hmem' hn hso hl
  rw [hc.opened.connections, List.mem_append] at hmem hmem'
  rcases hmem with hmem | hmem <;> rcases hmem' with hmem' | hmem'
  · exact h c hmem d hmem' hn hso (hg.was_live (hs.souths c hmem) hl)
  · exact absurd hl (hold c hmem (hn.trans (hd.north d hmem')))
  · exact absurd (hso ▸ hl) (hold d hmem' (hn.symm.trans (hd.north c hmem)))
  · rw [hd.single hmem hmem' hso]

theorem single_lawful : Lawful C Single := by
  intro st st' obs act hs ht h
  rcases act.kinds with ⟨obs', hl, hp⟩ | ⟨n, eid, cs, obs', hc⟩ | ⟨s, f, k, c, fed, aborts, hd⟩
  · rw [List.append_cancel_left (hl.symm.trans ht.log)] at hp
    exact h.of_old hs act.grows ht fun n cid hmem => absurd (hp _ hmem) (by simp [Obs.plain])
  · exact h.of_connects hs act.grows hc
  · exact h.of_old hs act.grows ht (hd.no_opened ht.log)

/-- What holds in every run: the streams and connections of the tables fit together, and what
the transports carried is in the log. -/
structure Consistent (st : Connector) : Prop where
  sound : Sound st
  sides : Sides st
  single : Single st
  carried : Carried Transport st

theorem consistent_preserved : Preserved C Consistent := by
  intro st st' act h
  obtain ⟨obs, ht⟩ := act.turned h.sound.toNumbered
  obtain ⟨hsides, hcarried⟩ := carried_lawful act h.sound ht ⟨h.sides, h.carried⟩
  exact ⟨act.sound h.sound ht, hsides, single_lawful act h.sound ht h.single, hcarried⟩

theorem Consistent.handle (h : Consistent st) (ev : Event) : Consistent (handle ev st) :=
  (@Preserved.handle (fun _ _ => True) _ consistent_preserved (base_preserved _) ev st h.sound.toBase h
    fun _ _ => trivial).1

theorem Run.consistent (hr : Run C st) : Consistent st :=
  (consistent_preserved.run
    (fun mode => ⟨sound_init mode, ⟨nofun, nofun⟩, nofun, .init _ mode⟩) hr).1

/-- Nothing comes in on the streams of `W`. -/
def Sealed (W : List StreamId) : Call → Connector → Prop
  | .env (.rx i r), _ => i ∈ W → r.bytes = []
  | _, _ => True

theorem held_preserved (st0 : Connector) : Preserved (Sealed W) (Held W st0) := by
  intro st st' act h
  rcases act.effect with ⟨obs, he⟩ | ⟨i, r, hc, rfl⟩ | ⟨i, a, -, rfl⟩
  · exact h.trans (.of_effect he)
  · exact h.trans (.pushRx st hc)
  · exact h.trans (.pushTx st i a)

theorem handle_held {ev : Event} (hb : Base st) (hev : ∀ p ∈ calls ev st, Sealed W p.1 p.2) :
    Held W st (handle ev st) :=
  ((held_preserved st).handle (base_preserved _) hb (.refl st) hev).1

end controller

namespace segment

variable {C : Call → Connector → Prop} {W : List StreamId} {st st' : Connector}

/-- What holds in every run. -/
structure Consistent (st : Connector) : Prop where
  sound : Sound st
  ready : Ready st
  carried : Carried Transport st

theorem Consistent.handle (h : Consistent st) (ev : Event) : Consistent (handle ev st) := by
  have hs : Sound (segment.handle ev st) ∧ Ready (segment.handle ev st) :=
    (@sound_preserved fun _ _ => True).handle h.ready h.sound fun _ _ => trivial
  exact ⟨hs.1, hs.2, carried_law.handle (C := fun _ _ => True) h.sound h.ready (fun _ _ => trivial) h.carried⟩

theorem Run.consistent (hr : Run C st) : Consistent st := ⟨hr.sound.1, hr.sound.2, hr.carried⟩

/-- Nothing comes in on the streams of `W`. -/
def Sealed (W : List StreamId) : Call → Connector → Prop
  | .env (.rx i r), _ => i ∈ W → r.bytes = []
  | _, _ => True

theorem held_preserved (st0 : Connector) : Preserved (Sealed W) (Held W st0) := by
  intro st st' act h
  rcases act.effect with ⟨obs, he⟩ | ⟨i, r, hc, rfl⟩ | ⟨i, a, -, rfl⟩
  · exact h.trans (.of_effect he)
  · exact h.trans (.pushRx st hc)
  · exact h.trans (.pushTx st i a)

theorem handle_held {ev : Event} (hr : Ready st) (hev : ∀ p ∈ calls ev st, Sealed W p.1 p.2) :
    Held W st (handle ev st) :=
  ((held_preserved st).handle hr (.refl st) hev).1

end segment

/-! ## The fabric -/

/-- A transport: a stream of the controller and the stream of the segment at its other end. -/
structure Wire where
  south : StreamId
  north : StreamId
deriving DecidableEq, Repr

structure Fabric where
  ctl : Connector
  seg : Connector
  wires : List Wire
deriving DecidableEq, Repr

namespace Fabric

variable {C : controller.Call → Connector → Prop} {D : segment.Call → Connector → Prop} {x y : Fabric}

def souths (x : Fabric) : List StreamId := x.wires.map (·.south)
def norths (x : Fabric) : List StreamId := x.wires.map (·.north)

/-- A wire has its two ends, and what came in at one end is the first part of what the kernel
took at the other. -/
structure Joins (w : Wire) (x : Fabric) : Prop where
  south : w.south < x.ctl.next ∧ controller.Transport (x.ctl.ep w.south).iface
  north : w.north < x.seg.next ∧ segment.Transport (x.seg.ep w.north).iface
  down : (x.seg.sock w.north).received <+: (x.ctl.sock w.south).kernel
  up : (x.ctl.sock w.south).received <+: (x.seg.sock w.north).kernel

structure Consistent (x : Fabric) : Prop where
  ctl : controller.Consistent x.ctl
  seg : segment.Consistent x.seg
  souths : x.souths.Nodup
  norths : x.norths.Nodup
  wires : ∀ w ∈ x.wires, Joins w x

/-- One event at one of the ends. The calls of the controller meet `C` and those of the segment
`D`. A wire brings more of what the kernel took at its other end, in pieces of any size, and
nothing else comes in on it. -/
inductive Step (C : controller.Call → Connector → Prop) (D : segment.Call → Connector → Prop) : Fabric → Fabric → Prop
  | ctl (x : Fabric) (ev : controller.Event) :
      (∀ p ∈ controller.calls ev x.ctl, C p.1 p.2 ∧ controller.Sealed x.souths p.1 p.2) →
      Step C D x { x with ctl := controller.handle ev x.ctl }
  | seg (x : Fabric) (ev : segment.Event) :
      (∀ p ∈ segment.calls ev x.seg, D p.1 p.2 ∧ segment.Sealed x.norths p.1 p.2) →
      Step C D x { x with seg := segment.handle ev x.seg }
  | down (x : Fabric) (w : Wire) (r : Recv) : w ∈ x.wires →
      (x.seg.sock w.north).received ++ r.bytes <+: (x.ctl.sock w.south).kernel →
      Step C D x { x with seg := segment.handle (.env (.rx w.north r)) x.seg }
  | up (x : Fabric) (w : Wire) (r : Recv) : w ∈ x.wires →
      (x.ctl.sock w.south).received ++ r.bytes <+: (x.seg.sock w.north).kernel →
      Step C D x { x with ctl := controller.handle (.env (.rx w.south r)) x.ctl }

/-- Any number of events, in any order. -/
def Steps (C : controller.Call → Connector → Prop) (D : segment.Call → Connector → Prop) : Fabric → Fabric → Prop :=
  Relation.ReflTransGen (Step C D)

variable {w : Wire} {W : List StreamId} {st : Connector}

/-- The controller moved on, and nothing came in on its wires. -/
theorem Joins.ctl (h : Joins w x) (hh : Held W x.ctl st) (hw : w.south ∈ W) :
    Joins w { x with ctl := st } where
  south := ⟨Nat.lt_of_lt_of_le h.south.1 hh.next, by rw [hh.iface _ h.south.1]; exact h.south.2⟩
  north := h.north
  down := h.down.trans (hh.kernel _ h.south.1)
  up := by rw [hh.received _ hw h.south.1]; exact h.up

/-- The segment moved on, and nothing came in on its wires. -/
theorem Joins.seg (h : Joins w x) (hh : Held W x.seg st) (hw : w.north ∈ W) :
    Joins w { x with seg := st } where
  south := h.south
  north := ⟨Nat.lt_of_lt_of_le h.north.1 hh.next, by rw [hh.iface _ h.north.1]; exact h.north.2⟩
  down := by rw [hh.received _ hw h.north.1]; exact h.down
  up := h.up.trans (hh.kernel _ h.north.1)

theorem Consistent.step (h : Consistent x) (hs : Step C D x y) : Consistent y := by
  cases hs with
  | ctl ev hev =>
    have hh := controller.handle_held h.ctl.sound.toBase fun p hp => (hev p hp).2
    exact ⟨h.ctl.handle ev, h.seg, h.souths, h.norths, fun w hw => (h.wires w hw).ctl hh (List.mem_map_of_mem hw)⟩
  | seg ev hev =>
    have hh := segment.handle_held h.seg.ready fun p hp => (hev p hp).2
    exact ⟨h.ctl, h.seg.handle ev, h.souths, h.norths, fun w hw => (h.wires w hw).seg hh (List.mem_map_of_mem hw)⟩
  | down w r hw hr =>
    refine ⟨h.ctl, h.seg.handle (.env (.rx w.north r)), h.souths, h.norths, fun v hv => ?_⟩
    by_cases hvw : v.north = w.north
    · obtain rfl := List.inj_on_of_nodup_map h.norths hv hw hvw
      have hh : Held [] x.seg (x.seg.pushRx v.north r) := .pushRx _ nofun
      have hj := h.wires v hv
      refine ⟨hj.south, ⟨hj.north.1, ?_⟩, ?_, hj.up.trans (hh.kernel _ hj.north.1)⟩
      · exact (hh.iface _ hj.north.1).symm ▸ hj.north.2
      · exact (Held.received_pushRx x.seg v.north r).symm ▸ hr
    · exact (h.wires v hv).seg (.pushRx _ fun hmem => absurd (List.mem_singleton.mp hmem).symm hvw)
        (List.mem_singleton_self v.north)
  | up w r hw hr =>
    refine ⟨h.ctl.handle (.env (.rx w.south r)), h.seg, h.souths, h.norths, fun v hv => ?_⟩
    by_cases hvw : v.south = w.south
    · obtain rfl := List.inj_on_of_nodup_map h.souths hv hw hvw
      have hh : Held [] x.ctl (x.ctl.pushRx v.south r) := .pushRx _ nofun
      have hj := h.wires v hv
      refine ⟨⟨hj.south.1, ?_⟩, hj.north, hj.down.trans (hh.kernel _ hj.south.1), ?_⟩
      · exact (hh.iface _ hj.south.1).symm ▸ hj.south.2
      · exact (Held.received_pushRx x.ctl v.south r).symm ▸ hr
    · exact (h.wires v hv).ctl (.pushRx _ fun hmem => absurd (List.mem_singleton.mp hmem).symm hvw)
        (List.mem_singleton_self v.south)

theorem Consistent.steps (h : Consistent x) (hs : Steps C D x y) : Consistent y := by
  induction hs with
  | refl => exact h
  | tail _ hstep ih => exact ih.step hstep

/-- What came in on `t` is the first part of what the kernel took on `s`: then the frames that were
taken out of `t` are the first ones that were written to `s`. -/
theorem gots_prefix {P Q : Iface → Prop} {a b : Connector} {s t : StreamId} (ha : Carried P a) (hb : Carried Q b)
    (hs : s < a.next ∧ P (a.ep s).iface) (ht : t < b.next ∧ Q (b.ep t).iface)
    (hfifo : (b.sock t).received <+: (a.sock s).kernel) : gots t b.log <+: sents s a.log := by
  obtain ⟨fs, hsents, hwritten, -⟩ := ha.wrote s hs.1 hs.2
  have htaken : (b.sock t).taken <+: Frame.encodeAll fs := by
    have hkernel : (a.sock s).kernel <+: (a.sock s).written := List.prefix_append _ _
    exact (((List.prefix_append _ _).trans hfifo).trans hkernel).trans hwritten
  obtain ⟨got, rest, hfs, hgots, -⟩ := hb.took t ht.1 ht.2 fs htaken
  rw [hsents, hgots, hfs, List.map_append]
  exact List.prefix_append _ _

/-- The frames that the segment took out of a wire are the first ones that the controller wrote
to it. -/
theorem Consistent.down (h : Consistent x) (hw : w ∈ x.wires) : gots w.north x.seg.log <+: sents w.south x.ctl.log :=
  gots_prefix h.ctl.carried h.seg.carried (h.wires w hw).south (h.wires w hw).north (h.wires w hw).down

theorem Consistent.up (h : Consistent x) (hw : w ∈ x.wires) : gots w.south x.ctl.log <+: sents w.north x.seg.log :=
  gots_prefix h.seg.carried h.ctl.carried (h.wires w hw).north (h.wires w hw).south (h.wires w hw).up

end Fabric

end cloudbus
