-- How a segment finds the session of a frame: it takes the first connection with
-- the eid on the transport. A connection that is closed stays in the table until
-- its service stream is writable, and stands before one that a new INIT makes.
-- Here each eid of a transport has one connection while no INIT comes for a closed
-- one, and then every frame finds its session.
import Cloudbus.HalfClose

namespace cloudbus.segment

open cloudbus.io cloudbus.messages Connector

/-- The connections of a transport have eids of their own. -/
def OwnEids (st : Connector) : Prop :=
  ∀ c ∈ st.connections, ∀ d ∈ st.connections, c.north = d.north → c.uuid = d.uuid → c = d

/-- A frame with INIT names no connection that is closed and still in the table. -/
def InitsAnew : Call → Connector → Prop
  | .inn t _, st => (st.ep t).iface = .north → ∀ f ∈ arriving t st, f.type.has INIT →
      ∀ c ∈ st.connections, c.north = t → c.uuid = f.eid → c.state ≠ .CLOSED
  | _, _ => True

instance (c : Call) (st : Connector) : Decidable (InitsAnew c st) :=
  match c with
  | .inn t _ => inferInstanceAs (Decidable ((st.ep t).iface = .north → ∀ f ∈ arriving t st,
      f.type.has INIT → ∀ c ∈ st.connections, c.north = t → c.uuid = f.eid → c.state ≠ .CLOSED))
  | .out _ => isTrue trivial
  | .env _ => isTrue trivial

/-! ## The table -/

variable {c : Connection} {t : StreamId} {st : Connector}

theorem findConn_eq_none {eid : Uuid} {cs : List Connection} (h : findConn t eid cs = none) (hc : c ∈ cs)
    (ht : c.north = t) : c.uuid ≠ eid := by
  unfold findConn at h
  rw [List.findIdx?_eq_none_iff] at h
  intro he
  have := h c hc
  simp [ht, he] at this

/-- No connection has the eid of a frame that opens a session. -/
theorem unused_of_untaken {C : Call → Connector → Prop} {f : Frame} (hC : ∀ call st, C call st → InitsAnew call st)
    (ht : Taking C t st) (hif : (st.ep t).iface = .north) (hf : frameOf (st.frame t) = some f) (hinit : f.type.has INIT)
    (hun : Untaken t f st) (hc : c ∈ st.connections) (hn : c.north = t) : c.uuid ≠ f.eid := by
  intro he
  rcases hun with hnone | ⟨k, d, hk, hget, hclosed⟩
  · exact findConn_eq_none hnone hc hn he
  · obtain ⟨fd, st0, bs, hcall, -, hr⟩ := ht
    obtain ⟨hdn, hdu⟩ := north_of_findConn hk hget
    have hif0 : (st0.ep t).iface = .north := by
      rw [← hif, hr.eq]
      exact (iface_readTransport t t st0).symm
    have hd := List.mem_of_getElem? hget
    rw [hr.connections] at hd
    exact hC _ _ hcall hif0 f (arriving_of_read hr hf) hinit d hd hdn hdu hclosed

theorem ownEids_lawful {C : Call → Connector → Prop} (hC : ∀ call st, C call st → InitsAnew call st) :
    Lawful C OwnEids := by
  intro st st' obs act hs ht h c hc d hd hn hu
  apply List.inj_on_of_nodup_map ht.cids hc hd
  have hnew : ∀ {c d : Connection} {log : List Obs}, (rules C).opens st st' c log →
      d ∈ st.connections → d.north = c.north → d.uuid ≠ c.uuid := by
    rintro c d log ⟨f, ⟨-, hif, -⟩, htake, hf, hun, -, hinit, -, heq, -⟩ hd hn
    have hune := unused_of_untaken hC htake hif hf hinit hun hd hn
    rw [heq]
    exact hune
  have hcid : ∀ {c : Connection} {log : List Obs}, (rules C).opens st st' c log →
      c.cid = st.ncid := by
    rintro c log ⟨f, -, -, -, -, -, -, -, heq, -⟩
    rw [heq]
    rfl
  -- both are old, or one of them is the new one
  rcases (ht.turn c hc).origin with ⟨c0, hc0, _, rfl, -⟩ | ⟨-, -, hc'⟩ <;>
    rcases (ht.turn d hd).origin with ⟨d0, hd0, _, rfl, -⟩ | ⟨-, -, hd'⟩
  · have hold : c0 = d0 := h c0 hc0 d0 hd0 hn hu
    rw [hold]
  · exact absurd hu (hnew (d := c0) hd' hc0 hn)
  · exact absurd hu.symm (hnew (d := d0) hc' hd0 hn.symm)
  · exact (hcid hc').trans (hcid hd').symm

/-! ## The lookup -/

theorem OwnEids.findConn (h : OwnEids st) (hc : c ∈ st.connections) :
    ∃ k, findConn c.north c.uuid st.connections = some k ∧ st.connections[k]? = some c := by
  cases hk : segment.findConn c.north c.uuid st.connections with
  | none => exact absurd rfl (findConn_eq_none hk hc rfl)
  | some k =>
    have hlt : k < st.connections.length := (List.findIdx?_eq_some_iff_getElem.mp hk).1
    have hget := List.getElem?_eq_getElem hlt
    obtain ⟨hn, hu⟩ := north_of_findConn hk hget
    refine ⟨k, rfl, ?_⟩
    rw [hget, h c hc _ (List.mem_of_getElem? hget) hn.symm hu.symm]

/-- The frame `f` of the transport `t` is for the connection `c`, and for no other: it was
delivered, or it waits in its buffer until the service has room. -/
def Reaches (t : StreamId) (f : Frame) (c : Connection) (st st' : Connector) : Prop :=
  ∃ k, st.connections[k]? = some c ∧
    ((∃ fed, Delivered t f k c st st' fed) ∨
      f.payload ≠ [] ∧ Deferred t st st' ∧ frameOf (st'.frame t) = some f)

theorem frameOf_congr {x y : Xmsgstream} (h : y.contents = x.contents) : frameOf y = frameOf x := by
  have hp : y.tellp = x.tellp := by
    rw [← Xmsgstream.length_contents, ← Xmsgstream.length_contents, h]
  unfold frameOf
  simp only [h, hp]

theorem OwnEids.reaches {fd : Option Int} {f : Frame} (h : OwnEids st) (hready : Ready st) (hl : st.live t)
    (hf : arriving t st = some f) (hc : c ∈ st.connections) (hn : c.north = t) (hu : c.uuid = f.eid)
    (hst : c.state ≠ .CLOSED) : Reaches t f c ((readTransport t st).dropInput t) (north_pollin_handler fd t st).1 := by
  have hok := hready.frames t (.inl hl)
  obtain ⟨bs, hr⟩ := readTransport_spec t st hok
  obtain ⟨hok1, hnew⟩ := hr.frameOk hok
  obtain ⟨k, hk, hget⟩ := h.findConn hc
  have hf1 : frameOf (((readTransport t st).dropInput t).frame t) = some f := by
    rw [(dropInput_quiet (readTransport t st) t).frame]
    exact hf
  rw [← hr.connections] at hk hget
  rw [hn, hu] at hk
  unfold north_pollin_handler
  have hroute := @route_north_spec fd _ _ hok1 hnew
  generalize route_north fd t ((readTransport t st).dropInput t) = r at hroute
  obtain ⟨st', failed⟩ := r
  dsimp only at hroute ⊢
  generalize (readTransport t st).dropInput t = st1 at *
  -- the first connection with the eid is `c`
  have hcase : ∀ {g : Frame}, frameOf (st1.frame t) = some g → Untaken t g st1 → False := by
    intro g hg hun
    have hfg : f = g := Option.some.inj (hf1.symm.trans hg)
    subst hfg
    rcases hun with hnone | ⟨j, d, hj, hgetd, hclosed⟩
    · rw [hk] at hnone
      cases hnone
    · have hjk : k = j := Option.some.inj (hk.symm.trans hj)
      subst hjk
      have hdc : c = d := Option.some.inj (hget.symm.trans hgetd)
      exact hst (hdc ▸ hclosed)
  have hsame : ∀ {g : Frame} {j : Nat} {d : Connection}, frameOf (st1.frame t) = some g →
      segment.findConn t g.eid st1.connections = some j → st1.connections[j]? = some d →
      f = g ∧ k = j ∧ c = d := by
    intro g j d hg hj hgetd
    have hfg : f = g := Option.some.inj (hf1.symm.trans hg)
    subst hfg
    have hjk : k = j := Option.some.inj (hk.symm.trans hj)
    subst hjk
    exact ⟨rfl, rfl, Option.some.inj (hget.symm.trans hgetd)⟩
  cases hroute with
  | idle hnone =>
    rw [hf1] at hnone
    cases hnone
  | refused g obs _ hg hun _ _ => exact (hcase hg hun).elim
  | opened g _ hg hun _ _ _ _ => exact (hcase hg hun).elim
  | deferred g j d _ hg hj hgetd hp hdef =>
    obtain ⟨rfl, rfl, rfl⟩ := hsame hg hj hgetd
    exact ⟨k, hget, .inr ⟨hp, hdef, (frameOf_congr hdef.contents).trans hf1⟩⟩
  | delivered g j d fed _ hg hj hgetd _ hdel =>
    obtain ⟨rfl, rfl, rfl⟩ := hsame hg hj hgetd
    exact ⟨k, hget, .inl ⟨fed, hdel⟩⟩

/-- While no INIT comes for a connection that is closed and not yet removed, a transport
has one open connection for an eid at most, and each later frame with the eid goes to it. -/
theorem a_frame_finds_its_session {st : Connector} (hr : Run InitsAnew st) :
    (∀ c ∈ st.connections, ∀ d ∈ st.connections, c.north = d.north → c.uuid = d.uuid →
      c.state ≠ .CLOSED → d.state ≠ .CLOSED → c = d) ∧
    ∀ ev, (∀ p ∈ calls ev st, InitsAnew p.1 p.2) →
      ∀ t fd s, (.inn t fd, s) ∈ calls ev st → s.live t → (s.ep t).iface = .north →
      ∀ f ∈ arriving t s, ∀ c ∈ s.connections, c.north = t → c.uuid = f.eid → c.state ≠ .CLOSED →
        Reaches t f c ((readTransport t s).dropInput t) (north_pollin_handler fd t s).1 := by
  have hown := (ownEids_lawful fun _ _ h => h).run (fun _ => nofun) hr
  refine ⟨fun c hc d hd hn hu _ _ => hown c hc d hd hn hu, ?_⟩
  intro ev hev t fd s hmem hl _ f hf c hc hn hu hst
  obtain ⟨⟨-, hown'⟩, hready⟩ := (ownEids_lawful fun _ _ h => h).called hr hev hown hmem
  exact hown'.reaches hready hl hf hc hn hu hst

def abortFrame : Frame := ⟨.ofNode 1, ⟨STOP, ABORT⟩, [], Nat.zero_le _⟩

def dataFrame : Frame := ⟨.ofNode 1, ⟨DATA, 0⟩, [2], by simp [MAXCHUNK, UINT16_MAX, HDRLEN]⟩

/-- A session is aborted, its service stream is erased, and the eid is used again. The first
frame of the new session is taken, and the second one is on the transport. -/
def eidUsedAgain : List Event :=
  sessionStarts ++ [.env (.rx 0 abortFrame.recv), .poll 0 Mask.POLLIN none, .poll 1 Mask.POLLOUT none,
    .env (.rx 0 initFrame.recv), .poll 0 Mask.POLLIN (some 21), .env (.rx 0 dataFrame.recv)]

theorem the_new_session_is_found :
    ∃ c ∈ (play eidUsedAgain {}).connections, c.cid = 1 ∧ c.state ≠ .CLOSED ∧
      Reaches 0 dataFrame c
        ((readTransport 0 ((play eidUsedAgain {}).enter 0 Mask.POLLIN)).dropInput 0)
        (north_pollin_handler none 0 ((play eidUsedAgain {}).enter 0 Mask.POLLIN)).1 := by
  refine ⟨⟨.ofNode 1, 0, 2, .HALF_OPEN, 1, []⟩, by decide +kernel, rfl, by decide, ?_⟩
  exact (a_frame_finds_its_session (@Run.after _ eidUsedAgain _ (.init .HALF_DUPLEX)
    (by decide +kernel))).2 (.poll 0 Mask.POLLIN none) (by decide +kernel) 0 none _
    (by decide +kernel) (by decide +kernel) (by decide +kernel) dataFrame (by decide +kernel) _
    (by decide +kernel) rfl (by decide +kernel) (by decide)

/-- The connection of an aborted session is still in the table when its eid comes again. -/
def closedNotRemoved : List Event :=
  sessionStarts ++ [.env (.rx 0 abortFrame.recv), .poll 0 Mask.POLLIN none,
    .env (.rx 0 initFrame.recv), .poll 0 Mask.POLLIN (some 21)]

/-- A second INIT finds the closed connection again and opens a third one, and a DATA frame
is answered with ABORT, although its session is open. -/
theorem a_closed_connection_hides_the_next :
    (∃ st c d, Run (fun _ _ => True) st ∧ c ∈ st.connections ∧ d ∈ st.connections ∧
      c.north = d.north ∧ c.uuid = d.uuid ∧ c.state ≠ .CLOSED ∧ d.state ≠ .CLOSED ∧ c ≠ d) ∧
    ∃ st c, Run (fun _ _ => True) st ∧ c ∈ st.connections ∧ c.north = 0 ∧
      c.uuid = dataFrame.eid ∧ c.state ≠ .CLOSED ∧ arriving 0 st = some dataFrame ∧
      (handle (.poll 0 Mask.POLLIN none) st).log = st.log ++
        [.got none 0 dataFrame.eid dataFrame.type dataFrame.payload,
          .sent none 0 dataFrame.eid abortType [] true] := by
  refine ⟨⟨play (closedNotRemoved ++ [.env (.rx 0 initFrame.recv), .poll 0 Mask.POLLIN (some 22)]) {},
    ⟨.ofNode 1, 0, 2, .HALF_OPEN, 1, []⟩, ⟨.ofNode 1, 0, 3, .HALF_OPEN, 2, []⟩,
    .of_events _ .HALF_DUPLEX, ?_⟩,
    play (closedNotRemoved ++ [.env (.rx 0 dataFrame.recv)]) {},
    ⟨.ofNode 1, 0, 2, .HALF_OPEN, 1, []⟩, .of_events _ .HALF_DUPLEX, ?_⟩
  · decide +kernel
  · decide +kernel

end cloudbus.segment
