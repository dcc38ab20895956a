-- Reading a transport comes forward: each round of `xmsg_read` and `_route` takes
-- a byte, finds none, or has a complete frame in its hands. A header whose length
-- field is less than the header is the one thing that stops it.
import Cloudbus.ControllerTurns
import Cloudbus.SegmentTurns

namespace cloudbus

open cloudbus.io cloudbus.messages Connector

/-! ## The frame buffer -/

/-- The bytes are a part of the frame that they start, or a header and no more. -/
def Bounded (c : List UInt8) : Prop := c.length ≤ HDRLEN ∨ c.length ≤ (lenAt c).length.toNat

/-- The buffer holds a header, and its length field is too small for the header itself. -/
def Wedged (x : Xmsgstream) : Prop := HDRLEN ≤ x.start.length ∧ (lenAt x.start).length.toNat < HDRLEN

instance (x : Xmsgstream) : Decidable (Wedged x) := inferInstanceAs (Decidable (_ ∧ _))

theorem bounded_nil : Bounded [] := .inl (Nat.zero_le _)

variable {bs : List UInt8} {x : Xmsgstream}

/-- A call of `xmsg_read` leaves the buffer bounded. -/
theorem messages.Reads.bounded {buf buf' : Xmsgstream} {is is' : Sockstream} (h : Reads buf is bs buf' is')
    (hb : Bounded buf.contents) : Bounded buf'.contents := by
  by_cases hbs : bs = []
  · rw [h.contents, hbs, List.append_nil, Xmsgstream.start]
    split
    · exact bounded_nil
    · exact hb
  · rw [Bounded, Xmsgstream.length_contents]
    exact h.bound hbs

theorem Bounded.start (h : Bounded x.contents) : Bounded x.start := by
  unfold Xmsgstream.start
  split
  · exact bounded_nil
  · exact h

/-- A buffer that is neither partial nor wedged holds a frame. -/
theorem frameOf_of_bounded (he : x.eof = false) (hb : Bounded x.contents) (hp : ¬ Partial x.contents)
    (hw : ¬ Wedged x) : ∃ f, frameOf x = some f := by
  have hs : x.start = x.contents := Reader.start_of_not_eof he
  rw [Wedged, hs] at hw
  unfold Bounded at hb
  unfold Partial at hp
  rw [Xmsgstream.length_contents] at hb hp hw
  rw [frameOf, dif_pos (by omega)]
  exact ⟨_, rfl⟩

/-- The frame does not depend on what was read of the buffer. -/
theorem frameOf_congr {y : Xmsgstream} (h : y.contents = x.contents) : frameOf y = frameOf x := by
  have ht : y.tellp = x.tellp := by rw [← Xmsgstream.length_contents, h, Xmsgstream.length_contents]
  simp only [frameOf, h, ht]

/-! ## One round -/

/-- There is no room for the payload of the frame. -/
def NoRoom (s : Sockstream) (f : Frame) : Prop := (MAX_BUFSIZE : Int) - f.payload.length ≤ s.tellp

/-- What a round of the transport `i` came to. Its end of a connection is `own`, and the client or
the service is at `peer`. -/
inductive Forward (own peer : Connection → StreamId) (i : StreamId) (st st' : Connector) : Prop
  /-- Bytes were taken from the source. -/
  | took (bs : List UInt8) : bs ≠ [] → (st'.sock i).taken = (st.sock i).taken ++ bs → Forward own peer i st st'
  /-- The source had no byte. -/
  | dry : (st.sock i).readable = false → Forward own peer i st st'
  /-- A complete frame was delivered, or the transport is gone after it. -/
  | delivered (f : Frame) : frameOf (st'.frame i) = some f → (st'.live i → (st'.frame i).eof) →
      Forward own peer i st st'
  /-- A complete frame waits for room at its destination. -/
  | waits (f : Frame) (c : Connection) : frameOf (st'.frame i) = some f → c ∈ st'.connections →
      own c = i → st'.live (peer c) → NoRoom (st'.sock (peer c)) f → Forward own peer i st st'

/-- What a round does with a complete frame. -/
inductive Handled (own peer : Connection → StreamId) (i : StreamId) (f : Frame) (st st' : Connector) : Prop
  | marked : (st'.live i → (st'.frame i).eof) → Handled own peer i f st st'
  | full (c : Connection) : c ∈ st'.connections → own c = i → st'.live (peer c) →
      NoRoom (st'.sock (peer c)) f → Handled own peer i f st st'

/-- A round is a read, and something that takes no byte and leaves the contents of the buffer. -/
theorem FrameRead.forward {own peer : Connection → StreamId} {i : StreamId} {st a st' : Connector}
    (h : FrameRead i st a bs) (hok : FrameOk (st.frame i)) (hb : Bounded (st.frame i).contents)
    (hw : ¬ Wedged (st.frame i)) (ht : (st'.sock i).taken = (a.sock i).taken)
    (hc : (st'.frame i).contents = (a.frame i).contents)
    (hf : ∀ f, frameOf (a.frame i) = some f → Handled own peer i f st st') : Forward own peer i st st' := by
  by_cases hbs : bs = []
  · by_cases hp : Partial (st.frame i).start
    · exact .dry (h.reads.idle hbs hp)
    · -- nothing was read because the frame was there before
      have hsame : (a.frame i).contents = (st.frame i).start := by
        rw [h.reads.contents, hbs, List.append_nil]
      have he : (a.frame i).eof = false := (h.frameOk hok).2
      have hstart : (a.frame i).start = (st.frame i).start := by
        rw [Reader.start_of_not_eof he, hsame]
      obtain ⟨f, hf1⟩ := frameOf_of_bounded he (by rw [hsame]; exact hb.start) (by rw [hsame]; exact hp)
        (by rw [Wedged, hstart]; exact hw)
      have hf2 : frameOf (st'.frame i) = some f := (frameOf_congr hc).trans hf1
      cases hf f hf1 with
      | marked hm => exact .delivered f hf2 hm
      | full c hmem hown hl hroom => exact .waits f c hf2 hmem hown hl hroom
  · exact .took bs hbs (by rw [ht, h.reads.pulled.taken])

end cloudbus

/-! ## The controller -/

namespace cloudbus.controller

open cloudbus.io cloudbus.messages Connector

variable {C : Call → Connector → Prop} {st st' : Connector}

/-- An act leaves what is in a frame buffer, unless it reads the transport. -/
theorem Act.contents (act : Act C st st') (i : StreamId) :
    (st'.frame i).contents = (st.frame i).contents ∨ ∃ bs, FrameRead i st st' bs := by
  have same : (∀ i, st'.frame i = st.frame i) →
      (st'.frame i).contents = (st.frame i).contents ∨ ∃ bs, FrameRead i st st' bs :=
    fun h => .inl (by rw [h])
  have other : ∀ s, (st'.frame s).contents = (st.frame s).contents → (∀ i, i ≠ s → st'.frame i = st.frame i) →
      (st'.frame i).contents = (st.frame i).contents ∨ ∃ bs, FrameRead i st st' bs := by
    intro s hs ho
    by_cases hi : i = s
    · rw [hi]
      exact .inl hs
    · rw [ho i hi]
      exact .inl rfl
  cases act with
  | quiet hq => exact same hq.frame
  | errors => exact same (Same.takeErrors st _).frame
  | clientRead _ _ _ hr => exact same hr.frame
  | @transportRead s _ _ _ _ _ _ _ _ hr =>
    by_cases hi : i = s
    · rw [hi]
      exact .inr ⟨_, hr.toFrameRead⟩
    · rw [hr.others i hi]
      exact .inl rfl
  | sentAll _ _ _ _ _ hs => exact same hs.frame
  | opened _ _ _ _ _ _ _ _ ho _ => exact same ho.frame
  | refused _ _ _ _ _ hd _ => exact other _ hd.contents hd.others
  | orphan _ _ _ _ _ _ _ _ hd => exact other _ hd.contents hd.others
  | deferred _ _ _ hd => exact other _ hd.contents hd.others
  | delivered _ _ _ _ _ _ _ _ _ hd => exact other _ hd.contents hd.others
  | clientGone _ hg => exact same hg.frame
  | transportGone _ hg => exact same hg.frame
  | shut => exact same fun _ => rfl
  | dialed hd _ _ => exact same hd.frame
  | connectLost _ _ _ _ _ hl => exact same hl.frame
  | pushRx => exact same (Same.pushRx st _ _).frame
  | pushTx => exact same (Same.pushTx st _ _).frame

theorem bounded_preserved : Preserved C fun st => ∀ i, Bounded (st.frame i).contents := by
  intro st st' act h i
  rcases act.contents i with heq | ⟨bs, hr⟩
  · rw [heq]
    exact h i
  · exact hr.reads.bounded (h i)

theorem south_write_full {s n : StreamId} {cid : Nat} {st : Connector} (h : (south_write s n cid st).2 = false) :
    (MAX_BUFSIZE : Int) - ((st.frame s).tellp - (st.frame s).tellg : Nat) ≤
      ((south_write s n cid st).1.sock n).tellp := by
  revert h
  unfold south_write
  split
  · intro h
    cases h
  · dsimp only
    generalize (if (MAX_BUFSIZE : Int) - ((st.frame s).tellp - (st.frame s).tellg : Nat) ≤
      (st.sock n).tellp then st.flushSock n else st) = a
    split
    · intro h
      cases h
    · split
      · intro h
        cases h
      · rename_i hroom
        intro _
        exact Int.not_lt.mp hroom

/-- A frame stays in the buffer when its client has no room. -/
theorem deliver_full {s : StreamId} {f : Frame} {k : Nat} {c : Connection} (hf : frameOf (st.frame s) = some f)
    (hok : FrameOk (st.frame s)) (hnew : (st.frame s).eof = false) (h : (deliver s f k c st).2 = false) :
    NoRoom ((deliver s f k c st).1.sock c.north) f := by
  obtain ⟨hpay, -, -, htell, -, -⟩ := frameOf_some hf
  have hseek : (if (st.frame s).tellg ≤ HDRLEN then HDRLEN else (st.frame s).tellg) = HDRLEN :=
    if_pos (hok.gptr hnew)
  obtain ⟨g1, g2, -, -, -⟩ := seekg_header hf hok.fail
  have hlen : ((st.frame s).seekg HDRLEN).tellp - ((st.frame s).seekg HDRLEN).tellg = f.payload.length := by
    rw [← Xmsgstream.length_contents, g1, g2, Xmsgstream.length_contents, htell]
    omega
  revert h
  unfold deliver
  dsimp only
  rw [hseek]
  by_cases hp : (st.frame s).tellp > HDRLEN
  · rw [if_pos hp]
    have hfull := @south_write_full s c.north c.cid
      ((st.setTrigger c.north Mask.POLLOUT).setFrame s ((st.frame s).seekg HDRLEN))
    rw [frame_setFrame, if_pos rfl, hlen] at hfull
    have hfr : (st.setTrigger c.north Mask.POLLOUT).frame s = st.frame s := rfl
    rw [hfr]
    generalize south_write s c.north c.cid
      ((st.setTrigger c.north Mask.POLLOUT).setFrame s ((st.frame s).seekg HDRLEN)) = w at hfull ⊢
    obtain ⟨st1, b⟩ := w
    cases b with
    | false =>
      intro _
      exact hfull rfl
    | true =>
      intro h
      cases h
  · rw [if_neg hp]
    intro h
    cases h

variable {s : StreamId}

theorem SouthRouted.contents {failed : Bool} (h : SouthRouted s st st' failed) :
    (st'.frame s).contents = (st.frame s).contents := by
  cases h with
  | idle => rfl
  | refused _ _ _ _ hd => exact hd.contents
  | orphan _ _ _ _ _ _ _ _ _ hd => exact hd.contents
  | deferred _ _ _ _ _ _ _ _ hd => exact hd.contents
  | delivered _ _ _ _ _ _ _ _ _ _ _ _ hd => exact hd.contents

/-- A complete frame is marked, or its client has no room. -/
theorem route_south_handled {s : StreamId} {f : Frame} (hf : frameOf (st.frame s) = some f)
    (hok : FrameOk (st.frame s)) (hnew : (st.frame s).eof = false) :
    ((route_south s st).1.frame s).eof ∨ ∃ c ∈ (route_south s st).1.connections, c.south = s ∧
      (route_south s st).1.live c.north ∧ NoRoom ((route_south s st).1.sock c.north) f := by
  obtain ⟨obs, hr, -⟩ := refuse_spec s f st
  unfold route_south
  simp only [hf]
  cases hk : findConn s f.eid st.connections with
  | none => exact .inl hr.frame.2
  | some k =>
    dsimp only
    cases hc : st.connections[k]? with
    | none => exact .inl hr.frame.2
    | some c =>
      dsimp only
      split
      · exact .inl hr.frame.2
      · split
        · exact .inl (mark_dropped s st).frame.2
        · rename_i hl
          split
          · exact .inl hr.frame.2
          · have hd := deliver_spec (k := k) (c := c) hf hok hnew
            have hfull := @deliver_full st s f k c hf hok hnew
            generalize deliver s f k c st = w at hd hfull ⊢
            obtain ⟨st1, b⟩ := w
            rcases hd with ⟨hb, -, hd⟩ | ⟨hb, fed, aborts, hd⟩
            · obtain rfl : b = false := hb
              obtain ⟨hlt, hfound, -⟩ := List.findIdx?_eq_some_iff_getElem.mp hk
              rw [List.getElem?_eq_getElem hlt, Option.some.injEq] at hc
              rw [hc] at hfound
              refine .inr ⟨c, ?_, by simp_all, ?_, hfull rfl⟩
              · rw [hd.connections, ← hc]
                exact List.getElem_mem hlt
              · rw [hd.keeps.live]
                simpa using hl
            · obtain rfl : b = true := hb
              exact .inl hd.frame.2

/-- The read of a transport comes forward, unless its buffer is wedged. -/
theorem callIn_forward (o : Oracle) (hb : Base st) (hif : (st.ep s).iface ≠ .north)
    (hbound : Bounded (st.frame s).contents) (hw : ¬ Wedged (st.frame s)) :
    Forward Connection.south Connection.north s st (callIn s o st) := by
  obtain ⟨bs, hr⟩ := readTransport_spec s st (hb.frame s)
  obtain ⟨hok, hnew⟩ := hr.frameOk (hb.frame s)
  have hroute := route_south_spec hok hnew
  have hhandled := fun f hf => @route_south_handled ((readTransport s st).dropInput s) s f hf hok hnew
  have hcont := hroute.contents
  rw [callIn_south o hif]
  have hk := hroute.keeps
  generalize route_south s ((readTransport s st).dropInput s) = r at hk hhandled hcont ⊢
  obtain ⟨st2, failed⟩ := r
  cases failed with
  | true =>
    obtain ⟨obs, hg⟩ := south_err_handler_spec s st2
    refine hr.forward (hb.frame s) hbound hw ?_ ?_ fun f hf => .marked fun hlive => ?_
    · rw [(hg.kept s).taken]
      exact (hk.kept s).taken
    · rw [hg.frame]
      exact hcont
    · rw [hg.live, if_pos rfl] at hlive
      cases hlive
  | false =>
    refine hr.forward (hb.frame s) hbound hw (hk.kept s).taken hcont fun f hf => ?_
    rcases hhandled f hf with he | ⟨c, hc, hs, hn, hroom⟩
    · exact .marked fun _ => he
    · exact .full c hc hs hn hroom

end cloudbus.controller

/-! ## The segment -/

namespace cloudbus.segment

open cloudbus.io cloudbus.messages Connector

variable {C : Call → Connector → Prop} {st st' : Connector}

/-- An act leaves what is in a frame buffer, unless it reads the transport. -/
theorem Act.contents (act : Act C st st') (i : StreamId) :
    (st'.frame i).contents = (st.frame i).contents ∨ ∃ bs, FrameRead i st st' bs := by
  have same : (∀ i, st'.frame i = st.frame i) →
      (st'.frame i).contents = (st.frame i).contents ∨ ∃ bs, FrameRead i st st' bs :=
    fun h => .inl (by rw [h])
  have other : ∀ t, (st'.frame t).contents = (st.frame t).contents → (∀ i, i ≠ t → st'.frame i = st.frame i) →
      (st'.frame i).contents = (st.frame i).contents ∨ ∃ bs, FrameRead i st st' bs := by
    intro t ht ho
    by_cases hi : i = t
    · rw [hi]
      exact .inl ht
    · rw [ho i hi]
      exact .inl rfl
  cases act with
  | quiet hq => exact same hq.frame
  | errors => exact same (Same.takeErrors st _).frame
  | @frameRead t _ _ _ _ _ _ _ hr =>
    by_cases hi : i = t
    · rw [hi]
      exact .inr ⟨_, hr.toFrameRead⟩
    · rw [hr.others i hi]
      exact .inl rfl
  | chunkRead _ _ _ hr => exact same hr.frame
  | refused _ _ _ _ _ hd _ => exact other _ hd.contents hd.others
  | opened _ _ _ _ _ _ _ _ _ ho => exact other _ ho.contents ho.others
  | deferred _ _ _ hd => exact other _ hd.contents hd.others
  | delivered _ _ _ _ _ _ _ hd => exact other _ hd.contents hd.others
  | idle _ _ _ _ _ _ _ hl _ => exact same hl.frame
  | full _ _ _ hw => exact same hw.frame
  | sent _ _ _ _ _ _ hs hl _ =>
    refine same fun i => ?_
    rw [hl.frame, hs.frame]
  | transportGone _ hg => exact same hg.frame
  | serviceGone _ hg => exact same hg.frame
  | shut => exact same fun _ => rfl
  | dialed hd _ _ => exact same hd.frame
  | connectLost _ _ _ hg => exact same hg.frame
  | pushRx => exact same (Same.pushRx st _ _).frame
  | pushTx => exact same (Same.pushTx st _ _).frame

theorem bounded_preserved : Preserved C fun st => ∀ i, Bounded (st.frame i).contents := by
  intro st st' act h i
  rcases act.contents i with heq | ⟨bs, hr⟩
  · rw [heq]
    exact h i
  · exact hr.reads.bounded (h i)

theorem north_write_full {t v : StreamId} {cid : Nat} {st : Connector} (h : (north_write t v cid st).2 = some false) :
    (MAX_BUFSIZE : Int) - ((st.frame t).tellp - (st.frame t).tellg : Nat) ≤
      ((north_write t v cid st).1.sock v).tellp := by
  revert h
  unfold north_write
  dsimp only
  generalize decide ((MAX_BUFSIZE : Int) - ((st.frame t).tellp - (st.frame t).tellg : Nat) ≤
    (st.sock v).tellp) = flushed
  generalize (if flushed then st.flushSock v else st) = a
  split
  · intro h
    cases h
  · split
    · intro h
      split at h <;> cases h
    · rename_i hroom
      intro _
      exact Int.not_lt.mp hroom

/-- A frame stays in the buffer when its service has no room. -/
theorem deliver_full {t : StreamId} {f : Frame} {k : Nat} {c : Connection} (hf : frameOf (st.frame t) = some f)
    (hok : FrameOk (st.frame t)) (hnew : (st.frame t).eof = false) (h : (deliver t f k c st).2 = false) :
    NoRoom ((deliver t f k c st).1.sock c.south) f := by
  obtain ⟨hpay, -, -, htell, -, -⟩ := frameOf_some hf
  have hseek : (if (st.frame t).tellg ≤ HDRLEN then HDRLEN else (st.frame t).tellg) = HDRLEN :=
    if_pos (hok.gptr hnew)
  obtain ⟨g1, g2, -, -, -⟩ := seekg_header hf hok.fail
  have hlen : ((st.frame t).seekg HDRLEN).tellp - ((st.frame t).seekg HDRLEN).tellg = f.payload.length := by
    rw [← Xmsgstream.length_contents, g1, g2, Xmsgstream.length_contents, htell]
    omega
  have hfr : (st.setTriggerOpen c.south Mask.POLLOUT).frame t = st.frame t :=
    (st.setTriggerOpen_quiet c.south Mask.POLLOUT).frame t
  revert h
  unfold deliver
  dsimp only
  rw [hseek, hfr]
  by_cases hp : (st.frame t).tellp > HDRLEN
  · rw [if_pos hp]
    have hfull := @north_write_full t c.south c.cid
      ((st.setTriggerOpen c.south Mask.POLLOUT).setFrame t ((st.frame t).seekg HDRLEN))
    rw [frame_setFrame, if_pos rfl, hlen] at hfull
    generalize north_write t c.south c.cid
      ((st.setTriggerOpen c.south Mask.POLLOUT).setFrame t ((st.frame t).seekg HDRLEN)) = w at hfull ⊢
    obtain ⟨st1, _ | b⟩ := w
    · intro h
      cases h
    · cases b with
      | false =>
        intro _
        exact hfull rfl
      | true =>
        intro h
        cases h
  · rw [if_neg hp]
    intro h
    cases h

variable {t : StreamId}

theorem NorthRouted.contents {failed : Bool} (h : NorthRouted t st st' failed) :
    (st'.frame t).contents = (st.frame t).contents := by
  cases h with
  | idle => rfl
  | refused _ _ _ _ _ hd => exact hd.contents
  | opened _ _ _ _ _ _ _ ho => exact ho.contents
  | deferred _ _ _ _ _ _ _ _ hd => exact hd.contents
  | delivered _ _ _ _ _ _ _ _ _ hd => exact hd.contents

theorem NorthRouted.taken {failed : Bool} (h : NorthRouted t st st' failed) (hu : t < st.next) :
    (st'.sock t).taken = (st.sock t).taken := by
  cases h with
  | idle => rfl
  | refused _ _ _ _ _ hd => exact (hd.keeps.kept t).taken
  | opened _ _ _ _ _ _ _ ho => exact (ho.kept t (Nat.ne_of_lt hu)).taken
  | deferred _ _ _ _ _ _ _ _ hd => exact (hd.keeps.kept t).taken
  | delivered _ _ _ _ _ _ _ _ _ hd => exact hd.taken t

/-- A frame for no connection is marked, unless its transport is lost. -/
theorem unmatched_marked {t : StreamId} {f : Frame} (fd : Option Int) (hf : frameOf (st.frame t) = some f)
    (hok : FrameOk (st.frame t)) (h : (unmatched fd t f st).2 = false) : ((unmatched fd t f st).1.frame t).eof := by
  obtain ⟨-, -, -, htell, -, -⟩ := frameOf_some hf
  obtain ⟨hd, -⟩ := got_dropped t f st
  have hmark : ((st.mark t).frame t).tellp = (st.frame t).tellp := by simp [mark, Xmsgstream.set_eofbit, Xmsgstream.tellp]
  by_cases hopen : (st.sock t).eof = false ∧ f.type.has INIT ∧ f.payload ≠ []
  · obtain ⟨ho, hbad, -⟩ := @unmatched_opened fd t f st hf hok hopen.1 hopen.2.1 hopen.2.2
    rw [hbad] at h
    exact ho.marked h
  · unfold unmatched
    dsimp only
    split
    · exact hd.frame.2
    · rename_i he
      have hno : ¬ (f.type.has INIT ∧ ((st.mark t).frame t).tellp > HDRLEN) := by
        rintro ⟨hinit, hlong⟩
        rw [hmark, htell] at hlong
        refine hopen ⟨by simpa using he, hinit, fun hnil => ?_⟩
        rw [hnil, List.length_nil] at hlong
        omega
      rw [if_neg hno]
      split
      · exact (hd.answer f.eid).frame.2
      · exact hd.frame.2

/-- A complete frame is marked, its transport is lost, or its service has no room. -/
theorem route_north_handled {t : StreamId} {f : Frame} (fd : Option Int) (hf : frameOf (st.frame t) = some f)
    (hok : FrameOk (st.frame t)) (hnew : (st.frame t).eof = false) (h : (route_north fd t st).2 = false) :
    ((route_north fd t st).1.frame t).eof ∨
      ∃ c ∈ (route_north fd t st).1.connections, c.north = t ∧
        (route_north fd t st).1.live c.south ∧ NoRoom ((route_north fd t st).1.sock c.south) f := by
  have hun := @unmatched_marked st t f fd hf hok
  revert h
  unfold route_north
  simp only [hf]
  cases hk : findConn t f.eid st.connections with
  | none => exact fun h => .inl (hun h)
  | some k =>
    dsimp only
    cases hc : st.connections[k]? with
    | none => exact fun h => .inl (hun h)
    | some c =>
      dsimp only
      split
      · exact fun h => .inl (hun h)
      · split
        · exact fun _ => .inl (mark_dropped t _).frame.2
        · rename_i hl
          have hd := deliver_spec (k := k) (c := c) hf hok hnew
          have hfull := @deliver_full st t f k c hf hok hnew
          generalize deliver t f k c st = w at hd hfull ⊢
          obtain ⟨st1, b⟩ := w
          intro _
          rcases hd with ⟨hb, -, hd⟩ | ⟨hb, fed, hd⟩
          · obtain rfl : b = false := hb
            obtain ⟨hlt, hfound, -⟩ := List.findIdx?_eq_some_iff_getElem.mp hk
            rw [List.getElem?_eq_getElem hlt, Option.some.injEq] at hc
            rw [hc] at hfound
            refine .inr ⟨c, ?_, by simp_all, ?_, hfull rfl⟩
            · rw [hd.connections, ← hc]
              exact List.getElem_mem hlt
            · rw [hd.keeps.live]
              simpa using hl
          · obtain rfl : b = true := hb
            exact .inl hd.frame.2

/-- The read of a transport comes forward, unless its buffer is wedged. -/
theorem callIn_forward (fd : Option Int) (hr : Ready st) (hl : st.live t) (hif : (st.ep t).iface = .north)
    (hbound : Bounded (st.frame t).contents) (hw : ¬ Wedged (st.frame t)) :
    Forward Connection.north Connection.south t st (callIn t fd st) := by
  have hok0 := hr.frames t (.inl hl)
  obtain ⟨bs, hread⟩ := readTransport_spec t st hok0
  obtain ⟨hok, hnew⟩ := hread.frameOk hok0
  have hroute := @route_north_spec fd t _ hok hnew
  have hhandled := fun f hf => @route_north_handled ((readTransport t st).dropInput t) t f fd hf hok hnew
  have hcont := hroute.contents
  have htaken := hroute.taken (by rw [hread.next]; exact hr.used t hl)
  rw [callIn_north fd hif]
  generalize route_north fd t ((readTransport t st).dropInput t) = r at htaken hhandled hcont ⊢
  obtain ⟨st2, failed⟩ := r
  cases failed with
  | true =>
    obtain ⟨obs, hg⟩ := north_err_handler_spec t st2
    refine hread.forward hok0 hbound hw ?_ ?_ fun f hf => .marked fun hlive => ?_
    · rw [(hg.kept t).taken]
      exact htaken
    · rw [hg.frame]
      exact hcont
    · rw [hg.live, if_pos rfl] at hlive
      cases hlive
  | false =>
    refine hread.forward hok0 hbound hw htaken hcont fun f hf => ?_
    rcases hhandled f hf rfl with he | ⟨c, hc, hs, hn, hroom⟩
    · exact .marked fun _ => he
    · exact .full c hc hs hn hroom

end cloudbus.segment

namespace cloudbus

open cloudbus.io cloudbus.messages Connector

/-! ## Both connectors -/

/-- A header with the length 3, and two bytes behind it. -/
def shortHeader : Recv := .data 0 (List.replicate 15 0 ++ [1, 0, 3, 0, 0, 0, 0, 0, 7, 7])

def shortHeaderArrives : List segment.Event := [.env (.accept 5), .env (.rx 0 shortHeader)]

end cloudbus
