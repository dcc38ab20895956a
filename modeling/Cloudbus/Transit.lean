-- What goes through a transport. The bytes that a connector wrote to it are the
-- frames of its log, and the frames that it took out of it are the first frames
-- of what arrived, as long as frames arrive at all.
import Cloudbus.Isolation

namespace cloudbus

open cloudbus.io cloudbus.messages Connector

/-! ## Frames in the log -/

/-- A frame as the log has it. -/
structure Packet where
  eid : Uuid
  type : Msgtype
  payload : List UInt8
deriving DecidableEq, Repr

def Frame.packet (f : Frame) : Packet := ⟨f.eid, f.type, f.payload⟩

/-- The frame that was written to the stream `s`. -/
def Obs.sentTo (s : StreamId) : Obs → Option Packet
  | .sent _ dst eid type payload ok => if dst = s ∧ ok then some ⟨eid, type, payload⟩ else none
  | _ => none

/-- The frame that was taken out of the stream `s`. -/
def Obs.gotFrom (s : StreamId) : Obs → Option Packet
  | .got _ src eid type payload => if src = s then some ⟨eid, type, payload⟩ else none
  | _ => none

def sents (s : StreamId) (log : List Obs) : List Packet := log.filterMap (Obs.sentTo s)
def gots (s : StreamId) (log : List Obs) : List Packet := log.filterMap (Obs.gotFrom s)

theorem sents_append (s : StreamId) (a b : List Obs) : sents s (a ++ b) = sents s a ++ sents s b :=
  List.filterMap_append

theorem gots_append (s : StreamId) (a b : List Obs) : gots s (a ++ b) = gots s a ++ gots s b :=
  List.filterMap_append

variable {s : StreamId} {obs : List Obs} {bs : List UInt8} {st st' : Connector}

theorem gots_eq_nil (h : ∀ o ∈ obs, o.gotFrom s = none) : gots s obs = [] :=
  List.filterMap_eq_nil_iff.mpr h

/-- What the entry puts on the stream `s` is a frame. -/
def Obs.Framed (s : StreamId) : Obs → Prop
  | .sent _ _ _ _ payload _ => payload.length ≤ MAXCHUNK
  | .fed _ _ dst _ _ => dst ≠ s
  | _ => True

theorem encodeAll_append (a b : List Frame) : Frame.encodeAll (a ++ b) = Frame.encodeAll a ++ Frame.encodeAll b :=
  List.flatMap_append

/-- The bytes that the entries put on the stream are those of their frames. -/
theorem frames_of_framed (h : ∀ o ∈ obs, o.Framed s) :
    ∃ fs : List Frame, sents s obs = fs.map Frame.packet ∧ outBytes s obs = Frame.encodeAll fs := by
  induction obs with
  | nil => exact ⟨[], rfl, rfl⟩
  | cons o obs ih =>
    obtain ⟨fs, hs, hb⟩ := ih fun o ho => h o (List.mem_cons_of_mem _ ho)
    have ho := h o List.mem_cons_self
    have hcons : ∀ p, o.sentTo s = p → sents s (o :: obs) = p.toList ++ sents s obs := by
      rintro p rfl
      unfold sents
      rw [List.filterMap_cons]
      cases o.sentTo s <;> rfl
    have hout : outBytes s (o :: obs) = o.bytes s ++ outBytes s obs := rfl
    cases o with
    | sent cid dst eid type payload ok =>
      by_cases hd : dst = s ∧ ok
      · refine ⟨⟨eid, type, payload, ho⟩ :: fs, ?_, ?_⟩
        · rw [hcons _ (if_pos hd), hs]
          rfl
        · rw [hout, hb]
          exact congrArg (· ++ _) (if_pos hd)
      · refine ⟨fs, ?_, ?_⟩
        · rw [hcons _ (if_neg hd), hs]
          rfl
        · rw [hout, hb]
          exact congrArg (· ++ _) (if_neg hd)
    | fed cid src dst payload ok =>
      refine ⟨fs, (hcons _ rfl).trans hs, ?_⟩
      rw [hout, hb]
      exact congrArg (· ++ _) (if_neg fun h => ho h.1)
    | opened => exact ⟨fs, (hcons _ rfl).trans hs, hb⟩
    | got => exact ⟨fs, (hcons _ rfl).trans hs, hb⟩
    | failed => exact ⟨fs, (hcons _ rfl).trans hs, hb⟩
    | shut => exact ⟨fs, (hcons _ rfl).trans hs, hb⟩
    | erased => exact ⟨fs, (hcons _ rfl).trans hs, hb⟩

/-! ## What was written -/

/-- The bytes that were written to the stream are those of the frames in the log. When the
stream went bad in a frame, a part of it may be missing. -/
def Wrote (st : Connector) (s : StreamId) : Prop :=
  ∃ fs : List Frame, sents s st.log = fs.map Frame.packet ∧
    (st.sock s).written <+: Frame.encodeAll fs ∧
    ((st.sock s).bad = false → (st.sock s).written = Frame.encodeAll fs)

/-- What happens to the writing half of a stream while `bs` is written. -/
structure Passed (s : Sockstream) (bs : List UInt8) (s' : Sockstream) : Prop where
  bad : s.bad → s'.bad
  some : ∃ k, s'.written = s.written ++ bs.take k
  all : s'.bad = false → s'.written = s.written ++ bs
  none : s.bad → bs = []

variable {s' : Sockstream} {f : Frame}

theorem Passed.of_ran {s : Sockstream} (h : Ran s bs s') : Passed s bs s' :=
  ⟨h.bad, h.some, h.all, h.none⟩

theorem Passed.of_same {s : Sockstream} (hw : s'.written = s.written) (hb : s.bad → s'.bad) : Passed s [] s' :=
  ⟨hb, ⟨0, by simp [hw]⟩, fun _ => by simp [hw], fun _ => rfl⟩

theorem Wrote.step {st st' : Connector} {s : StreamId} {obs : List Obs} (h : Wrote st s)
    (hlog : st'.log = st.log ++ obs) (hp : Passed (st.sock s) (outBytes s obs) (st'.sock s))
    (hobs : ∀ o ∈ obs, o.Framed s) : Wrote st' s := by
  obtain ⟨fs, hs, hle, heq⟩ := h
  obtain ⟨gs, hs', hb⟩ := frames_of_framed hobs
  rw [hb] at hp
  refine ⟨fs ++ gs, ?_, ?_, fun hbad => ?_⟩
  · rw [hlog, sents_append, hs, hs', List.map_append]
  · obtain ⟨k, hk⟩ := hp.some
    rw [hk, encodeAll_append]
    cases hbad : (st.sock s).bad with
    | true =>
      rw [hp.none hbad, List.take_nil, List.append_nil, List.append_nil]
      exact hle
    | false =>
      rw [heq hbad]
      exact (List.prefix_append_right_inj _).mpr (List.take_prefix _ _)
  · have hbad0 : (st.sock s).bad = false := by
      by_contra h0
      rw [Bool.not_eq_false] at h0
      rw [hp.bad h0] at hbad
      cases hbad
    rw [hp.all hbad, heq hbad0, encodeAll_append]

/-! ## What was taken -/

/-- While frames arrive on the stream, those that were taken out of it are the first ones, and
what else was read is in its frame buffer. -/
def Took (st : Connector) (s : StreamId) : Prop :=
  ∀ fs : List Frame, (st.sock s).taken <+: Frame.encodeAll fs →
    ∃ got rest, fs = got ++ rest ∧ gots s st.log = got.map Frame.packet ∧
      (st.live s → (st.sock s).taken = Frame.encodeAll got ++ (st.frame s).start)

/-- What happens to a stream as a source of frames. -/
inductive Draws (s : StreamId) (st st' : Connector) (obs : List Obs) : Prop
  /-- Bytes may have been read into its frame buffer. -/
  | read (bs : List UInt8) : gots s obs = [] → (st'.sock s).taken = (st.sock s).taken ++ bs →
      (st'.live s → (st'.frame s).start = (st.frame s).start ++ bs) → Draws s st st' obs
  /-- Its frame was taken. -/
  | took (f : Frame) : st.live s → frameOf (st.frame s) = some f → (st.frame s).eof = false →
      gots s obs = [f.packet] → (st'.sock s).taken = (st.sock s).taken →
      (st'.live s → (st'.frame s).start = []) → Draws s st st' obs

/-- The frame in the buffer is the next one that arrived. -/
theorem next_frame {x : Xmsgstream} {rest : List Frame} (hf : frameOf x = some f)
    (h : x.contents <+: Frame.encodeAll rest) : ∃ gs, rest = f :: gs ∧ x.contents = f.encode := by
  have hp : ¬ Partial x.contents := fun hp => by
    rw [frameOf_eq_none hp] at hf
    cases hf
  obtain ⟨-, -, -, -, hlen, -⟩ := frameOf_some hf
  obtain ⟨g, gs, hrest, hc, hg⟩ := frameOf_eq h hp (.inr (Nat.le_of_eq hlen.symm))
  rw [hf] at hg
  cases hg
  exact ⟨gs, hrest, hc⟩

theorem Took.step {st st' : Connector} {s : StreamId} {obs : List Obs} (h : Took st s)
    (hlog : st'.log = st.log ++ obs) (hl : st'.live s → st.live s)
    (hd : Draws s st st' obs) : Took st' s := by
  intro fs hfs
  cases hd with
  | read bs hg ht hstart =>
    rw [ht] at hfs
    obtain ⟨got, rest, hfs', hgot, hbuf⟩ := h fs ((List.prefix_append _ _).trans hfs)
    refine ⟨got, rest, hfs', ?_, fun hl' => ?_⟩
    · rw [hlog, gots_append, hg, List.append_nil, hgot]
    · rw [ht, hstart hl', hbuf (hl hl'), List.append_assoc]
  | took f hlive hf heof hg ht hstart =>
    rw [ht] at hfs
    obtain ⟨got, rest, hfs', hgot, hbuf⟩ := h fs hfs
    have hstart0 : (st.frame s).start = (st.frame s).contents := Reader.start_of_not_eof heof
    have htaken := hbuf hlive
    rw [hstart0] at htaken
    have hnext : (st.frame s).contents <+: Frame.encodeAll rest := by
      rw [htaken, hfs', encodeAll_append] at hfs
      exact (List.prefix_append_right_inj _).mp hfs
    obtain ⟨gs, hrest, hc⟩ := next_frame hf hnext
    refine ⟨got ++ [f], gs, ?_, ?_, fun hl' => ?_⟩
    · rw [hfs', hrest, List.append_assoc]
      rfl
    · rw [hlog, gots_append, hg, hgot, List.map_append]
      rfl
    · rw [ht, htaken, hstart hl', encodeAll_append, hc, List.append_nil]
      simp [Frame.encodeAll]

/-- Nothing is taken, and nothing is read. -/
theorem Draws.of_same (hg : gots s obs = []) (ht : (st'.sock s).taken = (st.sock s).taken)
    (hf : st'.frame s = st.frame s) : Draws s st st' obs :=
  .read [] hg (ht.trans (List.append_nil _).symm) fun _ => by rw [hf, List.append_nil]

/-! ## The transports of a connector -/

/-- An entry of the log speaks of streams that were given out, and feeds no transport. `P` tells
the transports by their interface. -/
def Obs.Known (P : Iface → Prop) (st : Connector) : Obs → Prop
  | .sent _ dst _ _ payload _ => dst < st.next ∧ payload.length ≤ MAXCHUNK
  | .got _ src _ _ _ => src < st.next
  | .fed _ _ dst _ _ => dst < st.next → ¬ P (st.ep dst).iface
  | _ => True

/-- What the transports carried is in the log, and chunks fit into a frame. -/
structure Carried (P : Iface → Prop) (st : Connector) : Prop where
  small : ∀ i, (st.chunk i).ppos ≤ MAXCHUNK
  wrote : ∀ s, s < st.next → P (st.ep s).iface → Wrote st s
  took : ∀ s, s < st.next → P (st.ep s).iface → Took st s
  unborn : ∀ s, st.next ≤ s → sents s st.log = [] ∧ gots s st.log = [] ∧ (st.frame s).start = []

namespace Carried

variable {P : Iface → Prop} {st st' : Connector} {obs : List Obs}

theorem init (P : Iface → Prop) (mode : Mode) : Carried P { mode := mode } :=
  ⟨fun _ => Nat.zero_le _, fun _ => nofun, fun _ => nofun, fun _ _ => ⟨rfl, rfl, rfl⟩⟩

variable {s : StreamId}

theorem framed {o : Obs} (ho : o.Known P st) (hs : s < st.next) (hP : P (st.ep s).iface) : o.Framed s := by
  cases o with
  | sent => exact ho.2
  | fed =>
    rintro rfl
    exact ho hs hP
  | _ => trivial

theorem not_unborn (hs : st.next ≤ s) (ho : ∀ o ∈ obs, o.Known P st) : sents s obs = [] ∧ gots s obs = [] := by
  refine ⟨List.filterMap_eq_nil_iff.mpr fun o hmem => ?_, gots_eq_nil fun o hmem => ?_⟩
  · cases o with
    | sent _ dst _ _ _ _ =>
      refine if_neg fun h => ?_
      exact Nat.not_le.mpr (ho _ hmem).1 (h.1 ▸ hs)
    | _ => rfl
  · cases o with
    | got _ src _ _ _ =>
      refine if_neg fun h => ?_
      exact Nat.not_le.mpr (ho _ hmem) (h ▸ hs)
    | _ => rfl

/-- Streams that are made are no transports. -/
theorem step (h : Carried P st) (hlog : st'.log = st.log ++ obs) (hn : st.next ≤ st'.next)
    (hmade : ∀ i, st.next ≤ i → i < st'.next → ¬ P (st'.ep i).iface)
    (hi : ∀ i, i < st.next → (st'.ep i).iface = (st.ep i).iface)
    (hlive : ∀ i, st'.live i → st.live i ∨ st.next ≤ i) (hsmall : ∀ i, (st'.chunk i).ppos ≤ MAXCHUNK)
    (ho : ∀ o ∈ obs, o.Known P st)
    (hp : ∀ s, s < st.next → P (st.ep s).iface → Passed (st.sock s) (outBytes s obs) (st'.sock s))
    (hd : ∀ s, s < st.next → P (st.ep s).iface → Draws s st st' obs)
    (hf : ∀ s, st.next ≤ s → st'.frame s = st.frame s) : Carried P st' where
  small := hsmall
  wrote s hs hP := by
    by_cases hold : s < st.next
    · rw [hi s hold] at hP
      exact (h.wrote s hold hP).step hlog (hp s hold hP) fun o hmem => framed (ho o hmem) hold hP
    · exact absurd hP (hmade s (Nat.le_of_not_lt hold) hs)
  took s hs hP := by
    by_cases hold : s < st.next
    · rw [hi s hold] at hP
      exact (h.took s hold hP).step hlog (fun hl => (hlive s hl).resolve_right (Nat.not_le.mpr hold)) (hd s hold hP)
    · exact absurd hP (hmade s (Nat.le_of_not_lt hold) hs)
  unborn s hs := by
    have hs0 := Nat.le_trans hn hs
    obtain ⟨h1, h2, h3⟩ := h.unborn s hs0
    obtain ⟨o1, o2⟩ := not_unborn hs0 ho
    rw [hlog, sents_append, gots_append, h1, h2, o1, o2, hf s hs0]
    exact ⟨rfl, rfl, h3⟩

/-- An effect that reads no stream. -/
theorem effect (h : Carried P st) (he : Effect st st' obs) (hn : st'.next = st.next)
    (hsmall : ∀ i, (st'.chunk i).ppos ≤ MAXCHUNK) (ho : ∀ o ∈ obs, o.Known P st)
    (hd : ∀ s, s < st.next → P (st.ep s).iface → Draws s st st' obs)
    (hf : ∀ s, st.next ≤ s → st'.frame s = st.frame s) : Carried P st' :=
  h.step he.log he.next (fun _ hi hi' => absurd (hn ▸ hi') (Nat.not_lt.mpr hi)) he.iface he.live hsmall ho
    (fun s hs _ => .of_ran (he.ran s hs)) hd hf

/-- An effect that takes no frame. -/
theorem keeps (h : Carried P st) (he : Effect st st' obs) (hn : st'.next = st.next)
    (ht : ∀ i, (st'.sock i).taken = (st.sock i).taken) (hsmall : ∀ i, (st'.chunk i).ppos ≤ MAXCHUNK)
    (ho : ∀ o ∈ obs, o.Known P st) (hgot : ∀ s, gots s obs = []) (hf : ∀ i, st'.frame i = st.frame i) :
    Carried P st' :=
  h.effect he hn hsmall ho (fun s _ _ => .of_same (hgot s) (ht s) (hf s)) fun s _ => hf s

theorem quiet (h : Carried P st) (hq : Quiet st st') : Carried P st' :=
  h.keeps hq.effect hq.keeps.next (fun i => (hq.keeps.kept i).taken) (fun i => by rw [hq.chunk]; exact h.small i)
    nofun (fun _ => rfl) hq.frame

/-- Streams may be made, and no byte moves. -/
theorem dialed (h : Carried P st) (hd : Dialed st st') : Carried P st' := by
  have hlog : st'.log = st.log := by simpa using hd.effect.log
  refine ⟨fun i => by rw [hd.chunk]; exact h.small i, fun s hs hP => ?_, fun s hs hP => ?_, fun s hs => ?_⟩
  · by_cases hold : s < st.next
    · rw [hd.effect.iface s hold] at hP
      exact (h.wrote s hold hP).step (hlog.trans (List.append_nil _).symm) (.of_ran (hd.effect.ran s hold)) nofun
    · obtain ⟨fd, rx, tx, hborn⟩ := hd.born s (Nat.le_of_not_lt hold) hs
      refine ⟨[], ?_, ?_, fun _ => ?_⟩
      · rw [hlog]
        exact (h.unborn s (Nat.le_of_not_lt hold)).1
      · rw [hborn]
        exact List.prefix_refl _
      · rw [hborn]
        rfl
  · by_cases hold : s < st.next
    · rw [hd.effect.iface s hold] at hP
      exact (h.took s hold hP).step (hlog.trans (List.append_nil _).symm)
        (fun hl => (hd.effect.live s hl).resolve_right (Nat.not_le.mpr hold))
        (.of_same rfl (hd.taken hold) (hd.frame s))
    · obtain ⟨fd, rx, tx, hborn⟩ := hd.born s (Nat.le_of_not_lt hold) hs
      obtain ⟨-, hg, hstart⟩ := h.unborn s (Nat.le_of_not_lt hold)
      refine fun fs _ => ⟨[], fs, rfl, ?_, fun _ => ?_⟩
      · rw [hlog]
        exact hg
      · rw [hborn, hd.frame, hstart]
        rfl
  · rw [hlog, hd.frame]
    exact h.unborn s (Nat.le_trans hd.effect.next hs)

/-- The frame `f` of the transport `s` is taken. -/
theorem take (h : Carried P st) {f : Frame} (hl : st.live s) (hs : s < st.next) (hf : frameOf (st.frame s) = some f)
    (hnew : (st.frame s).eof = false) (he : Effect st st' obs) (hn : st'.next = st.next)
    (ht : ∀ i, (st'.sock i).taken = (st.sock i).taken) (hchunk : ∀ i, st'.chunk i = st.chunk i)
    (ho : ∀ o ∈ obs, o.Known P st) (hg : ∀ i, gots i obs = if i = s then [f.packet] else [])
    (hmark : st'.live s → (st'.frame s).eof = true) (hothers : ∀ i, i ≠ s → st'.frame i = st.frame i) :
    Carried P st' := by
  refine h.effect he hn (fun i => by rw [hchunk]; exact h.small i) ho (fun i _ _ => ?_)
    fun i hi => hothers i fun heq => Nat.not_le.mpr hs (heq ▸ hi)
  by_cases hi : i = s
  · subst hi
    exact .took f hl hf hnew ((hg i).trans (if_pos rfl)) (ht i) fun hl' => if_pos (hmark hl')
  · exact .of_same ((hg i).trans (if_neg hi)) (ht i) (hothers i hi)

variable {i : StreamId}

/-- The kernel has answers for a stream. -/
theorem setSock (h : Carried P st) {s : Sockstream} (hw : s.written = (st.sock i).written)
    (hb : s.bad = (st.sock i).bad) (ht : s.taken = (st.sock i).taken) : Carried P (st.setSock i s) := by
  have hsock : ∀ j, ((st.setSock i s).sock j).written = (st.sock j).written ∧
      ((st.setSock i s).sock j).bad = (st.sock j).bad ∧ ((st.setSock i s).sock j).taken = (st.sock j).taken := by
    intro j
    rw [sock_setSock]
    split
    · rename_i hj
      rw [hj]
      exact ⟨hw, hb, ht⟩
    · exact ⟨rfl, rfl, rfl⟩
  refine h.step (List.append_nil _).symm (Nat.le_refl _) (fun j hj hj' => absurd hj' (Nat.not_lt.mpr hj))
    (fun j _ => iface_setSock st i j s)
    (fun j hl => .inl (by rwa [live_setSock] at hl)) (fun j => by rw [chunk_setSock]; exact h.small j) nofun
    (fun j _ _ => .of_same (hsock j).1 fun hbad => by rw [(hsock j).2.1]; exact hbad)
    (fun j _ _ => .of_same rfl (hsock j).2.2 (frame_setSock st i j s)) fun j _ => frame_setSock st i j s

/-- A stream is erased. -/
theorem gone (h : Carried P st) {hit : Connection → Bool} {upd : Connection → Connection} {keep : Connection → Bool}
    {R : Connection → Obs → Prop} (hg : Gone i hit upd keep R st st' obs) (ho : ∀ o ∈ obs, o.Known P st)
    (hgot : ∀ s, gots s obs = []) : Carried P st' := by
  refine h.keeps hg.effect hg.next (fun j => (hg.kept j).taken) (fun j => by rw [hg.chunk]; exact h.small j)
    (fun o hmem => ?_) (fun s => ?_) hg.frame
  · rcases List.mem_append.mp hmem with hmem | hmem
    · exact ho o hmem
    · rw [List.mem_singleton.mp hmem]
      trivial
  · rw [gots_append, hgot]
    rfl

end Carried

theorem Chunked.small {buf buf' : Stringstream} {is is' : Sockstream} (h : Chunked buf is bs buf' is')
    (hs : buf.ppos ≤ MAXCHUNK) : buf'.ppos ≤ MAXCHUNK := by
  by_cases hp : buf.pending = []
  · have hlen := congrArg List.length (h.fresh hp).1
    rw [Stringstream.chunk, List.length_take, Nat.min_eq_left buf'.ppos_le] at hlen
    rw [hlen]
    exact h.bound
  · rw [(h.held hp).2.1]
    exact hs

theorem gots_got (i s : StreamId) (cid : Option Nat) (f : Frame) (h : gots i obs = []) :
    gots i (.got cid s f.eid f.type f.payload :: obs) = if i = s then [f.packet] else [] := by
  unfold gots at h ⊢
  rw [List.filterMap_cons, h]
  by_cases hi : s = i
  · rw [if_pos hi.symm, Obs.gotFrom, if_pos hi]
    rfl
  · rw [if_neg fun h => hi h.symm, Obs.gotFrom, if_neg hi]

/-- A frame that nobody takes is taken all the same. -/
theorem known_of_refusal (P : Iface → Prop) (hs : s < st.next) (h : refusal s f st obs) :
    (∀ o ∈ obs, o.Known P st) ∧ ∀ i, gots i obs = if i = s then [f.packet] else [] := by
  unfold refusal at h
  split at h
  · obtain ⟨ok, rfl⟩ := h
    refine ⟨fun o ho => ?_, fun i => gots_got i s none f rfl⟩
    rcases List.mem_pair.mp ho with rfl | rfl
    · exact hs
    · exact ⟨hs, Nat.zero_le _⟩
  · subst h
    refine ⟨fun o ho => ?_, fun i => gots_got i s none f rfl⟩
    rw [List.mem_singleton.mp ho]
    exact hs

/-- What is fed is not taken. -/
theorem known_of_feed (P : Iface → Prop) (st : Connector) {cid : Nat} {src dst : StreamId} {payload : List UInt8}
    {a b : Connector} (hd : dst < st.next → ¬ P (st.ep dst).iface) (h : Feed cid src dst payload a b obs) :
    (∀ o ∈ obs, o.Known P st) ∧ ∀ i, gots i obs = [] := by
  cases h with
  | none => exact ⟨nofun, fun _ => rfl⟩
  | fed ok =>
    refine ⟨fun o ho => ?_, fun _ => rfl⟩
    rw [List.mem_singleton.mp ho]
    exact hd

theorem FrameRead.fresh (h : FrameRead s st st' bs) : (st'.frame s).eof = false := by
  rw [Xmsgstream.eof, h.reads.rdstate]

theorem FrameRead.draws (h : FrameRead s st st' bs) (i : StreamId) : Draws i st st' [] := by
  by_cases hi : i = s
  · subst hi
    refine .read bs rfl h.reads.pulled.taken fun _ => ?_
    rw [Reader.start_of_not_eof h.fresh, h.reads.contents]
  · exact .of_same rfl (by rw [h.socks i hi]) (h.others i hi)

namespace Carried

variable {P : Iface → Prop} {st st' : Connector}

/-- A transport is read. -/
theorem frameRead (h : Carried P st) {s : StreamId} {bs : List UInt8} (hs : s < st.next)
    (hr : FrameRead s st st' bs) : Carried P st' := by
  refine h.effect hr.effect hr.next (fun i => by rw [hr.chunk]; exact h.small i) nofun (fun i _ _ => hr.draws i)
    fun i hi => hr.others i ?_
  rintro rfl
  exact Nat.not_le.mpr hs hi

/-- A client or a service is read. -/
theorem chunkRead (h : Carried P st) {n : StreamId} {bs : List UInt8} (hn : ¬ P (st.ep n).iface)
    (hr : ChunkRead n st st' bs) : Carried P st' := by
  refine h.effect hr.effect hr.next (fun i => ?_) nofun (fun i _ hP => ?_) fun i _ => hr.frame i
  · by_cases hi : i = n
    · subst hi
      exact hr.chunked.small (h.small i)
    · rw [hr.others i hi]
      exact h.small i
  · have hne : i ≠ n := by
      rintro rfl
      exact hn hP
    exact .of_same rfl (by rw [hr.socks i hne]) (hr.frame i)

/-- The frame of a transport stays where it is. -/
theorem deferred (h : Carried P st) {s : StreamId} (hs : s < st.next) (hnew : (st.frame s).eof = false)
    (hd : Deferred s st st') : Carried P st' := by
  refine h.effect hd.effect hd.keeps.next (fun i => by rw [hd.chunk]; exact h.small i) nofun (fun i _ _ => ?_)
    fun i hi => hd.others i ?_
  · by_cases hi : i = s
    · subst hi
      refine .read [] rfl ((hd.keeps.kept i).taken.trans (List.append_nil _).symm) fun _ => ?_
      rw [Reader.start_of_not_eof hd.frame.2, Reader.start_of_not_eof hnew, hd.contents, List.append_nil]
    · exact .of_same rfl (hd.keeps.kept i).taken (hd.others i hi)
  · rintro rfl
    exact Nat.not_le.mpr hs hi

/-- A frame is dropped. -/
theorem dropped (h : Carried P st) {s : StreamId} {f : Frame} {obs : List Obs} (hl : st.live s) (hs : s < st.next)
    (hf : frameOf (st.frame s) = some f) (hnew : (st.frame s).eof = false) (hd : Dropped s st st' obs)
    (ho : ∀ o ∈ obs, o.Known P st) (hg : ∀ i, gots i obs = if i = s then [f.packet] else []) : Carried P st' :=
  h.take hl hs hf hnew hd.effect hd.keeps.next (fun i => (hd.keeps.kept i).taken) hd.chunk ho hg
    (fun _ => hd.frame.2) hd.others

end Carried

/-! ## The controller -/

namespace controller

variable {C : Call → Connector → Prop} {st st' : Connector}

/-- The transports of the controller are its streams to the backends. -/
def Transport (f : Iface) : Prop := f ≠ .north

variable {cs : List Connection}

theorem known_of_sent (P : Iface → Prop) (st : Connector) {type : Msgtype} {payload : List UInt8}
    (hs : ∀ c ∈ cs, c.south < st.next) (hp : payload.length ≤ MAXCHUNK)
    (h : List.Forall₂ (chunkSent type payload) cs obs) : (∀ o ∈ obs, o.Known P st) ∧ ∀ s, gots s obs = [] := by
  refine ⟨fun o ho => ?_, fun s => gots_eq_nil fun o ho => ?_⟩
  · obtain ⟨c, hc, ok, rfl⟩ := exists_of_forall₂ h ho
    exact ⟨hs c hc, hp⟩
  · obtain ⟨c, hc, ok, rfl⟩ := exists_of_forall₂ h ho
    rfl

theorem known_of_aborts (P : Iface → Prop) (st : Connector) (hs : ∀ c ∈ cs, c.south < st.next)
    (h : List.Forall₂ abortSent cs obs) : (∀ o ∈ obs, o.Known P st) ∧ ∀ s, gots s obs = [] := by
  refine ⟨fun o ho => ?_, fun s => gots_eq_nil fun o ho => ?_⟩
  · obtain ⟨c, hc, eid, ok, rfl, -⟩ := exists_of_forall₂ h ho
    exact ⟨hs c hc, Nat.zero_le _⟩
  · obtain ⟨c, hc, eid, ok, rfl, -⟩ := exists_of_forall₂ h ho
    rfl

theorem carried_lawful : Lawful C fun st => Sides st ∧ Carried Transport st := by
  intro st st' obs0 act hs ht ⟨hsides, h⟩
  refine ⟨sides_lawful act hs ht hsides, ?_⟩
  cases act with
  | quiet hq => exact h.quiet hq
  | @errors i st =>
    have hsame := Same.takeErrors st i
    exact h.keeps (st.takeErrors_effect i) hsame.next hsame.taken (fun i => by rw [hsame.chunk]; exact h.small i)
      nofun (fun _ => rfl) hsame.frame
  | clientRead _ _ hif hr => exact h.chunkRead (fun hP => hP hif) hr
  | transportRead _ hl _ hr => exact h.frameRead (hs.used _ hl) hr.toFrameRead
  | @sentAll n o _ _ a b bs obs _ _ _ _ _ hsent =>
    obtain ⟨hknown, hgot⟩ := known_of_sent Transport st
      (fun c hc => hs.souths c (List.mem_of_mem_filter hc))
      (by rw [Stringstream.chunk_length]; exact h.small n) hsent.sent
    exact h.keeps hsent.effect hsent.keeps.next (fun i => (hsent.keeps.kept i).taken)
      (fun i => by rw [(hsent.chunk i).2]; exact h.small i) hknown hgot hsent.frame
  | @opened n o _ _ a b bs cs obs _ _ _ _ _ _ _ _ ho hsent =>
    obtain ⟨st1, hd, hk, he⟩ := ho.dials
    have hpay : (st.chunk n).chunk.length ≤ MAXCHUNK := by rw [Stringstream.chunk_length]; exact h.small n
    have hinit : (∀ o ∈ obs, o.Known Transport st1) ∧ ∀ s, gots s obs = [] := by
      rcases hsent with ⟨rfl, -⟩ | hsent
      · exact ⟨nofun, fun _ => rfl⟩
      · exact known_of_sent Transport st1 hd.souths hpay hsent.sent
    have hopened : ∀ o ∈ cs.map fun c => Obs.opened c.north c.cid, o.Known Transport st1 ∧ ∀ s, o.gotFrom s = none := by
      intro o ho
      obtain ⟨c, -, rfl⟩ := List.mem_map.mp ho
      exact ⟨trivial, fun _ => rfl⟩
    refine (h.dialed hd.dialed).keeps he hk.next (fun i => (hk.kept i).taken)
      (fun i => by rw [(ho.chunk i).2]; exact h.small i) (fun o hmem => ?_) (fun s => ?_)
      fun i => (ho.frame i).trans (hd.dialed.frame i).symm
    · rcases List.mem_append.mp hmem with hmem | hmem
      · exact hinit.1 o hmem
      · exact (hopened o hmem).1
    · rw [gots_append, hinit.2, gots_eq_nil fun o hmem => (hopened o hmem).2 s]
      rfl
  | @refused s o st0 _ _ bs f obs _ hl hr hf _ hd href =>
    have hls : st.live s := by rw [hr.live]; exact hl
    obtain ⟨hknown, hgot⟩ := known_of_refusal Transport (hs.used s hls) href
    exact h.dropped hls (hs.used s hls) hf hr.fresh hd hknown hgot
  | @orphan s o st0 _ _ bs f k c _ hl hr hf _ _ _ _ hd =>
    have hls : st.live s := by rw [hr.live]; exact hl
    refine h.dropped hls (hs.used s hls) hf hr.fresh hd (fun o ho => ?_) fun i => gots_got i s _ f rfl
    rw [List.mem_singleton.mp ho]
    exact hs.used s hls
  | @deferred s o st0 _ _ bs _ hl hr hd =>
    refine h.deferred (hs.used s ?_) hr.fresh hd
    rw [hr.live]
    exact hl
  | @delivered s o st0 _ _ bs f k c fed aborts _ hl hr hf hk hget hst hln hhalf hd =>
    have hls : st.live s := by rw [hr.live]; exact hl
    have hmem := List.mem_of_getElem? hget
    obtain ⟨hfed, hfedgot⟩ := known_of_feed Transport st
      (fun _ hP => hP (hsides.north c hmem)) hd.fed
    have haborts : (∀ o ∈ aborts, o.Known Transport st) ∧ ∀ s, gots s aborts = [] := by
      have h := hd.aborts
      split at h
      · refine known_of_aborts Transport st (fun d hd => ?_) h
        rcases List.mem_or_eq_of_mem_set (List.mem_of_mem_filter hd) with hd | rfl
        · exact hs.souths d hd
        · exact hs.souths c hmem
      · rw [h]
        exact ⟨nofun, fun _ => rfl⟩
    refine h.take hls (hs.used s hls) hf hr.fresh hd.effect hd.keeps.next (fun i => (hd.keeps.kept i).taken) hd.chunk
      (fun o ho => ?_) (fun i => ?_) (fun _ => hd.frame.2) hd.others
    · rcases List.mem_append.mp ho with ho | ho
      · exact hfed o ho
      · rcases List.mem_cons.mp ho with rfl | ho
        · exact hs.used s hls
        · exact haborts.1 o ho
    · rw [gots_append, hfedgot, List.nil_append, gots_got i s _ f (haborts.2 i)]
  | clientGone _ hg =>
    obtain ⟨hknown, hgot⟩ := known_of_aborts Transport st
      (fun c hc => hs.souths c (List.mem_of_mem_filter hc)) hg.logged
    exact h.gone hg hknown hgot
  | transportGone _ hg =>
    refine h.gone hg (fun o ho => ?_) fun s => gots_eq_nil fun o ho => ?_
    · obtain ⟨c, -, rfl⟩ := exists_of_forall₂ hg.logged ho
      trivial
    · obtain ⟨c, -, rfl⟩ := exists_of_forall₂ hg.logged ho
      rfl
  | @shut n _ st =>
    exact h.keeps (Effect.note (o := .shut n (st.connsOf n) (st.sock n)) fun _ => rfl) rfl (fun _ => rfl) h.small
      (fun o ho => by rw [List.mem_singleton.mp ho]; trivial) (fun _ => rfl) fun _ => rfl
  | dialed hd _ _ => exact h.dialed hd
  | connectLost _ _ _ _ _ hl =>
    obtain ⟨obs, he, hobs⟩ := hl.effect
    refine h.keeps he hl.next (fun i => (hl.kept i).taken) (fun i => by rw [hl.chunk]; exact h.small i) ?_ ?_ hl.frame
    · rcases hobs with rfl | rfl
      · exact nofun
      · intro o ho
        rw [List.mem_singleton.mp ho]
        trivial
    · rcases hobs with rfl | rfl
      · exact fun _ => rfl
      · exact fun _ => rfl
  | pushRx => exact h.setSock rfl rfl rfl
  | pushTx => exact h.setSock rfl rfl rfl

theorem Run.carried (hr : Run C st) : Carried Transport st :=
  (carried_lawful.run (fun mode => ⟨⟨nofun, nofun⟩, .init _ mode⟩) hr).2

end controller

/-! ## The segment -/

namespace segment

variable {C : Call → Connector → Prop} {st st' : Connector}

/-- The transports of the segment are those that it accepted. -/
def Transport (f : Iface) : Prop := f = .north

theorem known_of_aborts (P : Iface → Prop) (st : Connector) {cs : List Connection} {obs : List Obs}
    (hn : ∀ c ∈ cs, c.north < st.next) (h : List.Forall₂ abortSent cs obs) :
    (∀ o ∈ obs, o.Known P st) ∧ ∀ s, gots s obs = [] := by
  refine ⟨fun o ho => ?_, fun s => gots_eq_nil fun o ho => ?_⟩
  · obtain ⟨c, hc, ok, rfl⟩ := exists_of_forall₂ h ho
    exact ⟨hn c hc, Nat.zero_le _⟩
  · obtain ⟨c, hc, ok, rfl⟩ := exists_of_forall₂ h ho
    rfl

theorem carried_outside : Lawful (Outside C) (Carried Transport) := by
  intro st st' obs0 act hs ht h
  cases act with
  | quiet hq => exact h.quiet hq
  | @errors i st =>
    have hsame := Same.takeErrors st i
    exact h.keeps (st.takeErrors_effect i) hsame.next hsame.taken (fun i => by rw [hsame.chunk]; exact h.small i)
      nofun (fun _ => rfl) hsame.frame
  | frameRead hc => exact absurd rfl (hc.1 _ _)
  | chunkRead hc => exact absurd rfl (hc.1 _ _)
  | refused hc => exact absurd rfl (hc.1 _ _)
  | opened hc => exact absurd rfl (hc.1 _ _)
  | deferred hc => exact absurd rfl (hc.1 _ _)
  | delivered hc => exact absurd rfl (hc.1 _ _)
  | idle hc => exact absurd rfl (hc.1 _ _)
  | full hc => exact absurd rfl (hc.1 _ _)
  | sent hc => exact absurd rfl (hc.1 _ _)
  | transportGone _ hg =>
    refine h.gone hg (fun o ho => ?_) fun s => gots_eq_nil fun o ho => ?_
    · obtain ⟨c, -, rfl⟩ := exists_of_forall₂ hg.logged ho
      trivial
    · obtain ⟨c, -, rfl⟩ := exists_of_forall₂ hg.logged ho
      rfl
  | serviceGone _ hg =>
    obtain ⟨hknown, hgot⟩ := known_of_aborts Transport st
      (fun c hc => hs.norths c (List.mem_of_mem_filter hc)) hg.logged
    exact h.gone hg hknown hgot
  | @shut v _ st =>
    exact h.keeps (Effect.note (o := .shut v (st.connsOf v) (st.sock v)) fun _ => rfl) rfl (fun _ => rfl) h.small
      (fun o ho => by rw [List.mem_singleton.mp ho]; trivial) (fun _ => rfl) fun _ => rfl
  | dialed hd _ _ => exact h.dialed hd
  | @connectLost v t j _ _ _ obs _ _ hasked hl =>
    refine h.gone hl (fun o ho => ?_) fun s => gots_eq_nil fun o ho => ?_
    · obtain ⟨c, hc, ok, rfl⟩ := exists_of_forall₂ hl.logged ho
      obtain ⟨hmem, hv⟩ := List.mem_filter.mp hc
      exact ⟨hasked c hmem (beq_iff_eq.mp hv) ▸ hs.norths c hmem, Nat.zero_le _⟩
    · obtain ⟨c, hc, ok, rfl⟩ := exists_of_forall₂ hl.logged ho
      rfl
  | pushRx => exact h.setSock rfl rfl rfl
  | pushTx => exact h.setSock rfl rfl rfl

variable {t : StreamId}

/-- A transport that goes away takes the frame in its buffer along. -/
theorem carried_gone (h : Carried Transport st) : Carried Transport (north_err_handler t st) := by
  obtain ⟨obs, hg⟩ := north_err_handler_spec t st
  refine h.gone hg (fun o ho => ?_) fun s => gots_eq_nil fun o ho => ?_
  · obtain ⟨c, -, rfl⟩ := exists_of_forall₂ hg.logged ho
    trivial
  · obtain ⟨c, -, rfl⟩ := exists_of_forall₂ hg.logged ho
    rfl

/-- A frame opens a session. It is marked, or its transport goes away. -/
theorem Opened.carried {f : Frame} {st2 : Connector} {extra : List Obs} (ho : Opened t f st st')
    (h : Carried Transport st) (hs : Sound st) (hl : st.live t) (hf : frameOf (st.frame t) = some f)
    (hnew : (st.frame t).eof = false) (he : Effect st' st2 extra) (hn : st2.next = st'.next)
    (ht : ∀ i, (st2.sock i).taken = (st'.sock i).taken) (hch : ∀ i, st2.chunk i = st'.chunk i)
    (hfr : ∀ i, st2.frame i = st'.frame i) (hknown : ∀ o ∈ extra, o.Known Transport st) (hgot : ∀ s, gots s extra = [])
    (hmark : st2.live t → (st'.frame t).eof = true) : Carried Transport st2 := by
  have htlt := hs.used t hl
  have heff := ho.effect.trans he
  have hnext : st2.next = st.next + 1 := hn.trans ho.next
  have hgots : ∀ i, gots i (openObs t f st ++ extra) = if i = t then [f.packet] else [] := by
    intro i
    rw [gots_append, hgot, List.append_nil]
    exact gots_got i t _ f rfl
  refine h.step heff.log heff.next (fun i hi hi' => ?_) heff.iface heff.live
    (fun i => by rw [hch, ho.chunk]; exact h.small i) (fun o hmem => ?_) (fun s hs _ => .of_ran (heff.ran s hs))
    (fun i hi _ => ?_) fun i hi => ?_
  · have hnew : i = st.next := Nat.le_antisymm (Nat.lt_succ_iff.mp (Nat.lt_of_lt_of_eq hi' hnext)) hi
    subst hnew
    rw [he.iface _ (by rw [ho.next]; exact Nat.lt_succ_self _), ho.iface]
    exact nofun
  · rcases List.mem_append.mp hmem with hmem | hmem
    · rcases List.mem_cons.mp hmem with rfl | hmem
      · trivial
      · rcases List.mem_pair.mp hmem with rfl | rfl
        · exact htlt
        · exact fun hlt => absurd hlt (Nat.lt_irrefl _)
    · exact hknown o hmem
  · have htaken : (st2.sock i).taken = (st.sock i).taken := (ht i).trans (ho.kept i (Nat.ne_of_lt hi)).taken
    by_cases heq : i = t
    · subst heq
      refine .took f hl hf hnew ((hgots i).trans (if_pos rfl)) htaken fun hl' => ?_
      rw [hfr]
      exact if_pos (hmark hl')
    · exact .of_same ((hgots i).trans (if_neg heq)) htaken ((hfr i).trans (ho.others i heq))
  · refine (hfr i).trans (ho.others i ?_)
    rintro rfl
    exact Nat.not_le.mpr htlt hi

theorem route_north_carried {fd : Option Int} (h : Carried Transport st) (hs : Sound st) (hl : st.live t)
    (hok : FrameOk (st.frame t)) (hnew : (st.frame t).eof = false) :
    Carried Transport (match route_north fd t st with
      | (st, true) => north_err_handler t st
      | (st, false) => st) := by
  have hroute := @route_north_spec fd t st hok hnew
  generalize route_north fd t st = r at hroute
  obtain ⟨st', failed⟩ := r
  dsimp only at hroute
  have hend : Carried Transport st' → Carried Transport (match (st', failed) with
      | (st, true) => north_err_handler t st
      | (st, false) => st) := by
    intro h'
    cases failed with
    | true => exact carried_gone h'
    | false => exact h'
  have htlt := hs.used t hl
  cases hroute with
  | idle _ => exact hend h
  | refused f obs _ hf _ hd href =>
    obtain ⟨hknown, hgot⟩ := known_of_refusal Transport htlt href
    exact hend (h.dropped hl htlt hf hnew hd hknown hgot)
  | opened f _ hf _ _ _ _ ho =>
    cases hbad : (st'.sock st.next).bad with
    | true =>
      obtain ⟨obs, hg⟩ := north_err_handler_spec t st'
      refine ho.carried h hs hl hf hnew hg.effect hg.next (fun i => (hg.kept i).taken) hg.chunk hg.frame
        (fun o hmem => ?_) (fun s => ?_) fun hl' => ?_
      · rcases List.mem_append.mp hmem with hmem | hmem
        · obtain ⟨c, -, rfl⟩ := exists_of_forall₂ hg.logged hmem
          trivial
        · rw [List.mem_singleton.mp hmem]
          trivial
      · refine gots_eq_nil fun o hmem => ?_
        rcases List.mem_append.mp hmem with hmem | hmem
        · obtain ⟨c, -, rfl⟩ := exists_of_forall₂ hg.logged hmem
          rfl
        · rw [List.mem_singleton.mp hmem]
          rfl
      · rw [hg.live, if_pos rfl] at hl'
        cases hl'
    | false =>
      exact ho.carried h hs hl hf hnew (.refl st') rfl (fun _ => rfl) (fun _ => rfl) (fun _ => rfl) nofun
        (fun _ => rfl) fun _ => ho.marked hbad
  | deferred f k c _ hf _ _ _ hd => exact hend (h.deferred htlt hnew hd)
  | delivered f k c fed _ hf hk hget hst hd =>
    obtain ⟨hfed, hfedgot⟩ := known_of_feed Transport st
      (fun _ hP => by rw [Transport, (hs.sides c (List.mem_of_getElem? hget)).2] at hP; cases hP) hd.fed
    refine hend (h.take hl htlt hf hnew hd.effect hd.next hd.taken hd.chunk (fun o ho => ?_) (fun i => ?_)
      (fun _ => hd.frame.2) hd.others)
    · rcases List.mem_append.mp ho with ho | ho
      · exact hfed o ho
      · rw [List.mem_singleton.mp ho]
        exact htlt
    · rw [gots_append, hfedgot, List.nil_append, gots_got i t _ f rfl]

variable {v : StreamId}

/-- A service that goes away has its sessions aborted. -/
theorem carried_serviceGone (h : Carried Transport st) (hn : ∀ c ∈ st.connections, c.north < st.next) :
    Carried Transport (south_err_handler v st) := by
  obtain ⟨obs, hg⟩ := south_err_handler_spec v st
  obtain ⟨hknown, hgot⟩ := known_of_aborts Transport st (fun c hc => hn c (List.mem_of_mem_filter hc)) hg.logged
  exact h.gone hg hknown hgot

theorem SouthRouted.carried {failed : Bool} (hr : SouthRouted v st st' failed) (h : Carried Transport st)
    (hs : Sound st) : Carried Transport st' := by
  cases hr with
  | lost _ => exact h
  | idle k c _ _ _ _ _ hl _ =>
    exact h.keeps hl.effect hl.keeps.next (fun i => (hl.keeps.kept i).taken) (fun i => by rw [hl.chunk]; exact h.small i)
      nofun (fun _ => rfl) hl.frame
  | full k c _ _ _ _ hw =>
    refine h.keeps hw.effect hw.keeps.next (fun i => (hw.keeps.kept i).taken) (fun i => ?_) nofun (fun _ => rfl) hw.frame
    by_cases hi : i = v
    · subst hi
      rw [hw.chunk]
      exact h.small i
    · rw [hw.others i hi]
      exact h.small i
  | sent k c mid _ ok _ hget _ hsent hl _ =>
    have hmid : Carried Transport mid := by
      refine h.keeps hsent.effect hsent.keeps.next (fun i => (hsent.keeps.kept i).taken)
        (fun i => by rw [(hsent.chunk i).2]; exact h.small i) (fun o ho => ?_) (fun _ => rfl) hsent.frame
      rw [List.mem_singleton.mp ho]
      refine ⟨hs.norths c (List.mem_of_getElem? hget), ?_⟩
      rw [Stringstream.chunk_length]
      exact h.small v
    exact hmid.keeps hl.effect hl.keeps.next (fun i => (hl.keeps.kept i).taken)
      (fun i => by rw [hl.chunk]; exact hmid.small i) nofun (fun _ => rfl) hl.frame

theorem carried_law : CallLaw C (Carried Transport) where
  acts := carried_outside
  read {st i fd} hs hready hl hC h := by
    unfold callIn
    cases hif : (st.ep i).iface with
    | north =>
      obtain ⟨bs, hr⟩ := readTransport_spec i st (hready.frames i (.inl hl))
      obtain ⟨hok, hnew⟩ := hr.frameOk (hready.frames i (.inl hl))
      have hs1 := sound_preserved (.frameRead hC hl hif hr) hs
      have hl1 : ((readTransport i st).dropInput i).live i := by
        rw [hr.live]
        exact hl
      exact route_north_carried (h.frameRead (hs.used i hl) hr.toFrameRead) hs1 hl1 hok hnew
    | south b =>
      obtain ⟨bs, hr⟩ := readService_spec i st (hready.chunk i)
      have hs1 := sound_preserved (.chunkRead hC hl hif hr) hs
      have hroute := @route_south_spec i ((readService i st).dropInput i) (by rw [hr.live]; exact hl)
      have h1 : Carried Transport ((readService i st).dropInput i) :=
        h.chunkRead (by rw [hif]; exact nofun) hr
      unfold south_pollin_handler
      dsimp only
      generalize route_south i ((readService i st).dropInput i) = r at hroute ⊢
      obtain ⟨st2, failed⟩ := r
      have h2 := hroute.carried h1 hs1
      have hs2 := sound_preserved.routeSouth hC hl hr hs1 hroute
      cases failed with
      | true => exact carried_serviceGone h2 hs2.norths
      | false => exact h2

theorem Run.carried (hr : Run C st) : Carried Transport st :=
  carried_law.run (fun mode => .init _ mode) hr

end segment

end cloudbus
