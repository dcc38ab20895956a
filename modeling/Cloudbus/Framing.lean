-- Frames on a transport: what a connector writes is a list of frames, and what
-- `xmsg_read` gives to the other end is the same list, however the bytes are cut
-- on the way.
import Cloudbus.Marshaller

namespace cloudbus

open cloudbus.io cloudbus.messages

/-! ## Frames -/

/-- A frame as the connectors emit it. -/
structure Frame where
  eid : Uuid
  type : Msgtype
  payload : List UInt8
  fits : payload.length ≤ MAXCHUNK
deriving DecidableEq, Repr

namespace Frame

def header (f : Frame) : Msgheader := Msgheader.of f.eid f.payload.length f.type

def encode (f : Frame) : List UInt8 := f.header.encode ++ f.payload

def encodeAll (fs : List Frame) : List UInt8 := fs.flatMap encode

/-- The kernel has the whole frame. -/
def recv (f : Frame) : Recv :=
  match f.encode with
  | [] => .wouldblock
  | b :: bs => .data b bs

/-- The 16 bits of the length field are enough. -/
theorem length_field (f : Frame) : f.header.len.length.toNat = HDRLEN + f.payload.length := by
  have := f.fits
  simp only [MAXCHUNK, UINT16_MAX, HDRLEN] at this
  simp only [header, Msgheader.of, HDRLEN, UInt16.toNat_ofNat']
  omega

@[simp] theorem length_encode (f : Frame) : f.encode.length = HDRLEN + f.payload.length := by
  simp [encode]

/-- A header that starts a frame is its own. -/
theorem headerAt_of_start {f : Frame} {c s : List UInt8} (h : c <+: f.encode ++ s)
    (hc : HDRLEN ≤ c.length) : headerAt c = f.header := by
  have htake : c.take HDRLEN = f.header.encode := by
    obtain ⟨t, ht⟩ := h
    have := congrArg (List.take HDRLEN) ht
    rwa [List.take_append_of_le_length hc, encode, List.append_assoc,
      List.take_left' (Msgheader.length_encode _)] at this
  rw [← encode_headerAt c hc] at htake
  exact Msgheader.encode_inj htake

end Frame

/-- The frame in a buffer, when it is complete: `if(buf.type())`, then
`if(!(buf.len()->length - pos))`. -/
def frameOf (x : Xmsgstream) : Option Frame :=
  if h : HDRLEN ≤ x.tellp ∧ (lenAt x.contents).length.toNat = x.tellp then
    some {
      eid := eidAt x.contents
      type := typeAt x.contents
      payload := x.contents.drop HDRLEN
      fits := by
        have hlt := (lenAt x.contents).length.toNat_lt
        rw [List.length_drop, Xmsgstream.length_contents, MAXCHUNK, UINT16_MAX]
        omega }
  else none

variable {x : Xmsgstream}

/-- The bytes that start a stream of frames, once they are not too few and not too
many for a frame, are the first frame. -/
theorem frameOf_eq {fs : List Frame} (h : x.contents <+: Frame.encodeAll fs)
    (hp : ¬ Partial x.contents) (hb : x.tellp ≤ HDRLEN ∨ x.tellp ≤ (lenAt x.contents).length.toNat) :
    ∃ f gs, fs = f :: gs ∧ x.contents = f.encode ∧ frameOf x = some f := by
  have hlen := x.length_contents
  rw [Partial, not_or, Nat.not_lt, Nat.not_lt, hlen] at hp
  cases fs with
  | nil =>
    rw [Frame.encodeAll, List.flatMap_nil, List.prefix_nil] at h
    rw [h, List.length_nil] at hlen
    rw [← hlen, HDRLEN] at hp
    omega
  | cons f gs =>
    rw [Frame.encodeAll, List.flatMap_cons] at h
    have hh : headerAt x.contents = f.header := Frame.headerAt_of_start h (by omega)
    have hl : (lenAt x.contents).length.toNat = HDRLEN + f.payload.length := by
      rw [← f.length_field, ← hh]
      rfl
    have htell : x.tellp = HDRLEN + f.payload.length := by omega
    have hc : x.contents = f.encode := by
      rcases List.prefix_or_prefix_of_prefix h (List.prefix_append f.encode _) with h1 | h1
      · exact h1.eq_of_length (by simp [htell])
      · exact (h1.eq_of_length (by simp [htell])).symm
    refine ⟨f, gs, rfl, hc, ?_⟩
    have hpay : x.contents.drop HDRLEN = f.payload := by
      rw [hc, Frame.encode, List.drop_left' (Msgheader.length_encode _)]
    have heid : eidAt x.contents = f.eid := congrArg Msgheader.eid hh
    have htype : typeAt x.contents = f.type := congrArg Msgheader.type hh
    rw [frameOf, dif_pos ⟨hp.1, by rw [hl, htell]⟩]
    cases f
    simp_all

theorem frameOf_eq_none (hp : Partial x.contents) : frameOf x = none := by
  rw [Partial, Xmsgstream.length_contents] at hp
  rw [frameOf, dif_neg]
  omega

/-- A complete frame and its buffer. -/
theorem frameOf_some {f : Frame} (h : frameOf x = some f) :
    f.payload = x.contents.drop HDRLEN ∧ f.eid = eidAt x.contents ∧ f.type = typeAt x.contents ∧
      x.tellp = HDRLEN + f.payload.length ∧ (lenAt x.contents).length.toNat = x.tellp ∧
      x.buf.endsAt x.buf.pptr := by
  unfold frameOf at h
  split at h
  · rename_i hx
    simp only [Option.some.injEq] at h
    subst h
    refine ⟨rfl, rfl, rfl, ?_, hx.2, ?_⟩
    · rw [List.length_drop, Xmsgstream.length_contents]
      omega
    · have h20 : 20 ≤ x.buf.pptr := Nat.le_trans (by decide) hx.1
      rw [Xmsgbuf.endsAt, Xmsgbuf.len_eq, if_pos h20]
      exact beq_iff_eq.mpr hx.2
  · cases h

/-! ## A reader of frames -/

/-- A stream with its frame buffer, and the frames that were taken out so far. -/
structure Reader where
  buf : Xmsgstream
  is : Sockstream
  got : List Frame := []

namespace Reader

/-- One round: `xmsg_read`, and a consumer that takes a complete frame and marks it. -/
def poll (r : Reader) : Reader :=
  let p := xmsg_read r.buf r.is
  match frameOf p.1 with
  | some f => { buf := p.1.set_eofbit, is := p.2, got := r.got ++ [f] }
  | none => { r with buf := p.1, is := p.2 }

def run : Nat → Reader → Reader
  | 0, r => r
  | n + 1, r => run n r.poll

/-- The socket is open, and the kernel holds no end of the file. -/
structure Listening (is : Sockstream) : Prop where
  good : is.good
  handle : is.native_handle ≠ BAD_SOCKET
  no_eof : Recv.eof ∉ is.rx

/-- The frames `rest` are still to come, a part of the first of them is in the
buffer, and nothing after it was taken. -/
structure Good (fs rest : List Frame) (r : Reader) : Prop where
  frames : fs = r.got ++ rest
  buf : r.buf.rdstate.fail = false
  listening : Listening r.is
  bytes : r.buf.start ++ r.is.avail = Frame.encodeAll rest
  taken : r.is.taken = Frame.encodeAll r.got ++ r.buf.start
  part : Partial r.buf.start

theorem partial_nil : Partial [] := .inl (by simp [HDRLEN])

theorem start_set_eofbit (x : Xmsgstream) : x.set_eofbit.start = [] := rfl

theorem start_of_not_eof {x : Xmsgstream} (h : x.rdstate.eofbit = false) : x.start = x.contents := by
  simp [Xmsgstream.start, Xmsgstream.eof, h]

variable {fs rest : List Frame} {r : Reader} {is is' : Sockstream}

/-- The bytes of at least one frame are not partial. -/
theorem not_partial_encodeAll (h : fs ≠ []) : ¬ Partial (Frame.encodeAll fs) := by
  cases fs with
  | nil => exact absurd rfl h
  | cons f gs =>
    have hle : HDRLEN ≤ (Frame.encodeAll (f :: gs)).length := by
      simp only [Frame.encodeAll, List.flatMap_cons, List.length_append, Frame.length_encode]
      omega
    have hh : headerAt (Frame.encodeAll (f :: gs)) = f.header :=
      Frame.headerAt_of_start (s := gs.flatMap Frame.encode)
        (List.prefix_refl (f.encode ++ gs.flatMap Frame.encode)) hle
    have hl : (lenAt (Frame.encodeAll (f :: gs))).length.toNat = HDRLEN + f.payload.length := by
      rw [← f.length_field, ← hh]
      rfl
    rw [Partial, hl]
    simp only [Frame.encodeAll, List.flatMap_cons, List.length_append, Frame.length_encode]
    omega

/-- A round of reading that ends on an open socket leaves it open. -/
theorem Listening.of_dry (h : Listening is) (hd : Dry is is') :
    Listening is' ∧ (is'.rx.length < is.rx.length ∨ is'.avail = []) := by
  obtain ⟨t, n, hn, heq, hrx, hst, hh⟩ := hd
  have ht : Listening t :=
    ⟨by rw [Sockstream.good_of_rdstate hst]; exact h.good, by rw [hh]; exact h.handle,
      fun he => h.no_eof (hrx.subset he)⟩
  have hopen := t.readsome_nil_open hn ht.good ht.handle ht.no_eof (by rw [heq])
  have hsuf := t.readsome_rx n
  have hpull := t.readsome_pulled n
  rw [heq] at hopen hsuf hpull
  refine ⟨⟨by rw [Sockstream.good_of_rdstate hopen.1]; exact ht.good,
    by rw [hpull.handle]; exact ht.handle, fun he => ht.no_eof (hsuf.subset he)⟩, ?_⟩
  rcases hopen.2 with h1 | h1
  · have := hrx.length_le
    dsimp only at h1
    exact .inl (by omega)
  · exact .inr h1

theorem Listening.of_done {bs : List UInt8} (h : Listening is) (hp : Pulled is bs is') (hr : is'.rdstate = is.rdstate)
    (hrx : is'.rx <:+ is.rx) : Listening is' :=
  ⟨by rw [Sockstream.good_of_rdstate hr]; exact h.good, by rw [hp.handle]; exact h.handle,
    fun he => h.no_eof (hrx.subset he)⟩

/-- One round keeps the invariant. While frames are to come it gives the next one,
or uses up an answer of the kernel. -/
theorem poll_good (h : Good fs rest r) :
    ∃ rest', Good fs rest' r.poll ∧ rest' <:+ rest ∧
      (rest = [] ∨ rest'.length + r.poll.is.rx.length < rest.length + r.is.rx.length) := by
  obtain ⟨bs, hr⟩ := xmsg_read_spec r.buf r.is h.buf
  have hall : (xmsg_read r.buf r.is).1.contents ++ (xmsg_read r.buf r.is).2.avail =
      Frame.encodeAll rest := by
    rw [hr.contents, List.append_assoc, hr.pulled.avail, h.bytes]
  have hfail : (xmsg_read r.buf r.is).1.rdstate.fail = false := by
    rw [hr.rdstate]
    exact h.buf
  have htaken : (xmsg_read r.buf r.is).2.taken =
      Frame.encodeAll r.got ++ (xmsg_read r.buf r.is).1.contents := by
    rw [hr.pulled.taken, h.taken, hr.contents, List.append_assoc]
  unfold poll
  rcases hr.stop with ⟨hp, hst, hrx⟩ | ⟨hp, hd⟩
  · -- the frame is complete
    have hne : bs ≠ [] := by
      rintro rfl
      rw [hr.contents, List.append_nil] at hp
      exact hp h.part
    obtain ⟨f, gs, rfl, hc, hf⟩ := frameOf_eq ⟨_, hall⟩ hp (hr.bound hne)
    simp only [hf]
    refine ⟨gs, ⟨?_, hfail, h.listening.of_done hr.pulled hst hrx, ?_, ?_, partial_nil⟩,
      List.suffix_cons f gs, .inr ?_⟩
    · rw [h.frames, List.append_assoc]
      rfl
    · rw [start_set_eofbit, List.nil_append]
      rw [hc, Frame.encodeAll, List.flatMap_cons] at hall
      exact List.append_cancel_left hall
    · rw [start_set_eofbit, List.append_nil, htaken, hc]
      simp [Frame.encodeAll]
    · have := hrx.length_le
      simp only [List.length_cons]
      omega
  · -- the rest of the frame is not here yet
    have hstart : (xmsg_read r.buf r.is).1.start = (xmsg_read r.buf r.is).1.contents :=
      start_of_not_eof (by rw [hr.rdstate])
    obtain ⟨hl, hprog⟩ := h.listening.of_dry hd
    simp only [frameOf_eq_none hp]
    refine ⟨rest, ⟨h.frames, hfail, hl, by rw [hstart, hall], by rw [hstart, htaken],
      by rw [hstart]; exact hp⟩, List.suffix_refl rest, ?_⟩
    rcases hprog with h1 | h1
    · exact .inr (by omega)
    · left
      rw [h1, List.append_nil] at hall
      rw [hall] at hp
      exact Classical.byContradiction fun hne => not_partial_encodeAll hne hp

theorem run_good (n : Nat) (h : Good fs rest r) :
    ∃ rest', Good fs rest' (r.run n) ∧ rest' <:+ rest ∧
      (rest.length + r.is.rx.length ≤ n → rest' = []) := by
  induction n generalizing r rest with
  | zero => exact ⟨rest, h, List.suffix_refl rest, fun hn => List.length_eq_zero_iff.mp (by omega)⟩
  | succ n ih =>
    obtain ⟨rest1, h1, hs1, hprog⟩ := poll_good h
    obtain ⟨rest2, h2, hs2, hlast⟩ := ih h1
    refine ⟨rest2, h2, hs2.trans hs1, fun hn => ?_⟩
    rcases hprog with rfl | hlt
    · exact List.suffix_nil.mp (hs2.trans hs1)
    · exact hlast (by omega)

/-- What is in the buffer is a proper part of the next frame. -/
theorem part_of_next (h : Good fs rest r) :
    r.buf.start = [] ∨ ∃ f gs, rest = f :: gs ∧ r.buf.start <+: f.encode ∧
      r.buf.start ≠ f.encode := by
  cases rest with
  | nil =>
    left
    have := h.bytes
    rw [Frame.encodeAll, List.flatMap_nil, List.append_eq_nil_iff] at this
    exact this.1
  | cons f gs =>
    right
    have hpre : r.buf.start <+: f.encode ++ gs.flatMap Frame.encode := ⟨_, h.bytes⟩
    have hne : ¬ f.encode <+: r.buf.start := by
      intro hle
      refine absurd h.part ?_
      have hlen := hle.length_le
      rw [Frame.length_encode] at hlen
      have hh := Frame.headerAt_of_start hpre (by omega)
      have hl : (lenAt r.buf.start).length.toNat = HDRLEN + f.payload.length := by
        rw [← f.length_field, ← hh]
        rfl
      rw [Partial, hl]
      omega
    refine ⟨f, gs, rfl, ?_, fun he => hne (he ▸ List.prefix_refl _)⟩
    rcases List.prefix_or_prefix_of_prefix hpre (List.prefix_append f.encode _) with h1 | h1
    · exact h1
    · exact absurd h1 hne

end Reader

/-! ## The round trip -/

/-- The header of a chunk that `stream_copy` gives has its true length. -/
theorem copyChunk_length_field (early : Bool) (os : Stringstream) (is : Sockstream) (eid : Uuid)
    (type : Msgtype) :
    (copyChunk early os.rewindp is).1.tellp ≤ MAXCHUNK ∧
      (Msgheader.of eid (copyChunk early os.rewindp is).1.tellp type).len.length.toNat =
        HDRLEN + (copyChunk early os.rewindp is).1.tellp := by
  obtain ⟨bs, -, hlen, heq⟩ := copyChunk_spec early os.rewindp is
  have hp : (copyChunk early os.rewindp is).1.tellp = bs.length := by
    rw [heq]
    simp [Stringstream.tellp, Stringstream.write, Stringstream.rewindp]
  rw [hp]
  exact ⟨hlen, Frame.length_field ⟨eid, type, bs, hlen⟩⟩

/-- Whatever the kernel gives at each read, the frames that were sent come out once
and in order. Every chunk of `stream_copy` fits its frame. At each round the bytes
taken are those of the frames that came out and a part of the next one, never a
byte behind it. A round for each frame and for each answer of the kernel is enough. -/
theorem every_frame_comes_out_once_and_in_order (fs : List Frame) (buf : Xmsgstream)
    (is : Sockstream) (hbuf : buf.rdstate.fail = false) (hstart : buf.start = [])
    (his : Reader.Listening is) (htaken : is.taken = []) (hsent : is.avail = Frame.encodeAll fs) :
    (∀ (os : Stringstream) src eid type,
      (Msgheader.of eid (controller.stream_copy os.rewindp src).1.tellp type).len.length.toNat =
          HDRLEN + (controller.stream_copy os.rewindp src).1.tellp ∧
        (Msgheader.of eid (segment.stream_copy os.rewindp src).1.tellp type).len.length.toNat =
          HDRLEN + (segment.stream_copy os.rewindp src).1.tellp) ∧
      (∀ f ∈ fs, f.header.len.length.toNat = HDRLEN + f.payload.length) ∧
      (∀ n, ∃ rest part, fs = (Reader.run n ⟨buf, is, []⟩).got ++ rest ∧
        (Reader.run n ⟨buf, is, []⟩).is.taken =
          Frame.encodeAll (Reader.run n ⟨buf, is, []⟩).got ++ part ∧
        (part = [] ∨ ∃ f gs, rest = f :: gs ∧ part <+: f.encode ∧ part ≠ f.encode)) ∧
      ∀ n, fs.length + is.rx.length ≤ n → (Reader.run n ⟨buf, is, []⟩).got = fs := by
  have h0 : Reader.Good fs fs ⟨buf, is, []⟩ :=
    ⟨rfl, hbuf, his, by rw [hstart, hsent]; rfl, by rw [hstart, htaken]; rfl,
      by rw [hstart]; exact Reader.partial_nil⟩
  refine ⟨fun os src eid type => ⟨(copyChunk_length_field false os src eid type).2,
    (copyChunk_length_field true os src eid type).2⟩, fun f _ => f.length_field, fun n => ?_,
    fun n hn => ?_⟩
  · obtain ⟨rest, h, -, -⟩ := Reader.run_good n h0
    refine ⟨rest, _, h.frames, h.taken, ?_⟩
    exact Reader.part_of_next h
  · obtain ⟨rest, h, -, hlast⟩ := Reader.run_good n h0
    have := h.frames
    rw [hlast hn, List.append_nil] at this
    exact this.symm

/-- Two frames, cut inside the first header and inside the second payload. -/
def cutFrames : List Frame :=
  [⟨Uuid.nil, ⟨DATA, INIT⟩, [1, 2, 3], by decide⟩, ⟨Uuid.nil, ⟨STOP, 0⟩, [4], by decide⟩]

def cutSource : Sockstream where
  native_handle := 3
  rx := [.data 0 (List.replicate 15 0), .wouldblock,
    .data 1 [0, 27, 0, 0, 0, 0, 128, 1, 2, 3, 0, 0, 0], .data 0 (List.replicate 12 0),
    .data 1 [0, 25, 0, 0, 0, 1, 0], .wouldblock, .data 4 []]

theorem cut_frames_come_out : (Reader.run 9 ⟨{}, cutSource, []⟩).got = cutFrames :=
  (every_frame_comes_out_once_and_in_order cutFrames {} cutSource rfl rfl
    ⟨by decide, by decide, by decide⟩ rfl (by decide)).2.2.2 9 (by decide)

end cloudbus
