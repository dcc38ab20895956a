-- The frame buffer of `formats/xmsg.cpp`: one growing area that a marshaller
-- writes a frame into and a connector reads it out of. Every operation keeps
-- the get position before the put position and the put position in the area,
-- so the type carries that.
import Cloudbus.Streams

namespace cloudbus.messages

open cloudbus.io

/-! ## The buffer -/

def BUFINC : Nat := 4096

/-- `xmsgbuf`. `data` is the part of the area that was ever written, so bytes past
`pptr` are left from an earlier frame. `pbase` and `eback` are both its start,
and `epptr` is `bufsize`. -/
structure Xmsgbuf where
  data : List UInt8 := []
  bufsize : Nat := BUFINC
  pptr : Nat := 0
  gptr : Nat := 0
  egptr : Nat := 0
  gptr_le : gptr ≤ egptr := by simp
  egptr_le : egptr ≤ pptr := by simp
  pptr_le : pptr ≤ data.length := by simp
  data_le : data.length ≤ bufsize := by simp
  bufinc_le : BUFINC ≤ bufsize := by simp
deriving DecidableEq, Repr

instance : Inhabited Xmsgbuf := ⟨{}⟩

namespace Xmsgbuf

/-- The bytes between the start of the area and the put position. -/
def contents (b : Xmsgbuf) : List UInt8 := b.data.take b.pptr

def eid (b : Xmsgbuf) : Option Uuid := if 16 ≤ b.pptr then some (eidAt b.data) else none
def len (b : Xmsgbuf) : Option Msglen := if 20 ≤ b.pptr then some (lenAt b.data) else none
def version (b : Xmsgbuf) : Option Msgversion :=
  if 22 ≤ b.pptr then some (versionAt b.data) else none
def type (b : Xmsgbuf) : Option Msgtype := if 24 ≤ b.pptr then some (typeAt b.data) else none

/-- `lp && lp->length == pos`: the frame ends at this position. -/
def endsAt (b : Xmsgbuf) (pos : Nat) : Bool :=
  match b.len with
  | some l => l.length.toNat == pos
  | none => false

/-- `showmanyc`, with `none` for its -1. The test `pptr()-gptr() < 0` never holds. -/
def showmanyc (b : Xmsgbuf) : Xmsgbuf × Option Nat :=
  if b.endsAt b.gptr then (b, none)
  else ({ b with
      egptr := b.pptr
      gptr_le := Nat.le_trans b.gptr_le b.egptr_le
      egptr_le := Nat.le_refl _ }, some (b.pptr - b.gptr))

def in_avail (b : Xmsgbuf) : Xmsgbuf × Option Nat :=
  if b.gptr < b.egptr then (b, some (b.egptr - b.gptr)) else b.showmanyc

/-- One byte at the put position, with room for it. -/
def store (b : Xmsgbuf) (ch : UInt8) (h : b.pptr < b.bufsize) : Xmsgbuf where
  data := b.data.take b.pptr ++ ch :: b.data.drop (b.pptr + 1)
  bufsize := b.bufsize
  pptr := b.pptr + 1
  gptr := b.gptr
  egptr := b.egptr
  gptr_le := b.gptr_le
  egptr_le := Nat.le_succ_of_le b.egptr_le
  pptr_le := by
    have := b.pptr_le
    simp only [List.length_append, List.length_take, List.length_cons, List.length_drop]
    omega
  data_le := by
    have := b.pptr_le; have := b.data_le
    simp only [List.length_append, List.length_take, List.length_cons, List.length_drop]
    omega
  bufinc_le := b.bufinc_le

/-- The area after `realloc` in `overflow`. -/
def grow (b : Xmsgbuf) : Xmsgbuf :=
  { b with
    bufsize := b.bufsize + BUFINC
    egptr := b.pptr
    gptr_le := Nat.le_trans b.gptr_le b.egptr_le
    egptr_le := Nat.le_refl _
    data_le := Nat.le_trans b.data_le (Nat.le_add_right _ _)
    bufinc_le := Nat.le_trans b.bufinc_le (Nat.le_add_right _ _) }

theorem pptr_lt_grow (b : Xmsgbuf) : b.grow.pptr < b.grow.bufsize := by
  have := b.pptr_le; have := b.data_le
  simp only [grow, BUFINC]
  omega

/-- `sputc`, with the `overflow` of a full area. A frame that is complete takes no
more. `none` is end-of-file. -/
def sputc (b : Xmsgbuf) (ch : UInt8) : Option Xmsgbuf :=
  if h : b.pptr < b.bufsize then some (b.store ch h)
  else if b.endsAt b.pptr then none
  else some (b.grow.store ch b.pptr_lt_grow)

def sputn (b : Xmsgbuf) : List UInt8 → Xmsgbuf × Bool
  | [] => (b, true)
  | ch :: bs =>
    match b.sputc ch with
    | some b' => b'.sputn bs
    | none => (b, false)

/-- `seekpos(pos, in)`. -/
def seekposIn (b : Xmsgbuf) (pos : Nat) : Option Xmsgbuf :=
  if h : pos ≤ b.pptr then
    some { b with gptr := pos, egptr := b.pptr, gptr_le := h, egptr_le := Nat.le_refl _ }
  else none

/-- `seekpos(pos, out)`. What lies between the written part and `pos` is not
initialized: it stands as zeroes here, and is never read before it is written. -/
def seekposOut (b : Xmsgbuf) (pos : Nat) : Option Xmsgbuf :=
  if h : pos ≤ b.bufsize then
    some { b with
      data := b.data ++ List.replicate (pos - b.data.length) 0
      pptr := pos
      gptr := min b.gptr pos
      egptr := pos
      gptr_le := Nat.min_le_right _ _
      egptr_le := Nat.le_refl _
      pptr_le := by simp only [List.length_append, List.length_replicate]; omega
      data_le := by
        have := b.data_le
        simp only [List.length_append, List.length_replicate]; omega }
  else none

end Xmsgbuf

/-! ## The stream over it -/

/-- `xmsgstream`. -/
structure Xmsgstream where
  buf : Xmsgbuf := {}
  rdstate : Iostate := {}
deriving DecidableEq, Repr, Inhabited

namespace Xmsgstream

def eof (x : Xmsgstream) : Bool := x.rdstate.eofbit
def bad (x : Xmsgstream) : Bool := x.rdstate.badbit
def tellp (x : Xmsgstream) : Nat := x.buf.pptr
def tellg (x : Xmsgstream) : Nat := x.buf.gptr
def eid (x : Xmsgstream) : Option Uuid := x.buf.eid
def len (x : Xmsgstream) : Option Msglen := x.buf.len
def type (x : Xmsgstream) : Option Msgtype := x.buf.type

/-- `setstate(eofbit)`: the frame is done with. -/
def set_eofbit (x : Xmsgstream) : Xmsgstream := { x with rdstate.eofbit := true }

/-- `clear(rdstate() & ~eofbit)`. -/
def clear_eofbit (x : Xmsgstream) : Xmsgstream := { x with rdstate.eofbit := false }

def write (x : Xmsgstream) (bs : List UInt8) : Xmsgstream :=
  if x.rdstate.good then
    match x.buf.sputn bs with
    | (b, true) => { x with buf := b }
    | (b, false) => { x with buf := b, rdstate.badbit := true }
  else x

def seekp (x : Xmsgstream) (pos : Nat) : Xmsgstream :=
  if x.rdstate.fail then x
  else match x.buf.seekposOut pos with
    | some b => { x with buf := b }
    | none => { x with rdstate.failbit := true }

/-- `seekg` clears the eofbit first. -/
def seekg (x : Xmsgstream) (pos : Nat) : Xmsgstream :=
  if x.rdstate.fail then x.clear_eofbit
  else match x.buf.seekposIn pos with
    | some b => { x.clear_eofbit with buf := b }
    | none => { x.clear_eofbit with rdstate.failbit := true }

def readsome (x : Xmsgstream) (n : Nat) : List UInt8 × Xmsgstream :=
  if x.rdstate.good then
    match x.buf.in_avail with
    | (_, none) => ([], x.set_eofbit)
    | (b, some _) =>
      ((b.data.drop b.gptr).take (min n (b.egptr - b.gptr)),
        { x with buf := { b with
            gptr := b.gptr + min n (b.egptr - b.gptr)
            gptr_le := by have := b.gptr_le; omega } })
  else ([], { x with rdstate.failbit := true })

end Xmsgstream

instance : Istream Xmsgstream := ⟨Xmsgstream.readsome⟩

/-! ## What the buffer operations do -/

namespace Xmsgbuf

@[simp] theorem length_contents (b : Xmsgbuf) : b.contents.length = b.pptr := by
  simp only [contents, List.length_take]
  have := b.pptr_le
  omega

theorem contents_store (b : Xmsgbuf) (ch : UInt8) (h : b.pptr < b.bufsize) :
    (b.store ch h).contents = b.contents ++ [ch] := by
  have hlen : (b.data.take b.pptr).length = b.pptr := b.length_contents
  simp only [contents, store]
  rw [List.take_append, List.take_of_length_le (by omega), hlen]
  simp

/-- The fields of a header are read from the contents, whatever lies behind them. -/
theorem len_eq (b : Xmsgbuf) : b.len = if 20 ≤ b.pptr then some (lenAt b.contents) else none := by
  unfold len
  split
  · rw [← List.take_append_drop b.pptr b.data]
    exact congrArg some (lenAt_append _ (by rw [List.length_take]; have := b.pptr_le; omega))
  · rfl

/-- There is room for `n` more bytes after `c`: they fit in the smallest area, or
they are part of the frame whose header `c` starts with. -/
def Room (c : List UInt8) (n : Nat) : Prop :=
  n = 0 ∨ c.length + n ≤ BUFINC ∨ 20 ≤ c.length ∧ c.length + n ≤ (lenAt c).length.toNat

theorem Room.tail {c : List UInt8} {n : Nat} (ch : UInt8) (h : Room c (n + 1)) :
    Room (c ++ [ch]) n := by
  right
  rcases h with h | h | ⟨h1, h2⟩
  · omega
  · left
    rw [List.length_append, List.length_singleton]
    omega
  · right
    rw [lenAt_append _ h1, List.length_append, List.length_singleton]
    omega

theorem sputc_spec (b : Xmsgbuf) (ch : UInt8) {n : Nat} (h : Room b.contents (n + 1)) :
    ∃ b', b.sputc ch = some b' ∧ b'.contents = b.contents ++ [ch] ∧ b'.gptr = b.gptr := by
  unfold sputc
  split
  · rename_i hr
    exact ⟨_, rfl, contents_store b ch hr, rfl⟩
  · rename_i hr
    have hend : b.endsAt b.pptr = false := by
      have := b.bufinc_le
      rcases h with h | h | ⟨h1, h2⟩
      · omega
      · rw [length_contents] at h
        omega
      · rw [length_contents] at h1 h2
        simp only [endsAt, len_eq, if_pos h1, beq_eq_false_iff_ne]
        omega
    rw [hend]
    exact ⟨_, rfl, contents_store b.grow ch b.pptr_lt_grow, rfl⟩

theorem sputn_spec (b : Xmsgbuf) (bs : List UInt8) (h : Room b.contents bs.length) :
    (b.sputn bs).2 = true ∧ (b.sputn bs).1.contents = b.contents ++ bs ∧
      (b.sputn bs).1.gptr = b.gptr := by
  induction bs generalizing b with
  | nil => simp [sputn]
  | cons ch bs ih =>
    obtain ⟨b', h1, h2, h3⟩ := sputc_spec b ch h
    obtain ⟨i1, i2, i3⟩ := ih b' (by rw [h2]; exact h.tail ch)
    unfold sputn
    rw [h1]
    exact ⟨i1, by rw [i2, h2, List.append_assoc]; rfl, i3.trans h3⟩

end Xmsgbuf

namespace Xmsgstream

/-- The bytes of the frame that is read, as far as it is here. -/
def contents (x : Xmsgstream) : List UInt8 := x.buf.contents

@[simp] theorem length_contents (x : Xmsgstream) : x.contents.length = x.tellp :=
  x.buf.length_contents

theorem write_spec (x : Xmsgstream) (bs : List UInt8) (hg : x.rdstate.good)
    (h : Xmsgbuf.Room x.contents bs.length) :
    (x.write bs).contents = x.contents ++ bs ∧ (x.write bs).rdstate = x.rdstate ∧
      (x.write bs).buf.gptr = x.buf.gptr := by
  obtain ⟨h1, h2, h3⟩ := x.buf.sputn_spec bs h
  unfold write
  rw [if_pos hg]
  split
  · rename_i b heq
    rw [heq] at h2 h3
    exact ⟨h2, rfl, h3⟩
  · rename_i b heq
    rw [heq] at h1
    cases h1

/-- The buffer at the start of a frame: after an old one was marked with the
eofbit, it holds nothing. -/
theorem seekp_zero_contents (x : Xmsgstream) (h : x.rdstate.fail = false) :
    (x.clear_eofbit.seekp 0).contents = [] ∧
      (x.clear_eofbit.seekp 0).rdstate = { x.rdstate with eofbit := false } ∧
      (x.clear_eofbit.seekp 0).buf.gptr = 0 := by
  have hf : x.clear_eofbit.rdstate.fail = false := h
  unfold seekp
  rw [hf]
  simp [Xmsgbuf.seekposOut, contents, Xmsgbuf.contents, clear_eofbit]

end Xmsgstream

/-! ## Copying a frame out of the buffer -/

namespace Xmsgstream

/-- The buffer is set to be read: a seek has moved the end of the get area to the
put position. -/
structure Ready (x : Xmsgstream) : Prop where
  good : x.rdstate.good
  egptr : x.buf.egptr = x.buf.pptr
  complete : x.buf.endsAt x.buf.pptr

theorem seekg_spec (x : Xmsgstream) (pos : Nat) (hf : x.rdstate.fail = false) (hp : pos ≤ x.tellp) :
    (x.seekg pos).contents = x.contents ∧ (x.seekg pos).buf.gptr = pos ∧
      (x.seekg pos).rdstate = { x.rdstate with eofbit := false } ∧
      (x.buf.endsAt x.buf.pptr → (x.seekg pos).Ready) := by
  have hp' : pos ≤ x.buf.pptr := hp
  simp only [Iostate.fail, Bool.or_eq_false_iff] at hf
  simp only [seekg, Iostate.fail, hf, Bool.or_false, Bool.false_eq_true, if_false,
    Xmsgbuf.seekposIn, dif_pos hp', clear_eofbit, contents, Xmsgbuf.contents, true_and]
  exact fun he => ⟨by simp [Iostate.good], rfl, he⟩

/-- A read before the end gives the next bytes. -/
theorem readsome_mid (x : Xmsgstream) (n : Nat) (h : x.Ready) (hg : x.buf.gptr < x.buf.pptr) :
    (x.readsome n).1 = (x.contents.drop x.buf.gptr).take n ∧
      (x.readsome n).2.contents = x.contents ∧ (x.readsome n).2.Ready ∧
      (x.readsome n).2.buf.gptr = x.buf.gptr + min n (x.buf.pptr - x.buf.gptr) := by
  have hav : x.buf.in_avail = (x.buf, some (x.buf.egptr - x.buf.gptr)) := by
    rw [Xmsgbuf.in_avail, if_pos (by rw [h.egptr]; exact hg)]
  have hr : x.readsome n = ((x.buf.data.drop x.buf.gptr).take (min n (x.buf.egptr - x.buf.gptr)),
      { x with buf := { x.buf with
          gptr := x.buf.gptr + min n (x.buf.egptr - x.buf.gptr)
          gptr_le := by have := x.buf.gptr_le; omega } }) := by
    unfold readsome
    rw [if_pos h.good, hav]
  rw [hr]
  refine ⟨?_, rfl, ⟨h.good, h.egptr, h.complete⟩, by dsimp only; rw [h.egptr]⟩
  dsimp only
  rw [contents, Xmsgbuf.contents, List.drop_take, List.take_take, h.egptr]

/-- A read at the end of a frame sets the eofbit. -/
theorem readsome_end (x : Xmsgstream) (n : Nat) (h : x.Ready) (hg : x.buf.gptr = x.buf.pptr) :
    x.readsome n = ([], x.set_eofbit) := by
  have hav : x.buf.in_avail = (x.buf, none) := by
    rw [Xmsgbuf.in_avail, if_neg (by rw [h.egptr]; omega), Xmsgbuf.showmanyc,
      if_pos (by rw [hg]; exact h.complete)]
  unfold readsome
  rw [if_pos h.good, hav]

end Xmsgstream

/-- A copy of the rest of a complete frame. Unless the output goes bad on the way
it ends with the frame marked. -/
theorem stream_write_spec (fuel : Nat) (os : Sockstream) (x : Xmsgstream) (h : x.Ready)
    (hf : x.buf.pptr - x.buf.gptr < fuel) :
    Pushed os (x.contents.drop x.buf.gptr) (stream_write fuel os x).1 ∧
      (stream_write fuel os x).2.contents = x.contents ∧
      (stream_write fuel os x).2.rdstate.fail = false ∧
      ((stream_write fuel os x).1.bad = false → (stream_write fuel os x).2.eof = true) := by
  have hfail : ∀ y : Xmsgstream, y.Ready → y.rdstate.fail = false := by
    intro y hy
    have := hy.good
    simp only [Iostate.good, Bool.not_eq_true', Bool.or_eq_false_iff] at this
    simp [Iostate.fail, this]
  induction fuel generalizing os x with
  | zero => omega
  | succ fuel ih =>
    have hle : x.buf.gptr ≤ x.buf.pptr := Nat.le_trans x.buf.gptr_le x.buf.egptr_le
    unfold stream_write
    rcases Nat.lt_or_eq_of_le hle with hg | hg
    · obtain ⟨r1, r2, r3, r4⟩ := x.readsome_mid 256 h hg
      split
      · rename_i x' heq
        rw [show Istream.readsome x 256 = x.readsome 256 from rfl] at heq
        rw [heq] at r1
        have := congrArg List.length r1
        simp only [List.length_nil, List.length_take, List.length_drop,
          Xmsgstream.length_contents, Xmsgstream.tellp] at this
        omega
      · rename_i b bs x' heq
        rw [show Istream.readsome x 256 = x.readsome 256 from rfl] at heq
        rw [heq] at r1 r2 r3 r4
        dsimp only at r1 r2 r3 r4 ⊢
        have hw := os.write_pushed (b :: bs)
        -- what is copied now, and what is left
        have hcut : x.contents.drop x.buf.gptr = (b :: bs) ++ x'.contents.drop x'.buf.gptr := by
          rw [r1, r2, r4, ← List.drop_drop]
          rw [show (x.contents.drop x.buf.gptr).take 256 =
            (x.contents.drop x.buf.gptr).take (min 256 (x.buf.pptr - x.buf.gptr)) from by
              rw [List.take_eq_take_iff, List.length_drop, Xmsgstream.length_contents,
                Xmsgstream.tellp]
              omega, List.take_append_drop]
        have hpp : x'.buf.pptr = x.buf.pptr := by
          have := congrArg List.length r2
          simpa [Xmsgstream.tellp] using this
        rw [hcut]
        split
        · rename_i hb
          refine ⟨hw.trans (Pushed.stop _ (Sockstream.not_good_of_bad hb)), r2, hfail x' r3,
            fun hb' => ?_⟩
          rw [hb] at hb'
          cases hb'
        · obtain ⟨i1, i2, i3, i4⟩ := ih (os.write (b :: bs)) x' r3 (by omega)
          exact ⟨hw.trans i1, i2.trans r2, i3, i4⟩
    · have hend := x.readsome_end 256 h hg
      have hnil : x.contents.drop x.buf.gptr = [] := by
        rw [List.drop_eq_nil_iff, Xmsgstream.length_contents, Xmsgstream.tellp]
        omega
      have hi : Istream.readsome x 256 = ([], x.set_eofbit) := hend
      rw [hi, hnil]
      exact ⟨Pushed.refl os, rfl, hfail x h, fun _ => rfl⟩

/-! ## `xmsg_read`

The controller and the segment have the same text of it. -/

/-- Both loops of `xmsg_read`: read until the put position `p` reaches `limit`.
Each turn reads one byte or more. `true` when the limit is reached. -/
def fill (limit : Nat) : Nat → Nat → Xmsgstream → Sockstream → Xmsgstream × Sockstream × Bool
  | 0, _, buf, is => (buf, is, false)
  | fuel + 1, p, buf, is =>
    if p < limit then
      match is.readsome (min (limit - p) 256) with
      | ([], is') => (buf, is', false)
      | (b :: bs, is') =>
        let buf' := buf.write (b :: bs)
        if buf'.bad then (buf', is', false)
        else fill limit fuel (p + (b :: bs).length) buf' is'
    else (buf, is, true)

def xmsg_read (buf : Xmsgstream) (is : Sockstream) : Xmsgstream × Sockstream :=
  let buf := if buf.eof then buf.clear_eofbit.seekp 0 else buf
  match fill HDRLEN (HDRLEN + 1) buf.tellp buf is with
  | (buf, is, false) => (buf, is)
  | (buf, is, true) =>
    match buf.len with
    | none => (buf, is)
    | some l =>
      let r := fill l.length.toNat (UINT16_MAX + 1) buf.tellp buf is
      (r.1, r.2.1)

/-! ## What `xmsg_read` does -/

/-- The last read before `is'` found nothing. It was made on a stream `t` that
came from `is` by reads alone. -/
def Dry (is is' : Sockstream) : Prop :=
  ∃ (t : Sockstream) (n : Nat), 0 < n ∧ t.readsome n = ([], is') ∧ t.rx <:+ is.rx ∧ t.rdstate = is.rdstate ∧
    t.native_handle = is.native_handle

/-- One loop moved the bytes `bs` from `is` to the buffer, up to the position `limit`. -/
structure Filled (limit : Nat) (buf : Xmsgstream) (is : Sockstream) (bs : List UInt8)
    (r : Xmsgstream × Sockstream × Bool) : Prop where
  pulled : Pulled is bs r.2.1
  contents : r.1.contents = buf.contents ++ bs
  rdstate : r.1.rdstate = buf.rdstate
  gptr : r.1.buf.gptr = buf.buf.gptr
  bound : bs.length ≤ limit - buf.tellp
  done : r.2.2 = true → limit ≤ r.1.tellp ∧ r.2.1.rdstate = is.rdstate ∧ r.2.1.rx <:+ is.rx
  short : r.2.2 = false → r.1.tellp < limit ∧ Dry is r.2.1
  idle : bs = [] → buf.tellp < limit → is.readable = false

theorem Xmsgbuf.Room.mono {c : List UInt8} {n k : Nat} (h : Room c n) (hk : k ≤ n) : Room c k := by
  rcases h with h | h | ⟨h1, h2⟩
  · exact .inl (by omega)
  · exact .inr (.inl (by omega))
  · exact .inr (.inr ⟨h1, by omega⟩)

theorem Xmsgbuf.Room.append {c : List UInt8} {n : Nat} (bs : List UInt8)
    (h : Room c (bs.length + n)) : Room (c ++ bs) n := by
  rcases h with h | h | ⟨h1, h2⟩
  · exact .inl (by omega)
  · exact .inr (.inl (by rw [List.length_append]; omega))
  · right; right
    rw [lenAt_append _ h1, List.length_append]
    omega

theorem Xmsgstream.tellp_of_contents {x y : Xmsgstream} {bs : List UInt8}
    (h : y.contents = x.contents ++ bs) : y.tellp = x.tellp + bs.length := by
  rw [← length_contents, ← length_contents, h, List.length_append]

theorem fill_spec (limit fuel : Nat) (buf : Xmsgstream) (is : Sockstream)
    (hf : limit - buf.tellp < fuel) (hg : buf.rdstate.good)
    (hr : Xmsgbuf.Room buf.contents (limit - buf.tellp)) :
    ∃ bs, Filled limit buf is bs (fill limit fuel buf.tellp buf is) := by
  induction fuel generalizing buf is with
  | zero => omega
  | succ fuel ih =>
    unfold fill
    split
    · rename_i hp
      have hpull := is.readsome_pulled (min (limit - buf.tellp) 256)
      have hlen := is.readsome_length (min (limit - buf.tellp) 256)
      have hrx := is.readsome_rx (min (limit - buf.tellp) 256)
      split
      · rename_i is' heq
        have hnil := is.readsome_nil_iff (n := min (limit - buf.tellp) 256) (by omega)
        rw [heq] at hpull hnil
        exact ⟨[], hpull, by simp, rfl, rfl, by simp, by simp,
          fun _ => ⟨hp, is, _, by omega, heq, List.suffix_refl _, rfl, rfl⟩,
          fun _ _ => hnil.mp rfl⟩
      · rename_i b bs is' heq
        have hsome := is.readsome_some (min (limit - buf.tellp) 256) (by rw [heq]; simp)
        have hgood := is.readsome_good (min (limit - buf.tellp) 256) (by rw [heq]; simp)
        rw [heq] at hpull hlen hsome hgood hrx
        dsimp only at hlen
        obtain ⟨w1, w2, w3⟩ := buf.write_spec (b :: bs) hg (hr.mono (by omega))
        have hbad : (buf.write (b :: bs)).bad = false := by
          simp only [Xmsgstream.bad, w2]
          simp only [Iostate.good, Bool.not_eq_true', Bool.or_eq_false_iff] at hg
          exact hg.2
        have htell := Xmsgstream.tellp_of_contents w1
        have hpos : 0 < (b :: bs).length := by simp
        obtain ⟨cs, h⟩ := ih (buf.write (b :: bs)) is' (by omega) (by rw [w2]; exact hg) (by
          rw [w1]
          exact Xmsgbuf.Room.append _ (hr.mono (by omega)))
        dsimp only
        rw [hbad, if_neg (by simp), ← htell]
        refine ⟨b :: bs ++ cs, hpull.trans (fun _ => hgood) h.pulled, ?_, h.rdstate.trans w2, h.gptr.trans w3,
          ?_, fun hd => ?_, fun hd => ?_, by simp⟩
        · rw [h.contents, w1, List.append_assoc]
        · have := h.bound
          rw [List.length_append]
          omega
        · obtain ⟨d1, d2, d3⟩ := h.done hd
          exact ⟨d1, d2.trans hsome.2, d3.trans hrx⟩
        · obtain ⟨d1, t, n, d2, d3, d4, d5, d6⟩ := h.short hd
          exact ⟨d1, t, n, d2, d3, d4.trans hrx, d5.trans hsome.2, d6.trans hpull.handle⟩
    · rename_i hp
      exact ⟨[], Pulled.refl is, by simp, rfl, rfl, by simp,
        fun _ => ⟨Nat.le_of_not_lt hp, rfl, List.suffix_refl _⟩, by simp, fun _ h => absurd h hp⟩

/-- What the buffer holds when a call of `xmsg_read` begins: a frame that was
marked as delivered is dropped. -/
def Xmsgstream.start (x : Xmsgstream) : List UInt8 := if x.eof then [] else x.contents

/-- The bytes `c` are too few for the frame they start. -/
def Partial (c : List UInt8) : Prop := c.length < HDRLEN ∨ c.length < (lenAt c).length.toNat

/-- One call of `xmsg_read` moved the bytes `bs` from `is` to the buffer. It stops
at the end of a frame, or when a read finds nothing. -/
structure Reads (buf : Xmsgstream) (is : Sockstream) (bs : List UInt8)
    (buf' : Xmsgstream) (is' : Sockstream) : Prop where
  pulled : Pulled is bs is'
  contents : buf'.contents = buf.start ++ bs
  rdstate : buf'.rdstate = { buf.rdstate with eofbit := false }
  gptr : buf'.buf.gptr = if buf.eof then 0 else buf.buf.gptr
  bound : bs ≠ [] → buf'.tellp ≤ HDRLEN ∨ buf'.tellp ≤ (lenAt buf'.contents).length.toNat
  stop : ¬ Partial buf'.contents ∧ is'.rdstate = is.rdstate ∧ is'.rx <:+ is.rx ∨
    Partial buf'.contents ∧ Dry is is'
  idle : bs = [] → Partial buf.start → is.readable = false

theorem room_header (x : Xmsgstream) : Xmsgbuf.Room x.contents (HDRLEN - x.tellp) := by
  rw [Xmsgbuf.Room, Xmsgstream.length_contents, HDRLEN, BUFINC]
  omega

theorem room_body (x : Xmsgstream) (h : HDRLEN ≤ x.tellp) :
    Xmsgbuf.Room x.contents ((lenAt x.contents).length.toNat - x.tellp) := by
  rw [Xmsgbuf.Room, Xmsgstream.length_contents]
  rw [HDRLEN] at h
  omega

/-- Both loops, from a buffer that is not marked. -/
theorem fill_fill_spec (buf : Xmsgstream) (is : Sockstream) (hg : buf.rdstate.good) :
    ∃ bs, Reads buf is bs (xmsg_read buf is).1 (xmsg_read buf is).2 := by
  have heof : buf.eof = false := by
    simp only [Iostate.good, Bool.not_eq_true', Bool.or_eq_false_iff] at hg
    exact hg.1.1
  have hclear : buf.rdstate = { buf.rdstate with eofbit := false } := by
    rw [← show buf.rdstate.eofbit = false from heof]
  have hstart : buf.start = buf.contents := by simp [Xmsgstream.start, heof]
  obtain ⟨bs, h⟩ := fill_spec HDRLEN (HDRLEN + 1) buf is (by omega) hg (room_header buf)
  unfold xmsg_read
  simp only [heof, Bool.false_eq_true, if_false]
  split
  · -- the header is not complete
    rename_i buf1 is1 heq
    rw [heq] at h
    obtain ⟨s1, s2⟩ := h.short rfl
    have hpart : Partial buf1.contents := .inl (by rw [Xmsgstream.length_contents]; exact s1)
    refine ⟨bs, h.pulled, by rw [hstart]; exact h.contents, h.rdstate.trans hclear,
      by simpa [heof] using h.gptr, fun _ => .inl (Nat.le_of_lt s1), .inr ⟨hpart, s2⟩, fun hnil _ => h.idle hnil ?_⟩
    have := Xmsgstream.tellp_of_contents h.contents
    dsimp only at s1 this
    omega
  · rename_i buf1 is1 heq
    rw [heq] at h
    obtain ⟨d1, d2, d3⟩ := h.done rfl
    dsimp only at d1 d2 d3
    have hlen : buf1.len = some (lenAt buf1.contents) := by
      have := buf1.buf.len_eq
      rwa [if_pos (by rw [HDRLEN] at d1; exact Nat.le_trans (by omega) d1)] at this
    have hlt : (lenAt buf1.contents).length.toNat ≤ UINT16_MAX := by
      have := (lenAt buf1.contents).length.toNat_lt
      rw [UINT16_MAX]
      omega
    obtain ⟨cs, k⟩ := fill_spec (lenAt buf1.contents).length.toNat (UINT16_MAX + 1) buf1 is1
      (by omega) (by rw [h.rdstate]; exact hg) (room_body buf1 d1)
    rw [hlen]
    dsimp only
    generalize hr : fill (lenAt buf1.contents).length.toNat (UINT16_MAX + 1) buf1.tellp buf1 is1 = r
      at k ⊢
    have hlen' : lenAt r.1.contents = lenAt buf1.contents := by
      rw [k.contents, lenAt_append]
      rw [Xmsgstream.length_contents]
      rw [HDRLEN] at d1
      omega
    have htell := Xmsgstream.tellp_of_contents k.contents
    have htell1 := Xmsgstream.tellp_of_contents h.contents
    refine ⟨bs ++ cs, h.pulled.trans (fun hs => ?_) k.pulled, ?_, ?_, ?_, fun hne => ?_, ?_,
      fun hnil hp => ?_⟩
    · rw [Sockstream.good_of_rdstate d2]
      exact hs
    · rw [k.contents, h.contents, hstart, List.append_assoc]
    · exact k.rdstate.trans (h.rdstate.trans hclear)
    · rw [k.gptr, h.gptr]
      simp [heof]
    · rw [hlen']
      have hb := h.bound
      have hb' := k.bound
      rcases List.eq_nil_or_concat cs with rfl | ⟨_, _, rfl⟩
      · left
        have : bs ≠ [] := by simpa using hne
        have := List.length_pos_iff.mpr this
        simp only [List.length_nil] at htell
        dsimp only at htell1
        omega
      · right
        simp only [List.concat_eq_append, List.length_append, List.length_singleton] at htell hb'
        omega
    · cases hok : r.2.2 with
      | true =>
        obtain ⟨e1, e2, e3⟩ := k.done hok
        refine .inl ⟨?_, e2.trans d2, e3.trans d3⟩
        rw [Partial, hlen', Xmsgstream.length_contents]
        omega
      | false =>
        obtain ⟨e1, t, n, e2, e3, e4, e5, e6⟩ := k.short hok
        refine .inr ⟨.inr ?_, t, n, e2, e3, e4.trans d3, e5.trans d2, e6.trans h.pulled.handle⟩
        rw [hlen', Xmsgstream.length_contents]
        exact e1
    · obtain ⟨rfl, rfl⟩ := List.append_eq_nil_iff.mp hnil
      have hc : buf1.contents = buf.contents := by simpa using h.contents
      by_cases hlt : buf.tellp < HDRLEN
      · exact h.idle rfl hlt
      · have hr1 : is1.readable = is.readable := by
          have hfill : fill HDRLEN (HDRLEN + 1) buf.tellp buf is = (buf, is, true) := by
            rw [fill, if_neg hlt]
          rw [hfill] at heq
          cases heq
          rfl
        rw [← hr1]
        refine k.idle rfl ?_
        rw [hstart, ← hc, Partial, Xmsgstream.length_contents] at hp
        omega

/-- What `xmsg_read` does, from any buffer that has not failed. -/
theorem xmsg_read_spec (buf : Xmsgstream) (is : Sockstream) (hf : buf.rdstate.fail = false) :
    ∃ bs, Reads buf is bs (xmsg_read buf is).1 (xmsg_read buf is).2 := by
  simp only [Iostate.fail, Bool.or_eq_false_iff] at hf
  cases heof : buf.eof with
  | false =>
    refine fill_fill_spec buf is ?_
    rw [Xmsgstream.eof] at heof
    simp [Iostate.good, heof, hf]
  | true =>
    obtain ⟨z1, z2, z3⟩ := buf.seekp_zero_contents (by simp [Iostate.fail, hf])
    obtain ⟨bs, h⟩ := fill_fill_spec (buf.clear_eofbit.seekp 0) is (by
      rw [z2]; simp [Iostate.good, hf])
    have heof' : (buf.clear_eofbit.seekp 0).eof = false := by rw [Xmsgstream.eof, z2]
    have hread : xmsg_read buf is = xmsg_read (buf.clear_eofbit.seekp 0) is := by
      simp [xmsg_read, heof, heof']
    have hstart : (buf.clear_eofbit.seekp 0).start = buf.start := by
      simp [Xmsgstream.start, heof, heof', z1]
    rw [hread]
    refine ⟨bs, h.pulled, hstart ▸ h.contents, by rw [h.rdstate, z2], ?_, h.bound, h.stop,
      hstart ▸ h.idle⟩
    rw [h.gptr, heof', heof, z3]
    simp

end cloudbus.messages
