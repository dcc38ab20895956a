-- The marshallers of the controller and the segment. Each keeps one buffer for a
-- stream: a chunk of plain bytes on the side of the clients or the services, a
-- frame on the side of the transports.
import Cloudbus.Xmsg

namespace cloudbus

open cloudbus.io cloudbus.messages

/-- A chunk and its header fill a frame. -/
def MAXCHUNK : Nat := UINT16_MAX - HDRLEN

/-! ## Reading a chunk -/

/-- The loop of both `stream_copy`. The segment leaves it when `maxlen` is used up
(`early`); the controller asks for zero bytes once more. -/
def copyLoop (early : Bool) : Nat → Stringstream → Sockstream → Nat → Stringstream × Sockstream
  | 0, os, is, _ => (os, is)
  | fuel + 1, os, is, maxlen =>
    match is.readsome (min maxlen 256) with
    | ([], is') => (os, is')
    | (b :: bs, is') =>
      let os' := os.write (b :: bs)
      let maxlen' := maxlen - (b :: bs).length
      if early && maxlen' == 0 then (os', is') else copyLoop early fuel os' is' maxlen'

def copyChunk (early : Bool) (os : Stringstream) (is : Sockstream) : Stringstream × Sockstream :=
  copyLoop early (MAXCHUNK + 1) os is MAXCHUNK

/-- A chunk is read only when the one before it was read to its end. -/
def readChunk (early : Bool) (buf : Stringstream) (is : Sockstream) : Stringstream × Sockstream :=
  if buf.tellg = buf.tellp then copyChunk early buf.rewindg.rewindp is else (buf, is)

namespace controller

def stream_copy (os : Stringstream) (is : Sockstream) : Stringstream × Sockstream :=
  copyChunk false os is

/-- `marshaller::_unmarshal` on the buffer of the stream. -/
def unmarshal (buf : Stringstream) (is : Sockstream) : Stringstream × Sockstream :=
  readChunk false buf is

/-- `marshaller::_marshal` on the buffer of the stream. -/
def marshal (buf : Xmsgstream) (is : Sockstream) : Xmsgstream × Sockstream := xmsg_read buf is

end controller

namespace segment

def stream_copy (os : Stringstream) (is : Sockstream) : Stringstream × Sockstream :=
  copyChunk true os is

/-- `marshaller::_unmarshal` on the buffer of the stream. -/
def unmarshal (buf : Xmsgstream) (is : Sockstream) : Xmsgstream × Sockstream := xmsg_read buf is

/-- `marshaller::_marshal` on the buffer of the stream. -/
def marshal (buf : Stringstream) (is : Sockstream) : Stringstream × Sockstream :=
  readChunk true buf is

end segment

/-! ## What the copy does -/

/-- The loop moves a run of bytes, at most `maxlen`, to the put position. -/
theorem copyLoop_spec (early : Bool) (fuel : Nat) (os : Stringstream) (is : Sockstream)
    (maxlen : Nat) (hf : maxlen < fuel) :
    ∃ bs, Pulled is bs (copyLoop early fuel os is maxlen).2 ∧ bs.length ≤ maxlen ∧
      (copyLoop early fuel os is maxlen).1 = os.write bs := by
  induction fuel generalizing os is maxlen with
  | zero => omega
  | succ fuel ih =>
    have hpull := is.readsome_pulled (min maxlen 256)
    have hlen := is.readsome_length (min maxlen 256)
    unfold copyLoop
    split
    · rename_i is' heq
      rw [heq] at hpull
      exact ⟨[], hpull, by simp, by simp [Stringstream.write]⟩
    · rename_i b bs is' heq
      have hgood := is.readsome_good (min maxlen 256) (by rw [heq]; simp)
      rw [heq] at hpull hlen hgood
      dsimp only at hlen ⊢
      have hpos : 0 < (b :: bs).length := by simp
      split
      · exact ⟨b :: bs, hpull, by omega, rfl⟩
      · obtain ⟨cs, i1, i2, i3⟩ := ih (os.write (b :: bs)) is' (maxlen - (b :: bs).length) (by omega)
        refine ⟨b :: bs ++ cs, hpull.trans (fun _ => hgood) i1, ?_, ?_⟩
        · rw [List.length_append]
          omega
        · rw [i3, Stringstream.write_write]

theorem copyChunk_spec (early : Bool) (os : Stringstream) (is : Sockstream) :
    ∃ bs, Pulled is bs (copyChunk early os is).2 ∧ bs.length ≤ MAXCHUNK ∧
      (copyChunk early os is).1 = os.write bs :=
  copyLoop_spec early (MAXCHUNK + 1) os is MAXCHUNK (by omega)

/-- After a call the buffer holds what it held, and what was read now. -/
structure Chunked (buf : Stringstream) (is : Sockstream) (bs : List UInt8) (buf' : Stringstream)
    (is' : Sockstream) : Prop where
  pulled : Pulled is bs is'
  pending : buf'.pending = buf.pending ++ bs
  held : buf.pending ≠ [] → bs = [] ∧ buf' = buf ∧ is' = is
  fresh : buf.pending = [] → buf'.chunk = bs ∧ buf'.gpos = 0
  bound : bs.length ≤ MAXCHUNK

theorem Stringstream.pending_of_gpos_zero (s : Stringstream) (h : s.gpos = 0) :
    s.pending = s.chunk := by
  unfold Stringstream.pending
  split
  · rename_i heq
    simp [Stringstream.chunk, ← heq, h]
  · rfl

/-- A chunk buffer between two calls: an empty chunk is not left to be read, so
`pending` is empty only when the positions meet. -/
def ChunkOk (c : Stringstream) : Prop := c.ppos = 0 → c.gpos = 0

theorem readChunk_spec (early : Bool) (buf : Stringstream) (is : Sockstream) (hb : ChunkOk buf) :
    ∃ bs, Chunked buf is bs (readChunk early buf is).1 (readChunk early buf is).2 := by
  unfold readChunk Stringstream.tellg Stringstream.tellp
  split
  · rename_i heq
    obtain ⟨bs, h1, h2, h3⟩ := copyChunk_spec early buf.rewindg.rewindp is
    have hnil : buf.pending = [] := by simp [Stringstream.pending, heq]
    have hg : (copyChunk early buf.rewindg.rewindp is).1.gpos = 0 := by
      rw [h3]; rfl
    have hc : (copyChunk early buf.rewindg.rewindp is).1.chunk = bs := by
      rw [h3, Stringstream.chunk_rewindp_write]
    refine ⟨bs, h1, ?_, fun h => absurd hnil h, fun _ => ⟨hc, hg⟩, h2⟩
    rw [Stringstream.pending_of_gpos_zero _ hg, hc, hnil, List.nil_append]
  · rename_i hne
    have hp : buf.pending ≠ [] := by
      have hle := buf.ppos_le
      simp only [Stringstream.pending, if_neg hne, Stringstream.chunk, ne_eq, List.take_eq_nil_iff,
        not_or]
      refine ⟨fun h0 => hne (by rw [hb h0, h0]), fun h0 => ?_⟩
      rw [h0, List.length_nil] at hle
      have h0 : buf.ppos = 0 := by omega
      exact hne (by rw [hb h0, h0])
    exact ⟨[], Pulled.refl is, by simp, fun _ => ⟨rfl, rfl, rfl⟩, fun h => absurd h hp, by simp⟩

end cloudbus
