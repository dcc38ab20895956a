-- The streams the connectors read and write: `io::streams::sockstream` over a
-- socket, and the `std::stringstream` that holds one chunk. The kernel is a list
-- of answers to come, so a run fixes every short read, short write and error,
-- and a theorem over all lists is a theorem over all kernels.
import Cloudbus.Messages

namespace cloudbus.io

/-! ## The state bits of a stream -/

/-- `std::ios_base::iostate`. -/
structure Iostate where
  eofbit : Bool := false
  failbit : Bool := false
  badbit : Bool := false
deriving DecidableEq, Repr, Inhabited

def Iostate.good (r : Iostate) : Bool := !(r.eofbit || r.failbit || r.badbit)

/-- `std::ios::fail()` is true for either of the two bits. -/
def Iostate.fail (r : Iostate) : Bool := r.failbit || r.badbit

/-! ## The kernel -/

/-- What one `recvmsg` gives: some bytes, nothing yet, or -1 from `_recv`, which
is the answer both at the end of the file and after an error. -/
inductive Recv where
  | data (b : UInt8) (bs : List UInt8)
  | wouldblock
  | eof
deriving DecidableEq, Repr

/-- What the kernel takes of the put area during one `sync`: up to `n` bytes and
then nothing more for now, or up to `n` bytes and then an error. -/
inductive Send where
  | accept (n : Nat)
  | error (n : Nat)
deriving DecidableEq, Repr

def Recv.bytes : Recv → List UInt8
  | .data b bs => b :: bs
  | _ => []

def Send.isError : Send → Bool
  | .accept _ => false
  | .error _ => true

/-! ## The socket stream -/

def BAD_SOCKET : Int := -1

def MIN_BUFSIZE : Nat := 32768

/-- `sockstream` with its `sockbuf`. `garea` is the part of the get area that is
not read yet, `parea` the put area and `cap` its size. `taken` and `kernel` are
the bytes that were read out of the stream and handed to the kernel so far. -/
structure Sockstream where
  rdstate : Iostate := {}
  native_handle : Int := BAD_SOCKET
  gcount : Nat := 0
  garea : List UInt8 := []
  rx : List Recv := []
  taken : List UInt8 := []
  parea : List UInt8 := []
  cap : Nat := MIN_BUFSIZE
  tx : List Send := []
  kernel : List UInt8 := []
deriving DecidableEq, Repr, Inhabited

namespace Sockstream

def eof (s : Sockstream) : Bool := s.rdstate.eofbit
def fail (s : Sockstream) : Bool := s.rdstate.fail
def bad (s : Sockstream) : Bool := s.rdstate.badbit
def good (s : Sockstream) : Bool := s.rdstate.good

/-- Every byte that was ever written to the stream and accepted by it. -/
def written (s : Sockstream) : List UInt8 := s.kernel ++ s.parea

/-- Every byte that is still to be read: the get area and what the kernel holds. -/
def avail (s : Sockstream) : List UInt8 := s.garea ++ s.rx.flatMap Recv.bytes

def set_eofbit (s : Sockstream) : Sockstream := { s with rdstate.eofbit := true }
def set_failbit (s : Sockstream) : Sockstream := { s with rdstate.failbit := true }
def set_badbit (s : Sockstream) : Sockstream := { s with rdstate.badbit := true }

/-- `clear(rdstate() & ~failbit)`. -/
def clear_failbit (s : Sockstream) : Sockstream := { s with rdstate.failbit := false }

/-- `sockbuf::_recv`, with `false` for its -1. -/
def recv (s : Sockstream) : Sockstream × Bool :=
  if s.native_handle = BAD_SOCKET then (s, false)
  else match s.rx with
    | [] => (s, true)
    | .wouldblock :: rx => ({ s with rx := rx }, true)
    | .data b bs :: rx => ({ s with rx := rx, garea := s.garea ++ b :: bs }, true)
    | .eof :: _ => (s, false)

/-- `in_avail()`, which asks `showmanyc` when the get area is empty. -/
def in_avail (s : Sockstream) : Sockstream × Option Nat :=
  if s.garea = [] then
    match s.recv with
    | (s', true) => (s', some s'.garea.length)
    | (s', false) => (s', none)
  else (s, some s.garea.length)

/-- `std::istream::readsome`. Its sentry sets the failbit of a stream that is not good. -/
def readsome (s : Sockstream) (n : Nat) : List UInt8 × Sockstream :=
  if s.good then
    match s.in_avail with
    | (s', none) => ([], { s'.set_eofbit with gcount := 0 })
    | (s', some _) =>
      let bs := s'.garea.take n
      (bs, { s' with garea := s'.garea.drop n, taken := s'.taken ++ bs, gcount := bs.length })
  else ([], { s.set_failbit with gcount := 0 })

/-- A read gives at least one byte now. -/
def readable (s : Sockstream) : Bool :=
  s.good && (s.garea != [] || s.native_handle != BAD_SOCKET &&
    match s.rx with
    | .data _ _ :: _ => true
    | _ => false)

/-- `sockbuf::_resizewbuf`: the put area always keeps room after what it holds. -/
def resizewbuf (s : Sockstream) : Sockstream :=
  { s with cap := MIN_BUFSIZE * (s.parea.length / MIN_BUFSIZE + 1) }

/-- `sockbuf::sync`, with `false` for its -1. Without a socket it only makes room. -/
def sync (s : Sockstream) : Sockstream × Bool :=
  if s.native_handle = BAD_SOCKET then (s.resizewbuf, true)
  else if s.parea = [] then (s, true)
  else match s.tx with
    | [] => (s.resizewbuf, true)
    | .accept n :: tx =>
      ({ s with tx := tx, kernel := s.kernel ++ s.parea.take n, parea := s.parea.drop n }.resizewbuf,
        true)
    | .error n :: tx =>
      ({ s with tx := tx, kernel := s.kernel ++ s.parea.take n, parea := s.parea.drop n }.resizewbuf,
        false)

/-- `sputc`, with the `overflow` of a full put area. -/
def sputc (s : Sockstream) (ch : UInt8) : Sockstream × Bool :=
  if s.parea.length < s.cap then ({ s with parea := s.parea ++ [ch] }, true)
  else match s.sync with
    | (s', true) => ({ s' with parea := s'.parea ++ [ch] }, true)
    | (s', false) => (s', false)

def sputn (s : Sockstream) : List UInt8 → Sockstream × Bool
  | [] => (s, true)
  | ch :: bs =>
    match s.sputc ch with
    | (s', true) => s'.sputn bs
    | (s', false) => (s', false)

/-- `std::ostream::write`. Its sentry is false unless the stream is good, so a
stream that saw the end of its file takes no more output. -/
def write (s : Sockstream) (bs : List UInt8) : Sockstream :=
  if s.good then
    match s.sputn bs with
    | (s', true) => s'
    | (s', false) => s'.set_badbit
  else s

/-- `std::ostream::flush`, which has the same sentry. -/
def flush (s : Sockstream) : Sockstream :=
  if s.good then
    match s.sync with
    | (s', true) => s'
    | (s', false) => s'.set_badbit
  else s

def tellp (s : Sockstream) : Int := if s.fail then -1 else s.parea.length

end Sockstream

/-! ## The chunk buffer -/

/-- The `std::stringstream` a marshaller keeps for a stream. `data` is all that
was ever stored: bytes past `ppos` are left from a longer chunk. -/
@[ext]
structure Stringstream where
  data : List UInt8 := []
  gpos : Nat := 0
  ppos : Nat := 0
  gpos_le : gpos ≤ data.length := by exact Nat.zero_le _
  ppos_le : ppos ≤ data.length := by exact Nat.zero_le _
deriving Repr

instance : DecidableEq Stringstream := fun _ _ => decidable_of_iff _ Stringstream.ext_iff.symm

instance : Inhabited Stringstream := ⟨{}⟩

namespace Stringstream

def tellg (s : Stringstream) : Nat := s.gpos
def tellp (s : Stringstream) : Nat := s.ppos

/-- `seekg(0)`. -/
def rewindg (s : Stringstream) : Stringstream := { s with gpos := 0, gpos_le := Nat.zero_le _ }

/-- `seekp(0)`. -/
def rewindp (s : Stringstream) : Stringstream := { s with ppos := 0, ppos_le := Nat.zero_le _ }

def write (s : Stringstream) (bs : List UInt8) : Stringstream where
  data := s.data.take s.ppos ++ bs ++ s.data.drop (s.ppos + bs.length)
  gpos := s.gpos
  ppos := s.ppos + bs.length
  gpos_le := by
    have := s.gpos_le; have := s.ppos_le
    simp only [List.length_append, List.length_take, List.length_drop]
    omega
  ppos_le := by
    have := s.ppos_le
    simp only [List.length_append, List.length_take, List.length_drop]
    omega

def readsome (s : Stringstream) (n : Nat) : List UInt8 × Stringstream :=
  ((s.data.drop s.gpos).take n,
    { s with
      gpos := s.gpos + ((s.data.drop s.gpos).take n).length
      gpos_le := by
        have := s.gpos_le
        simp only [List.length_take, List.length_drop]
        omega })

/-- The chunk that the buffer holds. -/
def chunk (s : Stringstream) : List UInt8 := s.data.take s.ppos

/-- A marshaller reads a new chunk only when the old one was read to its end.
Until then the whole chunk is still to be forwarded. -/
def pending (s : Stringstream) : List UInt8 := if s.gpos = s.ppos then [] else s.chunk

end Stringstream

/-! ## Copying between streams -/

/-- What `stream_write` and `xmsg_read` need of a `std::istream`. -/
class Istream (σ : Type) where
  readsome : σ → Nat → List UInt8 × σ

instance : Istream Sockstream := ⟨Sockstream.readsome⟩
instance : Istream Stringstream := ⟨Stringstream.readsome⟩

/-- `stream_write(os, is, maxlen)`. Each turn of the loop reads one byte or more,
so `fuel = maxlen` is enough. -/
def stream_write_upto {σ : Type} [Istream σ] : Nat → Sockstream → σ → Nat → Sockstream × σ
  | 0, os, is, _ => (os, is)
  | fuel + 1, os, is, maxlen =>
    if maxlen = 0 then (os, is)
    else match Istream.readsome is (min maxlen 256) with
      | ([], is') => (os, is')
      | (b :: bs, is') =>
        let os' := os.write (b :: bs)
        if os'.bad then (os', is')
        else stream_write_upto fuel os' is' (maxlen - (b :: bs).length)

/-- `stream_write(os, is)`. -/
def stream_write {σ : Type} [Istream σ] : Nat → Sockstream → σ → Sockstream × σ
  | 0, os, is => (os, is)
  | fuel + 1, os, is =>
    match Istream.readsome is 256 with
    | ([], is') => (os, is')
    | (b :: bs, is') =>
      let os' := os.write (b :: bs)
      if os'.bad then (os', is') else stream_write fuel os' is'

/-! ## What a read does -/

/-- The bytes `bs` were read out of the stream `s`, which is `s'` after that. The
writing half is as it was. -/
structure Pulled (s : Sockstream) (bs : List UInt8) (s' : Sockstream) : Prop where
  handle : s'.native_handle = s.native_handle
  parea : s'.parea = s.parea
  cap : s'.cap = s.cap
  tx : s'.tx = s.tx
  kernel : s'.kernel = s.kernel
  taken : s'.taken = s.taken ++ bs
  avail : bs ++ s'.avail = s.avail
  badbit : s'.rdstate.badbit = s.rdstate.badbit
  eofbit : s.rdstate.eofbit → s'.rdstate.eofbit
  failbit : s.rdstate.failbit → s'.rdstate.failbit
  fresh : s.good → s'.rdstate.failbit = false

namespace Pulled

variable {s s' s'' : Sockstream} {bs cs : List UInt8}

theorem good (h : Pulled s bs s') (hg : s'.good) : s.good := by
  have h1 := h.eofbit
  have h2 := h.failbit
  have h3 := h.badbit
  simp only [Sockstream.good, Iostate.good, Bool.not_eq_true', Bool.or_eq_false_iff] at hg ⊢
  obtain ⟨⟨he, hf⟩, hb⟩ := hg
  refine ⟨⟨?_, ?_⟩, h3.symm.trans hb⟩
  · by_contra hne
    rw [h1 (by simpa using hne)] at he
    cases he
  · by_contra hne
    rw [h2 (by simpa using hne)] at hf
    cases hf

theorem written (h : Pulled s bs s') : s'.written = s.written := by
  unfold Sockstream.written
  rw [h.kernel, h.parea]

theorem refl (s : Sockstream) : Pulled s [] s :=
  ⟨rfl, rfl, rfl, rfl, rfl, by simp, by simp, rfl, id, id, fun h => by
    simp [Sockstream.good, Iostate.good] at h; exact h.1.2⟩

/-- A stream that is still good after the first read can be read on. -/
theorem trans (h : Pulled s bs s') (hg : s.good → s'.good) (h' : Pulled s' cs s'') :
    Pulled s (bs ++ cs) s'' where
  handle := h'.handle.trans h.handle
  parea := h'.parea.trans h.parea
  cap := h'.cap.trans h.cap
  tx := h'.tx.trans h.tx
  kernel := h'.kernel.trans h.kernel
  taken := by rw [h'.taken, h.taken, List.append_assoc]
  avail := by rw [List.append_assoc, h'.avail, h.avail]
  badbit := h'.badbit.trans h.badbit
  eofbit he := h'.eofbit (h.eofbit he)
  failbit hf := h'.failbit (h.failbit hf)
  fresh hs := h'.fresh (hg hs)

end Pulled

namespace Sockstream

theorem recv_pulled (s : Sockstream) (hg : s.good) : Pulled s [] s.recv.1 := by
  unfold recv
  split
  · exact Pulled.refl s
  · simp only [good, Iostate.good, Bool.not_eq_true', Bool.or_eq_false_iff] at hg
    split <;> constructor <;> simp_all [avail, Recv.bytes]

theorem in_avail_pulled (s : Sockstream) (hg : s.good) : Pulled s [] s.in_avail.1 := by
  unfold in_avail
  have h := recv_pulled s hg
  split
  · split <;> rename_i heq <;> rw [heq] at h <;> exact h
  · exact Pulled.refl s

theorem in_avail_rdstate (s : Sockstream) : s.in_avail.1.rdstate = s.rdstate := by
  unfold in_avail recv
  split
  · split <;> rename_i heq <;> split at heq <;> (try split at heq) <;> cases heq <;> rfl
  · rfl

theorem readsome_pulled (s : Sockstream) (n : Nat) : Pulled s (s.readsome n).1 (s.readsome n).2 := by
  unfold readsome
  split
  · rename_i hg
    have h := in_avail_pulled s hg
    split
    · rename_i s' heq
      rw [heq] at h
      exact ⟨h.handle, h.parea, h.cap, h.tx, h.kernel, h.taken, h.avail, h.badbit, fun _ => rfl,
        h.failbit, fun _ => h.fresh hg⟩
    · rename_i s' k heq
      rw [heq] at h
      refine ⟨h.handle, h.parea, h.cap, h.tx, h.kernel, ?_, ?_, h.badbit, h.eofbit, h.failbit,
        fun _ => h.fresh hg⟩
      · have := h.taken
        simp only [List.append_nil] at this
        simp only [this]
      · have := h.avail
        simp only [List.nil_append] at this
        rw [← this]
        simp only [avail, ← List.append_assoc, List.take_append_drop]
  · rename_i hg
    exact ⟨rfl, rfl, rfl, rfl, rfl, by simp [set_failbit], by simp [set_failbit, avail], rfl, id,
      fun _ => rfl, fun h => absurd h hg⟩

theorem readsome_length (s : Sockstream) (n : Nat) : (s.readsome n).1.length ≤ n := by
  unfold readsome
  split
  · split
    · simp
    · simp only [List.length_take]; omega
  · simp

/-- A read that gives something comes from a good stream, and leaves it good. -/
theorem readsome_some (s : Sockstream) (n : Nat) (h : (s.readsome n).1 ≠ []) :
    s.good ∧ (s.readsome n).2.rdstate = s.rdstate := by
  unfold readsome at *
  split at h
  · rename_i hg
    refine ⟨hg, ?_⟩
    have hr := in_avail_rdstate s
    rw [if_pos hg]
    split at h
    · simp at h
    · rename_i s' k heq
      rw [heq] at hr
      exact hr
  · simp at h

theorem readsome_good (s : Sockstream) (n : Nat) (h : (s.readsome n).1 ≠ []) :
    (s.readsome n).2.good := by
  obtain ⟨hg, hr⟩ := readsome_some s n h
  unfold good at *
  rw [hr]
  exact hg

theorem readsome_nil_iff (s : Sockstream) {n : Nat} (hn : 0 < n) :
    (s.readsome n).1 = [] ↔ s.readable = false := by
  have hn' : n ≠ 0 := by omega
  unfold readsome readable in_avail recv
  cases s.good with
  | false => simp
  | true =>
    cases hga : s.garea with
    | cons b bs => simp [hga, hn']
    | nil =>
      by_cases hh : s.native_handle = BAD_SOCKET
      · simp [hh]
      · rcases s.rx with _ | ⟨_ | _ | _, _⟩ <;> simp [hh, hga, hn']

theorem readsome_rx (s : Sockstream) (n : Nat) : (s.readsome n).2.rx <:+ s.rx := by
  unfold readsome in_avail recv
  cases s.good with
  | false => exact List.suffix_refl _
  | true =>
    cases hga : s.garea with
    | cons b bs => simp
    | nil =>
      by_cases hh : s.native_handle = BAD_SOCKET
      · simp [hh, set_eofbit]
      · rcases hrx : s.rx with _ | ⟨_ | _ | _, _⟩ <;> simp [hh, hrx, set_eofbit]

/-- An empty read of an open socket uses up an answer of the kernel, or there is
nothing left to read. -/
theorem readsome_nil_open (s : Sockstream) {n : Nat} (hn : 0 < n) (hg : s.good)
    (hh : s.native_handle ≠ BAD_SOCKET) (he : Recv.eof ∉ s.rx) (h : (s.readsome n).1 = []) :
    (s.readsome n).2.rdstate = s.rdstate ∧
      ((s.readsome n).2.rx.length < s.rx.length ∨ (s.readsome n).2.avail = []) := by
  rw [readsome_nil_iff s hn, readable, hg, Bool.true_and, Bool.or_eq_false_iff, bne_eq_false_iff_eq] at h
  obtain ⟨hga, h⟩ := h
  unfold readsome in_avail recv
  rcases hrx : s.rx with _ | ⟨_ | _ | _, rx⟩
  · simp [hg, hh, hga, hrx, avail]
  · simp [hh, hrx] at h
  · simp [hg, hh, hga]
  · simp [hrx] at he

end Sockstream

/-! ## What a write does -/

/-- No error is among the kernel's answers to come. -/
def Sockstream.Healthy (s : Sockstream) : Prop := ∀ a ∈ s.tx, a.isError = false

/-- The bytes `bs` were written to the stream `s`, which is `s'` after that. A
good stream takes all of them, or a part and goes bad. Any other stream takes
nothing. The reading half is as it was. -/
structure Pushed (s : Sockstream) (bs : List UInt8) (s' : Sockstream) : Prop where
  handle : s'.native_handle = s.native_handle
  gcount : s'.gcount = s.gcount
  garea : s'.garea = s.garea
  rx : s'.rx = s.rx
  taken : s'.taken = s.taken
  eofbit : s'.rdstate.eofbit = s.rdstate.eofbit
  failbit : s'.rdstate.failbit = s.rdstate.failbit
  badbit : s.bad → s'.bad
  some : ∃ k, s'.written = s.written ++ bs.take k
  all : s.good → s'.bad = false → s'.written = s.written ++ bs
  none : s.good = false → s'.written = s.written ∧ s'.rdstate = s.rdstate
  tx : s'.tx <:+ s.tx
  healthy : s.Healthy → s'.bad = s.bad
  kernel : s.kernel <+: s'.kernel

namespace Pushed

variable {s s' s'' : Sockstream} {bs cs : List UInt8}

theorem good_eq (h : Pushed s bs s') : s'.good = (s.good && !s'.bad) := by
  have h1 := h.eofbit
  have h2 := h.failbit
  have h3 := h.badbit
  simp only [Sockstream.good, Iostate.good, Sockstream.bad] at *
  rw [h1, h2]
  cases hb : s.rdstate.badbit <;> simp_all

theorem avail (h : Pushed s bs s') : s'.avail = s.avail := by
  unfold Sockstream.avail
  rw [h.garea, h.rx]

theorem healthy_of (h : Pushed s bs s') (hs : s.Healthy) : s'.Healthy :=
  fun a ha => hs a (h.tx.subset ha)

theorem refl (s : Sockstream) : Pushed s [] s :=
  ⟨rfl, rfl, rfl, rfl, rfl, rfl, rfl, id, ⟨0, by simp⟩, fun _ _ => by simp, fun _ => ⟨rfl, rfl⟩,
    List.suffix_refl _, fun _ => rfl, List.prefix_refl _⟩

/-- Nothing goes to a stream that is not good. -/
theorem stop (bs : List UInt8) (h : s.good = false) : Pushed s bs s :=
  ⟨rfl, rfl, rfl, rfl, rfl, rfl, rfl, id, ⟨0, by simp⟩, fun hg => by simp [h] at hg,
    fun _ => ⟨rfl, rfl⟩, List.suffix_refl _, fun _ => rfl, List.prefix_refl _⟩

theorem trans (h : Pushed s bs s') (h' : Pushed s' cs s'') : Pushed s (bs ++ cs) s'' where
  handle := h'.handle.trans h.handle
  gcount := h'.gcount.trans h.gcount
  garea := h'.garea.trans h.garea
  rx := h'.rx.trans h.rx
  taken := h'.taken.trans h.taken
  eofbit := h'.eofbit.trans h.eofbit
  failbit := h'.failbit.trans h.failbit
  badbit hb := h'.badbit (h.badbit hb)
  some := by
    cases hg : s'.good with
    | false =>
      obtain ⟨k, hk⟩ := h.some
      refine ⟨min k bs.length, ?_⟩
      rw [(h'.none hg).1, hk, List.take_append_of_le_length (Nat.min_le_right _ _)]
      congr 1
      rw [List.take_eq_take_iff]
      omega
    | true =>
      rw [h.good_eq, Bool.and_eq_true, Bool.not_eq_true'] at hg
      obtain ⟨k, hk⟩ := h'.some
      refine ⟨bs.length + k, ?_⟩
      rw [hk, h.all hg.1 hg.2, List.append_assoc, List.take_length_add_append]
  all hg hb := by
    have hb' : s'.bad = false := by
      cases hb' : s'.bad with
      | false => rfl
      | true => rw [h'.badbit hb'] at hb; exact absurd hb (by simp)
    rw [h'.all (by rw [h.good_eq, hg, hb']; rfl) hb, h.all hg hb', List.append_assoc]
  none hg := by
    obtain ⟨h1, h2⟩ := h.none hg
    have hg' : s'.good = false := by unfold Sockstream.good at *; rw [h2]; exact hg
    obtain ⟨h3, h4⟩ := h'.none hg'
    exact ⟨h3.trans h1, h4.trans h2⟩
  tx := h'.tx.trans h.tx
  healthy hs := (h'.healthy (h.healthy_of hs)).trans (h.healthy hs)
  kernel := h.kernel.trans h'.kernel

end Pushed

namespace Sockstream

theorem sync_spec (s : Sockstream) :
    s.sync.1.written = s.written ∧ s.sync.1.rdstate = s.rdstate ∧
      s.sync.1.native_handle = s.native_handle ∧ s.sync.1.gcount = s.gcount ∧
      s.sync.1.garea = s.garea ∧ s.sync.1.rx = s.rx ∧ s.sync.1.taken = s.taken ∧
      s.sync.1.tx <:+ s.tx ∧ s.kernel <+: s.sync.1.kernel ∧ (s.Healthy → s.sync.2 = true) := by
  unfold sync resizewbuf
  split
  · simp [written]
  · split
    · simp [written]
    · split
      · simp [written]
      · rename_i n tx htx
        simp [written, htx]
      · rename_i n tx htx
        refine ⟨by simp [written], rfl, rfl, rfl, rfl, rfl, rfl, by simp [htx], by simp, ?_⟩
        intro h
        have := h (.error n) (by simp [htx])
        simp [Send.isError] at this

theorem good_of_rdstate {s s' : Sockstream} (h : s'.rdstate = s.rdstate) : s'.good = s.good := by
  unfold good
  rw [h]

theorem bad_of_good {s : Sockstream} (h : s.good) : s.bad = false := by
  simp only [good, Iostate.good, Bool.not_eq_true', Bool.or_eq_false_iff] at h
  exact h.2

theorem not_good_of_fail {s : Sockstream} (h : s.fail) : s.good = false := by
  unfold fail Iostate.fail at h
  unfold good Iostate.good
  revert h
  cases s.rdstate.eofbit <;> cases s.rdstate.failbit <;> cases s.rdstate.badbit <;> simp

theorem fail_of_good {s : Sockstream} (h : s.good) : s.fail = false := by
  by_contra hf
  rw [Bool.not_eq_false] at hf
  rw [not_good_of_fail hf] at h
  cases h

theorem not_good_of_bad {s : Sockstream} (h : s.bad) : s.good = false := by
  cases hg : s.good with
  | false => rfl
  | true => rw [bad_of_good hg] at h; cases h

theorem tellp_le (s : Sockstream) : s.tellp ≤ s.parea.length := by
  unfold tellp
  split
  · omega
  · exact Int.le_refl _

theorem flush_pushed (s : Sockstream) : Pushed s [] s.flush := by
  obtain ⟨h1, h2, h3, h4, h5, h6, h7, h8, h9, h10⟩ := sync_spec s
  unfold flush
  split
  · rename_i hg
    split
    · rename_i s' heq
      simp only [heq] at *
      have hb : s'.bad = s.bad := by unfold bad; rw [h2]
      exact ⟨h3, h4, h5, h6, h7, by rw [h2], by rw [h2], by rw [hb]; exact id,
        ⟨0, by simp [h1]⟩, fun _ _ => by simp [h1], fun _ => ⟨h1, h2⟩, h8, fun _ => hb, h9⟩
    · rename_i s' heq
      simp only [heq] at *
      refine ⟨h3, h4, h5, h6, h7, by simp [set_badbit, h2], by simp [set_badbit, h2],
        fun _ => rfl, ⟨0, by simp [← h1]; rfl⟩, fun _ hb => by simp [bad, set_badbit] at hb,
        fun hb => by simp [hg] at hb, h8, fun hs => by simp at h10; exact absurd hs h10, h9⟩
  · exact Pushed.refl s

/-- `sputn` on its own does not touch the state bits. -/
theorem sputn_spec (s : Sockstream) (bs : List UInt8) :
    (∃ k, (s.sputn bs).1.written = s.written ++ bs.take k) ∧
      ((s.sputn bs).2 = true → (s.sputn bs).1.written = s.written ++ bs) ∧
      (s.sputn bs).1.rdstate = s.rdstate ∧
      (s.sputn bs).1.native_handle = s.native_handle ∧ (s.sputn bs).1.gcount = s.gcount ∧
      (s.sputn bs).1.garea = s.garea ∧ (s.sputn bs).1.rx = s.rx ∧
      (s.sputn bs).1.taken = s.taken ∧ (s.sputn bs).1.tx <:+ s.tx ∧
      s.kernel <+: (s.sputn bs).1.kernel ∧ (s.Healthy → (s.sputn bs).2 = true) := by
  induction bs generalizing s with
  | nil => exact ⟨⟨0, by simp [sputn]⟩, by simp [sputn]⟩
  | cons ch bs ih =>
    -- one `sputc`, with or without the `sync` of an overflow
    have hput : (s.sputc ch).1.rdstate = s.rdstate ∧
        (s.sputc ch).1.native_handle = s.native_handle ∧ (s.sputc ch).1.gcount = s.gcount ∧
        (s.sputc ch).1.garea = s.garea ∧ (s.sputc ch).1.rx = s.rx ∧
        (s.sputc ch).1.taken = s.taken ∧ (s.sputc ch).1.tx <:+ s.tx ∧
        s.kernel <+: (s.sputc ch).1.kernel ∧ (s.Healthy → (s.sputc ch).2 = true) ∧
        ((s.sputc ch).2 = true → (s.sputc ch).1.written = s.written ++ [ch]) ∧
        ((s.sputc ch).2 = false → (s.sputc ch).1.written = s.written) := by
      obtain ⟨h1, h2, h3, h4, h5, h6, h7, h8, h9, h10⟩ := sync_spec s
      unfold sputc
      split
      · simp [written]
      · split
        · rename_i s' heq
          simp only [heq] at *
          refine ⟨h2, h3, h4, h5, h6, h7, h8, h9, fun _ => trivial, fun _ => ?_, by simp⟩
          rw [← h1]
          simp [written]
        · rename_i s' heq
          simp only [heq] at *
          exact ⟨h2, h3, h4, h5, h6, h7, h8, h9, h10, by simp, fun _ => h1⟩
    obtain ⟨p1, p2, p3, p4, p5, p6, p7, p8, p9, p10, p11⟩ := hput
    unfold sputn
    split
    · rename_i s' heq
      simp only [heq] at *
      obtain ⟨⟨k, q1⟩, q2, q3, q4, q5, q6, q7, q8, q9, q10, q11⟩ := ih s'
      have hw := p10 trivial
      refine ⟨⟨k + 1, by simp [q1, hw]⟩, fun h => by simp [q2 h, hw], q3.trans p1, q4.trans p2,
        q5.trans p3, q6.trans p4, q7.trans p5, q8.trans p6, q9.trans p7, p8.trans q10,
        fun hs => q11 (fun a ha => hs a (p7.subset ha))⟩
    · rename_i s' heq
      simp only [heq] at *
      exact ⟨⟨0, by simp [p11]⟩, by simp, p1, p2, p3, p4, p5, p6, p7, p8, p9⟩

theorem write_pushed (s : Sockstream) (bs : List UInt8) : Pushed s bs (s.write bs) := by
  obtain ⟨h0, h1, h2, h3, h4, h5, h6, h7, h8, h9, h10⟩ := sputn_spec s bs
  unfold write
  split
  · rename_i hg
    split
    · rename_i s' heq
      simp only [heq] at *
      have hb : s'.bad = s.bad := by unfold bad; rw [h2]
      exact ⟨h3, h4, h5, h6, h7, by rw [h2], by rw [h2], by rw [hb]; exact id, h0,
        fun _ _ => h1 trivial, fun h => by simp [hg] at h, h8, fun _ => hb, h9⟩
    · rename_i s' heq
      simp only [heq] at *
      exact ⟨h3, h4, h5, h6, h7, by simp [set_badbit, h2], by simp [set_badbit, h2],
        fun _ => rfl, h0, fun _ hb => by simp [bad, set_badbit] at hb,
        fun h => by simp [hg] at h, h8, fun hs => by simp at h10; exact absurd hs h10, h9⟩
  · rename_i hg
    exact Pushed.stop bs (by simpa using hg)

end Sockstream

/-! ## What a copy does -/

namespace Stringstream

theorem write_write (s : Stringstream) (bs cs : List UInt8) :
    (s.write bs).write cs = s.write (bs ++ cs) := by
  have h := s.ppos_le
  simp only [write, Stringstream.mk.injEq]
  refine ⟨?_, trivial, by simp [Nat.add_assoc]⟩
  have h1 : (s.data.take s.ppos ++ bs).length = s.ppos + bs.length := by
    simp only [List.length_append, List.length_take]; omega
  have h2 : (s.data.take s.ppos ++ bs ++ s.data.drop (s.ppos + bs.length)).drop
      (s.ppos + bs.length + cs.length) = s.data.drop (s.ppos + (bs ++ cs).length) := by
    rw [← List.drop_drop, List.drop_left' h1, List.drop_drop, List.length_append, Nat.add_assoc]
  rw [h2, List.take_left' h1]
  simp

theorem chunk_congr {a b : Stringstream} (hd : a.data = b.data) (hp : a.ppos = b.ppos) :
    a.chunk = b.chunk := by
  rw [chunk, chunk, hd, hp]

theorem chunk_length (s : Stringstream) : s.chunk.length = s.ppos := by
  rw [chunk, List.length_take]
  exact Nat.min_eq_left s.ppos_le

/-- What is written after `seekp(0)` is the chunk. -/
theorem chunk_rewindp_write (s : Stringstream) (bs : List UInt8) :
    (s.rewindp.write bs).chunk = bs := by
  simp [chunk, write, rewindp]

end Stringstream

/-- A copy of the next `maxlen` bytes of a chunk. The chunk itself stays, and the
get position is at the end of the copy unless the output went bad on the way. A
copy of one slice is read to its end in any case. -/
theorem stream_write_upto_spec (fuel : Nat) (os : Sockstream) (is : Stringstream) (maxlen : Nat)
    (hf : maxlen ≤ fuel) (hm : is.gpos + maxlen ≤ is.data.length) :
    Pushed os ((is.data.drop is.gpos).take maxlen) (stream_write_upto fuel os is maxlen).1 ∧
      (stream_write_upto fuel os is maxlen).2.data = is.data ∧
      (stream_write_upto fuel os is maxlen).2.ppos = is.ppos ∧
      ((stream_write_upto fuel os is maxlen).1.bad = false ∨ maxlen ≤ 256 →
        (stream_write_upto fuel os is maxlen).2.gpos = is.gpos + maxlen) := by
  induction fuel generalizing os is maxlen with
  | zero =>
    obtain rfl : maxlen = 0 := by omega
    exact ⟨Pushed.refl os, rfl, rfl, fun _ => rfl⟩
  | succ fuel ih =>
    unfold stream_write_upto
    split
    · rename_i h0
      subst h0
      exact ⟨by simpa using Pushed.refl os, rfl, rfl, fun _ => rfl⟩
    · rename_i h0
      have hlen : ((is.data.drop is.gpos).take (min maxlen 256)).length = min maxlen 256 := by
        simp only [List.length_take, List.length_drop]; omega
      split
      · rename_i is' heq
        simp only [Istream.readsome, Stringstream.readsome, Prod.mk.injEq] at heq
        rw [heq.1] at hlen
        simp only [List.length_nil] at hlen
        omega
      · rename_i b bs is' heq
        simp only [Istream.readsome, Stringstream.readsome, Prod.mk.injEq] at heq
        obtain ⟨h1, rfl⟩ := heq
        rw [← h1]
        have hw := os.write_pushed ((is.data.drop is.gpos).take (min maxlen 256))
        have htake : (is.data.drop is.gpos).take maxlen =
            (is.data.drop is.gpos).take (min maxlen 256) ++
              (is.data.drop (is.gpos + min maxlen 256)).take (maxlen - min maxlen 256) := by
          rw [← List.drop_drop, ← List.take_add]
          congr 1; omega
        dsimp only
        split
        · rename_i hb
          refine ⟨?_, rfl, rfl, ?_⟩
          · rw [htake]
            exact hw.trans (Pushed.stop _ (Sockstream.not_good_of_bad hb))
          · rintro (hb' | hsmall)
            · rw [hb] at hb'
              cases hb'
            · simp only [hlen]
              omega
        · obtain ⟨i1, i2, i3, i4⟩ := ih (os.write ((is.data.drop is.gpos).take (min maxlen 256)))
            { is with
              gpos := is.gpos + ((is.data.drop is.gpos).take (min maxlen 256)).length
              gpos_le := by rw [hlen]; omega }
            (maxlen - ((is.data.drop is.gpos).take (min maxlen 256)).length)
            (by rw [hlen]; omega) (by simp only [hlen]; omega)
          refine ⟨?_, i2, i3, fun hb => ?_⟩
          · simp only [hlen] at i1
            rw [htake]
            simp only [hlen]
            exact hw.trans i1
          · rw [i4 (hb.imp_right fun hsmall => by omega)]
            simp only [hlen]
            omega

end cloudbus.io
