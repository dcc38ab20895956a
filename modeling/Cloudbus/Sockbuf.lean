-- The send side of a `sockbuf` (io/sockbuf.cpp): its buffers, the put pointers, and
-- what `sendmsg` and `connect` answer. The buffers are compared with one queue of bytes.
import Cloudbus.Streams

namespace cloudbus.io

/-! ## The kernel -/

/-- What `errno` can be; `EAGAIN` is `EWOULDBLOCK`. -/
inductive Errno where
  | EINTR | EWOULDBLOCK | EISCONN | ENOTCONN | EALREADY | EINPROGRESS | other
deriving DecidableEq, Repr

/-- An answer of `sendmsg`: up to `n` bytes are taken, or none. -/
inductive SendAnswer where
  | bytes (n : Nat)
  | error (e : Errno)
deriving DecidableEq, Repr

inductive ConnectAnswer where
  | ok
  | error (e : Errno)
deriving DecidableEq, Repr

/-- All answers of the kernel, and what new memory holds. -/
structure Kernel where
  sends : Nat → SendAnswer
  connects : Nat → ConnectAnswer
  junk : Nat → UInt8

/-- The socket. `sends` and `connects` count the calls so far, and `accepted` are the bytes that the
kernel took. -/
structure Wire where
  opened : Bool
  connected : Bool
  errno : Option Errno
  sends : Nat
  connects : Nat
  accepted : List UInt8

/-- A buffer to send: its memory, and whether its address has a family. -/
structure SendBuffer where
  mem : List UInt8
  iov_len : Nat
  family : Bool

/-- `_buffers` without the one to receive: `older` ones and the last. The put area is the memory of the
last; `pptr` and `epptr` are counted from its beginning. -/
structure Sockbuf where
  older : List SendBuffer
  back : SendBuffer
  pptr : Int
  epptr : Nat
  wire : Wire

/-- The conversion of a length to the `int` of `pbump`. -/
def to_int (n : Int) : Int := n.bmod (2 ^ 32)

def INT_MAX : Int := 2 ^ 31 - 1

def fresh (k : Kernel) (n : Nat) : List UInt8 := (List.range n).map k.junk

namespace Sockbuf

/-! ## The put area -/

/-- `std::memmove` to the beginning of the memory. -/
def memmove (mem : List UInt8) (off n : Nat) : List UInt8 := (mem.drop off).take n ++ mem.drop n

/-- The first part of `_resizewbuf`, for the last buffer: what is left goes to the beginning. -/
def rewind (s : Sockbuf) (off buflen : Nat) : Sockbuf :=
  { s with back := { s.back with mem := memmove s.back.mem off buflen }, pptr := to_int buflen }

/-- The second part of `_resizewbuf`, for the last buffer. -/
def resize (k : Kernel) (s : Sockbuf) : Sockbuf :=
  let size := MIN_BUFSIZE * ((s.pptr % 2 ^ 64).toNat / MIN_BUFSIZE + 1) % 2 ^ 64
  if s.back.iov_len = size then s
  else
    { s with
      back := { s.back with mem := s.back.mem.take size ++ fresh k (size - s.back.mem.length), iov_len := size }
      pptr := to_int s.pptr
      epptr := size }

/-! ## Sending -/

/-- The loop of `_send` over the memory of a buffer: where it is, and how much is left. -/
def send_loop (k : Kernel) (mem : List UInt8) : Nat → Nat → Nat → Wire → Option (Nat × Nat × Wire)
  | 0, _, _, _ => none
  | fuel + 1, off, buflen, w =>
    match k.sends w.sends with
    | .bytes n =>
      let len := min n (min buflen MIN_BUFSIZE)
      let w := { w with errno := none, sends := w.sends + 1, accepted := w.accepted ++ (mem.drop off).take len }
      if len = 0 then some (off, buflen, w)
      else if buflen - len = 0 then some (off, 0, w)
      else send_loop k mem fuel (off + len) (buflen - len) w
    | .error .EISCONN =>
      send_loop k mem fuel off buflen { w with errno := some .EISCONN, sends := w.sends + 1, connected := true }
    | .error .EINTR => send_loop k mem fuel off buflen { w with errno := some .EINTR, sends := w.sends + 1 }
    | .error e => some (off, buflen, { w with errno := some e, sends := w.sends + 1 })

/-- `!_errno || _errno==EWOULDBLOCK` -/
def quiet (w : Wire) : Bool := w.errno == none || w.errno == some .EWOULDBLOCK

/-- There is no socket, or it is not connected and the buffer has no address. -/
def silent (w : Wire) (b : SendBuffer) : Bool := !w.opened || (!w.connected && !b.family)

/-- `_send` of an older buffer. `false` is its -1. -/
def send_older (k : Kernel) (fuel : Nat) (b : SendBuffer) (w : Wire) : Option (SendBuffer × Wire × Bool) :=
  if silent w b ∨ b.iov_len = 0 then some (b, w, true)
  else (send_loop k b.mem fuel 0 b.iov_len w).map fun (off, buflen, w) =>
    ({ b with mem := memmove b.mem off buflen, iov_len := buflen }, w, quiet w)

/-- `_send` of the last buffer. There is no result when `pptr` is before the put area. -/
def send_back (k : Kernel) (fuel : Nat) (s : Sockbuf) : Option (Sockbuf × Bool) :=
  if silent s.wire s.back then some (s.resize k, true)
  else if s.pptr = 0 then some (s, true)
  else if s.pptr < 0 then none
  else (send_loop k s.back.mem fuel 0 s.pptr.toNat s.wire).map fun (off, buflen, w) =>
    (({ s with wire := w }.rewind off buflen).resize k, quiet w)

/-- `_send` of the first buffer. -/
def send (k : Kernel) (fuel : Nat) (s : Sockbuf) : Option (Sockbuf × Bool) :=
  match s.older with
  | [] => s.send_back k fuel
  | b :: rest => (send_older k fuel b s.wire).map fun (b, w, r) => ({ s with older := b :: rest, wire := w }, r)

/-- The first buffer. -/
def front (s : Sockbuf) : SendBuffer := s.older.headD s.back

inductive Connect where
  | done | isconn | pending | failed
deriving DecidableEq

/-- A loop over `connect`. -/
def connect_loop (k : Kernel) : Nat → Wire → Option (Connect × Wire)
  | 0, _ => none
  | fuel + 1, w =>
    match k.connects w.connects with
    | .ok => some (.done, { w with errno := none, connects := w.connects + 1 })
    | .error .EINTR => connect_loop k fuel { w with errno := some .EINTR, connects := w.connects + 1 }
    | .error .EISCONN =>
      some (.isconn, { w with errno := some .EISCONN, connects := w.connects + 1, connected := true })
    | .error .EALREADY =>
      some (.pending, { w with errno := some .EALREADY, connects := w.connects + 1, connected := true })
    | .error .EWOULDBLOCK =>
      some (.pending, { w with errno := some .EWOULDBLOCK, connects := w.connects + 1, connected := true })
    | .error .EINPROGRESS =>
      some (.pending, { w with errno := some .EINPROGRESS, connects := w.connects + 1, connected := true })
    | .error e => some (.failed, { w with errno := some e, connects := w.connects + 1 })

/-- The loop `while(_send(buf))` of `sync`, with what `sync` then returns, when it does. -/
def flush_front (k : Kernel) : Nat → Sockbuf → Option (Sockbuf × Option Bool)
  | 0, _ => none
  | fuel + 1, s =>
    match s.send k fuel with
    | none => none
    | some (s, true) => some (s, none)
    | some (s, false) =>
      if s.wire.errno = some .ENOTCONN then
        if s.front.family then
          match connect_loop k fuel s.wire with
          | none => none
          | some (.done, w) => flush_front k fuel { s with wire := w }
          | some (.isconn, w) => flush_front k fuel { s with wire := w }
          | some (.pending, w) => some ({ s with wire := w }, some true)
          | some (.failed, w) => some ({ s with wire := w }, some false)
        else some (s, some true)
      else some (s, some false)

/-- `sync`. `false` is its -1, and there is no result while it has not returned. -/
def sync (k : Kernel) : Nat → Sockbuf → Option (Sockbuf × Bool)
  | 0, _ => none
  | fuel + 1, s =>
    match flush_front k fuel s with
    | none => none
    | some (s, some r) => some (s, r)
    | some (s, none) =>
      match s.older with
      | [] => some (s, true)
      | b :: rest => if b.iov_len ≠ 0 then some (s, true) else sync k fuel { s with older := rest }

/-! ## Writing and connecting -/

/-- A byte at `pptr`. -/
def put (s : Sockbuf) (ch : UInt8) : Sockbuf :=
  { s with back := { s.back with mem := s.back.mem.set s.pptr.toNat ch }, pptr := s.pptr + 1 }

/-- `overflow` of a byte, which goes on with `sputc`. `false` is `eof`. -/
def overflow (k : Kernel) (ch : UInt8) : Nat → Sockbuf → Option (Sockbuf × Bool)
  | 0, _ => none
  | fuel + 1, s =>
    match sync k fuel s with
    | none => none
    | some (s, false) => some (s, false)
    | some (s, true) =>
      if s.pptr < 0 then none else if s.pptr < s.epptr then some (s.put ch, true) else overflow k ch fuel s

/-- `sputc` -/
def sputc (k : Kernel) (ch : UInt8) (fuel : Nat) (s : Sockbuf) : Option (Sockbuf × Bool) :=
  if s.pptr < 0 then none else if s.pptr < s.epptr then some (s.put ch, true) else overflow k ch fuel s

/-- The first part of `connectto`: a new buffer when the last one has an address. -/
def push (k : Kernel) (s : Sockbuf) : Sockbuf :=
  if s.back.family then
    { s with
      older := s.older ++ [{ s.back with iov_len := (s.pptr % 2 ^ 64).toNat }]
      back := ⟨fresh k MIN_BUFSIZE, MIN_BUFSIZE, false⟩
      pptr := 0
      epptr := MIN_BUFSIZE }
  else s

/-- `connectto` an address that has a family or none. `false` is its empty result. -/
def connectto (k : Kernel) (family : Bool) (fuel : Nat) (s : Sockbuf) : Option (Sockbuf × Bool) :=
  let s := s.push k
  let s := { s with back := { s.back with family := family } }
  if s.wire.connected then some (s, true)
  else (connect_loop k fuel s.wire).map fun (c, w) => ({ s with wire := w }, c ≠ .failed)

/-- A `sockbuf` as it is constructed. -/
def init (k : Kernel) (opened connected : Bool) : Sockbuf :=
  ⟨[], ⟨fresh k MIN_BUFSIZE, MIN_BUFSIZE, false⟩, 0, MIN_BUFSIZE, ⟨opened, connected, none, 0, 0, []⟩⟩

/-! ## The queue -/

/-- The bytes that are queued: those of the older buffers, then those of the put area. -/
def queued (s : Sockbuf) : List UInt8 :=
  s.older.flatMap (fun b => b.mem.take b.iov_len) ++ s.back.mem.take s.pptr.toNat

/-- A history of calls, with the bytes that were written. `C` holds before each call. -/
inductive Reach (k : Kernel) (C : Sockbuf → Prop) : List UInt8 → Sockbuf → Prop
  | start (opened connected : Bool) : Reach k C [] (init k opened connected)
  | native_handle {written : List UInt8} {s : Sockbuf} (opened : Bool) : Reach k C written s → C s →
      Reach k C written { s with wire := { s.wire with opened := opened } }
  | write {written : List UInt8} {s s' : Sockbuf} (ch : UInt8) (fuel : Nat) {r : Bool} : Reach k C written s → C s →
      sputc k ch fuel s = some (s', r) → Reach k C (if r then written ++ [ch] else written) s'
  | sync {written : List UInt8} {s s' : Sockbuf} (fuel : Nat) {r : Bool} : Reach k C written s → C s →
      Sockbuf.sync k fuel s = some (s', r) → Reach k C written s'
  | connectto {written : List UInt8} {s s' : Sockbuf} (family : Bool) (fuel : Nat) {r : Bool} : Reach k C written s →
      C s → Sockbuf.connectto k family fuel s = some (s', r) → Reach k C written s'

/-! ## What a call keeps -/

variable {k : Kernel} {s s' s'' : Sockbuf} {w w' : Wire} {mem : List UInt8}

/-- The put area is the memory of the last buffer, and the put pointer is in it. -/
structure Good (s : Sockbuf) : Prop where
  low : 0 ≤ s.pptr
  high : s.pptr ≤ s.epptr
  room : 0 < s.epptr
  area : s.epptr = s.back.iov_len
  back : s.back.mem.length = s.back.iov_len
  older : ∀ b ∈ s.older, b.iov_len ≤ b.mem.length

/-- The put area is not longer than an `int` can say. -/
def Short (s : Sockbuf) : Prop := s.pptr ≤ INT_MAX

instance decidableShort (s : Sockbuf) : Decidable (Short s) := inferInstanceAs (Decidable (s.pptr ≤ INT_MAX))

/-- `sync` reaches the last buffer, or there is room in it already. -/
def Roomy (s : Sockbuf) : Prop := s.older = [] ∨ s.pptr < s.epptr

/-- What is no longer queued was accepted, and nothing else was. -/
def Flows (w : Wire) (q : List UInt8) (w' : Wire) (q' : List UInt8) : Prop :=
  ∃ sent, w'.accepted = w.accepted ++ sent ∧ q = sent ++ q'

theorem Flows.refl (w : Wire) (q : List UInt8) : Flows w q w q := ⟨[], by simp⟩

theorem Flows.trans {w'' : Wire} {q q' q'' : List UInt8} (h : Flows w q w' q') (h' : Flows w' q' w'' q'') :
    Flows w q w'' q'' := by
  obtain ⟨sent, ha, rfl⟩ := h
  obtain ⟨sent', ha', rfl⟩ := h'
  exact ⟨sent ++ sent', by rw [ha', ha, List.append_assoc], by rw [List.append_assoc]⟩

theorem Flows.append {q q' : List UInt8} (h : Flows w q w' q') (rest : List UInt8) :
    Flows w (q ++ rest) w' (q' ++ rest) := by
  obtain ⟨sent, ha, rfl⟩ := h
  exact ⟨sent, ha, List.append_assoc ..⟩

theorem Flows.total {q q' : List UInt8} (h : Flows w q w' q') : w'.accepted ++ q' = w.accepted ++ q := by
  obtain ⟨sent, ha, rfl⟩ := h
  rw [ha, List.append_assoc]

/-- A flush: it sends from the front of the queue, and the put area does not grow. -/
structure Kept (s s' : Sockbuf) : Prop where
  good : Good s'
  flows : Flows s.wire s.queued s'.wire s'.queued
  shrinks : s'.pptr ≤ s.pptr
  fewer : s'.older.length ≤ s.older.length

theorem Kept.refl (h : Good s) : Kept s s := ⟨h, .refl .., le_refl _, le_refl _⟩

theorem Kept.trans (h : Kept s s') (h' : Kept s' s'') : Kept s s'' :=
  ⟨h'.good, h.flows.trans h'.flows, h'.shrinks.trans h.shrinks, h'.fewer.trans h.fewer⟩

theorem Kept.short (h : Kept s s') (hs : Short s) : Short s' := h.shrinks.trans hs

/-- A change of the socket that sends nothing. -/
theorem Kept.wire (h : Good s) (hw : w.accepted = s.wire.accepted) : Kept s { s with wire := w } :=
  ⟨⟨h.low, h.high, h.room, h.area, h.back, h.older⟩, ⟨[], by simpa using hw, rfl⟩, le_refl _, le_refl _⟩

/-! ## The put area -/

theorem to_int_of_short {n : Int} (h : 0 ≤ n) (hn : n ≤ INT_MAX) : to_int n = n := by
  unfold INT_MAX at hn
  unfold to_int
  rw [Int.bmod_eq_of_le] <;> omega

theorem length_fresh (n : Nat) : (fresh k n).length = n := by simp [fresh]

variable {fuel n off : Nat} {written : List UInt8} {r : Bool}

theorem length_memmove (h : off + n ≤ mem.length) : (memmove mem off n).length = mem.length := by
  simp only [memmove, List.length_append, List.length_take, List.length_drop]
  omega

theorem take_memmove (h : off + n ≤ mem.length) : (memmove mem off n).take n = (mem.drop off).take n := by
  have hn : ((mem.drop off).take n).length = n := by
    simp only [List.length_take, List.length_drop]
    omega
  rw [memmove, List.take_append_of_le_length (by omega), List.take_of_length_le (by omega)]

theorem resize_wire : (s.resize k).wire = s.wire := by
  unfold resize
  dsimp only
  split <;> rfl

theorem resize_older : (s.resize k).older = s.older := by
  unfold resize
  dsimp only
  split <;> rfl

theorem resize_pptr (h : Good s) (hs : Short s) : (s.resize k).pptr = s.pptr := by
  unfold resize
  dsimp only
  split
  case isTrue => rfl
  case isFalse => exact to_int_of_short h.low hs

/-- The size that `resize` gives the put area. -/
theorem resize_epptr (h : Good s) (hn : s.pptr = n) (hmax : n < 2 ^ 32) :
    (s.resize k).epptr = MIN_BUFSIZE * (n / MIN_BUFSIZE + 1) := by
  have hsize : MIN_BUFSIZE * ((s.pptr % 2 ^ 64).toNat / MIN_BUFSIZE + 1) % 2 ^ 64
      = MIN_BUFSIZE * (n / MIN_BUFSIZE + 1) := by
    rw [hn]
    simp only [MIN_BUFSIZE]
    omega
  unfold resize
  simp only [hsize]
  split
  case isTrue heq => rw [h.area, heq]
  case isFalse => rfl

/-- `resize` keeps what is queued, and leaves room for a byte. -/
theorem resize_spec (k : Kernel) (h : Good s) (hs : Short s) : Kept s (s.resize k) ∧ (s.resize k).pptr < (s.resize k).epptr := by
  obtain ⟨n, hn⟩ : ∃ n : Nat, s.pptr = n := ⟨s.pptr.toNat, (Int.toNat_of_nonneg h.low).symm⟩
  have hmax : n < 2 ^ 31 := by
    have := hs
    simp only [Short, INT_MAX, hn] at this
    omega
  have hmem : n ≤ s.back.mem.length := by
    have := h.high
    rw [h.area, ← h.back] at this
    omega
  -- the product does not leave the 64 bits
  have hsize : MIN_BUFSIZE * ((s.pptr % 2 ^ 64).toNat / MIN_BUFSIZE + 1) % 2 ^ 64
      = MIN_BUFSIZE * (n / MIN_BUFSIZE + 1) := by
    rw [hn]
    simp only [MIN_BUFSIZE]
    omega
  have hlt : n < MIN_BUFSIZE * (n / MIN_BUFSIZE + 1) := by
    simp only [MIN_BUFSIZE]
    omega
  unfold resize
  simp only [hsize]
  generalize MIN_BUFSIZE * (n / MIN_BUFSIZE + 1) = size at hlt
  split
  case isTrue heq =>
    refine ⟨.refl h, ?_⟩
    rw [h.area, heq, hn]
    exact Int.ofNat_lt.2 hlt
  case isFalse =>
    have hint : to_int s.pptr = n := (to_int_of_short h.low hs).trans hn
    have hlen : (s.back.mem.take size ++ fresh k (size - s.back.mem.length)).length = size := by
      simp only [List.length_append, List.length_take, length_fresh]
      omega
    rw [hint]
    refine ⟨⟨⟨?_, ?_, ?_, rfl, hlen, h.older⟩, ?_, hn.ge, le_refl _⟩, Int.ofNat_lt.2 hlt⟩
    · exact Int.natCast_nonneg n
    · exact Int.ofNat_le.2 hlt.le
    · exact Nat.lt_of_le_of_lt (Nat.zero_le _) hlt
    · refine ⟨[], by simp, ?_⟩
      have hput : n ≤ (s.back.mem.take size).length := by
        simp only [List.length_take]
        omega
      simp only [queued, hn, Int.toNat_natCast, List.nil_append]
      rw [List.take_append_of_le_length hput, List.take_take, Nat.min_eq_left hlt.le]

/-! ## The loop over `sendmsg` -/

/-- The loop sends from the front of the memory. -/
theorem send_loop_spec {buflen off' buflen' : Nat} (h : send_loop k mem fuel off buflen w = some (off', buflen', w')) :
    off' + buflen' ≤ off + buflen ∧ buflen' ≤ buflen ∧
      Flows w ((mem.drop off).take buflen) w' ((mem.drop off').take buflen') := by
  induction fuel generalizing off buflen w with
  | zero => simp [send_loop] at h
  | succ fuel ih =>
    unfold send_loop at h
    split at h
    case h_1 n _ =>
      dsimp only at h
      have hle : min n (min buflen MIN_BUFSIZE) ≤ buflen := by omega
      generalize min n (min buflen MIN_BUFSIZE) = len at h hle
      have hsplit : (mem.drop off).take buflen
          = (mem.drop off).take len ++ (mem.drop (off + len)).take (buflen - len) := by
        rw [← List.drop_drop, ← List.take_add, Nat.add_sub_cancel' hle]
      split at h
      case isTrue h0 =>
        simp only [Option.some.injEq, Prod.mk.injEq] at h
        obtain ⟨rfl, rfl, rfl⟩ := h
        exact ⟨le_refl _, le_refl _, [], by simp [h0], by simp⟩
      case isFalse h0 =>
        split at h
        case isTrue h1 =>
          simp only [Option.some.injEq, Prod.mk.injEq] at h
          obtain ⟨rfl, rfl, rfl⟩ := h
          refine ⟨by omega, by omega, (mem.drop off).take len, rfl, ?_⟩
          rw [hsplit, h1, List.take_zero, List.take_zero]
        case isFalse h1 =>
          obtain ⟨hends, hless, hflows⟩ := ih h
          exact ⟨by omega, by omega, Flows.trans ⟨(mem.drop off).take len, rfl, hsplit⟩ hflows⟩
    case h_2 =>
      have hrest := ih h
      exact hrest
    case h_3 =>
      have hrest := ih h
      exact hrest
    case h_4 =>
      simp only [Option.some.injEq, Prod.mk.injEq] at h
      obtain ⟨rfl, rfl, rfl⟩ := h
      exact ⟨le_refl _, le_refl _, .refl ..⟩

theorem send_older_spec {b b' : SendBuffer} (hb : b.iov_len ≤ b.mem.length)
    (h : send_older k fuel b w = some (b', w', r)) :
    b'.iov_len ≤ b'.mem.length ∧ Flows w (b.mem.take b.iov_len) w' (b'.mem.take b'.iov_len) := by
  unfold send_older at h
  split at h
  case isTrue =>
    simp only [Option.some.injEq, Prod.mk.injEq] at h
    obtain ⟨rfl, rfl, -⟩ := h
    exact ⟨hb, .refl ..⟩
  case isFalse =>
    rw [Option.map_eq_some_iff] at h
    obtain ⟨⟨off, buflen, w₁⟩, hloop, h⟩ := h
    simp only [Prod.mk.injEq] at h
    obtain ⟨rfl, rfl, -⟩ := h
    obtain ⟨hends, hless, hflows⟩ := send_loop_spec hloop
    have hfit : off + buflen ≤ b.mem.length := by omega
    refine ⟨(Nat.le_of_add_left_le hfit).trans (length_memmove hfit).ge, ?_⟩
    rwa [take_memmove hfit]

/-- What is left of the put area after the loop, at its beginning. -/
theorem rewind_spec {buflen : Nat} (h : Good s) (hs : Short s) (hfit : off + buflen ≤ s.pptr)
    (hflows : Flows s.wire (s.back.mem.take s.pptr.toNat) w ((s.back.mem.drop off).take buflen))
    (ho : s.older = []) : Kept s ({ s with wire := w }.rewind off buflen) ∧
      ({ s with wire := w }.rewind off buflen).pptr = (buflen : Int) := by
  have hmem : off + buflen ≤ s.back.mem.length := by
    have := h.high
    rw [h.area, ← h.back] at this
    omega
  have hint : to_int buflen = buflen := to_int_of_short (by omega) (by unfold Short at hs; omega)
  have hhigh := h.high
  refine ⟨⟨⟨?_, ?_, h.room, h.area, (length_memmove hmem).trans h.back, h.older⟩, ?_, ?_, le_refl _⟩, ?_⟩
  · simp only [rewind, hint]
    omega
  · simp only [rewind, hint]
    omega
  · simpa only [queued, rewind, ho, hint, Int.toNat_natCast, take_memmove hmem, List.flatMap_nil,
      List.nil_append] using hflows
  · simp only [rewind, hint]
    omega
  · simp only [rewind, hint]

theorem send_back_spec (h : Good s) (hs : Short s) (ho : s.older = [])
    (hsend : send_back k fuel s = some (s', r)) : Kept s s' ∧ s'.pptr < s'.epptr := by
  unfold send_back at hsend
  split at hsend
  case isTrue =>
    simp only [Option.some.injEq, Prod.mk.injEq] at hsend
    obtain ⟨rfl, -⟩ := hsend
    exact resize_spec k h hs
  case isFalse =>
    split at hsend
    case isTrue h0 =>
      simp only [Option.some.injEq, Prod.mk.injEq] at hsend
      obtain ⟨rfl, -⟩ := hsend
      exact ⟨.refl h, by rw [h0]; exact_mod_cast h.room⟩
    case isFalse =>
      split at hsend
      case isTrue => cases hsend
      case isFalse =>
        rw [Option.map_eq_some_iff] at hsend
        obtain ⟨⟨off, buflen, w⟩, hloop, hsend⟩ := hsend
        simp only [Prod.mk.injEq] at hsend
        obtain ⟨rfl, -⟩ := hsend
        obtain ⟨hends, hless, hflows⟩ := send_loop_spec hloop
        have hlow := h.low
        obtain ⟨hkept, -⟩ := rewind_spec h hs (show off + buflen ≤ s.pptr by omega) (by simpa using hflows) ho
        obtain ⟨hsize, hroom⟩ := resize_spec k hkept.good (hkept.short hs)
        exact ⟨hkept.trans hsize, hroom⟩

/-! ## The loops of `sync` -/

/-- `_send` keeps the queue, and the room in the put area. -/
theorem send_spec (h : Good s) (hs : Short s) (hsend : send k fuel s = some (s', r)) :
    Kept s s' ∧ (Roomy s → s'.pptr < s'.epptr) := by
  unfold send at hsend
  split at hsend
  case h_1 ho =>
    obtain ⟨hkept, hroom⟩ := send_back_spec h hs ho hsend
    exact ⟨hkept, fun _ => hroom⟩
  case h_2 b rest ho =>
    rw [Option.map_eq_some_iff] at hsend
    obtain ⟨⟨b', w, r'⟩, hb, hsend⟩ := hsend
    simp only [Prod.mk.injEq] at hsend
    obtain ⟨rfl, -⟩ := hsend
    obtain ⟨hlen, hflows⟩ := send_older_spec (h.older b (by simp [ho])) hb
    have hne : s.older ≠ [] := by simp [ho]
    refine ⟨⟨⟨h.low, h.high, h.room, h.area, h.back, ?_⟩, ?_, le_refl _, by simp [ho]⟩,
      fun hroomy => hroomy.resolve_left hne⟩
    · intro c hc
      rcases List.mem_cons.1 hc with rfl | hc
      · exact hlen
      · exact h.older c (by simp [ho, hc])
    · simpa only [queued, ho, List.flatMap_cons, List.append_assoc] using hflows.append _

/-- `connect` sends nothing. -/
theorem connect_loop_accepted {c : Connect} (h : connect_loop k fuel w = some (c, w')) : w'.accepted = w.accepted := by
  induction fuel generalizing w with
  | zero => simp [connect_loop] at h
  | succ fuel ih =>
    unfold connect_loop at h
    split at h
    case h_2 =>
      have hrest := ih h
      exact hrest
    all_goals
      simp only [Option.some.injEq, Prod.mk.injEq] at h
      obtain ⟨-, rfl⟩ := h
      rfl

theorem flush_front_spec {r : Option Bool} (h : Good s) (hs : Short s)
    (hflush : flush_front k fuel s = some (s', r)) : Kept s s' ∧ (Roomy s → s'.pptr < s'.epptr) := by
  induction fuel generalizing s with
  | zero => simp [flush_front] at hflush
  | succ fuel ih =>
    unfold flush_front at hflush
    split at hflush
    case h_1 => cases hflush
    case h_2 s₁ hsend =>
      simp only [Option.some.injEq, Prod.mk.injEq] at hflush
      obtain ⟨rfl, -⟩ := hflush
      exact send_spec h hs hsend
    case h_3 s₁ hsend =>
      obtain ⟨hkept, hroom⟩ := send_spec h hs hsend
      -- the socket may be connected now, and nothing was sent by that
      have again : ∀ {c : Connect} {w : Wire}, connect_loop k fuel s₁.wire = some (c, w) →
          Kept s { s₁ with wire := w } :=
        fun hc => hkept.trans (.wire hkept.good (connect_loop_accepted hc))
      have resend : ∀ {c : Connect} {w : Wire}, connect_loop k fuel s₁.wire = some (c, w) →
          flush_front k fuel { s₁ with wire := w } = some (s', r) → Kept s s' ∧ (Roomy s → s'.pptr < s'.epptr) := by
        intro c w hc hf
        obtain ⟨hkept', hroom'⟩ := ih (again hc).good ((again hc).short hs) hf
        exact ⟨(again hc).trans hkept', fun hroomy => hroom' (.inr (hroom hroomy))⟩
      split at hflush
      case isTrue =>
        split at hflush
        case isTrue =>
          split at hflush
          case h_1 => cases hflush
          case h_2 w hc => exact resend hc hflush
          case h_3 w hc => exact resend hc hflush
          case h_4 w hc =>
            simp only [Option.some.injEq, Prod.mk.injEq] at hflush
            obtain ⟨rfl, -⟩ := hflush
            exact ⟨again hc, hroom⟩
          case h_5 w hc =>
            simp only [Option.some.injEq, Prod.mk.injEq] at hflush
            obtain ⟨rfl, -⟩ := hflush
            exact ⟨again hc, hroom⟩
        case isFalse =>
          simp only [Option.some.injEq, Prod.mk.injEq] at hflush
          obtain ⟨rfl, -⟩ := hflush
          exact ⟨hkept, hroom⟩
      case isFalse =>
        simp only [Option.some.injEq, Prod.mk.injEq] at hflush
        obtain ⟨rfl, -⟩ := hflush
        exact ⟨hkept, hroom⟩

/-- A drained buffer is erased. -/
theorem Kept.erase {b : SendBuffer} {rest : List SendBuffer} (h : Good s) (ho : s.older = b :: rest)
    (hb : b.iov_len = 0) : Kept s { s with older := rest } := by
  refine ⟨⟨h.low, h.high, h.room, h.area, h.back, fun c hc => h.older c (by simp [ho, hc])⟩, ?_, le_refl _, by simp [ho]⟩
  exact ⟨[], by simp, by simp [queued, ho, hb]⟩

theorem sync_spec (h : Good s) (hs : Short s) (hsync : sync k fuel s = some (s', r)) :
    Kept s s' ∧ (Roomy s → s'.pptr < s'.epptr) := by
  induction fuel generalizing s with
  | zero => simp [sync] at hsync
  | succ fuel ih =>
    unfold sync at hsync
    split at hsync
    case h_1 => cases hsync
    case h_2 s₁ r' hflush =>
      simp only [Option.some.injEq, Prod.mk.injEq] at hsync
      obtain ⟨rfl, -⟩ := hsync
      exact flush_front_spec h hs hflush
    case h_3 s₁ hflush =>
      obtain ⟨hkept, hroom⟩ := flush_front_spec h hs hflush
      split at hsync
      case h_1 =>
        simp only [Option.some.injEq, Prod.mk.injEq] at hsync
        obtain ⟨rfl, -⟩ := hsync
        exact ⟨hkept, hroom⟩
      case h_2 b rest ho =>
        split at hsync
        case isTrue =>
          simp only [Option.some.injEq, Prod.mk.injEq] at hsync
          obtain ⟨rfl, -⟩ := hsync
          exact ⟨hkept, hroom⟩
        case isFalse hb =>
          have herase := hkept.trans (.erase hkept.good ho (not_not.1 hb))
          obtain ⟨hkept', hroom'⟩ := ih herase.good (herase.short hs) hsync
          exact ⟨herase.trans hkept', fun hroomy => hroom' (.inr (hroom hroomy))⟩

/-! ## Every history -/

/-- What is accepted and queued is what was written. -/
structure Holds (written : List UInt8) (s : Sockbuf) : Prop where
  good : Good s
  fifo : s.wire.accepted ++ s.queued = written

theorem Holds.kept (h : Holds written s) (hk : Kept s s') : Holds written s' :=
  ⟨hk.good, hk.flows.total.trans h.fifo⟩

theorem min_bufsize_pos : 0 < MIN_BUFSIZE := by decide

theorem blank_good {older : List SendBuffer} (h : ∀ b ∈ older, b.iov_len ≤ b.mem.length) :
    Good ⟨older, ⟨fresh k MIN_BUFSIZE, MIN_BUFSIZE, false⟩, 0, MIN_BUFSIZE, w⟩ := by
  have hpos := min_bufsize_pos
  generalize MIN_BUFSIZE = n at hpos
  exact ⟨Int.le_refl 0, Int.natCast_nonneg n, hpos, rfl, length_fresh n, h⟩

theorem init_holds (opened connected : Bool) : Holds [] (init k opened connected) where
  good := blank_good (by simp)
  fifo := by simp only [init, queued, List.flatMap_nil, Int.toNat_zero, List.take_zero, List.append_nil]

/-- A byte in the put area is the last one that is queued. -/
theorem put_spec (h : Good s) (hroom : s.pptr < s.epptr) (ch : UInt8) :
    Good (s.put ch) ∧ (s.put ch).queued = s.queued ++ [ch] := by
  obtain ⟨n, hn⟩ : ∃ n : Nat, s.pptr = n := ⟨s.pptr.toNat, (Int.toNat_of_nonneg h.low).symm⟩
  have hmem : n < s.back.mem.length := by
    rw [h.back, ← h.area]
    omega
  refine ⟨⟨?_, ?_, h.room, h.area, ?_, h.older⟩, ?_⟩
  · have := h.low
    simp only [put]
    omega
  · simp only [put]
    omega
  · simpa only [put, List.length_set] using h.back
  · have hnext : ((n : Int) + 1).toNat = n + 1 := rfl
    simp only [queued, put, hn, hnext, Int.toNat_natCast, List.append_assoc]
    rw [List.take_succ_eq_append_getElem (by simpa using hmem)]
    simp [List.take_set_of_le]

theorem Holds.put (h : Holds written s) (hroom : s.pptr < s.epptr) (ch : UInt8) :
    Holds (written ++ [ch]) (s.put ch) := by
  obtain ⟨hgood, hqueued⟩ := put_spec h.good hroom ch
  refine ⟨hgood, ?_⟩
  rw [hqueued, ← List.append_assoc]
  exact congrArg (· ++ [ch]) h.fifo

theorem overflow_holds {ch : UInt8} (h : Holds written s) (hs : Short s) (hover : overflow k ch fuel s = some (s', r)) :
    Holds (if r then written ++ [ch] else written) s' := by
  induction fuel generalizing s with
  | zero => simp [overflow] at hover
  | succ fuel ih =>
    unfold overflow at hover
    split at hover
    case h_1 => cases hover
    case h_2 s₁ hsync =>
      simp only [Option.some.injEq, Prod.mk.injEq] at hover
      obtain ⟨rfl, rfl⟩ := hover
      exact h.kept (sync_spec h.good hs hsync).1
    case h_3 s₁ hsync =>
      have hkept := (sync_spec h.good hs hsync).1
      split at hover
      case isTrue => cases hover
      case isFalse =>
        split at hover
        case isTrue hroom =>
          simp only [Option.some.injEq, Prod.mk.injEq] at hover
          obtain ⟨rfl, rfl⟩ := hover
          exact (h.kept hkept).put hroom ch
        case isFalse => exact ih (h.kept hkept) (hkept.short hs) hover

theorem sputc_holds {ch : UInt8} (h : Holds written s) (hs : Short s)
    (hput : sputc k ch fuel s = some (s', r)) : Holds (if r then written ++ [ch] else written) s' := by
  unfold sputc at hput
  split at hput
  case isTrue => cases hput
  case isFalse =>
    split at hput
    case isTrue hroom =>
      simp only [Option.some.injEq, Prod.mk.injEq] at hput
      obtain ⟨rfl, rfl⟩ := hput
      exact h.put hroom ch
    case isFalse => exact overflow_holds h hs hput

/-- A new last buffer: the put area becomes the last of the older ones. -/
theorem push_holds (k : Kernel) (h : Holds written s) (hs : Short s) : Holds written (s.push k) := by
  unfold push
  split
  case isFalse => exact h
  case isTrue =>
    have hlen : (s.pptr % 2 ^ 64).toNat = s.pptr.toNat := by
      have := h.good.low
      unfold Short INT_MAX at hs
      omega
    have hmem : s.pptr.toNat ≤ s.back.mem.length := by
      have := h.good.high
      rw [h.good.back, ← h.good.area]
      omega
    refine ⟨blank_good ?_, ?_⟩
    · intro b hb
      rcases List.mem_append.1 hb with hb | hb
      · exact h.good.older b hb
      · obtain rfl := List.mem_singleton.1 hb
        exact hlen.trans_le hmem
    · rw [← h.fifo]
      simp only [queued, hlen, List.flatMap_append, List.flatMap_cons, List.flatMap_nil, List.append_nil,
        Int.toNat_zero, List.take_zero]

theorem connectto_holds {family : Bool} (h : Holds written s) (hs : Short s)
    (hconn : connectto k family fuel s = some (s', r)) : Holds written s' := by
  obtain ⟨hgood, hfifo⟩ := push_holds k h hs
  have hnamed : Holds written { s.push k with back := { (s.push k).back with family := family } } :=
    ⟨⟨hgood.low, hgood.high, hgood.room, hgood.area, hgood.back, hgood.older⟩, hfifo⟩
  unfold connectto at hconn
  dsimp only at hconn
  split at hconn
  case isTrue =>
    simp only [Option.some.injEq, Prod.mk.injEq] at hconn
    obtain ⟨rfl, -⟩ := hconn
    exact hnamed
  case isFalse =>
    rw [Option.map_eq_some_iff] at hconn
    obtain ⟨⟨c, w⟩, hloop, hconn⟩ := hconn
    simp only [Prod.mk.injEq] at hconn
    obtain ⟨rfl, -⟩ := hconn
    exact hnamed.kept (.wire hnamed.good (connect_loop_accepted hloop))

theorem Reach.holds (h : Reach k Short written s) : Holds written s := by
  induction h with
  | start opened connected => exact init_holds opened connected
  | native_handle opened _ _ ih => exact ih.kept (.wire ih.good rfl)
  | write ch fuel _ hs hput ih => exact sputc_holds ih hs hput
  | sync fuel _ hs hsync ih => exact ih.kept (sync_spec ih.good hs hsync).1
  | connectto family fuel _ hs hconn ih => exact connectto_holds ih hs hconn

/-- The send side is a queue: as long as the put area is not longer than an `int` can say, the bytes that
the kernel accepted and then those that are queued are the bytes that were written. -/
theorem a_sockbuf_is_a_queue (k : Kernel) (written : List UInt8) (s : Sockbuf) (h : Reach k Short written s) :
    s.wire.accepted ++ s.queued = written :=
  h.holds.fifo

/-! ## A put area of 2 GiB -/

/-- The kernel takes one byte and then blocks. -/
def blocking : Kernel := ⟨fun n => if n = 0 then .bytes 1 else .error .EWOULDBLOCK, fun _ => .ok, fun _ => 0⟩

theorem a_byte_is_sent_and_a_byte_is_queued :
    ∃ s, Reach blocking Short [7, 8] s ∧ s.wire.accepted = [7] ∧ s.wire.accepted ++ s.queued = [7, 8] := by
  have h0 : Reach blocking Short [] (init blocking true true) := .start true true
  have h1 : Reach blocking Short [7] ((init blocking true true).put 7) := .write 7 0 h0 (by decide) rfl
  have h2 : Reach blocking Short [7, 8] (((init blocking true true).put 7).put 8) := .write 8 0 h1 (by decide) rfl
  obtain ⟨s, hs, ha⟩ : ∃ s, sync blocking 4 (((init blocking true true).put 7).put 8) = some (s, true) ∧
      s.wire.accepted = [7] :=
    ⟨_, rfl, by decide +kernel⟩
  have h3 : Reach blocking Short [7, 8] s := .sync 4 h2 (by decide) hs
  exact ⟨s, h3, ha, a_sockbuf_is_a_queue blocking [7, 8] s h3⟩

/-- Without a socket, `n` bytes are in a put area that has grown as little as it can. -/
structure Filled (n : Nat) (s : Sockbuf) : Prop where
  good : Good s
  older : s.older = []
  closed : s.wire.opened = false
  accepted : s.wire.accepted = []
  pptr : s.pptr = n
  blocks : MIN_BUFSIZE ∣ s.epptr
  tight : s.epptr ≤ n + MIN_BUFSIZE

/-- Without a socket `sync` only resizes the put area. -/
theorem sync_closed (ho : s.older = []) (hc : s.wire.opened = false) (fuel : Nat) :
    sync k (fuel + 2) s = some (s.resize k, true) := by
  have hsilent : silent s.wire s.back = true := by simp [silent, hc]
  have ho' : (s.resize k).older = [] := resize_older.trans ho
  simp only [sync, flush_front, send, ho, send_back, hsilent, if_true, ho']

theorem Filled.put (h : Filled n s) (hroom : s.pptr < s.epptr) (ch : UInt8) : Filled (n + 1) (s.put ch) where
  good := (put_spec h.good hroom ch).1
  older := h.older
  closed := h.closed
  accepted := h.accepted
  pptr := by
    simp only [Sockbuf.put, h.pptr]
    rfl
  blocks := h.blocks
  tight := by
    have := h.tight
    simp only [Sockbuf.put]
    omega

theorem Filled.resize (h : Filled n s) (hs : Short s) : Filled n (s.resize k) := by
  have hmax : n < 2 ^ 32 := by
    have := h.pptr
    unfold Short INT_MAX at hs
    omega
  have hsize : (s.resize k).epptr = MIN_BUFSIZE * (n / MIN_BUFSIZE + 1) := resize_epptr h.good h.pptr hmax
  exact {
    good := (resize_spec k h.good hs).1.good
    older := resize_older.trans h.older
    closed := (congrArg Wire.opened resize_wire).trans h.closed
    accepted := (congrArg Wire.accepted resize_wire).trans h.accepted
    pptr := (resize_pptr h.good hs).trans h.pptr
    blocks := ⟨_, hsize⟩
    tight := by
      rw [hsize, Nat.mul_add, Nat.mul_one]
      exact Nat.add_le_add_right (Nat.mul_div_le n MIN_BUFSIZE) _ }

/-- One more byte, while the put area is short. -/
theorem Filled.write (k : Kernel) (h : Filled n s) (hs : Short s) (ch : UInt8) :
    ∃ s', sputc k ch 3 s = some (s', true) ∧ Filled (n + 1) s' ∧ s'.epptr ≤ n + MIN_BUFSIZE := by
  have hlow : ¬ s.pptr < 0 := not_lt.2 h.good.low
  by_cases hroom : s.pptr < s.epptr
  · exact ⟨s.put ch, by simp only [sputc, if_neg hlow, if_pos hroom], h.put hroom ch, h.tight⟩
  · have hgrown : Filled n (s.resize k) := h.resize hs
    have hroom' := (resize_spec k h.good hs).2
    refine ⟨(s.resize k).put ch, ?_, hgrown.put hroom' ch, hgrown.tight⟩
    have hlow' : ¬ (s.resize k).pptr < 0 := not_lt.2 hgrown.good.low
    simp only [sputc, if_neg hlow, if_neg hroom, overflow, sync_closed h.older h.closed, if_neg hlow',
      if_pos hroom']

theorem fill (k : Kernel) (n : Nat) (hn : n ≤ 2 ^ 31) :
    ∃ s, Reach k Short (List.replicate n 0) s ∧ Filled n s ∧ (0 < n → s.epptr < n + MIN_BUFSIZE) := by
  induction n with
  | zero =>
    refine ⟨init k false false, .start false false, ?_, nofun⟩
    exact ⟨(init_holds false false).good, rfl, rfl, rfl, rfl, dvd_refl _, Nat.le_add_left ..⟩
  | succ n ih =>
    obtain ⟨s, hreach, hfilled, -⟩ := ih (by omega)
    have hs : Short s := by
      have := hfilled.pptr
      unfold Short INT_MAX
      omega
    obtain ⟨s', hput, hfilled', htight⟩ := hfilled.write k hs 0
    have hreach' := Reach.write 0 3 hreach hs hput
    rw [if_pos rfl, ← List.replicate_succ'] at hreach'
    exact ⟨s', hreach', hfilled', fun _ => by omega⟩

theorem Reach.mono {C D : Sockbuf → Prop} (hCD : ∀ s, C s → D s) (h : Reach k C written s) : Reach k D written s := by
  induction h with
  | start opened connected => exact .start opened connected
  | native_handle opened _ hc ih => exact .native_handle opened ih (hCD _ hc)
  | write ch fuel _ hc hput ih => exact .write ch fuel ih (hCD _ hc) hput
  | sync fuel _ hc hsync ih => exact .sync fuel ih (hCD _ hc) hsync
  | connectto family fuel _ hc hconn ih => exact .connectto family fuel ih (hCD _ hc) hconn

/-- 2 GiB are written before there is a socket. The length is a negative `int`, and the next `sync` puts
`pptr` before the put area: nothing is queued any more. -/
theorem a_long_put_area_is_lost :
    ∃ written s, Reach blocking (fun _ => True) written s ∧ s.wire.accepted ++ s.queued ≠ written := by
  obtain ⟨s, hreach, hfilled, htight⟩ := fill blocking (2 ^ 31) (le_refl _)
  have hwide : Reach blocking (fun _ => True) (List.replicate (2 ^ 31) 0) s := hreach.mono fun _ _ => trivial
  refine ⟨_, _, .sync 2 hwide trivial (sync_closed hfilled.older hfilled.closed 0), ?_⟩
  have hfull : s.back.iov_len = 2 ^ 31 := by
    have hhigh := hfilled.good.high
    have htight' := htight (by omega)
    obtain ⟨j, hj⟩ := hfilled.blocks
    rw [← hfilled.good.area]
    rw [hfilled.pptr] at hhigh
    simp only [MIN_BUFSIZE] at hj htight'
    omega
  have hpptr : (s.resize blocking).pptr = -2 ^ 31 := by
    have hsize : 2 ^ 31 ≠ MIN_BUFSIZE * ((((2 ^ 31 : Nat) : Int) % 2 ^ 64).toNat / MIN_BUFSIZE + 1) % 2 ^ 64 := by
      decide
    unfold Sockbuf.resize
    simp only [hfull, hfilled.pptr, if_neg hsize]
    decide
  have hlost : (s.resize blocking).queued = [] := by
    simp only [queued, resize_older, hfilled.older, hpptr, List.flatMap_nil, List.nil_append]
    rfl
  rw [hlost, resize_wire, hfilled.accepted]
  intro hnil
  have hlen := congrArg List.length hnil
  simp only [List.append_nil, List.length_nil, List.length_replicate] at hlen
  omega

end Sockbuf

end cloudbus.io
