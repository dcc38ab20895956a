-- The wire format of `messages.hpp`: the uuid, the 24-byte header in front of
-- every frame, and the bytes both are stored as. The structs have no padding,
-- and every multi-byte field stands little-endian, as on the build target.
import Mathlib.Algebra.Order.Ring.Nat
import Mathlib.Data.List.Basic
import Mathlib.Tactic.Common

namespace cloudbus.messages

/-! ## Constants -/

/-- `enum opcodes : std::uint8_t`. The field is read off the wire, so it stays a byte. -/
def DATA : UInt8 := 0
def STOP : UInt8 := 1

/-- `enum session_flags : std::uint8_t`. -/
def INIT : UInt8 := 128
def ABORT : UInt8 := 64

def CLOCK_SEQ_MAX : UInt8 := 0x3F

/-- `sizeof(messages::msgheader)`. -/
def HDRLEN : Nat := 24

def UINT16_MAX : Nat := 65535

/-! ## The structs -/

structure Uuid where
  time_low : UInt32
  time_mid : UInt16
  time_high_version : UInt16
  clock_seq_reserved : UInt8
  clock_seq_low : UInt8
  node : Vector UInt8 6
deriving DecidableEq, Repr

instance : Inhabited Uuid := ⟨⟨0, 0, 0, 0, 0, #v[0, 0, 0, 0, 0, 0]⟩⟩

/-- A uuid with a node of its own. -/
def Uuid.ofNode (k : UInt8) : Uuid := ⟨0, 0, 0, 0, 0, #v[k, 0, 0, 0, 0, 0]⟩

/-- `uuid{}`: what `make_uuid_v7` gives when it can not read its entropy. -/
def Uuid.nil : Uuid := default

structure Msglen where
  seqno : UInt16
  length : UInt16
deriving DecidableEq, Repr

structure Msgversion where
  major : UInt8
  minor : UInt8
deriving DecidableEq, Repr

structure Msgtype where
  op : UInt8
  flags : UInt8
deriving DecidableEq, Repr

structure Msgheader where
  eid : Uuid
  len : Msglen
  version : Msgversion
  type : Msgtype
deriving DecidableEq, Repr

/-- `type.flags & flag`, read as a condition. -/
def Msgtype.has (t : Msgtype) (flag : UInt8) : Bool := t.flags &&& flag != 0

/-- `uuidcmp_node(lhs, rhs) == 0`. -/
def Uuid.sameNode (lhs rhs : Uuid) : Bool := lhs.node == rhs.node

/-- The header that every frame of the program is sent with: sequence number 1,
version 0.0, and the length of the envelope with its payload of `p` bytes. -/
def Msgheader.of (eid : Uuid) (p : Nat) (type : Msgtype) : Msgheader :=
  ⟨eid, ⟨1, UInt16.ofNat (p + HDRLEN)⟩, ⟨0, 0⟩, type⟩

/-! ## Bytes -/

/-- The little-endian bytes of the low `n` bytes of a number. -/
def leBytes : Nat → Nat → List UInt8
  | 0, _ => []
  | n + 1, x => UInt8.ofNat x :: leBytes n (x / 256)

/-- The number that little-endian bytes stand for. -/
def leNat : List UInt8 → Nat
  | [] => 0
  | b :: bs => b.toNat + 256 * leNat bs

@[simp] theorem length_leBytes (n x : Nat) : (leBytes n x).length = n := by
  induction n generalizing x with
  | zero => rfl
  | succ n ih => simp [leBytes, ih]

theorem leNat_leBytes (n x : Nat) (h : x < 256 ^ n) : leNat (leBytes n x) = x := by
  induction n generalizing x with
  | zero =>
    have : x = 0 := by simpa using h
    simp [leBytes, leNat, this]
  | succ n ih =>
    have hx : x / 256 < 256 ^ n := by
      rw [Nat.pow_succ] at h
      omega
    simp only [leBytes, leNat, ih _ hx, UInt8.toNat_ofNat']
    omega

def Uuid.encode (u : Uuid) : List UInt8 :=
  leBytes 4 u.time_low.toNat ++ leBytes 2 u.time_mid.toNat ++
    leBytes 2 u.time_high_version.toNat ++ [u.clock_seq_reserved, u.clock_seq_low] ++
    u.node.toList

def Msgheader.encode (h : Msgheader) : List UInt8 :=
  h.eid.encode ++ leBytes 2 h.len.seqno.toNat ++ leBytes 2 h.len.length.toNat ++
    [h.version.major, h.version.minor, h.type.op, h.type.flags]

@[simp] theorem Uuid.length_encode (u : Uuid) : u.encode.length = 16 := by
  simp [Uuid.encode]

@[simp] theorem Msgheader.length_encode (h : Msgheader) : h.encode.length = HDRLEN := by
  simp [Msgheader.encode, HDRLEN]

/-! ## Reading the fields back

The accessors of `xmsgbuf` cast a pointer into the buffer. Here they take the
bytes of the buffer, and read the field at its offset. -/

def byteAt (bs : List UInt8) (k : Nat) : UInt8 := (bs.drop k).headD 0

def eidAt (bs : List UInt8) : Uuid where
  time_low := UInt32.ofNat (leNat (bs.take 4))
  time_mid := UInt16.ofNat (leNat ((bs.drop 4).take 2))
  time_high_version := UInt16.ofNat (leNat ((bs.drop 6).take 2))
  clock_seq_reserved := byteAt bs 8
  clock_seq_low := byteAt bs 9
  node := #v[byteAt bs 10, byteAt bs 11, byteAt bs 12, byteAt bs 13, byteAt bs 14, byteAt bs 15]

def lenAt (bs : List UInt8) : Msglen where
  seqno := UInt16.ofNat (leNat ((bs.drop 16).take 2))
  length := UInt16.ofNat (leNat ((bs.drop 18).take 2))

def versionAt (bs : List UInt8) : Msgversion := ⟨byteAt bs 20, byteAt bs 21⟩

def typeAt (bs : List UInt8) : Msgtype := ⟨byteAt bs 22, byteAt bs 23⟩

def headerAt (bs : List UInt8) : Msgheader := ⟨eidAt bs, lenAt bs, versionAt bs, typeAt bs⟩

theorem leBytes_leNat (bs : List UInt8) : leBytes bs.length (leNat bs) = bs := by
  induction bs with
  | nil => rfl
  | cons b bs ih =>
    have hdiv : (b.toNat + 256 * leNat bs) / 256 = leNat bs := by
      have := b.toNat_lt
      omega
    have hb : UInt8.ofNat (b.toNat + 256 * leNat bs) = b := by
      apply UInt8.toNat_inj.mp
      rw [UInt8.toNat_ofNat']
      have := b.toNat_lt
      omega
    simp [leBytes, leNat, hdiv, hb, ih]

theorem leNat_lt (bs : List UInt8) : leNat bs < 256 ^ bs.length := by
  induction bs with
  | nil => simp [leNat]
  | cons b bs ih =>
    have := b.toNat_lt
    simp only [leNat, List.length_cons, Nat.pow_succ]
    omega

theorem u16_bytes (a b : UInt8) :
    leBytes 2 (UInt16.ofNat (leNat [a, b])).toNat = [a, b] := by
  have hlt := leNat_lt [a, b]
  simp only [List.length_cons, List.length_nil, Nat.zero_add, Nat.reduceAdd, Nat.reducePow] at hlt
  rw [UInt16.toNat_ofNat', Nat.mod_eq_of_lt hlt]
  exact leBytes_leNat [a, b]

theorem u32_bytes (a b c d : UInt8) :
    leBytes 4 (UInt32.ofNat (leNat [a, b, c, d])).toNat = [a, b, c, d] := by
  have hlt := leNat_lt [a, b, c, d]
  simp only [List.length_cons, List.length_nil, Nat.zero_add, Nat.reduceAdd, Nat.reducePow] at hlt
  rw [UInt32.toNat_ofNat', Nat.mod_eq_of_lt hlt]
  exact leBytes_leNat [a, b, c, d]

/-- A list of 24 bytes or more, with its first 24 bytes named. -/
theorem explode_header (bs : List UInt8) (h : HDRLEN ≤ bs.length) :
    ∃ b0 b1 b2 b3 b4 b5 b6 b7 b8 b9 b10 b11 b12 b13 b14 b15 b16 b17 b18 b19 b20 b21 b22 b23 r,
      bs = b0 :: b1 :: b2 :: b3 :: b4 :: b5 :: b6 :: b7 :: b8 :: b9 :: b10 :: b11 :: b12 :: b13 ::
        b14 :: b15 :: b16 :: b17 :: b18 :: b19 :: b20 :: b21 :: b22 :: b23 :: r := by
  obtain ⟨l, r, rfl, hl⟩ : ∃ l r, bs = l ++ r ∧ l.length = 24 :=
    ⟨bs.take 24, bs.drop 24, (List.take_append_drop 24 bs).symm, by
      rw [List.length_take, Nat.min_eq_left (show 24 ≤ bs.length from h)]⟩
  match l, hl with
  | [b0, b1, b2, b3, b4, b5, b6, b7, b8, b9, b10, b11, b12, b13, b14, b15, b16, b17, b18, b19,
      b20, b21, b22, b23], _ => simp

/-- The header that stands in the first 24 bytes of a buffer is stored as those bytes. -/
theorem encode_headerAt (bs : List UInt8) (h : HDRLEN ≤ bs.length) :
    (headerAt bs).encode = bs.take HDRLEN := by
  obtain ⟨b0, b1, b2, b3, b4, b5, b6, b7, b8, b9, b10, b11, b12, b13, b14, b15, b16, b17, b18, b19,
    b20, b21, b22, b23, r, rfl⟩ := explode_header bs h
  simp only [headerAt, eidAt, lenAt, versionAt, typeAt, byteAt, Msgheader.encode, Uuid.encode,
    HDRLEN, List.take_succ_cons, List.take_zero, List.drop_succ_cons, List.drop_zero,
    List.headD_cons, u16_bytes, u32_bytes]
  rfl

variable {bs : List UInt8} {n k : Nat}

theorem leBytes_inj {x y : Nat} (hx : x < 256 ^ n) (hy : y < 256 ^ n) (h : leBytes n x = leBytes n y) : x = y := by
  rw [← leNat_leBytes n x hx, h, leNat_leBytes n y hy]

theorem Uuid.encode_inj {u v : Uuid} (h : u.encode = v.encode) : u = v := by
  obtain ⟨tl, tm, th, c1, c2, n⟩ := u
  obtain ⟨tl', tm', th', c1', c2', n'⟩ := v
  simp only [Uuid.encode] at h
  obtain ⟨h, hn⟩ := List.append_inj' h (by simp)
  obtain ⟨h, hc⟩ := List.append_inj' h (by simp)
  obtain ⟨h, hth⟩ := List.append_inj' h (by simp)
  obtain ⟨htl, htm⟩ := List.append_inj' h (by simp)
  have e1 := UInt32.toNat_inj.mp (leBytes_inj tl.toNat_lt tl'.toNat_lt htl)
  have e2 := UInt16.toNat_inj.mp (leBytes_inj tm.toNat_lt tm'.toNat_lt htm)
  have e3 := UInt16.toNat_inj.mp (leBytes_inj th.toNat_lt th'.toNat_lt hth)
  have e4 := Vector.toList_inj.mp hn
  simp only [List.cons.injEq, and_true] at hc
  rw [e1, e2, e3, e4, hc.1, hc.2]

theorem Msgheader.encode_inj {h k : Msgheader} (he : h.encode = k.encode) : h = k := by
  obtain ⟨eid, ⟨sq, ln⟩, ⟨ma, mi⟩, ⟨op, fl⟩⟩ := h
  obtain ⟨eid', ⟨sq', ln'⟩, ⟨ma', mi'⟩, ⟨op', fl'⟩⟩ := k
  simp only [Msgheader.encode] at he
  obtain ⟨he, hb⟩ := List.append_inj' he (by simp)
  obtain ⟨he, hl⟩ := List.append_inj' he (by simp)
  obtain ⟨he, hs⟩ := List.append_inj' he (by simp)
  have e1 := UInt16.toNat_inj.mp (leBytes_inj sq.toNat_lt sq'.toNat_lt hs)
  have e2 := UInt16.toNat_inj.mp (leBytes_inj ln.toNat_lt ln'.toNat_lt hl)
  simp only [List.cons.injEq, and_true] at hb
  obtain ⟨b1, b2, b3, b4⟩ := hb
  rw [Uuid.encode_inj he, e1, e2, b1, b2, b3, b4]

/-! ## Header fields and the bytes behind them -/

theorem byteAt_append (cs : List UInt8) (h : k < bs.length) : byteAt (bs ++ cs) k = byteAt bs k := by
  unfold byteAt
  rw [List.drop_append_of_le_length (Nat.le_of_lt h)]
  cases hd : bs.drop k with
  | nil => have := List.drop_eq_nil_iff.mp hd; omega
  | cons b _ => rfl

theorem field_append (cs : List UInt8) (h : k + n ≤ bs.length) : ((bs ++ cs).drop k).take n = (bs.drop k).take n := by
  rw [List.drop_append_of_le_length (by omega), List.take_append_of_le_length]
  rw [List.length_drop]
  omega

theorem eidAt_append (cs : List UInt8) (h : 16 ≤ bs.length) : eidAt (bs ++ cs) = eidAt bs := by
  unfold eidAt
  simp (disch := omega) only [byteAt_append, field_append, List.take_append_of_le_length]

theorem lenAt_append (cs : List UInt8) (h : 20 ≤ bs.length) : lenAt (bs ++ cs) = lenAt bs := by
  unfold lenAt
  simp (disch := omega) only [field_append]

theorem versionAt_append (cs : List UInt8) (h : 22 ≤ bs.length) : versionAt (bs ++ cs) = versionAt bs := by
  unfold versionAt
  simp (disch := omega) only [byteAt_append]

theorem typeAt_append (cs : List UInt8) (h : 24 ≤ bs.length) : typeAt (bs ++ cs) = typeAt bs := by
  unfold typeAt
  simp (disch := omega) only [byteAt_append]

end cloudbus.messages
