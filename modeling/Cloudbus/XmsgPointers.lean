-- The frame buffer of `formats/xmsg.cpp` as its pointers have it. `Xmsgbuf` carries
-- the order of the positions in its type; here they are plain numbers, `pbump` takes
-- an `int`, and memory is asked for and holds anything at first. While the put
-- position fits an `int` the order is kept, and both descriptions agree.
import Cloudbus.Sockbuf
import Cloudbus.Xmsg

namespace cloudbus.messages

open cloudbus.io

/-- Which sizes `realloc` grants, and what new memory holds. -/
structure Heap where
  grants : Nat → Bool
  junk : Nat → UInt8

/-- `xmsgbuf`. The pointers are counted from `bufptr`, which is `pbase` and `eback`. -/
structure XmsgPointers where
  mem : List UInt8
  bufsize : Nat
  pptr : Int
  epptr : Int
  gptr : Int
  egptr : Int
deriving DecidableEq, Repr

namespace XmsgPointers

/-- The constructor. -/
def make (h : Heap) (buflen : Nat) : XmsgPointers where
  mem := (List.range buflen).map h.junk
  bufsize := buflen
  pptr := 0
  epptr := buflen
  gptr := 0
  egptr := 0

/-- `std::size_t len_ = pptr()-pbase()`. -/
def len_ (b : XmsgPointers) : Nat := (b.pptr % 2 ^ 64).toNat

def eid (b : XmsgPointers) : Option Uuid := if 16 ≤ b.len_ then some (eidAt b.mem) else none
def len (b : XmsgPointers) : Option Msglen := if 16 + 4 ≤ b.len_ then some (lenAt b.mem) else none
def version (b : XmsgPointers) : Option Msgversion := if 20 + 2 ≤ b.len_ then some (versionAt b.mem) else none
def type (b : XmsgPointers) : Option Msgtype := if 22 + 2 ≤ b.len_ then some (typeAt b.mem) else none

/-- `lp && lp->length == pos`. -/
def endsAt (b : XmsgPointers) (pos : Int) : Bool :=
  match b.len with
  | some l => (l.length.toNat : Int) == pos
  | none => false

def showmanyc (b : XmsgPointers) : XmsgPointers × Int :=
  if b.endsAt b.gptr ∨ b.pptr - b.gptr < 0 then (b, -1)
  else ({ b with egptr := b.pptr }, b.pptr - b.gptr)

/-- `in_avail()` of a `std::streambuf`. -/
def in_avail (b : XmsgPointers) : XmsgPointers × Int :=
  if b.egptr - b.gptr ≠ 0 then (b, b.egptr - b.gptr) else b.showmanyc

/-- `*pptr() = ch`, and the position moves on. There is no result outside of the memory. -/
def store (b : XmsgPointers) (ch : UInt8) : Option XmsgPointers :=
  if 0 ≤ b.pptr ∧ b.pptr < b.mem.length then
    some { b with mem := b.mem.set b.pptr.toNat ch, pptr := b.pptr + 1 }
  else none

/-- The memory and the pointers after `realloc` in `overflow`. -/
def grow (h : Heap) (b : XmsgPointers) : XmsgPointers where
  mem := b.mem ++ (List.range (b.bufsize + BUFINC - b.mem.length)).map fun i => h.junk (b.mem.length + i)
  bufsize := b.bufsize + BUFINC
  pptr := to_int b.pptr
  epptr := b.bufsize + BUFINC
  gptr := min b.pptr b.gptr
  egptr := to_int b.pptr

/-- `overflow`, with `false` for end-of-file. The put position is before the new end of the area, so
that its `sputc` stores the byte. -/
def overflow (h : Heap) (ch : UInt8) (b : XmsgPointers) : Option (XmsgPointers × Bool) :=
  if b.endsAt b.pptr then some (b, false)
  else if h.grants (b.bufsize + BUFINC) then ((b.grow h).store ch).map fun b => (b, true)
  else some ({ b with bufsize := b.bufsize + BUFINC }, false)

def sputc (h : Heap) (ch : UInt8) (b : XmsgPointers) : Option (XmsgPointers × Bool) :=
  if b.pptr < b.epptr then (b.store ch).map fun b => (b, true) else b.overflow h ch

/-- `sputn`: how many bytes are taken. -/
def sputn (h : Heap) : List UInt8 → XmsgPointers → Option (XmsgPointers × Nat)
  | [], b => some (b, 0)
  | ch :: bs, b =>
    match b.sputc h ch with
    | none => none
    | some (b, false) => some (b, 0)
    | some (b, true) => (sputn h bs b).map fun r => (r.1, r.2 + 1)

/-- `seekpos(pos, in)`, with `false` for its -1. -/
def seekposIn (pos : Int) (b : XmsgPointers) : XmsgPointers × Bool :=
  if pos < 0 ∨ b.pptr < pos then (b, false) else ({ b with gptr := pos, egptr := b.pptr }, true)

/-- `seekpos(pos, out)`, with `false` for its -1. -/
def seekposOut (pos : Int) (b : XmsgPointers) : XmsgPointers × Bool :=
  if pos < 0 ∨ b.epptr < pos then (b, false)
  else ({ b with pptr := to_int pos, gptr := min b.gptr (to_int pos), egptr := to_int pos }, true)

/-- `readsome`. There is no result when the get area is not in the memory. -/
def readsome (n : Nat) (b : XmsgPointers) : Option (List UInt8 × XmsgPointers) :=
  match b.in_avail with
  | (b, avail) =>
    let m := min n avail.toNat
    if m = 0 then some ([], b)
    else if 0 ≤ b.gptr ∧ b.gptr + m ≤ b.mem.length then
      some ((b.mem.drop b.gptr.toNat).take m, { b with gptr := b.gptr + m })
    else none

/-! ## Runs -/

/-- A call. The accessors change nothing. -/
inductive Op where
  | write (bs : List UInt8)
  | seekp (pos : Int)
  | seekg (pos : Int)
  | readsome (n : Nat)
  | showmanyc
deriving DecidableEq, Repr

def apply (h : Heap) (b : XmsgPointers) : Op → Option XmsgPointers
  | .write bs => (b.sputn h bs).map Prod.fst
  | .seekp pos => some (b.seekposOut pos).1
  | .seekg pos => some (b.seekposIn pos).1
  | .readsome n => (b.readsome n).map Prod.snd
  | .showmanyc => some b.showmanyc.1

/-- What was written last at each position, after a call that went from `b` to `b'`. -/
def wrote (written : Nat → Option UInt8) (b b' : XmsgPointers) : Op → Nat → Option UInt8
  | .write bs => fun i => if b.pptr ≤ i ∧ i < b'.pptr then bs[i - b.pptr.toNat]? else written i
  | _ => written

/-- The put position fits an `int` wherever `pbump` takes it. -/
def Fits (b : XmsgPointers) : Op → Prop
  | .write bs => b.pptr + bs.length ≤ INT_MAX
  | .seekp pos => pos ≤ INT_MAX
  | _ => True

instance (b : XmsgPointers) (op : Op) : Decidable (b.Fits op) :=
  match op with
  | .write bs => inferInstanceAs (Decidable (b.pptr + bs.length ≤ INT_MAX))
  | .seekp pos => inferInstanceAs (Decidable (pos ≤ INT_MAX))
  | .seekg _ | .readsome _ | .showmanyc => isTrue trivial

/-- A buffer of any size after any calls, and what was written last at each position. -/
inductive Run (h : Heap) (buflen : Nat) : XmsgPointers → (Nat → Option UInt8) → Prop
  | make : Run h buflen (make h buflen) fun _ => none
  | call {b b' : XmsgPointers} {written : Nat → Option UInt8} (op : Op) : Run h buflen b written → b.Fits op →
      b.apply h op = some b' → Run h buflen b' (wrote written b b' op)

/-! ## The order of the positions -/

structure Sound (b : XmsgPointers) : Prop where
  zero_le : 0 ≤ b.gptr
  gptr_le : b.gptr ≤ b.egptr
  egptr_le : b.egptr ≤ b.pptr
  pptr_le : b.pptr ≤ b.epptr
  epptr_eq : b.epptr = b.mem.length
  bufsize : b.mem.length ≤ b.bufsize

theorem to_int_eq {x : Int} (h0 : 0 ≤ x) (h : x ≤ INT_MAX) : to_int x = x := by
  unfold to_int INT_MAX at *
  apply Int.bmod_eq_of_le <;> omega

variable {h : Heap} {b b' : XmsgPointers}

theorem Sound.pptr_nonneg (hs : b.Sound) : 0 ≤ b.pptr :=
  le_trans hs.zero_le (le_trans hs.gptr_le hs.egptr_le)

theorem Sound.store (hs : b.Sound) (ch : UInt8) (hlt : b.pptr < b.epptr) :
    ∃ b', b.store ch = some b' ∧ b'.Sound ∧ b'.mem = b.mem.set b.pptr.toNat ch ∧ b'.pptr = b.pptr + 1 ∧
      b'.gptr = b.gptr ∧ b'.bufsize = b.bufsize := by
  have h0 := hs.pptr_nonneg
  have hlen := hs.epptr_eq
  refine ⟨_, if_pos ⟨h0, by omega⟩, ⟨hs.zero_le, hs.gptr_le, ?_, ?_, ?_, ?_⟩, rfl, rfl, rfl, rfl⟩
  · exact le_trans hs.egptr_le (by dsimp only; omega)
  · dsimp only
    omega
  · dsimp only
    rw [List.length_set]
    exact hlen
  · dsimp only
    rw [List.length_set]
    exact hs.bufsize

theorem Sound.grow (hs : b.Sound) (hfit : b.pptr ≤ INT_MAX) :
    (b.grow h).Sound ∧ (b.grow h).pptr = b.pptr ∧ (b.grow h).gptr = b.gptr ∧ b.mem <+: (b.grow h).mem ∧
      b.pptr < (b.grow h).epptr := by
  have h0 := hs.pptr_nonneg
  have hint := to_int_eq h0 hfit
  have hsize := hs.bufsize
  have hp := hs.pptr_le
  have he := hs.epptr_eq
  have hg := le_trans hs.gptr_le hs.egptr_le
  have hmin : min b.pptr b.gptr = b.gptr := min_eq_right hg
  have hlen : (b.grow h).mem.length = b.bufsize + BUFINC := by
    simp only [XmsgPointers.grow, List.length_append, List.length_map, List.length_range, BUFINC]
    omega
  refine ⟨⟨?_, ?_, ?_, ?_, ?_, ?_⟩, hint, hmin, List.prefix_append _ _, ?_⟩
  · show 0 ≤ min b.pptr b.gptr
    rw [hmin]
    exact hs.zero_le
  · show min b.pptr b.gptr ≤ to_int b.pptr
    rw [hmin, hint]
    exact hg
  · exact le_refl _
  · show to_int b.pptr ≤ ((b.bufsize + BUFINC : Nat) : Int)
    rw [hint]
    omega
  · rw [hlen]
    rfl
  · rw [hlen]
    exact Nat.le_refl _
  · show b.pptr < ((b.bufsize + BUFINC : Nat) : Int)
    rw [BUFINC]
    omega

/-- The bytes `bs` were put at the put position, and nothing else was touched. -/
structure Put (b : XmsgPointers) (bs : List UInt8) (b' : XmsgPointers) : Prop where
  sound : b'.Sound
  pptr : b'.pptr = b.pptr + bs.length
  gptr : b'.gptr = b.gptr
  bytes : ∀ j < bs.length, b'.mem[b.pptr.toNat + j]? = bs[j]?
  others : ∀ i < b.mem.length, i < b.pptr.toNat ∨ b.pptr.toNat + bs.length ≤ i → b'.mem[i]? = b.mem[i]?
  length : b.mem.length ≤ b'.mem.length

theorem Put.refl (hs : b.Sound) : Put b [] b :=
  ⟨hs, by simp, rfl, by simp, fun _ _ _ => rfl, Nat.le_refl _⟩

theorem Put.trans {b'' : XmsgPointers} {bs cs : List UInt8} (hs : b.Sound) (h1 : Put b bs b') (h2 : Put b' cs b'') :
    Put b (bs ++ cs) b'' := by
  have h0 := hs.pptr_nonneg
  have hp : b'.pptr.toNat = b.pptr.toNat + bs.length := by rw [h1.pptr]; omega
  have hfit : b.pptr.toNat + bs.length ≤ b'.mem.length := by
    have := h1.sound.pptr_le
    have := h1.sound.epptr_eq
    have := h1.pptr
    omega
  refine ⟨h2.sound, ?_, h2.gptr.trans h1.gptr, ?_, ?_, le_trans h1.length h2.length⟩
  · rw [h2.pptr, h1.pptr, List.length_append]
    omega
  · intro j hj
    rw [List.length_append] at hj
    by_cases hlt : j < bs.length
    · rw [h2.others _ (by omega) (.inl (by omega)), h1.bytes j hlt, List.getElem?_append_left hlt]
    · have hbytes := h2.bytes (j - bs.length) (by omega)
      rw [hp, show b.pptr.toNat + bs.length + (j - bs.length) = b.pptr.toNat + j by omega] at hbytes
      rw [hbytes, List.getElem?_append_right (by omega)]
  · intro i hi hout
    rw [List.length_append] at hout
    have hlen := h1.length
    rw [h2.others i (by omega) (by omega), h1.others i hi (by omega)]

theorem Sound.put_store (hs : b.Sound) (ch : UInt8) (hlt : b.pptr < b.epptr) :
    ∃ b', b.store ch = some b' ∧ Put b [ch] b' := by
  obtain ⟨b', hb', hsound, hmem, hpptr, hgptr, -⟩ := hs.store ch hlt
  have h0 := hs.pptr_nonneg
  have he := hs.epptr_eq
  refine ⟨b', hb', hsound, hpptr, hgptr, ?_, ?_, ?_⟩
  · intro j hj
    obtain rfl : j = 0 := by simpa using hj
    rw [hmem, Nat.add_zero, List.getElem?_set_self (by omega)]
    rfl
  · intro i _ hout
    rw [List.length_singleton] at hout
    rw [hmem, List.getElem?_set_ne (by omega)]
  · rw [hmem, List.length_set]

/-- A growth keeps all bytes and both positions. -/
theorem Sound.put_grow (hs : b.Sound) (hfit : b.pptr ≤ INT_MAX) : Put b [] (b.grow h) := by
  obtain ⟨hsound, hpptr, hgptr, hmem, -⟩ := hs.grow (h := h) hfit
  obtain ⟨tail, htail⟩ := hmem
  refine ⟨hsound, by simpa using hpptr, hgptr, by simp, ?_, ?_⟩
  · intro i hi _
    rw [← htail, List.getElem?_append_left hi]
  · rw [← htail, List.length_append]
    omega

/-- `overflow` puts its byte, or leaves the bytes and the positions as they are. -/
theorem Sound.overflow (hs : b.Sound) (ch : UInt8) (hfit : b.pptr ≤ INT_MAX) :
    ∃ b' ok, b.overflow h ch = some (b', ok) ∧ Put b (if ok then [ch] else []) b' := by
  unfold XmsgPointers.overflow
  split
  · exact ⟨b, false, rfl, .refl hs⟩
  · split
    · have hgrow := hs.put_grow (h := h) hfit
      have hroom : (b.grow h).pptr < (b.grow h).epptr := by
        obtain ⟨-, hpptr, -, -, hlt⟩ := hs.grow (h := h) hfit
        rw [hpptr]
        exact hlt
      obtain ⟨b', hb', hput⟩ := hgrow.sound.put_store ch hroom
      exact ⟨b', true, by rw [hb']; rfl, hgrow.trans hs hput⟩
    · refine ⟨_, false, rfl, ⟨hs.zero_le, hs.gptr_le, hs.egptr_le, hs.pptr_le, hs.epptr_eq, ?_⟩, ?_, rfl, by simp,
        fun _ _ _ => rfl, Nat.le_refl _⟩
      · exact le_trans hs.bufsize (Nat.le_add_right _ _)
      · simp

theorem Sound.sputc (hs : b.Sound) (ch : UInt8) (hfit : b.pptr ≤ INT_MAX) :
    ∃ b' ok, b.sputc h ch = some (b', ok) ∧ Put b (if ok then [ch] else []) b' := by
  unfold XmsgPointers.sputc
  split
  · rename_i hlt
    obtain ⟨b', hb', hput⟩ := hs.put_store ch hlt
    exact ⟨b', true, by rw [hb']; rfl, hput⟩
  · exact hs.overflow ch hfit

/-- A write puts a first part of its bytes. -/
theorem Sound.sputn (hs : b.Sound) (bs : List UInt8) (hfit : b.pptr + bs.length ≤ INT_MAX) :
    ∃ b' n, b.sputn h bs = some (b', n) ∧ n ≤ bs.length ∧ Put b (bs.take n) b' := by
  induction bs generalizing b with
  | nil => exact ⟨b, 0, rfl, Nat.le_refl 0, .refl hs⟩
  | cons ch bs ih =>
    rw [List.length_cons] at hfit
    obtain ⟨b', ok, hb', hput⟩ := hs.sputc (h := h) ch (by omega)
    unfold XmsgPointers.sputn
    rw [hb']
    cases ok with
    | false => exact ⟨b', 0, rfl, Nat.zero_le _, hput⟩
    | true =>
      have hpptr := hput.pptr
      rw [if_pos rfl, List.length_singleton] at hpptr
      obtain ⟨b'', n, hb'', hn, hrest⟩ := ih hput.sound (by omega)
      refine ⟨b'', n + 1, by dsimp only; rw [hb'']; rfl, by rw [List.length_cons]; omega, ?_⟩
      rw [List.take_succ_cons]
      exact hput.trans hs hrest

theorem Sound.seekposIn (hs : b.Sound) (pos : Int) : (b.seekposIn pos).1.Sound := by
  unfold XmsgPointers.seekposIn
  split
  · exact hs
  · rename_i hpos
    exact ⟨by dsimp only; omega, by dsimp only; omega, le_refl _, hs.pptr_le, hs.epptr_eq, hs.bufsize⟩

variable {n : Nat} {pos : Int} {written : Nat → Option UInt8}

theorem Sound.seekposOut (hs : b.Sound) (hfit : pos ≤ INT_MAX) : (b.seekposOut pos).1.Sound := by
  unfold XmsgPointers.seekposOut
  split
  · exact hs
  · rename_i hpos
    have hint : to_int pos = pos := to_int_eq (by omega) hfit
    rw [hint]
    refine ⟨?_, min_le_right _ _, le_refl _, ?_, hs.epptr_eq, hs.bufsize⟩
    · exact le_min hs.zero_le (by omega)
    · dsimp only
      omega

theorem Sound.showmanyc (hs : b.Sound) : b.showmanyc.1.Sound := by
  unfold XmsgPointers.showmanyc
  split
  · exact hs
  · exact ⟨hs.zero_le, le_trans hs.gptr_le hs.egptr_le, le_refl _, hs.pptr_le, hs.epptr_eq, hs.bufsize⟩

theorem showmanyc_mem (b : XmsgPointers) : b.showmanyc.1.mem = b.mem := by
  unfold showmanyc
  split <;> rfl

theorem showmanyc_pptr (b : XmsgPointers) : b.showmanyc.1.pptr = b.pptr := by
  unfold showmanyc
  split <;> rfl

/-- What `in_avail` says is in the get area. -/
theorem Sound.in_avail (hs : b.Sound) : b.in_avail.1.Sound ∧ b.in_avail.1.mem = b.mem ∧
    b.in_avail.1.pptr = b.pptr ∧ b.in_avail.1.gptr = b.gptr ∧
    b.gptr + b.in_avail.2 ≤ b.in_avail.1.egptr := by
  unfold XmsgPointers.in_avail
  have hg := hs.gptr_le
  split
  · refine ⟨hs, rfl, rfl, rfl, ?_⟩
    dsimp only
    omega
  · refine ⟨hs.showmanyc, showmanyc_mem b, ?_⟩
    unfold XmsgPointers.showmanyc
    split
    · exact ⟨rfl, rfl, by dsimp only; omega⟩
    · exact ⟨rfl, rfl, by dsimp only; omega⟩

theorem Sound.readsome (hs : b.Sound) (n : Nat) :
    ∃ bs b', b.readsome n = some (bs, b') ∧ b'.Sound ∧ b'.mem = b.mem ∧ b'.pptr = b.pptr := by
  obtain ⟨hsound, hmem, hpptr, hgptr, havail⟩ := hs.in_avail
  unfold XmsgPointers.readsome
  generalize b.in_avail = r at *
  obtain ⟨c, avail⟩ := r
  dsimp only at *
  have h1 := hsound.egptr_le
  have h2 := hsound.pptr_le
  have h3 := hsound.epptr_eq
  have h4 := hsound.zero_le
  split
  · exact ⟨[], c, rfl, hsound, hmem, hpptr⟩
  · rw [if_pos ⟨h4, by omega⟩]
    refine ⟨_, _, rfl, ⟨?_, ?_, h1, h2, h3, hsound.bufsize⟩, hmem, hpptr⟩
    · dsimp only
      omega
    · dsimp only
      omega

theorem make_sound (h : Heap) (buflen : Nat) : (make h buflen).Sound := by
  have hlen : (make h buflen).mem.length = buflen := by simp [make]
  refine ⟨le_refl _, le_refl _, le_refl _, ?_, ?_, ?_⟩
  · exact Int.natCast_nonneg buflen
  · rw [hlen]
    rfl
  · rw [hlen]
    exact Nat.le_refl _

/-- A call that fits is defined, and keeps the order of the positions. -/
theorem Sound.apply (hs : b.Sound) (op : Op) (hint : b.pptr ≤ INT_MAX) (hfit : b.Fits op) :
    ∃ b', b.apply h op = some b' ∧ b'.Sound ∧ b'.pptr ≤ INT_MAX := by
  cases op with
  | write bs =>
    obtain ⟨b', n, hb', hn, hput⟩ := hs.sputn (h := h) bs hfit
    refine ⟨b', by rw [XmsgPointers.apply, hb']; rfl, hput.sound, ?_⟩
    rw [hput.pptr, List.length_take]
    exact le_trans (by omega) hfit
  | seekp pos =>
    refine ⟨_, rfl, hs.seekposOut hfit, ?_⟩
    unfold XmsgPointers.seekposOut
    split
    · exact hint
    · dsimp only
      rw [to_int_eq (by omega) hfit]
      exact hfit
  | seekg pos =>
    refine ⟨_, rfl, hs.seekposIn pos, ?_⟩
    unfold XmsgPointers.seekposIn
    split <;> exact hint
  | readsome n =>
    obtain ⟨bs, b', hb', hsound, -, hpptr⟩ := hs.readsome n
    exact ⟨b', by rw [XmsgPointers.apply, hb']; rfl, hsound, hpptr ▸ hint⟩
  | showmanyc => exact ⟨_, rfl, hs.showmanyc, showmanyc_pptr b ▸ hint⟩

/-- The memory has what was written last. -/
def Holds (b : XmsgPointers) (written : Nat → Option UInt8) : Prop :=
  ∀ i v, written i = some v → b.mem[i]? = some v

theorem Holds.apply (hs : b.Sound) (hw : Holds b written) {op : Op} (hfit : b.Fits op)
    (hop : b.apply h op = some b') : Holds b' (wrote written b b' op) := by
  cases op with
  | write bs =>
    obtain ⟨b₁, n, hb₁, hn, hput⟩ := hs.sputn (h := h) bs hfit
    obtain rfl : b₁ = b' := by
      rw [XmsgPointers.apply, hb₁] at hop
      exact Option.some.inj hop
    have h0 := hs.pptr_nonneg
    have hpptr := hput.pptr
    rw [List.length_take, Nat.min_eq_left hn] at hpptr
    intro i v hv
    unfold wrote at hv
    dsimp only at hv
    split at hv
    · have hbytes := hput.bytes (i - b.pptr.toNat) (by rw [List.length_take]; omega)
      rw [show b.pptr.toNat + (i - b.pptr.toNat) = i by omega, List.getElem?_take_of_lt (by omega)] at hbytes
      rw [hbytes, hv]
    · have hi := hw i v hv
      have hlt := (List.getElem?_eq_some_iff.mp hi).1
      rw [hput.others i hlt (by rw [List.length_take]; omega), hi]
  | seekp pos =>
    obtain rfl : (b.seekposOut pos).1 = b' := Option.some.inj hop
    intro i v hv
    have hmem : (b.seekposOut pos).1.mem = b.mem := by
      unfold XmsgPointers.seekposOut
      split <;> rfl
    rw [hmem]
    exact hw i v hv
  | seekg pos =>
    obtain rfl : (b.seekposIn pos).1 = b' := Option.some.inj hop
    intro i v hv
    have hmem : (b.seekposIn pos).1.mem = b.mem := by
      unfold XmsgPointers.seekposIn
      split <;> rfl
    rw [hmem]
    exact hw i v hv
  | readsome n =>
    obtain ⟨bs, b₁, hb₁, -, hmem, -⟩ := hs.readsome n
    obtain rfl : b₁ = b' := by
      rw [XmsgPointers.apply, hb₁] at hop
      exact Option.some.inj hop
    intro i v hv
    rw [hmem]
    exact hw i v hv
  | showmanyc =>
    obtain rfl : b.showmanyc.1 = b' := Option.some.inj hop
    intro i v hv
    rw [showmanyc_mem]
    exact hw i v hv

theorem Run.sound {buflen : Nat} (hr : Run h buflen b written) : b.Sound ∧ b.pptr ≤ INT_MAX ∧ Holds b written := by
  induction hr with
  | make => exact ⟨make_sound h buflen, show (0 : Int) ≤ INT_MAX by decide, fun i v hv => by cases hv⟩
  | call op _ hfit hop ih =>
    obtain ⟨hs, hint, hw⟩ := ih
    obtain ⟨b₁, hb₁, hsound, hint₁⟩ := hs.apply op hint hfit
    obtain rfl := Option.some.inj (hb₁.symm.trans hop)
    exact ⟨hsound, hint₁, hw.apply hs hfit hop⟩

theorem readsome_nil (n : Nat) (hnone : b.in_avail.2.toNat = 0) : b.readsome n = some ([], b.in_avail.1) := by
  unfold XmsgPointers.readsome
  generalize b.in_avail = r at *
  obtain ⟨c, avail⟩ := r
  dsimp only at *
  rw [if_pos (by rw [hnone, Nat.min_zero])]

/-- What is read after a seek: all bytes up to the put position. -/
theorem Sound.readsome_seek (hs : b.Sound) {k : Int} (h0 : 0 ≤ k) (hk : k ≤ b.pptr) (n : Nat) :
    ∃ b', (b.seekposIn k).1.readsome n = some (((b.mem.take b.pptr.toNat).drop k.toNat).take n, b') := by
  have hp := hs.pptr_nonneg
  have hpe := hs.pptr_le
  have he := hs.epptr_eq
  have hseek : b.seekposIn k = ({ b with gptr := k, egptr := b.pptr }, true) := if_neg (by omega)
  rw [hseek]
  by_cases hlt : k < b.pptr
  · have havail : XmsgPointers.in_avail { b with gptr := k, egptr := b.pptr } =
        ({ b with gptr := k, egptr := b.pptr }, b.pptr - k) := if_pos (by dsimp only; omega)
    unfold XmsgPointers.readsome
    rw [havail]
    dsimp only
    split
    · rename_i hm
      obtain rfl : n = 0 := by omega
      exact ⟨_, by rw [List.take_zero]⟩
    · rw [if_pos ⟨h0, by omega⟩]
      refine ⟨_, congrArg (fun l => some (l, _)) ?_⟩
      rw [List.drop_take, List.take_take]
      congr 1
      omega
  · -- nothing is left, whether or not the frame ends here
    rw [List.drop_eq_nil_of_le (by rw [List.length_take]; omega), List.take_nil]
    refine ⟨_, readsome_nil n ?_⟩
    unfold XmsgPointers.in_avail XmsgPointers.showmanyc
    dsimp only
    rw [if_neg (by omega)]
    split
    · rfl
    · dsimp only
      omega

/-! ## The header -/

theorem Sound.len_eq_pptr (hs : b.Sound) (hint : b.pptr ≤ INT_MAX) : (b.len_ : Int) = b.pptr := by
  have h0 := hs.pptr_nonneg
  unfold INT_MAX at hint
  unfold len_
  rw [Int.emod_eq_of_lt h0 (by omega), Int.toNat_of_nonneg h0]

/-- A field that lies before the put position is read from the bytes there. -/
theorem Sound.field {α : Type} (hs : b.Sound) (hint : b.pptr ≤ INT_MAX) {f : List UInt8 → α}
    (hf : ∀ bs cs, n ≤ bs.length → f (bs ++ cs) = f bs) :
    (if n ≤ b.len_ then some (f b.mem) else none) =
      if (n : Int) ≤ b.pptr then some (f (b.mem.take b.pptr.toNat)) else none := by
  have hlen := hs.len_eq_pptr hint
  have hpe := hs.pptr_le
  have he := hs.epptr_eq
  by_cases hn : n ≤ b.len_
  · rw [if_pos hn, if_pos (by omega)]
    conv_lhs => rw [← List.take_append_drop b.pptr.toNat b.mem]
    rw [hf _ _ (by rw [List.length_take]; omega)]
  · rw [if_neg hn, if_neg (by omega)]

/-- A buffer of any size after any writes, seeks and reads, in which the put position fits an `int`. The get
position is not past the put position, and that is in the memory. Each further call is defined. A growth keeps the
bytes before the put position and both positions, of which the byte that is put then moves the second. A seek that
fails changes nothing. What is read after a seek are the bytes that were written, up to the put position. A field of
the header is there when all its bytes lie before the put position. -/
theorem the_positions_stay_in_the_area {buflen : Nat} {written : Nat → Option UInt8} (hr : Run h buflen b written) :
    (0 ≤ b.gptr ∧ b.gptr ≤ b.pptr ∧ b.pptr ≤ b.mem.length) ∧
    (∀ op, b.Fits op → ∃ b', b.apply h op = some b') ∧
    (∀ ch, ∃ b' ok, b.overflow h ch = some (b', ok) ∧ (∀ i < b.pptr.toNat, b'.mem[i]? = b.mem[i]?) ∧
      b'.gptr = b.gptr ∧ b'.pptr = b.pptr + if ok then 1 else 0) ∧
    (∀ pos, ((b.seekposIn pos).2 = false → (b.seekposIn pos).1 = b) ∧
      ((b.seekposOut pos).2 = false → (b.seekposOut pos).1 = b)) ∧
    (∀ (k n : Nat), k ≤ b.pptr → ∃ bs b', (b.seekposIn k).2 = true ∧
      (b.seekposIn k).1.readsome n = some (bs, b') ∧ bs.length = min n (b.pptr.toNat - k) ∧
      ∀ i v, k ≤ i → i < k + bs.length → written i = some v → bs[i - k]? = some v) ∧
    (b.eid = (if 16 ≤ b.pptr then some (eidAt (b.mem.take b.pptr.toNat)) else none) ∧
      b.len = (if 20 ≤ b.pptr then some (lenAt (b.mem.take b.pptr.toNat)) else none) ∧
      b.version = (if 22 ≤ b.pptr then some (versionAt (b.mem.take b.pptr.toNat)) else none) ∧
      b.type = (if 24 ≤ b.pptr then some (typeAt (b.mem.take b.pptr.toNat)) else none)) := by
  obtain ⟨hs, hint, hw⟩ := hr.sound
  have hpe := hs.pptr_le
  have he := hs.epptr_eq
  refine ⟨⟨hs.zero_le, le_trans hs.gptr_le hs.egptr_le, he ▸ hpe⟩, ?_, ?_, ?_, ?_, ?_⟩
  · intro op hfit
    obtain ⟨b', hb', -⟩ := hs.apply op hint hfit
    exact ⟨b', hb'⟩
  · intro ch
    obtain ⟨b', ok, hb', hput⟩ := hs.overflow (h := h) ch hint
    refine ⟨b', ok, hb', fun i hi => hput.others i (by omega) (.inl hi), hput.gptr, ?_⟩
    rw [hput.pptr]
    cases ok <;> rfl
  · intro pos
    constructor
    · unfold XmsgPointers.seekposIn
      split <;> simp
    · unfold XmsgPointers.seekposOut
      split <;> simp
  · intro k n hk
    obtain ⟨b', hb'⟩ := hs.readsome_seek (Int.natCast_nonneg k) hk n
    have hseek : (b.seekposIn k).2 = true := by
      unfold XmsgPointers.seekposIn
      rw [if_neg (by omega)]
    refine ⟨_, b', hseek, hb', ?_, ?_⟩
    · simp only [List.length_take, List.length_drop, Int.toNat_natCast]
      omega
    · intro i v hki hi hv
      simp only [List.length_take, List.length_drop, Int.toNat_natCast] at hi
      rw [Int.toNat_natCast, List.getElem?_take_of_lt (by omega), List.getElem?_drop,
        List.getElem?_take_of_lt (by omega), show k + (i - k) = i by omega]
      exact hw i v hv
  · exact ⟨hs.field hint fun _ cs hn => eidAt_append cs hn, hs.field hint fun _ cs hn => lenAt_append cs hn,
      hs.field hint fun _ cs hn => versionAt_append cs hn, hs.field hint fun _ cs hn => typeAt_append cs hn⟩

/-- Two bytes in a buffer of four. -/
def twoBytes : XmsgPointers := ⟨[7, 8, 0, 0], 4, 2, 4, 0, 0⟩

theorem two_bytes_are_read_back :
    twoBytes.gptr ≤ twoBytes.pptr ∧ twoBytes.pptr ≤ twoBytes.mem.length ∧
      ∃ bs b', (twoBytes.seekposIn 1).1.readsome 9 = some (bs, b') ∧ bs.length = 1 ∧ bs[0]? = some 8 := by
  have hrun : Run ⟨fun _ => true, fun _ => 0⟩ 4 twoBytes _ :=
    .call (.write [7, 8]) .make (by decide) (by decide)
  obtain ⟨⟨-, hg, hp⟩, -, -, -, hread, -⟩ := the_positions_stay_in_the_area hrun
  obtain ⟨bs, b', -, hbs, hlen, hwritten⟩ := hread 1 9 (by decide)
  exact ⟨hg, hp, bs, b', hbs, hlen, hwritten 1 8 (by decide) (by rw [hlen]; decide) (by decide)⟩

/-- All memory is granted, and new memory holds zeroes. -/
def zeroHeap : Heap := ⟨fun _ => true, fun _ => 0⟩

/-- A buffer after `n` zeroes. -/
structure Zeroes (n : Nat) (b : XmsgPointers) : Prop where
  sound : b.Sound
  mem : b.mem = List.replicate b.mem.length 0
  pptr : b.pptr = n
  bufsize : b.bufsize = b.mem.length
  pages : BUFINC ∣ b.mem.length
  pos : 0 < b.mem.length

theorem leNat_replicate (n : Nat) : leNat (List.replicate n 0) = 0 := by
  induction n with
  | zero => rfl
  | succ n ih => rw [List.replicate_succ, leNat, ih]; rfl

/-- The length in a header of zeroes is not that of the frame. -/
theorem Zeroes.endsAt (hz : Zeroes n b) (hn : 0 < n) : b.endsAt b.pptr = false := by
  unfold XmsgPointers.endsAt XmsgPointers.len
  by_cases hlen : 16 + 4 ≤ b.len_
  · rw [if_pos hlen, hz.mem, hz.pptr]
    simp only [lenAt, List.drop_replicate, List.take_replicate, leNat_replicate, beq_eq_false_iff_ne]
    exact ne_of_lt (Int.natCast_pos.mpr hn)
  · rw [if_neg hlen]

theorem Zeroes.store (hz : Zeroes n b) (hlt : b.pptr < b.epptr) :
    ∃ b', b.store 0 = some b' ∧ Zeroes (n + 1) b' ∧ b'.mem.length = b.mem.length := by
  obtain ⟨b', hb', hsound, hmem, hpptr, -, hsize⟩ := hz.sound.store 0 hlt
  have hset : b'.mem = b.mem := by rw [hmem, hz.mem, List.set_replicate_self]
  refine ⟨b', hb', ⟨hsound, ?_, ?_, ?_, ?_, ?_⟩, by rw [hset]⟩
  · rw [hset]
    exact hz.mem
  · rw [hpptr, hz.pptr]
    rfl
  · rw [hset, hsize]
    exact hz.bufsize
  · rw [hset]
    exact hz.pages
  · rw [hset]
    exact hz.pos

theorem Zeroes.grow (hz : Zeroes n b) (hint : b.pptr ≤ INT_MAX) :
    Zeroes n (b.grow zeroHeap) ∧ (b.grow zeroHeap).mem.length = b.mem.length + BUFINC := by
  obtain ⟨hsound, hpptr, -, -, -⟩ := hz.sound.grow (h := zeroHeap) hint
  have hlen : (b.grow zeroHeap).mem.length = b.mem.length + BUFINC := by
    simp only [XmsgPointers.grow, hz.bufsize, List.length_append, List.length_map, List.length_range]
    omega
  refine ⟨⟨hsound, ?_, hpptr.trans hz.pptr, ?_, ?_, ?_⟩, hlen⟩
  · rw [hlen, List.replicate_add, ← hz.mem]
    simp only [XmsgPointers.grow, zeroHeap, hz.bufsize, Nat.add_sub_cancel_left, List.map_const', List.length_range]
  · rw [hlen, ← hz.bufsize]
    rfl
  · rw [hlen]
    exact Nat.dvd_add hz.pages (Nat.dvd_refl BUFINC)
  · rw [hlen]
    exact Nat.add_pos_left hz.pos BUFINC

/-- The area grows when it is full, by the least amount. -/
theorem Zeroes.sputc (hz : Zeroes n b) (hint : (n : Int) ≤ INT_MAX) (hroom : b.mem.length < max n 1 + BUFINC) :
    ∃ b', b.sputc zeroHeap 0 = some (b', true) ∧ Zeroes (n + 1) b' ∧ b'.mem.length < max (n + 1) 1 + BUFINC := by
  have he := hz.sound.epptr_eq
  have hp := hz.pptr
  unfold XmsgPointers.sputc
  split
  · rename_i hlt
    obtain ⟨b', hb', hz', hlen⟩ := hz.store hlt
    exact ⟨b', by rw [hb']; rfl, hz', by omega⟩
  · rename_i hfull
    have hpos := hz.pos
    have hle := hz.sound.pptr_le
    obtain ⟨hg, hglen⟩ := hz.grow (hp ▸ hint)
    have hge := hg.sound.epptr_eq
    have hgp := hg.pptr
    obtain ⟨b', hb', hz', hlen⟩ := hg.store (by rw [BUFINC] at hglen; omega)
    refine ⟨b', ?_, hz', by omega⟩
    unfold XmsgPointers.overflow
    rw [hz.endsAt (by omega), if_neg (by decide), if_pos (show zeroHeap.grants _ = true from rfl), hb']
    rfl

theorem sputn_append {bs cs : List UInt8} (hb : b.sputn h bs = some (b', bs.length)) (hnone : b'.sputn h cs = none) :
    b.sputn h (bs ++ cs) = none := by
  induction bs generalizing b with
  | nil =>
    cases hb
    exact hnone
  | cons ch bs ih =>
    rw [List.cons_append]
    unfold sputn at hb ⊢
    split at hb
    · rfl
    · cases hb
    · rename_i c hc
      obtain ⟨⟨d, n⟩, hd, heq⟩ := Option.map_eq_some_iff.mp hb
      cases heq
      rw [ih hd]
      rfl

theorem Zeroes.sputn (k : Nat) (hz : Zeroes n b) (hint : (n : Int) + k ≤ INT_MAX + 1)
    (hroom : b.mem.length < max n 1 + BUFINC) :
    ∃ b', b.sputn zeroHeap (List.replicate k 0) = some (b', k) ∧ Zeroes (n + k) b' ∧
      b'.mem.length < max (n + k) 1 + BUFINC := by
  induction k generalizing b n with
  | zero => exact ⟨b, rfl, hz, hroom⟩
  | succ k ih =>
    obtain ⟨b₁, hb₁, hz₁, hroom₁⟩ := hz.sputc (by omega) hroom
    obtain ⟨b₂, hb₂, hz₂, hroom₂⟩ := ih hz₁ (by omega) hroom₁
    rw [show n + 1 + k = n + (k + 1) by omega] at hz₂ hroom₂
    refine ⟨b₂, ?_, hz₂, hroom₂⟩
    rw [List.replicate_succ, XmsgPointers.sputn, hb₁]
    dsimp only
    rw [hb₂]
    rfl

theorem make_zeroes : Zeroes 0 (make zeroHeap BUFINC) := by
  have hlen : (make zeroHeap BUFINC).mem.length = BUFINC := by simp [make]
  refine ⟨make_sound _ _, ?_, rfl, hlen.symm, by rw [hlen], by rw [hlen]; decide⟩
  rw [hlen]
  simp only [make, zeroHeap, List.map_const', List.length_range]

/-- In an area of 2 GiB that is full, `overflow` hands a put position to `pbump` that is no `int`: the byte is
stored before the memory. -/
theorem Zeroes.sputc_full (hz : Zeroes (2 ^ 31) b) (hroom : b.mem.length < max (2 ^ 31) 1 + BUFINC) :
    b.sputc zeroHeap 0 = none := by
  have he := hz.sound.epptr_eq
  have hle := hz.sound.pptr_le
  have hp : b.pptr = 2 ^ 31 := by rw [hz.pptr, Int.natCast_pow]; rfl
  obtain ⟨pages, hpages⟩ := hz.pages
  rw [BUFINC] at hroom hpages
  unfold XmsgPointers.sputc XmsgPointers.overflow
  rw [if_neg (by omega), hz.endsAt (Nat.two_pow_pos 31), if_neg Bool.false_ne_true,
    if_pos (show zeroHeap.grants _ = true from rfl)]
  have hint : (b.grow zeroHeap).pptr = -2 ^ 31 := by
    show to_int b.pptr = -2 ^ 31
    rw [hp]
    decide
  unfold XmsgPointers.store
  rw [hint, if_neg (by omega)]
  rfl

theorem a_long_write_leaves_the_memory :
    (make zeroHeap BUFINC).sputn zeroHeap (List.replicate (2 ^ 31) 0 ++ [0]) = none := by
  have hint : ((0 : Nat) : Int) + (2 ^ 31 : Nat) ≤ INT_MAX + 1 := by decide
  have hlen : (make zeroHeap BUFINC).mem.length < max 0 1 + BUFINC := by simp [make]
  generalize hk : 2 ^ 31 = k at hint ⊢
  obtain ⟨b, hb, hz, hroom⟩ := make_zeroes.sputn k hint hlen
  refine sputn_append (by rw [List.length_replicate]; exact hb) ?_
  rw [Nat.zero_add] at hz hroom
  subst hk
  rw [sputn, hz.sputc_full hroom]

/-! ## The buffer that carries the order of its positions -/

/-- The pointers of a buffer. What was never written holds zeroes. -/
def ofBuf (x : Xmsgbuf) : XmsgPointers where
  mem := x.data ++ List.replicate (x.bufsize - x.data.length) 0
  bufsize := x.bufsize
  pptr := x.pptr
  epptr := x.bufsize
  gptr := x.gptr
  egptr := x.egptr

theorem ofBuf_sound (x : Xmsgbuf) : (ofBuf x).Sound := by
  have h1 := x.gptr_le
  have h2 := x.egptr_le
  have h3 := x.pptr_le
  have h4 := x.data_le
  have hlen : (ofBuf x).mem.length = x.bufsize := by
    simp only [ofBuf, List.length_append, List.length_replicate]
    omega
  refine ⟨?_, ?_, ?_, ?_, ?_, ?_⟩
  · exact Int.natCast_nonneg x.gptr
  · exact Int.ofNat_le.mpr h1
  · exact Int.ofNat_le.mpr h2
  · exact Int.ofNat_le.mpr (le_trans h3 h4)
  · rw [hlen]
    rfl
  · rw [hlen]
    exact Nat.le_refl _

theorem ofBuf_len (x : Xmsgbuf) (hint : (x.pptr : Int) ≤ INT_MAX) : (ofBuf x).len = x.len := by
  have hlen : (ofBuf x).len_ = x.pptr := Int.ofNat.inj ((ofBuf_sound x).len_eq_pptr hint)
  unfold XmsgPointers.len Xmsgbuf.len
  rw [hlen]
  split
  · rename_i hle
    exact congrArg some (lenAt_append _ (le_trans hle x.pptr_le))
  · rfl

theorem ofBuf_endsAt (x : Xmsgbuf) (hint : (x.pptr : Int) ≤ INT_MAX) (pos : Nat) :
    (ofBuf x).endsAt pos = x.endsAt pos := by
  unfold XmsgPointers.endsAt Xmsgbuf.endsAt
  rw [ofBuf_len x hint]
  cases x.len with
  | none => rfl
  | some l =>
    dsimp only
    rw [Bool.eq_iff_iff, beq_iff_eq, beq_iff_eq]
    exact Int.ofNat_inj

/-- A byte after the part that was written is one of the zeroes. -/
theorem set_append_replicate {data : List UInt8} {p size : Nat} (ch : UInt8) (hp : p ≤ data.length) (hlt : p < size)
    (hsize : data.length ≤ size) :
    (data ++ List.replicate (size - data.length) 0).set p ch = (data.take p ++ ch :: data.drop (p + 1)) ++
      List.replicate (size - (data.take p ++ ch :: data.drop (p + 1)).length) 0 := by
  rcases Nat.lt_or_eq_of_le hp with hlt' | rfl
  · rw [List.set_append_left _ _ hlt', List.set_eq_take_append_cons_drop, if_pos hlt']
    congr 2
    simp only [List.length_append, List.length_take, List.length_cons, List.length_drop]
    omega
  · obtain ⟨k, hk⟩ : ∃ k, size - data.length = k + 1 := ⟨size - data.length - 1, by omega⟩
    rw [List.set_append_right _ _ (Nat.le_refl _), Nat.sub_self, hk, List.replicate_succ, List.set_cons_zero,
      List.take_length, List.drop_eq_nil_of_le (Nat.le_succ _), List.append_assoc, List.length_append,
      List.length_singleton, show size - (data.length + 1) = k by omega]
    rfl

theorem ofBuf_store (x : Xmsgbuf) (ch : UInt8) (hlt : x.pptr < x.bufsize) :
    (ofBuf x).store ch = some (ofBuf (x.store ch hlt)) := by
  have hle := (ofBuf_sound x).epptr_eq
  unfold XmsgPointers.store
  rw [if_pos ⟨Int.natCast_nonneg x.pptr, hle ▸ Int.ofNat_lt.mpr hlt⟩]
  simp only [ofBuf, Xmsgbuf.store, Int.toNat_natCast, set_append_replicate ch x.pptr_le hlt x.data_le]
  rfl

theorem ofBuf_grow (x : Xmsgbuf) (hint : (x.pptr : Int) ≤ INT_MAX) : (ofBuf x).grow zeroHeap = ofBuf x.grow := by
  have h1 := le_trans x.gptr_le x.egptr_le
  have h4 := x.data_le
  have hlen : (ofBuf x).mem.length = x.bufsize := Int.ofNat.inj (ofBuf_sound x).epptr_eq.symm
  unfold XmsgPointers.grow
  rw [hlen]
  have hmem : (ofBuf x).mem ++ List.replicate BUFINC 0 = (ofBuf x.grow).mem := by
    show x.data ++ List.replicate (x.bufsize - x.data.length) 0 ++ List.replicate BUFINC 0 =
      x.data ++ List.replicate (x.bufsize + BUFINC - x.data.length) 0
    rw [List.append_assoc, ← List.replicate_add, Nat.sub_add_comm h4]
  have hmin : min (x.pptr : Int) x.gptr = x.gptr := min_eq_right (Int.ofNat_le.mpr h1)
  simp only [zeroHeap, ofBuf, Nat.add_sub_cancel_left, List.map_const', List.length_range] at hmem ⊢
  rw [hmem, to_int_eq (Int.natCast_nonneg _) hint, hmin]
  rfl

/-- While the put position fits an `int`, a byte is put in the same way. -/
theorem ofBuf_sputc (x : Xmsgbuf) (ch : UInt8) (hint : (x.pptr : Int) ≤ INT_MAX) :
    (ofBuf x).sputc zeroHeap ch = match x.sputc ch with
      | some y => some (ofBuf y, true)
      | none => some (ofBuf x, false) := by
  unfold XmsgPointers.sputc Xmsgbuf.sputc
  by_cases hlt : x.pptr < x.bufsize
  · rw [if_pos (show (ofBuf x).pptr < (ofBuf x).epptr from Int.ofNat_lt.mpr hlt), dif_pos hlt, ofBuf_store x ch hlt]
    rfl
  · rw [if_neg (show ¬ (ofBuf x).pptr < (ofBuf x).epptr from fun h => hlt (Int.ofNat_lt.mp h)), dif_neg hlt]
    unfold XmsgPointers.overflow
    rw [show (ofBuf x).pptr = (x.pptr : Int) from rfl, ofBuf_endsAt x hint]
    cases x.endsAt x.pptr with
    | true => rfl
    | false =>
      rw [if_neg Bool.false_ne_true, if_neg Bool.false_ne_true, if_pos (show zeroHeap.grants _ = true from rfl),
        ofBuf_grow x hint, ofBuf_store x.grow ch x.pptr_lt_grow]
      rfl

theorem ofBuf_sputn (bs : List UInt8) (x : Xmsgbuf) (hint : (x.pptr : Int) + bs.length ≤ INT_MAX) :
    ∃ n, (ofBuf x).sputn zeroHeap bs = some (ofBuf (x.sputn bs).1, n) := by
  induction bs generalizing x with
  | nil => exact ⟨0, rfl⟩
  | cons ch bs ih =>
    rw [List.length_cons] at hint
    have hfit : (ofBuf x).pptr ≤ INT_MAX := le_trans (by dsimp only [ofBuf]; omega) hint
    have hsputc := ofBuf_sputc x ch hfit
    obtain ⟨b, ok, hb, hput⟩ := (ofBuf_sound x).sputc (h := zeroHeap) ch hfit
    unfold XmsgPointers.sputn Xmsgbuf.sputn
    rw [hsputc]
    cases hy : x.sputc ch with
    | none => exact ⟨0, rfl⟩
    | some y =>
      rw [hsputc, hy] at hb
      obtain ⟨rfl, rfl⟩ := Prod.mk.inj (Option.some.inj hb)
      have hpptr : (y.pptr : Int) = x.pptr + 1 := hput.pptr
      obtain ⟨n, hn⟩ := ih y (by omega)
      exact ⟨n + 1, by dsimp only; rw [hn]; rfl⟩

theorem ofBuf_showmanyc (x : Xmsgbuf) (hint : (x.pptr : Int) ≤ INT_MAX) :
    (ofBuf x).showmanyc.1 = ofBuf x.showmanyc.1 ∧
      (ofBuf x).showmanyc.2.toNat = x.showmanyc.2.getD 0 := by
  have h1 := le_trans x.gptr_le x.egptr_le
  unfold XmsgPointers.showmanyc Xmsgbuf.showmanyc
  rw [show (ofBuf x).gptr = (x.gptr : Int) from rfl, ofBuf_endsAt x hint]
  by_cases hend : x.endsAt x.gptr = true
  · rw [if_pos (.inl hend), if_pos hend]
    exact ⟨rfl, rfl⟩
  · have hle : ¬ (ofBuf x).pptr - x.gptr < 0 := by
      dsimp only [ofBuf]
      omega
    rw [if_neg (not_or.mpr ⟨hend, hle⟩), if_neg hend]
    refine ⟨rfl, ?_⟩
    dsimp only [ofBuf, Option.getD]
    omega

/-- A call on the buffer that carries the order of its positions. -/
def follow (x : Xmsgbuf) : Op → Xmsgbuf
  | .write bs => (x.sputn bs).1
  | .seekp pos => (pos.toNat?.bind x.seekposOut).getD x
  | .seekg pos => (pos.toNat?.bind x.seekposIn).getD x
  | .readsome n =>
    let y := x.in_avail.1
    { y with
      gptr := y.gptr + min n (y.egptr - y.gptr)
      gptr_le := by have := y.gptr_le; omega }
  | .showmanyc => x.showmanyc.1

theorem ofBuf_seekg (x : Xmsgbuf) (pos : Int) : ((ofBuf x).seekposIn pos).1 = ofBuf (follow x (.seekg pos)) := by
  unfold XmsgPointers.seekposIn follow
  cases pos with
  | negSucc k =>
    rw [if_pos (.inl (Int.negSucc_lt_zero k))]
    rfl
  | ofNat k =>
    by_cases hle : k ≤ x.pptr
    · rw [if_neg (by simp only [ofBuf, Int.ofNat_eq_natCast]; omega)]
      simp [Int.toNat?, Xmsgbuf.seekposIn, hle, ofBuf]
    · rw [if_pos (by simp only [ofBuf, Int.ofNat_eq_natCast]; omega)]
      simp [Int.toNat?, Xmsgbuf.seekposIn, hle]

theorem ofBuf_seekp (x : Xmsgbuf) (hint : pos ≤ INT_MAX) :
    ((ofBuf x).seekposOut pos).1 = ofBuf (follow x (.seekp pos)) := by
  unfold XmsgPointers.seekposOut follow
  cases pos with
  | negSucc k =>
    rw [if_pos (.inl (Int.negSucc_lt_zero k))]
    rfl
  | ofNat k =>
    by_cases hle : k ≤ x.bufsize
    · rw [if_neg (by simp only [ofBuf, Int.ofNat_eq_natCast]; omega), to_int_eq (x := Int.ofNat k) (Int.natCast_nonneg k) hint]
      have hmem : x.data ++ List.replicate (x.bufsize - x.data.length) 0 =
          x.data ++ List.replicate (k - x.data.length) 0 ++
            List.replicate (x.bufsize - (x.data ++ List.replicate (k - x.data.length) 0).length) 0 := by
        have hsize := x.data_le
        rw [List.append_assoc, ← List.replicate_add, List.length_append, List.length_replicate,
          show k - x.data.length + (x.bufsize - (x.data.length + (k - x.data.length))) = x.bufsize - x.data.length
            by omega]
      have hmin : min (x.gptr : Int) k = (min x.gptr k : Nat) := by omega
      simp only [Int.toNat?, Option.bind, Option.getD, Xmsgbuf.seekposOut, dif_pos hle, ofBuf, ← hmem, hmin,
        Int.ofNat_eq_natCast]
    · rw [if_pos (by simp only [ofBuf, Int.ofNat_eq_natCast]; omega)]
      simp [Int.toNat?, Xmsgbuf.seekposOut, hle]

theorem ofBuf_in_avail (x : Xmsgbuf) (hint : (x.pptr : Int) ≤ INT_MAX) :
    (ofBuf x).in_avail.1 = ofBuf x.in_avail.1 ∧
      (ofBuf x).in_avail.2.toNat = x.in_avail.1.egptr - x.in_avail.1.gptr := by
  have hle := x.gptr_le
  unfold XmsgPointers.in_avail Xmsgbuf.in_avail
  by_cases hlt : x.gptr < x.egptr
  · rw [if_pos (by dsimp only [ofBuf]; omega), if_pos hlt]
    exact ⟨rfl, by dsimp only [ofBuf]; omega⟩
  · rw [if_neg (by dsimp only [ofBuf]; omega), if_neg hlt, (ofBuf_showmanyc x hint).1, (ofBuf_showmanyc x hint).2]
    refine ⟨rfl, ?_⟩
    unfold Xmsgbuf.showmanyc
    split <;> dsimp only [Option.getD]
    omega

theorem ofBuf_apply (x : Xmsgbuf) (op : Op) (hint : (x.pptr : Int) ≤ INT_MAX) (hfit : (ofBuf x).Fits op) :
    (ofBuf x).apply zeroHeap op = some (ofBuf (follow x op)) := by
  cases op with
  | write bs =>
    obtain ⟨n, hn⟩ := ofBuf_sputn bs x hfit
    rw [XmsgPointers.apply, hn]
    rfl
  | seekp pos => exact congrArg some (ofBuf_seekp x hfit)
  | seekg pos => exact congrArg some (ofBuf_seekg x pos)
  | readsome n =>
    obtain ⟨hfst, hsnd⟩ := ofBuf_in_avail x hint
    obtain ⟨bs, b, hb, -, -, -⟩ := (ofBuf_sound x).readsome n
    rw [XmsgPointers.apply, hb]
    unfold XmsgPointers.readsome at hb
    dsimp only at hb
    rw [hfst, hsnd] at hb
    split at hb
    · rename_i hzero
      cases hb
      simp [follow, hzero]
    · split at hb
      · cases hb
        simp [follow, ofBuf]
      · cases hb
  | showmanyc => exact congrArg some (ofBuf_showmanyc x hint).1

/-- Each call is made while the put position fits an `int`. -/
def Bounded (x : Xmsgbuf) : List Op → Prop
  | [] => True
  | op :: ops => (x.pptr : Int) ≤ INT_MAX ∧ (ofBuf x).Fits op ∧ Bounded (follow x op) ops

/-- While the put position fits an `int`, the pointers do through all calls what the buffer does that
carries the order of its positions. -/
theorem the_pointers_follow_the_buffer (ops : List Op) (x : Xmsgbuf) (hfit : Bounded x ops) :
    ops.foldlM (apply zeroHeap) (ofBuf x) = some (ofBuf (ops.foldl follow x)) := by
  induction ops generalizing x with
  | nil => rfl
  | cons op ops ih =>
    obtain ⟨hint, hop, hops⟩ := hfit
    rw [List.foldlM_cons, ofBuf_apply x op hint hop]
    exact ih (follow x op) hops

theorem a_byte_follows_the_buffer :
    [Op.write [1], .seekg 0, .readsome 5].foldlM (apply zeroHeap) (ofBuf {}) =
      some (ofBuf ([Op.write [1], .seekg 0, .readsome 5].foldl follow {})) :=
  the_pointers_follow_the_buffer _ {} ⟨by decide, by decide, by decide, trivial, by decide, trivial, trivial⟩

end XmsgPointers

end cloudbus.messages
