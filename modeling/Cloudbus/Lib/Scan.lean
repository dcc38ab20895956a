-- Functions that scan a text in memory by pointer and length: each read, each
-- length that a scanner is given and each difference of two positions is kept, and
-- nothing follows a read outside of the memory.
import Mathlib.Algebra.Order.Ring.Nat
import Mathlib.Data.List.DropRight
import Mathlib.Tactic.Common

inductive Scan.Access where
  | read (i : Int)
  | pass (i len : Nat)
  | length (a b : Nat)
deriving DecidableEq, Repr

/-- A scan with what it accessed. There is no value after a read outside of the memory. -/
structure Scan (α : Type) where
  log : List Scan.Access
  value : Option α
deriving DecidableEq, Repr

namespace Scan

/-- An access that stays in a memory of `size` characters. The last of them ends the text: a scanner is
given at most the others. -/
def Access.Ok (size : Nat) : Access → Prop
  | .read i => 0 ≤ i ∧ i < size
  | .pass i len => i + len < size
  | .length a b => b ≤ a

instance (size : Nat) (a : Access) : Decidable (a.Ok size) :=
  match a with
  | .read i => inferInstanceAs (Decidable (0 ≤ i ∧ i < size))
  | .pass i len => inferInstanceAs (Decidable (i + len < size))
  | .length a b => inferInstanceAs (Decidable (b ≤ a))

instance : Monad Scan where
  pure v := ⟨[], some v⟩
  bind m f := match m.value with
    | none => ⟨m.log, none⟩
    | some v => ⟨m.log ++ (f v).log, (f v).value⟩

def get (mem : List Char) (i : Nat) : Scan Char := ⟨[.read i], mem[i]?⟩

def pass (i len : Nat) : Scan Unit := ⟨[.pass i len], some ()⟩

/-- A difference of two sizes of 64 bits. -/
def sub (a b : Nat) : Scan Nat := ⟨[.length a b], some ((a + 2 ^ 64 - b) % 2 ^ 64)⟩

/-- A difference of two iterators. -/
def diff (a b : Nat) : Scan Nat := ⟨[.length a b], some (a - b)⟩

/-- The size below zero. -/
def SIZE_MAX : Nat := 2 ^ 64 - 1

/-- `while(len-- > 0 && p(*c++));` -/
def skip (mem : List Char) (p : Char → Bool) : Nat → Nat → Scan (Nat × Nat)
  | c, 0 => pure (c, SIZE_MAX)
  | c, len + 1 => do
    let ch ← get mem c
    if p ch then skip mem p (c + 1) len else pure (c + 1, len)

/-- `std::find_if(c, c + len, p)` -/
def find (mem : List Char) (p : Char → Bool) : Nat → Nat → Scan Nat
  | c, 0 => pure c
  | c, len + 1 => do
    let ch ← get mem c
    if p ch then pure c else find mem p (c + 1) len

/-- `while(!p(*c)) ++c;` with `len` characters from `c` on: there is no bound, and so it can leave the
memory at its end. -/
def seek (mem : List Char) (p : Char → Bool) : Nat → Nat → Scan Nat
  | c, 0 => ⟨[.read c], none⟩
  | c, len + 1 => do
    let ch ← get mem c
    if p ch then pure c else seek mem p (c + 1) len

/-- `std::find_if(c, mem.end(), p)` from any place: behind the end it misses the end. -/
def find_from (mem : List Char) (p : Char → Bool) (c : Nat) : Scan Nat :=
  if c ≤ mem.length then find mem p c (mem.length - c) else seek mem p c 0

/-- `while(p(*--c));`, which can leave the memory at its front. -/
def back (mem : List Char) (p : Char → Bool) : Nat → Scan Nat
  | 0 => ⟨[.read (-1)], none⟩
  | c + 1 => do
    let ch ← get mem c
    if p ch then back mem p c else pure c

/-- `std::string(c, len)` -/
def copy (mem : List Char) : Nat → Nat → Scan (List Char)
  | _, 0 => pure []
  | c, len + 1 => do
    let ch ← get mem c
    let rest ← copy mem (c + 1) len
    pure (ch :: rest)

def slice (mem : List Char) (c len : Nat) : List Char := (mem.drop c).take len

/-! ## What a scan ends with -/

/-- The scan ends with `v`, and all it accessed is in the memory. -/
structure Ends {α : Type} (size : Nat) (m : Scan α) (v : α) : Prop where
  log : ∀ a ∈ m.log, a.Ok size
  value : m.value = some v

variable {α β : Type} {size : Nat} {m : Scan α} {f : α → Scan β} {v : α} {w : β}

theorem Ends.bind (hm : Ends size m v) (hf : Ends size (f v) w) : Ends size (m >>= f) w := by
  have heq : m >>= f = ⟨m.log ++ (f v).log, (f v).value⟩ := by
    change (match m.value with | none => _ | some v => _) = _
    rw [hm.value]
  rw [heq]
  refine ⟨fun a ha => ?_, hf.value⟩
  rcases List.mem_append.mp ha with ha | ha
  · exact hm.log a ha
  · exact hf.log a ha

/-- A scan ends with one value. -/
theorem Ends.iff {v' : α} (h : Ends size m v) : Ends size m v' ↔ v' = v := by
  constructor
  · intro h'
    exact Option.some.inj (h'.value.symm.trans h.value)
  · rintro rfl
    exact h

theorem ends_bind : Ends size (m >>= f) w ↔ ∃ v, Ends size m v ∧ Ends size (f v) w := by
  constructor
  · intro h
    cases hv : m.value with
    | none =>
      have heq : m >>= f = ⟨m.log, none⟩ := by
        change (match m.value with | none => _ | some v => _) = _
        rw [hv]
      rw [heq] at h
      cases h.value
    | some v =>
      have heq : m >>= f = ⟨m.log ++ (f v).log, (f v).value⟩ := by
        change (match m.value with | none => _ | some v => _) = _
        rw [hv]
      rw [heq] at h
      exact ⟨v, ⟨fun a ha => h.log a (List.mem_append_left _ ha), hv⟩,
        ⟨fun a ha => h.log a (List.mem_append_right _ ha), h.value⟩⟩
  · rintro ⟨v, hm, hf⟩
    exact hm.bind hf

theorem Ends.pure (v : α) : Ends size (pure v : Scan α) v := ⟨nofun, rfl⟩

theorem Ends.map {g : α → β} (h : Ends size m v) : Ends size (g <$> m) (g v) := h.bind (.pure _)

theorem Ends.congr {v' : α} (h : Ends size m v) (hv : v = v') : Ends size m v' := hv ▸ h

theorem ends_pass {i len : Nat} (h : i + len < size) : Ends size (pass i len) () :=
  ⟨fun a ha => by rw [List.mem_singleton.mp ha]; exact h, rfl⟩

theorem ends_sub {a b : Nat} (h : b ≤ a) (ha : a < 2 ^ 64) : Ends size (sub a b) (a - b) := by
  refine ⟨fun x hx => by rw [List.mem_singleton.mp hx]; exact h, congrArg some ?_⟩
  have heq : a + 2 ^ 64 - b = a - b + 2 ^ 64 := by omega
  rw [heq, Nat.add_mod_right]
  exact Nat.mod_eq_of_lt (by omega)

theorem ends_diff {a b : Nat} (h : b ≤ a) : Ends size (diff a b) (a - b) :=
  ⟨fun x hx => by rw [List.mem_singleton.mp hx]; exact h, rfl⟩

theorem Ends.le {a b v : Nat} (h : Ends size (diff a b) v) : b ≤ a := h.log _ List.mem_cons_self

section

variable {mem : List Char} {p : Char → Bool} {c len : Nat}

theorem ends_get {ch : Char} (h : mem[c]? = some ch) : Ends mem.length (get mem c) ch := by
  obtain ⟨hc, -⟩ := List.getElem?_eq_some_iff.mp h
  refine ⟨fun a ha => ?_, h⟩
  rw [List.mem_singleton.mp ha]
  exact ⟨Int.natCast_nonneg c, Int.ofNat_lt.mpr hc⟩

@[simp] theorem slice_zero : slice mem c 0 = [] := List.take_zero

/-- A slice that is not empty begins with the character at its place. -/
theorem slice_succ (h : c + (len + 1) ≤ mem.length) :
    ∃ ch, mem[c]? = some ch ∧ slice mem c (len + 1) = ch :: slice mem (c + 1) len := by
  have hc : c < mem.length := by omega
  refine ⟨mem[c], List.getElem?_eq_getElem hc, ?_⟩
  rw [slice, slice, List.drop_eq_getElem_cons hc, List.take_succ_cons]

theorem slice_snoc (h : c + (len + 1) ≤ mem.length) :
    ∃ ch, mem[c + len]? = some ch ∧ slice mem c (len + 1) = slice mem c len ++ [ch] := by
  have hc : c + len < mem.length := by omega
  refine ⟨mem[c + len], List.getElem?_eq_getElem hc, ?_⟩
  rw [slice, slice, List.take_add_one, List.getElem?_drop, List.getElem?_eq_getElem hc]
  rfl

theorem length_slice (h : c + len ≤ mem.length) : (slice mem c len).length = len := by
  rw [slice, List.length_take, List.length_drop]
  omega

theorem ends_copy (h : c + len ≤ mem.length) : Ends mem.length (copy mem c len) (slice mem c len) := by
  induction len generalizing c with
  | zero => exact .pure _
  | succ len ih =>
    obtain ⟨ch, hch, heq⟩ := slice_succ h
    rw [heq]
    exact (ends_get hch).bind ((ih (by omega)).bind (.pure _))

theorem ends_find (h : c + len ≤ mem.length) :
    Ends mem.length (find mem p c len) (c + ((slice mem c len).takeWhile fun ch => !p ch).length) := by
  induction len generalizing c with
  | zero => exact .pure _
  | succ len ih =>
    obtain ⟨ch, hch, heq⟩ := slice_succ h
    refine (ends_get hch).bind ?_
    rw [heq]
    by_cases hp : p ch
    · rw [if_pos hp, List.takeWhile_cons_of_neg (by simp [hp])]
      exact .pure _
    · rw [if_neg hp, List.takeWhile_cons_of_pos (by simp [hp])]
      exact (ih (by omega)).congr (by rw [List.length_cons]; omega)

theorem ends_find_from (h : c ≤ mem.length) :
    Ends mem.length (find_from mem p c) (c + ((mem.drop c).takeWhile fun ch => !p ch).length) := by
  have hslice : slice mem c (mem.length - c) = mem.drop c := by
    unfold slice
    rw [← List.length_drop, List.take_length]
  unfold find_from
  rw [if_pos h, ← hslice]
  exact ends_find (by omega)

theorem not_ends_find_from {v : Nat} (h : mem.length < c) : ¬ Ends mem.length (find_from mem p c) v := by
  intro he
  unfold find_from at he
  rw [if_neg (by omega)] at he
  cases he.value

/-- A search without a bound ends when there is something to be found. -/
theorem ends_seek {i : Nat} (h : len = mem.length - c) :
    Ends mem.length (seek mem p c len) i ↔
      (mem.drop c).any p ∧ i = c + ((mem.drop c).takeWhile fun ch => !p ch).length := by
  induction len generalizing c with
  | zero =>
    rw [List.drop_of_length_le (by omega)]
    constructor
    · intro he
      cases he.value
    · intro hany
      cases hany.1
  | succ len ih =>
    have hc : c < mem.length := by omega
    have hget : Ends mem.length (get mem c) mem[c] := ends_get (List.getElem?_eq_getElem hc)
    rw [seek, ends_bind, List.drop_eq_getElem_cons hc]
    simp only [hget.iff, exists_eq_left]
    by_cases hp : p mem[c]
    · rw [if_pos hp, List.takeWhile_cons_of_neg (by simp [hp]), (Ends.pure c).iff, List.any_cons, hp, Bool.true_or]
      simp only [List.length_nil, Nat.add_zero, true_and]
    · rw [if_neg hp, List.takeWhile_cons_of_pos (by simp [hp]), ih (by omega), List.any_cons,
        Bool.eq_false_iff.mpr hp, Bool.false_or, List.length_cons, Nat.add_right_comm, Nat.add_assoc]

/-- Where a loop `while(len-- > 0 && p(*c++));` over these characters leaves `c` and `len`. -/
def stop (p : Char → Bool) (c : Nat) (l : List Char) : Nat × Nat :=
  if l.all p then (c + l.length, SIZE_MAX)
  else (c + (l.takeWhile p).length + 1, l.length - (l.takeWhile p).length - 1)

theorem ends_skip (h : c + len ≤ mem.length) :
    Ends mem.length (skip mem p c len) (stop p c (slice mem c len)) := by
  induction len generalizing c with
  | zero => exact .pure _
  | succ len ih =>
    obtain ⟨ch, hch, heq⟩ := slice_succ h
    refine (ends_get hch).bind ?_
    rw [heq]
    by_cases hp : p ch
    · rw [if_pos hp]
      refine (ih (by omega)).congr ?_
      simp only [stop, List.all_cons, hp, Bool.true_and, List.takeWhile_cons_of_pos, List.length_cons]
      split
      · exact Prod.ext (by simp only; omega) rfl
      · exact Prod.ext (by simp only; omega) (by simp only; omega)
    · rw [if_neg hp]
      refine (Ends.pure _).congr ?_
      simp [stop, hp, length_slice (show c + 1 + len ≤ mem.length by omega)]

/-- A part of a slice is a slice. -/
theorem slice_slice {a b : Nat} (h : a + b ≤ len) : slice mem (c + a) b = slice (slice mem c len) a b := by
  rw [slice, slice, slice, List.drop_take, List.drop_drop, List.take_take, Nat.min_eq_left (by omega)]

end

section

variable {p : Char → Bool} {l : List Char}

theorem drop_takeWhile : l.drop (l.takeWhile p).length = l.dropWhile p := by
  have h := congrArg (List.drop (l.takeWhile p).length) (List.takeWhile_append_dropWhile (p := p) (l := l))
  rwa [List.drop_left, eq_comm] at h

theorem take_takeWhile : l.take (l.takeWhile p).length = l.takeWhile p :=
  (List.prefix_iff_eq_take.mp (List.takeWhile_prefix p)).symm

theorem takeWhile_of_all (h : l.all p) : l.takeWhile p = l :=
  List.takeWhile_eq_self_iff.mpr (List.all_eq_true.mp h)

theorem length_takeWhile_lt (h : ¬ l.all p) : (l.takeWhile p).length < l.length := by
  refine lt_of_le_of_ne (List.takeWhile_prefix p).length_le fun heq => h ?_
  have hself := (List.takeWhile_prefix p).eq_of_length heq
  exact List.all_eq_true.mpr (List.takeWhile_eq_self_iff.mp hself)

end

end Scan
