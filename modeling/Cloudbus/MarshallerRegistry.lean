-- Where the marshallers find the buffer of a stream (`_unmarshal` and `_marshal` of
-- the controller and of the segment). Each keeps its buffers in a vector in the
-- order of the owners. A stream without one gets a new buffer, and those before it
-- whose streams are gone are removed on the way. The four functions differ in the
-- format of the buffer and in what they read into it.
import Cloudbus.Lib.Registry
import Cloudbus.Marshaller
import Mathlib.Data.List.TakeWhile

namespace cloudbus

open cloudbus.io cloudbus.messages

namespace marshaller

/-- `north_buffer` and `south_buffer`. -/
structure Buffer (κ φ : Type) where
  ptr : κ
  pbuf : φ
deriving DecidableEq, Repr

/-- What the four functions differ in: a new buffer, and how a stream is read into one. -/
structure Format (φ : Type) where
  new : φ
  read : φ → Sockstream → φ × Sockstream

section

variable {κ φ : Type} [LinearOrder κ] (expired : κ → Bool)

/-- A buffer is put between the parts of the vector before and after `lb`. With a stream that is gone
before it, `remove_if` has left room: the buffer is put at `put`, and what is between it and `lb` is
erased. The place of the buffer is returned. -/
def emplace (before after : List (Buffer κ φ)) (b : Buffer κ φ) : List (Buffer κ φ) × Nat :=
  let kept := before.filter fun a => !expired a.ptr
  if kept.length ≠ before.length then (kept ++ b :: after, kept.length)
  else (before ++ b :: after, before.length)

/-- The place of the buffer of a stream. -/
def locate (new : φ) (ptr : κ) (buffers : List (Buffer κ φ)) : List (Buffer κ φ) × Nat :=
  let before := buffers.takeWhile fun a => decide (a.ptr < ptr)
  match buffers.dropWhile fun a => decide (a.ptr < ptr) with
  | [] => emplace expired before [] ⟨ptr, new⟩
  | b :: after =>
    if b.ptr = ptr then (buffers, before.length) else emplace expired before (b :: after) ⟨ptr, new⟩

/-- The stream is read into its buffer, and the place of the buffer is returned. -/
def Format.serve (f : Format φ) (ptr : κ) (stream : Sockstream) (buffers : List (Buffer κ φ)) :
    List (Buffer κ φ) × Sockstream × Nat :=
  match locate expired f.new ptr buffers with
  | (buffers, lb) =>
    match buffers[lb]? with
    | none => (buffers, stream, lb)
    | some b =>
      let r := f.read b.pbuf stream
      (buffers.set lb { b with pbuf := r.1 }, r.2, lb)

end

end marshaller

open marshaller

namespace controller.marshaller

variable {κ : Type} [LinearOrder κ] (expired : κ → Bool)

def north : Format Stringstream := ⟨default, unmarshal⟩
def south : Format Xmsgstream := ⟨default, marshal⟩

def _unmarshal (ptr : κ) (stream : Sockstream) (buffers : List (Buffer κ Stringstream)) :
    List (Buffer κ Stringstream) × Sockstream × Nat := north.serve expired ptr stream buffers

def _marshal (ptr : κ) (stream : Sockstream) (buffers : List (Buffer κ Xmsgstream)) :
    List (Buffer κ Xmsgstream) × Sockstream × Nat := south.serve expired ptr stream buffers

end controller.marshaller

namespace segment.marshaller

variable {κ : Type} [LinearOrder κ] (expired : κ → Bool)

def north : Format Xmsgstream := ⟨default, unmarshal⟩
def south : Format Stringstream := ⟨default, marshal⟩

def _unmarshal (ptr : κ) (stream : Sockstream) (buffers : List (Buffer κ Xmsgstream)) :
    List (Buffer κ Xmsgstream) × Sockstream × Nat := north.serve expired ptr stream buffers

def _marshal (ptr : κ) (stream : Sockstream) (buffers : List (Buffer κ Stringstream)) :
    List (Buffer κ Stringstream) × Sockstream × Nat := south.serve expired ptr stream buffers

end segment.marshaller

namespace marshaller

/-! ## Finding a buffer -/

section

variable {κ φ : Type} [LinearOrder κ] {expired : κ → Bool} {ptr : κ} {buffers : List (Buffer κ φ)}

/-- The buffer of a stream, or a new one. -/
def bufferOf (new : φ) (ptr : κ) (buffers : List (Buffer κ φ)) : φ :=
  ((Ordered.get Buffer.ptr ptr buffers).map Buffer.pbuf).getD new

omit [LinearOrder κ] in
/-- Both ways of putting a buffer give the same vector. -/
theorem emplace_eq (expired : κ → Bool) (before after : List (Buffer κ φ)) (b : Buffer κ φ) :
    emplace expired before after b = ((before.filter fun a => !expired a.ptr) ++ b :: after,
      (before.filter fun a => !expired a.ptr).length) := by
  unfold emplace
  dsimp only
  split
  · rfl
  · rename_i hlen
    rw [List.filter_eq_self.mpr (List.length_filter_eq_length_iff.mp (not_not.mp hlen))]

theorem emplace_visit (expired : κ → Bool) {before after : List (Buffer κ φ)} (new : φ)
    (hv : Ordered.Ascending Buffer.ptr (before ++ after))
    (hbefore : ∀ a ∈ before, a.ptr < ptr) (hafter : ∀ a ∈ after.head?, ptr < a.ptr) :
    Registry.Visit Buffer.ptr expired ptr (before ++ after) (emplace expired before after ⟨ptr, new⟩).1 ∧
      (emplace expired before after ⟨ptr, new⟩).1[(emplace expired before after ⟨ptr, new⟩).2]? = some ⟨ptr, new⟩ := by
  rw [emplace_eq]
  refine ⟨.insert hv rfl (fun a ha _ => hbefore a ha) hafter, ?_⟩
  dsimp only
  rw [List.getElem?_append_right (Nat.le_refl _), Nat.sub_self]
  rfl

/-- The element at the place where a search stops. -/
theorem getElem?_takeWhile {α : Type} {p : α → Bool} {l after : List α} {b : α} (h : l.dropWhile p = b :: after) :
    l[(l.takeWhile p).length]? = some b := by
  have hcut := List.takeWhile_append_dropWhile (p := p) (l := l)
  rw [h] at hcut
  generalize l.takeWhile p = before at hcut ⊢
  subst hcut
  rw [List.getElem?_append_right (Nat.le_refl _), Nat.sub_self]
  rfl

/-- The buffer that is found is that of the stream, with all that it held. -/
theorem locate_spec (expired : κ → Bool) (new : φ) (ptr : κ) (hv : Ordered.Ascending Buffer.ptr buffers) :
    ((locate expired new ptr buffers).1 = buffers ∨
      Registry.Visit Buffer.ptr expired ptr buffers (locate expired new ptr buffers).1) ∧
      (locate expired new ptr buffers).1[(locate expired new ptr buffers).2]? =
        some ⟨ptr, bufferOf new ptr buffers⟩ := by
  have hcut := List.takeWhile_append_dropWhile (p := fun a : Buffer κ φ => decide (a.ptr < ptr)) (l := buffers)
  have hbefore : ∀ a ∈ buffers.takeWhile (fun a => decide (a.ptr < ptr)), a.ptr < ptr :=
    fun a ha => by simpa using List.mem_takeWhile_imp ha
  unfold locate bufferOf Ordered.get
  dsimp only
  cases hafter : buffers.dropWhile fun a => decide (a.ptr < ptr) with
  | nil =>
    rw [hafter] at hcut
    obtain ⟨hvisit, hget⟩ := emplace_visit expired new (hcut.symm ▸ hv) hbefore (by simp)
    rw [hcut] at hvisit
    exact ⟨.inr hvisit, hget⟩
  | cons b after =>
    have hge : ¬ b.ptr < ptr := by
      have h := List.head?_dropWhile_not (fun a : Buffer κ φ => decide (a.ptr < ptr)) buffers
      rw [hafter] at h
      simpa using h
    rw [hafter] at hcut
    dsimp only
    split
    · rename_i heq
      refine ⟨.inl rfl, ?_⟩
      dsimp only
      rw [getElem?_takeWhile hafter, ← heq]
      rfl
    · rename_i hne
      obtain ⟨hvisit, hget⟩ := emplace_visit expired new (hcut.symm ▸ hv) hbefore
        (by rintro a ⟨⟩; exact lt_of_le_of_ne (not_lt.mp hge) (Ne.symm hne))
      rw [hcut] at hvisit
      exact ⟨.inr hvisit, hget⟩

theorem serve_eq (f : Format φ) (stream : Sockstream) (hv : Ordered.Ascending Buffer.ptr buffers) :
    f.serve expired ptr stream buffers = ((locate expired f.new ptr buffers).1.set (locate expired f.new ptr buffers).2
        ⟨ptr, (f.read (bufferOf f.new ptr buffers) stream).1⟩,
      (f.read (bufferOf f.new ptr buffers) stream).2, (locate expired f.new ptr buffers).2) := by
  obtain ⟨-, hget⟩ := locate_spec expired f.new ptr hv
  unfold Format.serve
  generalize locate expired f.new ptr buffers = r at hget
  obtain ⟨v, i⟩ := r
  dsimp only at hget ⊢
  rw [hget]

/-- A call visits the buffer of its stream, and returns its place. -/
theorem serve_visit (f : Format φ) (expired : κ → Bool) (ptr : κ) (stream : Sockstream)
    (hv : Ordered.Ascending Buffer.ptr buffers) :
    Registry.Visit Buffer.ptr expired ptr buffers (f.serve expired ptr stream buffers).1 ∧
      (f.serve expired ptr stream buffers).1[(f.serve expired ptr stream buffers).2.2]? =
        some ⟨ptr, (f.read (bufferOf f.new ptr buffers) stream).1⟩ := by
  obtain ⟨hloc, hget⟩ := locate_spec expired f.new ptr hv
  rw [serve_eq f stream hv]
  dsimp only
  refine ⟨?_, List.getElem?_set_self (List.getElem?_eq_some_iff.mp hget).1⟩
  rcases hloc with heq | hvisit
  · rw [heq] at hget ⊢
    exact .set hv hget rfl rfl
  · exact hvisit.trans (.set hvisit.ordered hget rfl rfl)

end

/-! ## Runs -/

/-- A stream is read into its buffer, or what the connector does with the buffer in between. -/
inductive Op (κ φ : Type) where
  | serve (ptr : κ) (stream : Sockstream)
  | use (ptr : κ) (pbuf : φ)

section

variable {κ φ : Type} [LinearOrder κ] {expired₀ expired : κ → Bool} {buffers : List (Buffer κ φ)}

def Op.ptr : Op κ φ → κ
  | .serve ptr _ => ptr
  | .use ptr _ => ptr

/-- Only streams that are there are served. The connector leaves any contents in a buffer. -/
def Called (f : Format φ) (expired : κ → Bool) : Op κ φ → List (Buffer κ φ) → List (Buffer κ φ) → Prop
  | .serve ptr stream, buffers, buffers' =>
    expired ptr = false ∧ buffers' = (f.serve expired ptr stream buffers).1
  | .use ptr pbuf, buffers, buffers' =>
    ∃ i b, buffers[i]? = some b ∧ b.ptr = ptr ∧ buffers' = buffers.set i { b with pbuf := pbuf }

theorem called_lawful (f : Format φ) : Registry.Lawful (Buffer.ptr : Buffer κ φ → κ) Op.ptr (Called f) := by
  intro expired op buffers buffers' hv h
  cases op with
  | serve ptr stream =>
    obtain ⟨-, rfl⟩ := h
    exact .inr (serve_visit f expired ptr stream hv).1
  | use ptr pbuf =>
    obtain ⟨i, b, hget, hb, rfl⟩ := h
    exact .inr (.set hv hget hb hb)

/-- One byte of a frame came on stream 1. -/
def partialFrame : List (Buffer Nat Xmsgstream) :=
  (segment.marshaller._unmarshal (fun _ => false) 1 { garea := [7] } []).1

end

end marshaller

end cloudbus
