-- The streams of an interface are kept in the order of their control blocks, so
-- that a stream can be found by a binary search. The listening stream of a north
-- interface is taken to be the first one, which it is only as long as no client
-- got a control block before its own.
import Cloudbus.Lib.Ordered
import Mathlib.Data.Nat.Basic

namespace cloudbus

/-- `handle_type`: a stream and its socket. The stream is its control block. -/
structure Handle (κ : Type) where
  stream : κ
  fd : Int
deriving DecidableEq, Repr

/-- `interface_base`, as far as its streams go. -/
structure Interface (κ : Type) [LinearOrder κ] where
  streams : List (Handle κ)
  ordered : Ordered.Ascending Handle.stream streams

/-- The two handlers for input on a stream of a north interface. -/
inductive InputHandler where
  | north_accept_handler
  | north_pollin_handler
deriving DecidableEq, Repr

namespace Interface

variable {κ : Type} [LinearOrder κ]

/-- `interface.make(...)`. The control block of a new stream is not that of another one. -/
def make (i : Interface κ) (h : Handle κ) (hnew : ∀ a ∈ i.streams, a.stream ≠ h.stream) : Interface κ where
  streams := Ordered.insert Handle.stream h i.streams
  ordered := i.ordered.insert hnew

/-- `interface.erase(handle)`. -/
def erase (i : Interface κ) (h : Handle κ) : Interface κ where
  streams := Ordered.erase Handle.stream h.stream i.streams
  ordered := i.ordered.erase

/-- `make_north`: the interface has its listening stream. -/
def make_north (l : Handle κ) : Interface κ where
  streams := [l]
  ordered := List.pairwise_singleton _ _

/-- The test of `_handle` for POLLIN: `stream == interface.streams().front()`. -/
def inputHandler (i : Interface κ) (h : Handle κ) : InputHandler :=
  if i.streams.head? = some h then .north_accept_handler else .north_pollin_handler

/-- Clients were accepted and streams other than the listening stream `l` erased. `C` holds
for the control block of each client. -/
inductive Reach (C : κ → Prop) (l : Handle κ) : Interface κ → Prop
  | make_north : Reach C l (make_north l)
  | accept {i : Interface κ} (h : Handle κ) (hnew : ∀ a ∈ i.streams, a.stream ≠ h.stream) :
      Reach C l i → C h.stream → Reach C l (i.make h hnew)
  | erase {i : Interface κ} (h : Handle κ) : Reach C l i → h.stream ≠ l.stream → Reach C l (i.erase h)

variable {C : κ → Prop} {l : Handle κ} {i : Interface κ}

theorem mem_make {h a : Handle κ} {hnew : ∀ a ∈ i.streams, a.stream ≠ h.stream} :
    a ∈ (i.make h hnew).streams ↔ a = h ∨ a ∈ i.streams := Ordered.mem_insert

theorem mem_erase {h a : Handle κ} : a ∈ (i.erase h).streams ↔ a ∈ i.streams ∧ a.stream ≠ h.stream :=
  i.ordered.mem_erase

theorem Reach.listens (hr : Reach C l i) : l ∈ i.streams := by
  induction hr with
  | make_north => exact .head _
  | accept h hnew _ _ ih => exact mem_make.mpr (.inr ih)
  | erase h _ hne ih => exact mem_erase.mpr ⟨ih, hne.symm⟩

theorem Reach.clients (hr : Reach C l i) : ∀ a ∈ i.streams, a ≠ l → C a.stream := by
  induction hr with
  | make_north =>
    intro a ha hne
    exact absurd (List.mem_singleton.mp ha) hne
  | accept h hnew _ hc ih =>
    intro a ha hne
    rcases mem_make.mp ha with rfl | ha
    · exact hc
    · exact ih a ha hne
  | erase h _ _ ih =>
    intro a ha hne
    exact ih a (mem_erase.mp ha).1 hne

/-- The listening stream is the first one as long as its control block is the least. -/
theorem Reach.front_iff (hr : Reach C l i) :
    i.streams.head? = some l ↔ ∀ a ∈ i.streams, a ≠ l → l.stream < a.stream :=
  i.ordered.head?_eq hr.listens

/-- When each client that is accepted has a control block after that of the listening
stream, the listening stream is always the first one, and `_handle` accepts on it and on no
other stream. -/
theorem the_listening_stream_is_the_first (hr : Reach (l.stream < ·) l i) :
    i.streams.head? = some l ∧
      ∀ a, inputHandler i a = .north_accept_handler ↔ a = l := by
  have hfront : i.streams.head? = some l := hr.front_iff.mpr hr.clients
  refine ⟨hfront, ?_⟩
  intro a
  unfold inputHandler
  rw [hfront]
  constructor
  · intro h
    by_contra hne
    rw [if_neg (by simpa using Ne.symm hne)] at h
    cases h
  · rintro rfl
    rw [if_pos rfl]

/-- A listening stream, and a client before and one after it. -/
def listener : Handle Nat := ⟨2, 10⟩
def lateClient : Handle Nat := ⟨3, 11⟩
def earlyClient : Handle Nat := ⟨1, 12⟩

theorem the_listener_stays_first :
    ((((make_north listener).make lateClient (by decide)).erase lateClient).make lateClient
        (by decide)).streams.head? = some listener ∧
      ∀ a, inputHandler ((((make_north listener).make lateClient (by decide)).erase lateClient).make
        lateClient (by decide)) a = .north_accept_handler ↔ a = listener :=
  the_listening_stream_is_the_first
    (.accept _ _ (.erase _ (.accept _ _ .make_north (by decide)) (by decide)) (by decide))

/-- A client with a control block before that of the listening stream takes its place: the
client is handed to `accept`, and the listening stream is read. -/
theorem a_client_takes_the_place_of_the_listener :
    Reach (fun _ => True) listener ((make_north listener).make earlyClient (by decide)) ∧
      ((make_north listener).make earlyClient (by decide)).streams.head? = some earlyClient ∧
      inputHandler ((make_north listener).make earlyClient (by decide)) earlyClient =
        .north_accept_handler ∧
      inputHandler ((make_north listener).make earlyClient (by decide)) listener =
        .north_pollin_handler :=
  ⟨.accept _ _ .make_north trivial, by decide, by decide, by decide⟩

end Interface

end cloudbus
