-- A connect that is refused. `_south_err_handler` then takes the address out
-- of the list of its interface, or so it is meant: the comparison reads the
-- buffer of the stream where the address was to be read.
import Cloudbus.RoundRobin

namespace cloudbus

/-- `sockbuf::MIN_BUFSIZE` -/
def MIN_BUFSIZE : Nat := 32 * 1024

/-- `socket_message`: the address, and the `iovec` of the buffer. `image` are the bytes that lie in
memory from the `iovec` on. The last buffer of a stream always has a multiple of `MIN_BUFSIZE`. -/
structure SocketMessage where
  addr : List UInt8
  addrlen : Nat
  image : List UInt8
  iov_len : Nat
  sized : ∃ k, iov_len = MIN_BUFSIZE * (k + 1)

namespace SocketMessage

/-- `address.ss_family != AF_UNSPEC` -/
def has_family (m : SocketMessage) : Bool := m.addr.take 2 != [0, 0] && m.addr.length ≥ 2

/-- `sockbuf::connectto`: the address is kept with the last buffer, or with a new one when that has an
address already. -/
def connectto (addr : List UInt8) (addrlen : Nat) (fresh : List UInt8) (m : SocketMessage) : SocketMessage :=
  if m.has_family then ⟨addr, addrlen, fresh, MIN_BUFSIZE, 0, rfl⟩
  else { m with addr := addr, addrlen := addrlen }

/-- `sockbuf::_resizewbuf` of the last buffer, with `putlen` bytes in it. -/
def resizewbuf (putlen : Nat) (fresh : List UInt8) (m : SocketMessage) : SocketMessage :=
  if m.iov_len ≠ MIN_BUFSIZE * (putlen / MIN_BUFSIZE + 1) then
    { m with image := fresh, iov_len := MIN_BUFSIZE * (putlen / MIN_BUFSIZE + 1), sized := ⟨_, rfl⟩ }
  else m

/-- A buffer that was made, connected and written to. -/
inductive Reach (addr : List UInt8) (addrlen : Nat) : SocketMessage → Prop
  | connectto (fresh : List UInt8) (m : SocketMessage) : Reach addr addrlen (connectto addr addrlen fresh m)
  | resizewbuf {m : SocketMessage} (putlen : Nat) (fresh : List UInt8) :
      Reach addr addrlen m → Reach addr addrlen (m.resizewbuf putlen fresh)

end SocketMessage

def ECONNREFUSED : Nat := 111

namespace InterfaceBase

/-- The comparison of `expire_address_of`, with `addr` and `addrlen` bound to `sendbuf()->data`. -/
def matches_data (m : SocketMessage) (a : Address) : Bool :=
  decide (a.interval > -1) && a.len == m.iov_len && m.image.take m.iov_len == a.addr.take m.iov_len

/-- `expire_address_of`, the same in both connectors. -/
def expire_address_of (alive : StreamId → Bool) (now later : Int) (m : SocketMessage) (s : InterfaceBase) :
    Option (InterfaceBase × List Callback) :=
  s.set_addresses alive now later (s.addresses.filter fun a => !matches_data m a)

def erase (w : StreamId) (s : InterfaceBase) : InterfaceBase := { s with streams := s.streams.erase w }

end InterfaceBase

/-- What `_south_err_handler` does to the interface of the stream. -/
def InterfaceBase.south_err (alive : StreamId → Bool) (now later : Int) (err : Nat) (w : StreamId)
    (m : SocketMessage) (s : InterfaceBase) : Option InterfaceBase :=
  (if err = ECONNREFUSED then s.expire_address_of alive now later m else some (s, [])).map fun x => x.1.erase w

/-- `_south_err_handler` of the controller, for its interface. -/
def controller.retire := @InterfaceBase.south_err

/-- `_south_err_handler` of the segment, for its interface. -/
def segment.retire := @InterfaceBase.south_err

/-- The two services. -/
inductive Service where
  | controller
  | segment
deriving DecidableEq, Repr

def Service.retire : Service → (alive : StreamId → Bool) → (now later : Int) → (err : Nat) → StreamId →
    SocketMessage → InterfaceBase → Option InterfaceBase
  | .controller => controller.retire
  | .segment => segment.retire

/-- The address as such: without its counter and its weight, which a new list sets anew. -/
def Address.plain (a : Address) : Address := (a.set_count 0).set_max 0

/-- A listed address with the bytes and the length of the one that was refused, and a TTL. -/
def Address.Refused (a x : Address) : Prop :=
  x.interval > -1 ∧ x.len = a.len ∧ x.addr.take a.len = a.addr.take a.len

instance (a x : Address) : Decidable (a.Refused x) := by unfold Address.Refused; infer_instance

namespace InterfaceBase

variable {s : InterfaceBase} {m : SocketMessage}

/-- No address is as long as a buffer. -/
theorem not_matches_data (m : SocketMessage) (a : Address) : matches_data m a = false := by
  obtain ⟨k, hk⟩ := m.sized
  have hne : (a.len == m.iov_len) = false := by
    rw [beq_eq_false_iff_ne, hk]
    unfold MIN_BUFSIZE
    rcases a.fits with h | h
    · unfold STORAGE at h
      omega
    · unfold NULL_LEN at h
      omega
  unfold matches_data
  rw [hne]
  simp

/-- So the list is set as it is, and nothing but what has expired goes. -/
theorem expire_address_of_eq (alive : StreamId → Bool) (now later : Int) (m : SocketMessage) (s : InterfaceBase) :
    s.expire_address_of alive now later m = s.set_addresses alive now later s.addresses := by
  unfold expire_address_of
  rw [List.filter_eq_self.mpr]
  intro a _
  rw [not_matches_data]
  rfl

/-- The addresses that were refused are past their TTL anyway, or have no weight, and no other one is
or has. -/
structure PastAnyway (now later : Int) (a : Address) (s : InterfaceBase) : Prop where
  clock : now - HYST_WND ≤ later
  refused : ∀ x ∈ s.addresses, a.Refused x → x.past later ∨ (x.weighed s.addresses).max = 0
  others : ∀ x ∈ s.addresses, ¬ a.Refused x → ¬ x.past later ∧ (x.weighed s.addresses).max ≠ 0

theorem past_mono {t t' : Int} {a : Address} (h : t ≤ t') (ha : a.past t) : a.past t' := by
  unfold Address.past at ha ⊢
  rw [decide_eq_true_eq] at ha ⊢
  omega

theorem weighed_plain (l : List Address) (a : Address) : (a.weighed l).plain = a.plain := by
  unfold Address.weighed
  split <;> rfl

theorem weighed_past (l : List Address) (t : Int) (a : Address) : (a.weighed l).past t = a.past t := by
  unfold Address.weighed
  split <;> rfl

/-- What is left of a list that is set: what both expiries keep. -/
theorem set_addresses_plain (alive : StreamId → Bool) (now later : Int) (s : InterfaceBase)
    (hc : ∀ a ∈ s.addresses, a.count ≤ a.max) :
    ∃ s' cs, s.set_addresses alive now later s.addresses = some (s', cs) ∧
      s'.addresses.map Address.plain =
        (s.addresses.filter fun x =>
          keeps (now - HYST_WND) (x.weighed s.addresses) && keeps later (x.weighed s.addresses)).map Address.plain := by
  have hcount : ∀ a ∈ s.weigh.addresses, a.count ≤ a.max := by
    rw [weigh_eq]
    intro a ha
    obtain ⟨b, hb, rfl⟩ := List.mem_map.mp ha
    exact weighed_counts hc b hb
  obtain ⟨s', cs, heq, -, -, hmap, -⟩ := resolve_callbacks_spec alive now later hcount
  refine ⟨s', cs, heq, ?_⟩
  have hplain : ∀ l : List Address, l.map Address.plain = (l.map (Address.set_count 0)).map (Address.set_max 0) := by
    intro l
    rw [List.map_map]
    rfl
  rw [hplain s'.addresses, hmap, ← hplain, weigh_eq]
  dsimp only
  rw [List.filter_filter, List.filter_map, List.map_map]
  have hsame : Address.plain ∘ Address.weighed s.addresses = Address.plain := funext (weighed_plain s.addresses)
  rw [hsame]
  congr 2
  funext x
  exact Bool.and_comm ..

/-- The addresses that a refused connect was made to are taken out of the list, and no other one is, when
their TTL is over anyway. -/
theorem a_refused_address_is_retired (svc : Service) (alive : StreamId → Bool) (now later : Int) (w : StreamId)
    (m : SocketMessage) (s : InterfaceBase) (a : Address) (hc : ∀ x ∈ s.addresses, x.count ≤ x.max)
    (hpast : PastAnyway now later a s) :
    ∃ s', svc.retire alive now later ECONNREFUSED w m s = some s' ∧
      s'.addresses.map Address.plain = (s.addresses.filter fun x => ¬ a.Refused x).map Address.plain := by
  obtain ⟨s', cs, heq, hmap⟩ := set_addresses_plain alive now later s hc
  refine ⟨s'.erase w, ?_, hmap.trans ?_⟩
  · cases svc <;>
      simp only [Service.retire, controller.retire, segment.retire, south_err, if_true, expire_address_of_eq, heq,
        Option.map_some]
  · congr 1
    apply List.filter_congr
    intro x hx
    simp only [keeps, weighed_past]
    by_cases hr : a.Refused x
    · rcases hpast.refused x hx hr with h | h
      · simp [hr, h]
      · simp [hr, h]
    · obtain ⟨hlater, hmax⟩ := hpast.others x hx hr
      have hfirst : ¬ x.past (now - HYST_WND) := fun h => hlater (past_mono hpast.clock h)
      simp [hr, hlater, hfirst, hmax]

/-- One address whose TTL is over at second 60, and one whose TTL never is. -/
def twoAddresses : List Address :=
  [⟨[2, 0, 1], 16, 0, 60, ⟨1, 0, 1⟩, sockaddr_in_fits⟩, ⟨[2, 0, 2], 16, 0, -1, ⟨1, 0, 1⟩, sockaddr_in_fits⟩]

/-- An interface with the two addresses, whose stream 4 was connected to the first one. -/
def twoBackends : InterfaceBase := ⟨"b:1".toList, "TCP".toList, twoAddresses, [4], [], 0, 2, 1⟩

/-- The buffer of a stream that is new. -/
def emptyBuffer : SocketMessage := ⟨[], 0, [], MIN_BUFSIZE, 0, rfl⟩

/-- After a minute the refused address goes, and the other one stays. -/
theorem a_refused_address_goes_with_its_ttl :
    ∃ s', Service.controller.retire (fun _ => true) 100 100 ECONNREFUSED 4 (emptyBuffer.connectto [2, 0, 1] 16 [])
        twoBackends = some s' ∧
      s'.addresses.map Address.plain =
        (twoAddresses.filter fun x => ¬ (⟨[2, 0, 1], 16, 0, 60, ⟨1, 0, 1⟩, .inl (by decide)⟩ : Address).Refused x).map
          Address.plain :=
  a_refused_address_is_retired .controller (fun _ => true) 100 100 4 _ twoBackends _ (by decide)
    ⟨by decide, by decide +kernel, by decide +kernel⟩

/-- A connect is refused within the TTL of its address: the address stays in the list, in both services. -/
theorem a_refused_address_stays :
    (emptyBuffer.connectto [2, 0, 1] 16 []).Reach [2, 0, 1] 16 ∧
      (⟨[2, 0, 1], 16, 0, 60, ⟨1, 0, 1⟩, .inl (by decide)⟩ : Address) ∈ twoBackends.addresses ∧
      ∀ svc : Service, svc.retire (fun _ => true) 10 10 ECONNREFUSED 4 (emptyBuffer.connectto [2, 0, 1] 16 [])
        twoBackends = some { twoBackends with streams := [] } := by
  refine ⟨.connectto _ _, by decide, ?_⟩
  intro svc
  cases svc <;> decide +kernel

end InterfaceBase

end cloudbus
