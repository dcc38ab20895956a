-- The addresses of the configuration (config/config.cpp): `make_address` and its
-- scanners, which go over a line by pointer and length, compared with what they do
-- to the characters.
import Cloudbus.Lib.Scan
import Cloudbus.Lib.Text
import Mathlib.Data.BitVec

open Text

namespace cloudbus.config

/-- A `std::string` is shorter than half of the memory. -/
structure Line where
  chars : List Char
  fits : chars.length < 2 ^ 63

/-- The characters and the terminating NUL. -/
def Line.mem (line : Line) : List Char := line.chars ++ ['\x00']

/-- `std::string_view`, by the position of its first character. -/
structure View where
  start : Nat
  size : Nat
deriving DecidableEq, Repr

/-- `std::string_view()` -/
def View.null : View := ⟨0, 0⟩

inductive HostnameType where
  | HOSTNAME_ERROR | IPV4 | IPV6 | HOSTNAME
deriving DecidableEq, Repr

/-- What `inet_pton` makes of an address. -/
structure InetPton where
  v4 : List Char → Option (BitVec 32)
  v6 : List Char → Option (BitVec 128)
  /-- Four decimal numbers with a period between them. -/
  dotted : ∀ a x, v4 a = some x → (∀ c ∈ a, c.isDigit ∨ c = '.') ∧ a.count '.' = 3
  /-- A C string, which is not empty. -/
  bracket : ∀ a x, v6 a = some x → a ≠ [] ∧ ']' ∉ a ∧ '\x00' ∉ a

/-- What a `sockaddr_storage` holds. -/
inductive Sockaddr where
  | un (sun_path : List Char)
  | in4 (sin_addr : BitVec 32) (sin_port : Fin (2 ^ 16))
  | in6 (sin6_addr : BitVec 128) (sin6_port : Fin (2 ^ 16))
deriving DecidableEq, Repr

/-- `address_type` -/
inductive AddressType where
  | uri (uri : List Char)
  | url (host protocol : List Char)
  | sockaddr (protocol : List Char) (addr : Sockaddr) (addrlen : Nat)
deriving DecidableEq, Repr

/-- `address_type()` is the failure value. -/
def AddressType.failure : AddressType := .uri []

def UNIX : List Char := "UNIX".toList
def TCP : List Char := "TCP".toList
def UDP : List Char := "UDP".toList
def SCTP : List Char := "SCTP".toList

def upper (l : List Char) : List Char := l.map Char.toUpper

/-- `c_str()`: a C string ends at the first NUL. -/
def c_str (l : List Char) : List Char := l.takeWhile (· != '\x00')

def decimal (digits : List Char) : Nat := digits.foldl (fun n c => 10 * n + (c.toNat - '0'.toNat)) 0

/-- `std::from_chars` for a port, of digits. -/
def from_chars (digits : List Char) : Option (Fin (2 ^ 16)) :=
  if h : decimal digits < 2 ^ 16 then some ⟨decimal digits, h⟩ else none

/-- `sizeof(struct sockaddr_un) - offsetof(struct sockaddr_un, sun_path) - 1` -/
def MAXLEN : Nat := 107

/-- ALPHA, DIGIT, "+", "-" and "." -/
def schemeChar (c : Char) : Bool := c.isAlpha || c.isDigit || c == '+' || c == '-' || c == '.'

/-! ## The scanners -/

section

variable (mem : List Char)

/-- `std::string_view(start, stop-start)` -/
def view (start stop : Nat) : Scan View := do
  let size ← Scan.sub stop start
  pure ⟨start, size⟩

/-- Where a loop over characters stops, which can be the end: the last part of `_path`, `_port` and `_host`. -/
def take_view (p : Char → Bool) (c len : Nat) : Scan View := do
  let r ← Scan.skip mem p c len
  if r.2 = Scan.SIZE_MAX then view c r.1 else view c (r.1 - 1)

/-- Where a loop over characters stops before the end: the last part of `_ipv4` and `_ipv6`. -/
def until_view (p : Char → Bool) (c len : Nat) : Scan View := do
  let r ← Scan.skip mem p c len
  if r.2 = Scan.SIZE_MAX then pure .null else view c (r.1 - 1)

/-- `_path` -/
def path (c len : Nat) : Scan View := do
  Scan.pass c len
  let r ← Scan.skip mem isspace c len
  if r.2 = Scan.SIZE_MAX then pure .null else take_view mem (fun ch => !isspace ch) (r.1 - 1) (r.2 + 1)

/-- `_port` -/
def port (c len : Nat) : Scan View := do
  Scan.pass c len
  take_view mem Char.isDigit c len

/-- `_ipv4` -/
def ipv4 (c len : Nat) : Scan View := do
  Scan.pass c len
  until_view mem (· != ':') c len

/-- `_ipv6`, which goes past the bracket and keeps the length. -/
def ipv6 (c len : Nat) : Scan View := do
  Scan.pass c len
  let bracket ← Scan.get mem c
  if bracket ≠ '[' then pure .null else until_view mem (· != ']') (c + 1) len

/-- `_host` -/
def host (c len : Nat) : Scan View := do
  Scan.pass c len
  take_view mem (fun ch => !isspace ch) c len

/-- The loop of `_hostname_type`. -/
def hostname_loop (start : Nat) : Nat → Nat → Nat → Scan HostnameType
  | _, _, 0 => pure .HOSTNAME_ERROR
  | period_count, c, len + 1 => do
    let cur ← Scan.get mem c
    if cur = '.' then hostname_loop start (period_count + 1) (c + 1) len
    else if cur = '[' then pure (if c = start then .IPV6 else .HOSTNAME_ERROR)
    else if cur = ':' then pure (if period_count = 3 then .IPV4 else .HOSTNAME)
    else if cur.isDigit then hostname_loop start period_count (c + 1) len
    else pure .HOSTNAME

/-- `_hostname_type` -/
def hostname_type (c len : Nat) : Scan HostnameType := do
  Scan.pass c len
  hostname_loop mem c 0 c len

/-- The second loop of `_protocol`. -/
def protocol_loop (start : Nat) : Nat → Nat → Scan View
  | _, 0 => pure .null
  | c, len + 1 => do
    let cur ← Scan.get mem c
    if cur = ':' then view start c
    else if schemeChar cur then protocol_loop start (c + 1) len
    else pure .null

/-- `_protocol` -/
def protocol (c len : Nat) : Scan View := do
  Scan.pass c len
  let r ← Scan.skip mem isspace c len
  if r.2 = Scan.SIZE_MAX then pure .null
  else
    let first ← Scan.get mem (r.1 - 1)
    if first.isAlpha then protocol_loop mem (r.1 - 1) (r.1 - 1) (r.2 + 1) else pure .null

/-! ## The addresses -/

/-- `std::strncpy` -/
def strncpy : Nat → Nat → Scan (List Char)
  | _, 0 => pure []
  | c, len + 1 => do
    let ch ← Scan.get mem c
    if ch = '\x00' then pure (List.replicate (len + 1) '\x00')
    else
      let rest ← strncpy (c + 1) len
      pure (ch :: rest)

/-- `make_unix_address`, with the address and its length. -/
def make_unix_address (path : View) : Scan (Option (Sockaddr × Nat)) :=
  if path.size = 0 ∨ path.size > MAXLEN then pure none
  else do
    let sun_path ← strncpy mem path.start path.size
    pure (some (.un sun_path, 2 + path.size))

variable (inet : InetPton)

/-- The end of `make_ipv4_address` and `make_ipv6_address`: the address at `ip`, and its port from `start` on. -/
def make_inet_address {β : Type} (pton : List Char → Option β) (addr : β → Fin (2 ^ 16) → Sockaddr) (addrlen : Nat)
    (host ip : View) (start : Nat) : Scan (Option (Sockaddr × Nat)) := do
  let before ← Scan.sub start host.start
  let size ← Scan.sub host.size before
  let port ← port mem start size
  if port.size = 0 then pure none
  else
    let a ← Scan.copy mem ip.start ip.size
    match pton (c_str a) with
    | none => pure none
    | some x =>
      let digits ← Scan.copy mem port.start port.size
      pure ((from_chars digits).map fun n => (addr x n, addrlen))

/-- `make_ipv4_address` -/
def make_ipv4_address (host : View) : Scan (Option (Sockaddr × Nat)) :=
  if host.size = 0 then pure none
  else do
    let ip ← ipv4 mem host.start host.size
    if ip.size = 0 ∨ ip.size + 1 ≥ host.size then pure none
    else make_inet_address mem inet.v4 .in4 16 host ip (ip.start + ip.size + 1)

/-- `make_ipv6_address` -/
def make_ipv6_address (host : View) : Scan (Option (Sockaddr × Nat)) :=
  if host.size = 0 then pure none
  else do
    let ip ← ipv6 mem host.start host.size
    if ip.size = 0 ∨ ip.size + 3 ≥ host.size then pure none
    else make_inet_address mem inet.v6 .in6 28 host ip (ip.start + ip.size + 2)

/-- `make_url` -/
def make_url (host : View) (p : List Char) : Scan AddressType := do
  let colon ← Scan.find mem (· == ':') host.start host.size
  if colon = host.start + host.size ∨ colon + 1 = host.start + host.size then pure .failure
  else
    let it ← Scan.find mem (fun ch => !ch.isDigit) (colon + 1) (host.start + host.size - (colon + 1))
    if it = host.start + host.size then
      let u ← Scan.copy mem host.start host.size
      pure (.url u p)
    else pure .failure

end

/-- An address with its protocol; there is none after a failure. -/
def AddressType.of (protocol : List Char) : Option (Sockaddr × Nat) → AddressType
  | none => .failure
  | some (addr, addrlen) => .sockaddr protocol addr addrlen

/-- `make_address` of a line with its protocol. -/
def make_address_of (inet : InetPton) (line : Line) (protocol : List Char) : Scan AddressType := do
  let start := protocol.length + 3
  let size ← Scan.sub line.chars.length start
  if protocol = UNIX then
    let path ← path line.mem start size
    let addr ← make_unix_address line.mem path
    pure (.of protocol addr)
  else if protocol = TCP ∨ protocol = UDP ∨ protocol = SCTP then
    let host ← host line.mem start size
    if host.size = 0 then pure .failure
    else
      match ← hostname_type line.mem host.start host.size with
      | .IPV4 => AddressType.of protocol <$> make_ipv4_address line.mem inet host
      | .IPV6 => AddressType.of protocol <$> make_ipv6_address line.mem inet host
      | .HOSTNAME => make_url line.mem host protocol
      | .HOSTNAME_ERROR => pure .failure
  else pure .failure

/-- `make_address` -/
def make_address (inet : InetPton) (line : Line) : Scan AddressType := do
  let view ← protocol line.mem 0 line.chars.length
  let scheme ← Scan.copy line.mem view.start view.size
  if scheme ≠ [] then
    let protocol := upper scheme
    if protocol = UNIX ∨ protocol = TCP ∨ protocol = UDP ∨ protocol = SCTP then make_address_of inet line protocol
    else
      let view ← path line.mem 0 line.chars.length
      let uri ← Scan.copy line.mem view.start view.size
      pure (.uri uri)
  else pure .failure

/-! ## What the scanners find -/

/-- The first characters that are no spaces. -/
def token (l : List Char) : List Char := (l.dropWhile isspace).takeWhile fun c => !isspace c

/-- The scheme of a line, before its colon. -/
def scheme (l : List Char) : List Char :=
  let s := l.dropWhile isspace
  if s.head?.any Char.isAlpha ∧ (s.dropWhile schemeChar).head? = some ':' then s.takeWhile schemeChar else []

def hostnameType (first : Bool) (period_count : Nat) : List Char → HostnameType
  | [] => .HOSTNAME_ERROR
  | c :: l =>
    if c = '.' then hostnameType false (period_count + 1) l
    else if c = '[' then if first then .IPV6 else .HOSTNAME_ERROR
    else if c = ':' then if period_count = 3 then .IPV4 else .HOSTNAME
    else if c.isDigit then hostnameType false period_count l
    else .HOSTNAME

def unixAddress (l : List Char) : Option (Sockaddr × Nat) :=
  if l = [] ∨ l.length > MAXLEN then none
  else some (.un (c_str l ++ List.replicate (l.length - (c_str l).length) '\x00'), 2 + l.length)

/-- An address and what follows it: a port, and characters that are not looked at. -/
def inetAddress {β : Type} (pton : List Char → Option β) (addr : β → Fin (2 ^ 16) → Sockaddr) (addrlen : Nat)
    (ip rest : List Char) : Option (Sockaddr × Nat) :=
  if rest.takeWhile Char.isDigit = [] then none
  else (pton (c_str ip)).bind fun x => (from_chars (rest.takeWhile Char.isDigit)).map fun n => (addr x n, addrlen)

def beforeColon (h : List Char) : List Char := if ':' ∈ h then h.takeWhile (· != ':') else []

def ipv4Address (inet : InetPton) (h : List Char) : Option (Sockaddr × Nat) :=
  let ip := beforeColon h
  if ip = [] ∨ ip.length + 1 ≥ h.length then none else inetAddress inet.v4 .in4 16 ip (h.drop (ip.length + 1))

def inBrackets : List Char → List Char
  | [] => []
  | c :: h => if c = '[' ∧ ']' ∈ h then h.takeWhile (· != ']') else []

def ipv6Address (inet : InetPton) (h : List Char) : Option (Sockaddr × Nat) :=
  let ip := inBrackets h
  if ip = [] ∨ ip.length + 3 ≥ h.length then none else inetAddress inet.v6 .in6 28 ip (h.drop (ip.length + 3))

def urlAddress (h protocol : List Char) : AddressType :=
  let port := (h.dropWhile (· != ':')).drop 1
  if port ≠ [] ∧ port.all Char.isDigit then .url h protocol else .failure

def hostAddress (inet : InetPton) (protocol h : List Char) : AddressType :=
  if h = [] then .failure
  else match hostnameType true 0 h with
    | .IPV4 => .of protocol (ipv4Address inet h)
    | .IPV6 => .of protocol (ipv6Address inet h)
    | .HOSTNAME => urlAddress h protocol
    | .HOSTNAME_ERROR => .failure

def Supported (protocol : List Char) : Prop := protocol = UNIX ∨ protocol = TCP ∨ protocol = UDP ∨ protocol = SCTP

instance (protocol : List Char) : Decidable (Supported protocol) :=
  inferInstanceAs (Decidable (protocol = UNIX ∨ protocol = TCP ∨ protocol = UDP ∨ protocol = SCTP))

/-- The address of a line, from its characters alone. -/
def address (inet : InetPton) (l : List Char) : AddressType :=
  let s := scheme l
  let rest := l.drop (s.length + 3)
  if s = [] then .failure
  else if Supported (upper s) then
    if upper s = UNIX then .of UNIX (unixAddress (token rest))
    else hostAddress inet (upper s) (rest.takeWhile fun c => !isspace c)
  else .uri (token l)

/-! ## The scanners go over what they are given -/

/-- A view shows these characters. -/
structure Shows (mem : List Char) (v : View) (l : List Char) : Prop where
  inside : v.start + v.size < mem.length
  slice : Scan.slice mem v.start v.size = l

section

variable {mem : List Char} {v : View} {l : List Char} {p : Char → Bool} {c len : Nat}

theorem Shows.size (h : Shows mem v l) : v.size = l.length := by
  rw [← h.slice, Scan.length_slice (Nat.le_of_lt h.inside)]

theorem Shows.copy (h : Shows mem v l) : Scan.Ends mem.length (Scan.copy mem v.start v.size) l :=
  h.slice ▸ Scan.ends_copy (Nat.le_of_lt h.inside)

theorem shows_null (h : 0 < mem.length) : Shows mem .null [] := ⟨h, rfl⟩

/-- A view of the first characters of a slice. -/
theorem shows_takeWhile (h : c + len < mem.length) :
    Shows mem ⟨c, ((Scan.slice mem c len).takeWhile p).length⟩ ((Scan.slice mem c len).takeWhile p) := by
  have hle : 0 + ((Scan.slice mem c len).takeWhile p).length ≤ len := by
    rw [Nat.zero_add]
    exact le_of_le_of_eq (List.takeWhile_prefix p).length_le (Scan.length_slice (Nat.le_of_lt h))
  refine ⟨by dsimp only; omega, ?_⟩
  exact (Scan.slice_slice hle).trans Scan.take_takeWhile

theorem ends_view {size start stop : Nat} (h : start ≤ stop) (hs : stop < 2 ^ 64) :
    Scan.Ends size (view start stop) ⟨start, stop - start⟩ :=
  (Scan.ends_sub h hs).bind (.pure _)

theorem stop_eq_of_not_all (h : ¬ l.all p) (hl : l.length < 2 ^ 64) :
    Scan.stop p c l = (c + (l.takeWhile p).length + 1, l.length - (l.takeWhile p).length - 1) ∧
      l.length - (l.takeWhile p).length - 1 ≠ Scan.SIZE_MAX := by
  have hlt := Scan.length_takeWhile_lt h
  refine ⟨if_neg h, ?_⟩
  unfold Scan.SIZE_MAX
  omega

theorem ends_take_view (h : c + len < mem.length) (hm : mem.length < 2 ^ 64) :
    Scan.Ends mem.length (take_view mem p c len) ⟨c, ((Scan.slice mem c len).takeWhile p).length⟩ := by
  have hlen : (Scan.slice mem c len).length = len := Scan.length_slice (Nat.le_of_lt h)
  refine (Scan.ends_skip (Nat.le_of_lt h)).bind ?_
  by_cases hall : (Scan.slice mem c len).all p
  · rw [Scan.takeWhile_of_all hall, Scan.stop, if_pos hall, if_pos rfl]
    exact (ends_view (by omega) (by omega)).congr (by rw [Nat.add_sub_cancel_left])
  · obtain ⟨hstop, hne⟩ := stop_eq_of_not_all (c := c) hall (by omega)
    have hlt := Scan.length_takeWhile_lt hall
    rw [hstop, if_neg hne]
    exact (ends_view (by omega) (by omega)).congr (by rw [Nat.add_sub_cancel, Nat.add_sub_cancel_left])

theorem ends_until_view (h : c + len ≤ mem.length) (hm : mem.length < 2 ^ 64) :
    Scan.Ends mem.length (until_view mem p c len)
      (if (Scan.slice mem c len).all p then .null else ⟨c, ((Scan.slice mem c len).takeWhile p).length⟩) := by
  have hlen := Scan.length_slice h
  refine (Scan.ends_skip h).bind ?_
  by_cases hall : (Scan.slice mem c len).all p
  · rw [Scan.stop, if_pos hall, if_pos rfl, if_pos hall]
    exact .pure _
  · obtain ⟨hstop, hne⟩ := stop_eq_of_not_all (c := c) hall (by omega)
    have hlt := Scan.length_takeWhile_lt hall
    rw [hstop, if_neg hne, if_neg hall]
    exact (ends_view (by omega) (by omega)).congr (by rw [Nat.add_sub_cancel, Nat.add_sub_cancel_left])

/-- `_port` and `_host` -/
theorem ends_port (h : c + len < mem.length) (hm : mem.length < 2 ^ 64) :
    ∃ v, Scan.Ends mem.length (port mem c len) v ∧ Shows mem v ((Scan.slice mem c len).takeWhile Char.isDigit) :=
  ⟨_, (Scan.ends_pass h).bind (ends_take_view h hm), shows_takeWhile h⟩

theorem ends_host (h : c + len < mem.length) (hm : mem.length < 2 ^ 64) :
    ∃ v, Scan.Ends mem.length (host mem c len) v ∧ v.start = c ∧
      Shows mem v ((Scan.slice mem c len).takeWhile fun ch => !isspace ch) :=
  ⟨_, (Scan.ends_pass h).bind (ends_take_view h hm), rfl, shows_takeWhile h⟩

theorem all_ne_iff {ch : Char} : (l.all (· != ch)) = true ↔ ch ∉ l := by
  rw [List.all_eq_true]
  constructor
  · intro h hmem
    exact absurd (h ch hmem) (by simp)
  · intro h x hx
    rw [bne_iff_ne]
    rintro rfl
    exact h hx

theorem ends_ipv4 (h : c + len < mem.length) (hm : mem.length < 2 ^ 64) :
    ∃ v, Scan.Ends mem.length (ipv4 mem c len) v ∧ (v.size ≠ 0 → v.start = c) ∧
      Shows mem v (beforeColon (Scan.slice mem c len)) := by
  unfold beforeColon
  refine ⟨_, (Scan.ends_pass h).bind (ends_until_view (Nat.le_of_lt h) hm), ?_⟩
  by_cases hall : (Scan.slice mem c len).all (· != ':')
  · rw [if_pos hall, if_neg (all_ne_iff.mp hall)]
    exact ⟨fun h => absurd rfl h, shows_null (by omega)⟩
  · rw [if_neg hall, if_pos (not_not.mp (mt all_ne_iff.mpr hall))]
    exact ⟨fun _ => rfl, shows_takeWhile h⟩

/-- The loop of `_ipv6` goes one character too far, to what follows the host. -/
theorem ends_ipv6 {ch : Char} {tail : List Char} (hm : mem.length < 2 ^ 64) (hl : Scan.slice mem c len = ch :: tail)
    (h : c + len < mem.length) (hnext : mem[c + len]? ≠ some ']') :
    ∃ v, Scan.Ends mem.length (ipv6 mem c len) v ∧ (v.size ≠ 0 → v.start = c + 1) ∧
      Shows mem v (inBrackets (ch :: tail)) := by
  rw [inBrackets]
  have hlen : len = tail.length + 1 := by
    rw [← List.length_cons, ← hl, Scan.length_slice (Nat.le_of_lt h)]
  subst hlen
  obtain ⟨x, hget, heq⟩ := Scan.slice_succ (Nat.le_of_lt h)
  obtain ⟨rfl, htail⟩ := List.cons_eq_cons.mp (heq.symm.trans hl)
  by_cases hbr : x = '['
  · obtain ⟨y, hy, hsnoc⟩ := Scan.slice_snoc (show c + 1 + (tail.length + 1) ≤ mem.length by omega)
    have hne : y ≠ ']' := by
      rintro rfl
      exact hnext (by rw [← hy, Nat.add_right_comm, Nat.add_assoc])
    have hends : Scan.Ends mem.length (ipv6 mem c (tail.length + 1)) _ :=
      (Scan.ends_pass h).bind ((Scan.ends_get hget).bind
        (by rw [if_neg (not_not.mpr hbr)]; exact ends_until_view (by omega) hm))
    refine ⟨_, hends, ?_⟩
    rw [hsnoc, htail]
    by_cases hin : ']' ∈ tail
    · have hall : ¬ (tail ++ [y]).all (· != ']') := fun h => all_ne_iff.mp h (List.mem_append_left _ hin)
      have hlt := Scan.length_takeWhile_lt (mt all_ne_iff.mp (not_not.mpr hin))
      rw [if_neg hall, if_pos ⟨hbr, hin⟩, List.takeWhile_append, if_neg (Nat.ne_of_lt hlt)]
      have hshows := shows_takeWhile (p := (· != ']')) (show c + 1 + tail.length < mem.length by omega)
      rw [htail] at hshows
      exact ⟨fun _ => rfl, hshows⟩
    · have hall : (tail ++ [y]).all (· != ']') := by
        rw [all_ne_iff, List.mem_append, List.mem_singleton]
        exact fun h => h.elim hin fun h => hne h.symm
      rw [if_pos hall, if_neg fun h => hin h.2]
      exact ⟨fun h => absurd rfl h, shows_null (by omega)⟩
  · refine ⟨.null, (Scan.ends_pass h).bind ((Scan.ends_get hget).bind ?_), fun h => absurd rfl h, ?_⟩
    · rw [if_pos hbr]
      exact .pure _
    · rw [if_neg fun h => hbr h.1]
      exact shows_null (by omega)

/-- The spaces at the front, in `_path` and `_protocol`. -/
theorem ends_skip_spaces (h : c + len < mem.length) (hm : mem.length < 2 ^ 64) :
    ((Scan.slice mem c len).dropWhile isspace = [] ∧
        Scan.Ends mem.length (Scan.skip mem isspace c len) (c + len, Scan.SIZE_MAX)) ∨
      ∃ k < len, Scan.Ends mem.length (Scan.skip mem isspace c len) (c + k + 1, len - k - 1) ∧
        len - k - 1 ≠ Scan.SIZE_MAX ∧ Scan.slice mem (c + k) (len - k) = (Scan.slice mem c len).dropWhile isspace := by
  have hlen : (Scan.slice mem c len).length = len := Scan.length_slice (Nat.le_of_lt h)
  have hskip := Scan.ends_skip (p := isspace) (Nat.le_of_lt h)
  by_cases hall : (Scan.slice mem c len).all isspace
  · refine .inl ⟨List.dropWhile_eq_nil_iff.mpr (List.all_eq_true.mp hall), ?_⟩
    rwa [Scan.stop, if_pos hall, hlen] at hskip
  · obtain ⟨hstop, hne⟩ := stop_eq_of_not_all (c := c) hall (by omega)
    have hlt := Scan.length_takeWhile_lt hall
    have hdrop := Scan.drop_takeWhile (p := isspace) (l := Scan.slice mem c len)
    generalize ((Scan.slice mem c len).takeWhile isspace).length = k at hstop hne hlt hdrop
    rw [hlen] at hstop hne hlt
    refine .inr ⟨k, hlt, hstop ▸ hskip, hne, ?_⟩
    rw [Scan.slice_slice (show k + (len - k) ≤ len by omega), ← hdrop, Scan.slice]
    exact List.take_of_length_le (by rw [List.length_drop, hlen])

theorem ends_path (h : c + len < mem.length) (hm : mem.length < 2 ^ 64) :
    ∃ v, Scan.Ends mem.length (path mem c len) v ∧ Shows mem v (token (Scan.slice mem c len)) := by
  rcases ends_skip_spaces h hm with ⟨hnil, hskip⟩ | ⟨k, hk, hskip, hne, hrest⟩
  · refine ⟨.null, (Scan.ends_pass h).bind (hskip.bind ?_), ?_⟩
    · rw [if_pos rfl]
      exact .pure _
    · rw [token, hnil]
      exact shows_null (by omega)
  · have hin : c + k + (len - k) < mem.length := by omega
    refine ⟨⟨c + k, ((Scan.slice mem (c + k) (len - k)).takeWhile fun ch => !isspace ch).length⟩,
      (Scan.ends_pass h).bind (hskip.bind ?_), ?_⟩
    · rw [if_neg hne, Nat.add_sub_cancel, Nat.sub_add_cancel (by omega)]
      exact ends_take_view hin hm
    · rw [token, ← hrest]
      exact shows_takeWhile hin

theorem ends_hostname_loop {start period_count : Nat} (hs : start ≤ c) (h : c + len ≤ mem.length) :
    Scan.Ends mem.length (hostname_loop mem start period_count c len)
      (hostnameType (decide (c = start)) period_count (Scan.slice mem c len)) := by
  induction len generalizing c period_count with
  | zero => exact .pure _
  | succ len ih =>
    obtain ⟨ch, hch, heq⟩ := Scan.slice_succ h
    have hnext : decide (c + 1 = start) = false := decide_eq_false (by omega)
    have hrest : ∀ n, Scan.Ends mem.length (hostname_loop mem start n (c + 1) len)
        (hostnameType false n (Scan.slice mem (c + 1) len)) := fun n => hnext ▸ ih (by omega) (by omega)
    rw [heq]
    refine (Scan.ends_get hch).bind ?_
    unfold hostnameType
    simp only [decide_eq_true_eq]
    split_ifs
    · exact hrest _
    · exact .pure _
    · exact .pure _
    · exact .pure _
    · exact .pure _
    · exact hrest _
    · exact .pure _

theorem ends_hostname_type (h : c + len < mem.length) :
    Scan.Ends mem.length (hostname_type mem c len) (hostnameType true 0 (Scan.slice mem c len)) :=
  (Scan.ends_pass h).bind ((ends_hostname_loop (Nat.le_refl c) (Nat.le_of_lt h)).congr (by rw [decide_eq_true rfl]))

/-- The second loop of `_protocol`, whose first characters began at `start`. -/
theorem ends_protocol_loop {start : Nat} (hs : start ≤ c) (h : c + len ≤ mem.length) (hm : mem.length < 2 ^ 64) :
    Scan.Ends mem.length (protocol_loop mem start c len)
      (if ((Scan.slice mem c len).dropWhile schemeChar).head? = some ':' then
        ⟨start, c + ((Scan.slice mem c len).takeWhile schemeChar).length - start⟩ else .null) := by
  induction len generalizing c with
  | zero => exact .pure _
  | succ len ih =>
    obtain ⟨ch, hch, heq⟩ := Scan.slice_succ h
    rw [heq]
    refine (Scan.ends_get hch).bind ?_
    by_cases hcolon : ch = ':'
    · subst hcolon
      rw [if_pos rfl, List.dropWhile_cons_of_neg (by decide), List.head?_cons, if_pos rfl,
        List.takeWhile_cons_of_neg (by decide)]
      exact ends_view hs (by omega)
    · rw [if_neg hcolon]
      by_cases hsc : schemeChar ch
      · rw [if_pos hsc, List.dropWhile_cons_of_pos hsc, List.takeWhile_cons_of_pos hsc, List.length_cons]
        refine (ih (by omega) (by omega)).congr ?_
        rw [Nat.add_right_comm, Nat.add_assoc]
      · rw [if_neg hsc, List.dropWhile_cons_of_neg hsc, List.head?_cons, if_neg (by simpa using hcolon)]
        exact .pure _

theorem ends_protocol (h : c + len < mem.length) (hm : mem.length < 2 ^ 64) :
    ∃ v, Scan.Ends mem.length (protocol mem c len) v ∧ Shows mem v (scheme (Scan.slice mem c len)) := by
  unfold scheme
  dsimp only
  rcases ends_skip_spaces h hm with ⟨hnil, hskip⟩ | ⟨k, hk, hskip, hne, hrest⟩
  · refine ⟨.null, (Scan.ends_pass h).bind (hskip.bind ?_), ?_⟩
    · rw [if_pos rfl]
      exact .pure _
    · rw [hnil]
      exact shows_null (by omega)
  · rw [← hrest]
    have hin : c + k + (len - k) < mem.length := by omega
    obtain ⟨n, hn⟩ : ∃ n, len - k = n + 1 := ⟨len - k - 1, by omega⟩
    obtain ⟨ch, hch, heq⟩ := Scan.slice_succ (show c + k + (n + 1) ≤ mem.length by omega)
    have hhead : (Scan.slice mem (c + k) (len - k)).head? = some ch := by rw [hn, heq, List.head?_cons]
    by_cases halpha : ch.isAlpha
    · have hends : ∀ w, Scan.Ends mem.length (protocol_loop mem (c + k) (c + k) (len - k)) w →
          Scan.Ends mem.length (protocol mem c len) w := by
        intro w hw
        refine (Scan.ends_pass h).bind (hskip.bind ?_)
        rw [if_neg hne, Nat.add_sub_cancel, Nat.sub_add_cancel (by omega)]
        refine (Scan.ends_get hch).bind ?_
        rwa [if_pos halpha]
      refine ⟨_, hends _ (ends_protocol_loop (Nat.le_refl (c + k)) (Nat.le_of_lt hin) hm), ?_⟩
      rw [hhead, Option.any_some, Nat.add_sub_cancel_left]
      by_cases hcolon : ((Scan.slice mem (c + k) (len - k)).dropWhile schemeChar).head? = some ':'
      · rw [if_pos hcolon, if_pos ⟨halpha, hcolon⟩]
        exact shows_takeWhile hin
      · rw [if_neg hcolon, if_neg fun h => hcolon h.2]
        exact shows_null (by omega)
    · refine ⟨.null, (Scan.ends_pass h).bind (hskip.bind ?_), ?_⟩
      · rw [if_neg hne, Nat.add_sub_cancel]
        refine (Scan.ends_get hch).bind ?_
        rw [if_neg halpha]
        exact .pure _
      · rw [hhead, if_neg fun h => halpha h.1]
        exact shows_null (by omega)

/-! ## The addresses that they make -/

theorem ends_strncpy (h : c + len ≤ mem.length) :
    Scan.Ends mem.length (strncpy mem c len) (c_str (Scan.slice mem c len) ++
      List.replicate ((Scan.slice mem c len).length - (c_str (Scan.slice mem c len)).length) '\x00') := by
  induction len generalizing c with
  | zero => exact .pure _
  | succ len ih =>
    obtain ⟨ch, hch, heq⟩ := Scan.slice_succ h
    have hlen : (Scan.slice mem (c + 1) len).length = len := Scan.length_slice (by omega)
    rw [heq]
    refine (Scan.ends_get hch).bind ?_
    by_cases hnul : ch = '\x00'
    · rw [if_pos hnul, c_str, List.takeWhile_cons_of_neg (by simp [hnul]), List.length_cons, hlen]
      exact .pure _
    · rw [if_neg hnul, c_str, List.takeWhile_cons_of_pos (by simpa using hnul), List.length_cons, List.length_cons,
        Nat.add_sub_add_right]
      exact (ih (by omega)).bind (.pure _)

theorem ends_make_unix_address (h : Shows mem v l) :
    Scan.Ends mem.length (make_unix_address mem v) (unixAddress l) := by
  unfold make_unix_address unixAddress
  simp only [h.size, List.length_eq_zero_iff]
  split
  · exact .pure _
  · have hcopy := ends_strncpy (Nat.le_of_lt h.inside)
    rw [h.slice, h.size] at hcopy
    exact hcopy.bind (.pure _)

theorem ends_make_inet_address {β : Type} {pton : List Char → Option β} {addr : β → Fin (2 ^ 16) → Sockaddr}
    {addrlen d : Nat} {ip : View} {a : List Char} (hm : mem.length < 2 ^ 64) (hhost : Shows mem v l)
    (hip : Shows mem ip a) (hd : d < l.length) :
    Scan.Ends mem.length (make_inet_address mem pton addr addrlen v ip (v.start + d))
      (inetAddress pton addr addrlen a (l.drop d)) := by
  have hin := hhost.inside
  have hrest : Scan.slice mem (v.start + d) (v.size - d) = l.drop d := by
    rw [Scan.slice_slice (show d + (v.size - d) ≤ v.size by have := hhost.size; omega), hhost.slice, Scan.slice]
    exact List.take_of_length_le (by rw [List.length_drop, hhost.size])
  obtain ⟨w, hport, hshows⟩ := ends_port (show v.start + d + (v.size - d) < mem.length by have := hhost.size; omega) hm
  rw [hrest] at hshows
  refine (Scan.ends_sub (Nat.le_add_right _ _) (by have := hhost.size; omega)).bind ?_
  rw [Nat.add_sub_cancel_left]
  refine (Scan.ends_sub (by have := hhost.size; omega) (by omega)).bind (hport.bind ?_)
  unfold inetAddress
  by_cases hnone : w.size = 0
  · rw [if_pos hnone, if_pos (List.length_eq_zero_iff.mp (hshows.size ▸ hnone))]
    exact .pure _
  · rw [if_neg hnone, if_neg fun hnil => hnone (by rw [hshows.size, hnil]; rfl)]
    refine hip.copy.bind ?_
    cases pton (c_str a) with
    | none => exact .pure _
    | some x => exact hshows.copy.bind (.pure _)

theorem ends_make_ipv4_address {inet : InetPton} (hm : mem.length < 2 ^ 64) (h : Shows mem v l) :
    Scan.Ends mem.length (make_ipv4_address mem inet v) (ipv4Address inet l) := by
  unfold make_ipv4_address ipv4Address
  dsimp only
  by_cases hnil : v.size = 0
  · have hl : l = [] := List.length_eq_zero_iff.mp (h.size ▸ hnil)
    rw [if_pos hnil, hl]
    exact .pure _
  · rw [if_neg hnil]
    obtain ⟨ip, hip, hstart, hshows⟩ := ends_ipv4 h.inside hm
    rw [h.slice] at hshows
    refine hip.bind ?_
    generalize beforeColon l = a at hshows
    simp only [hshows.size, h.size, List.length_eq_zero_iff]
    split
    · exact .pure _
    · rename_i hne
      rw [not_or, Nat.not_le] at hne
      rw [hstart fun hz => hne.1 (List.length_eq_zero_iff.mp (hshows.size ▸ hz)), Nat.add_assoc]
      exact ends_make_inet_address hm h hshows hne.2

theorem ends_make_ipv6_address {inet : InetPton} (hm : mem.length < 2 ^ 64) (h : Shows mem v l)
    (hnext : mem[v.start + v.size]? ≠ some ']') :
    Scan.Ends mem.length (make_ipv6_address mem inet v) (ipv6Address inet l) := by
  unfold make_ipv6_address ipv6Address
  dsimp only
  cases l with
  | nil =>
    have hnil : v.size = 0 := h.size
    rw [if_pos hnil]
    exact .pure _
  | cons ch tail =>
    have hpos : v.size ≠ 0 := by
      rw [h.size]
      exact Nat.succ_ne_zero _
    rw [if_neg hpos]
    obtain ⟨ip, hip, hstart, hshows⟩ := ends_ipv6 hm h.slice h.inside hnext
    refine hip.bind ?_
    generalize inBrackets (ch :: tail) = a at hshows
    simp only [hshows.size, h.size, List.length_eq_zero_iff]
    split
    · exact .pure _
    · rename_i hne
      rw [not_or, Nat.not_le] at hne
      rw [hstart fun hz => hne.1 (List.length_eq_zero_iff.mp (hshows.size ▸ hz)),
        show v.start + 1 + a.length + 2 = v.start + (a.length + 3) by omega]
      exact ends_make_inet_address hm h hshows hne.2

/-- The digits after the first colon, up to the end: found as `found` goes on with, from one position to the
other, or `missed`. -/
theorem ends_digits_after_colon {α : Type} {found : Nat → Nat → Scan α} {missed : Scan α} {w : α} (h : Shows mem v l)
    (hmissed : ¬ ((l.dropWhile (· != ':')).drop 1 ≠ [] ∧ ((l.dropWhile (· != ':')).drop 1).all Char.isDigit) →
      Scan.Ends mem.length missed w)
    (hfound : (l.dropWhile (· != ':')).drop 1 ≠ [] ∧ ((l.dropWhile (· != ':')).drop 1).all Char.isDigit →
      Scan.Ends mem.length (found (v.start + (l.takeWhile (· != ':')).length) (v.start + v.size)) w) :
    Scan.Ends mem.length (do
      let colon ← Scan.find mem (· == ':') v.start v.size
      if colon = v.start + v.size ∨ colon + 1 = v.start + v.size then missed
      else
        let it ← Scan.find mem (fun ch => !ch.isDigit) (colon + 1) (v.start + v.size - (colon + 1))
        if it = v.start + v.size then found colon it else missed) w := by
  have hin := h.inside
  have hfind := Scan.ends_find (p := (· == ':')) (Nat.le_of_lt hin)
  rw [h.slice] at hfind
  have hport : (l.dropWhile (· != ':')).drop 1 = l.drop ((l.takeWhile (· != ':')).length + 1) := by
    rw [← Scan.drop_takeWhile, List.drop_drop]
  have hle : (l.takeWhile (· != ':')).length ≤ l.length := (List.takeWhile_prefix _).length_le
  rw [hport] at hmissed hfound
  change Scan.Ends mem.length _ (v.start + (l.takeWhile (· != ':')).length) at hfind
  generalize (l.takeWhile (· != ':')).length = k at hfind hle hmissed hfound
  refine hfind.bind ?_
  rw [h.size] at hfound hin ⊢
  by_cases hend : v.start + k = v.start + l.length ∨ v.start + k + 1 = v.start + l.length
  · rw [if_pos hend]
    exact hmissed fun h => h.1 (List.drop_eq_nil_iff.mpr (by omega))
  · rw [if_neg hend]
    have hrest : Scan.slice mem (v.start + (k + 1)) (l.length - (k + 1)) = l.drop (k + 1) := by
      rw [Scan.slice_slice (show k + 1 + (l.length - (k + 1)) ≤ v.size by rw [h.size]; omega), h.slice, Scan.slice]
      exact List.take_of_length_le (by rw [List.length_drop])
    have hne : l.drop (k + 1) ≠ [] := by
      rw [Ne, List.drop_eq_nil_iff]
      omega
    have hdigits := Scan.ends_find (p := fun ch => !ch.isDigit)
      (show v.start + (k + 1) + (l.length - (k + 1)) ≤ mem.length by omega)
    rw [hrest] at hdigits
    simp only [Bool.not_not] at hdigits
    change Scan.Ends mem.length _ (v.start + (k + 1) + ((l.drop (k + 1)).takeWhile Char.isDigit).length) at hdigits
    rw [Nat.add_assoc, show v.start + l.length - (v.start + (k + 1)) = l.length - (k + 1) by omega]
    refine hdigits.bind ?_
    have hlen : (l.drop (k + 1)).length = l.length - (k + 1) := List.length_drop
    by_cases hall : (l.drop (k + 1)).all Char.isDigit
    · have hstop : v.start + (k + 1) + (l.drop (k + 1)).length = v.start + l.length := by omega
      rw [Scan.takeWhile_of_all hall, hstop, if_pos rfl]
      exact hfound ⟨hne, hall⟩
    · have hlt := Scan.length_takeWhile_lt hall
      rw [if_neg (by omega)]
      exact hmissed fun h => hall h.2

theorem ends_make_url {protocol : List Char} (h : Shows mem v l) :
    Scan.Ends mem.length (make_url mem v protocol) (urlAddress l protocol) := by
  unfold urlAddress
  dsimp only
  refine ends_digits_after_colon h (fun hbad => ?_) fun hgood => ?_
  · rw [if_neg hbad]
    exact .pure _
  · rw [if_pos hgood]
    exact h.copy.bind (.pure _)

end

section

variable {inet : InetPton} {line : Line}

@[simp] theorem Line.length_mem (line : Line) : line.mem.length = line.chars.length + 1 := List.length_append

theorem Line.slice_mem {c len : Nat} (h : c + len ≤ line.chars.length) :
    Scan.slice line.mem c len = Scan.slice line.chars c len := by
  rw [Scan.slice, Line.mem, List.drop_append_of_le_length (by omega),
    List.take_append_of_le_length (by rw [List.length_drop]; omega), Scan.slice]

theorem Line.slice_rest {c : Nat} (h : c ≤ line.chars.length) :
    Scan.slice line.mem c (line.chars.length - c) = line.chars.drop c := by
  rw [Line.slice_mem (by omega), Scan.slice]
  exact List.take_of_length_le (by rw [List.length_drop])

theorem Line.slice_all : Scan.slice line.mem 0 line.chars.length = line.chars := by
  have h : Scan.slice line.mem 0 (line.chars.length - 0) = _ := Line.slice_rest (Nat.zero_le _)
  rwa [Nat.sub_zero, List.drop_zero] at h

/-- What follows a host in the line: a space, or its end. -/
theorem Line.after_host {c : Nat} (h : c ≤ line.chars.length) :
    line.mem[c + ((line.chars.drop c).takeWhile fun ch => !isspace ch).length]? ≠ some ']' := by
  rw [Line.mem, ← List.getElem?_drop, List.drop_append_of_le_length h]
  generalize line.chars.drop c = l
  induction l with
  | nil => decide
  | cons ch l ih =>
    by_cases hs : isspace ch
    · rw [List.takeWhile_cons_of_neg (by simpa using hs)]
      rintro heq
      cases Option.some_inj.mp heq
      exact absurd hs (by decide)
    · rw [List.takeWhile_cons_of_pos (by simpa using hs), List.length_cons, List.cons_append, List.getElem?_cons_succ]
      exact ih

/-- The line goes on at least to where the address is looked for. -/
def Reaches (line : Line) : Prop :=
  Supported (upper (scheme line.chars)) → (scheme line.chars).length + 3 ≤ line.chars.length

instance (line : Line) : Decidable (Reaches line) :=
  inferInstanceAs (Decidable (Supported (upper (scheme line.chars)) → _))

/-- `make_address` stays in the line, and makes of it what its characters say. -/
theorem ends_make_address (h : Reaches line) :
    Scan.Ends line.mem.length (make_address inet line) (address inet line.chars) := by
  have hfits := line.fits
  have hm : line.mem.length < 2 ^ 64 := by rw [Line.length_mem]; omega
  have hall : 0 + line.chars.length < line.mem.length := by rw [Line.length_mem]; omega
  obtain ⟨v, hv, hshows⟩ := ends_protocol hall hm
  rw [Line.slice_all] at hshows
  refine hv.bind (hshows.copy.bind ?_)
  unfold address
  dsimp only
  unfold Reaches at h
  generalize scheme line.chars = s at h
  by_cases hs : s = []
  · rw [if_neg (not_not.mpr hs), if_pos hs]
    exact .pure _
  rw [if_pos hs, if_neg hs]
  by_cases hsup : Supported (upper s)
  · rw [if_pos (show upper s = UNIX ∨ _ from hsup), if_pos hsup]
    have hlen : (upper s).length = s.length := List.length_map _
    have hle := h hsup
    unfold make_address_of
    dsimp only
    rw [hlen]
    refine (Scan.ends_sub hle (by omega)).bind ?_
    have hin : s.length + 3 + (line.chars.length - (s.length + 3)) < line.mem.length := by
      rw [Line.length_mem]
      omega
    by_cases hunix : upper s = UNIX
    · obtain ⟨p, hp, hpath⟩ := ends_path hin hm
      rw [Line.slice_rest hle] at hpath
      rw [if_pos hunix, if_pos hunix, hunix]
      exact hp.bind ((ends_make_unix_address hpath).bind (.pure _))
    · obtain ⟨p, hp, hstart, hhost⟩ := ends_host hin hm
      rw [Line.slice_rest hle] at hhost
      have hnext := Line.after_host hle
      rw [← hhost.size, ← hstart] at hnext
      rw [if_neg hunix, if_neg hunix, if_pos (hsup.resolve_left hunix)]
      refine hp.bind ?_
      unfold hostAddress
      generalize ((line.chars.drop (s.length + 3)).takeWhile fun c => !isspace c) = l at hhost
      simp only [hhost.size, List.length_eq_zero_iff]
      by_cases hl : l = []
      · rw [if_pos hl, if_pos hl]
        exact .pure _
      · rw [if_neg hl, if_neg hl]
        have htype := ends_hostname_type hhost.inside
        rw [hhost.slice, hhost.size] at htype
        refine htype.bind ?_
        cases hostnameType true 0 l with
        | HOSTNAME_ERROR => exact .pure _
        | IPV4 => exact (ends_make_ipv4_address hm hhost).map
        | IPV6 => exact (ends_make_ipv6_address hm hhost hnext).map
        | HOSTNAME => exact ends_make_url hhost
  · rw [if_neg (show ¬ (upper s = UNIX ∨ _) from hsup), if_neg hsup]
    obtain ⟨p, hp, hpath⟩ := ends_path hall hm
    rw [Line.slice_all] at hpath
    exact hp.bind (hpath.copy.bind (.pure _))

end

end cloudbus.config
