-- A service as its section of the configuration makes it (connector/connectors.cpp), and
-- what becomes of its backends: whether `resolve` can throw once the service runs.
import Cloudbus.AddressGrammar
import Cloudbus.ResolverRuns

namespace cloudbus.connector

open config (Line Sockaddr AddressType InetPton)

/-! ## The constructor -/

/-- What a constructor throws, with its text. -/
inductive Exception where
  | invalid_argument (what : String)
  | system_error (what : String)
deriving DecidableEq, Repr

/-- The system call of `make_north` that fails. -/
inductive Refusal where
  | socket | cloexec | get_flags | set_flags | reuseaddr | bind | listen
deriving DecidableEq, Repr

/-- What surrounds the constructor: `inet_pton`, the clock, and which system call fails for the listening
socket with this number. -/
structure Env where
  inet : InetPton
  now : Int
  refused : Nat → Option Refusal

/-- A section: its keys and their values. -/
abbrev Section := List (List Char × Line)

abbrev Options := List (List Char × List Char)

/-- A north interface, which listens on its address. -/
structure North where
  protocol : List Char
  addr : Sockaddr
  addrlen : Nat
deriving DecidableEq, Repr

/-- The connector while it is constructed: `dir` says which interfaces an option is for. -/
structure ConnectorBase where
  north : List North := []
  south : List InterfaceBase := []
  mode : Mode
  dir : Int := 0
  noptions : Options := []
  soptions : Options := []

/-- The bytes of a number, the largest first. -/
def big_endian (n : Nat) : Nat → List UInt8
  | 0 => []
  | k + 1 => big_endian (n / 256) k ++ [UInt8.ofNat n]

/-- What lies in the `sockaddr_storage`. -/
def bytes : Sockaddr → List UInt8
  | .un path => [1, 0] ++ path.map fun c => UInt8.ofNat c.toNat
  | .in4 addr port => [2, 0] ++ big_endian port 2 ++ big_endian addr.toNat 4 ++ List.replicate 8 0
  | .in6 addr port =>
    [10, 0] ++ big_endian port 2 ++ List.replicate 4 0 ++ big_endian addr.toNat 16 ++ List.replicate 4 0

/-- `sizeof(sa_family_t)` -/
def FAMILY : Nat := 2

def invalid_address : Exception :=
  .invalid_argument ("interface_base::interface_base(const std::string& uri, " ++
    "const struct sockaddr *addr, socklen_t addrlen, const " ++
    "std::string& protocol, const duration_type& " ++
    "ttl=duration_type(-1)): Invalid address: addr==nullptr " ++
    "or addrlen < sizeof(sa_family_t).")

/-- `interface_base(uri, protocol)` -/
def interface (uri protocol : List Char) : InterfaceBase := ⟨uri, protocol, [], [], [], 0, 0, SIZE_MAX⟩

theorem fits_storage {addrlen : Nat} (h : addrlen ≤ STORAGE) : addrlen ≤ STORAGE ∨ addrlen = NULL_LEN :=
  .inl h

/-- `interface_base(addr, addrlen, protocol)`. There is no result when the address does not fit into its storage. -/
def interface_at (now : Int) (protocol : List Char) (addr : Sockaddr) (addrlen : Nat) :
    Option (Except Exception InterfaceBase) :=
  if addrlen < FAMILY then some (.error invalid_address)
  else if h : addrlen ≤ STORAGE then
    some (.ok { interface [] protocol with
      addresses := [⟨bytes addr, addrlen, now, -1, ⟨1, 0, SIZE_MAX⟩, fits_storage h⟩] })
  else none

def sun_path : Sockaddr → List Char
  | .un path => path
  | _ => []

/-- What the first system call that fails throws, if one does. -/
def opened (protocol : List Char) (addr : Sockaddr) : Option Refusal → Except Exception Unit
  | none => .ok ()
  | some .socket => .error (.system_error "Unable to open new socket.")
  | some .cloexec => .error (.system_error "Unable to set the cloexec flag.")
  | some .get_flags => .error (.system_error "Unable to get file flags.")
  | some .set_flags => .error (.system_error "Unable to set the socket to nonblocking mode.")
  | some .reuseaddr =>
    if protocol = config.TCP then .error (.system_error "Unable to set SO_REUSEADDR.") else .ok ()
  | some .bind =>
    if protocol = config.UNIX then
      .error (.system_error ("Unable to bind() to path: " ++ String.ofList (config.c_str (sun_path addr))))
    else .error (.system_error "bind()")
  | some .listen => .error (.system_error "listen()")

/-- `make_north`. `false` is its -1. -/
def make_north (env : Env) (c : ConnectorBase) : AddressType → Option (Except Exception (ConnectorBase × Bool))
  | .sockaddr protocol addr addrlen =>
    match interface_at env.now protocol addr addrlen with
    | none => none
    | some (.error e) => some (.error e)
    | some (.ok _) =>
      let c' := { c with north := c.north ++ [⟨protocol, addr, addrlen⟩] }
      if protocol = config.TCP ∨ protocol = config.UNIX then
        match opened protocol addr (env.refused c.north.length) with
        | .error e => some (.error e)
        | .ok _ => some (.ok (c', true))
      else some (.ok (c', false))
  | _ => some (.ok (c, false))

/-- `make_south`, for the three types of an address. It returns 0 for each of them. -/
def make_south (env : Env) : AddressType → Option (Except Exception InterfaceBase)
  | .sockaddr protocol addr addrlen => interface_at env.now protocol addr addrlen
  | .url host protocol => some (.ok (interface host protocol))
  | .uri uri => some (.ok (interface uri []))

/-- An entry of the section. -/
def load_entry (env : Env) (c : ConnectorBase) (key : List Char) (value : Line) :
    Option (Except Exception ConnectorBase) :=
  let k := config.upper key
  if k = "BIND".toList then
    match (config.make_address env.inet value).value with
    | none => none
    | some a =>
      match make_north env c a with
      | none => none
      | some (.error e) => some (.error e)
      | some (.ok (_, false)) => some (.error (.invalid_argument "Invalid bind address."))
      | some (.ok (c, true)) => some (.ok { c with dir := 1 })
  else if k = "BACKEND".toList then
    match (config.make_address env.inet value).value with
    | none => none
    | some a =>
      match make_south env a with
      | none => none
      | some (.error e) => some (.error e)
      | some (.ok s) => some (.ok { c with south := c.south ++ [s], dir := -1 })
  else if k = "MODE".toList then
    some (.ok (if config.upper value.chars = "FULL_DUPLEX".toList then { c with mode := .FULL_DUPLEX } else c))
  else if c.dir = 0 then some (.ok c)
  else if c.dir > 0 then some (.ok { c with noptions := c.noptions ++ [(k, value.chars)] })
  else some (.ok { c with soptions := c.soptions ++ [(k, value.chars)] })

/-- The loop over the section. -/
def load (env : Env) : Section → ConnectorBase → Option (Except Exception ConnectorBase)
  | [], c => some (.ok c)
  | (key, value) :: rest, c =>
    match load_entry env c key value with
    | none => none
    | some (.error e) => some (.error e)
    | some (.ok c) => load env rest c

def CLOCK_SEQ_MAX : Nat := 0x3F

/-- `connector_base(section, mode)`. There is no result when `make_address` leaves its line. -/
def connector_base (env : Env) (sect : Section) (mode : Mode) : Option (Except Exception ConnectorBase) :=
  match load env sect { mode := mode } with
  | none => none
  | some (.error e) => some (.error e)
  | some (.ok c) =>
    if c.north = [] then
      some (.error (.invalid_argument "A service must be configued with a bind address."))
    else if c.south = [] then
      some (.error (.invalid_argument "A service must be configured with at least one backend."))
    else if c.mode = .FULL_DUPLEX ∧ c.south.length > CLOCK_SEQ_MAX then
      some (.error (.invalid_argument "The service fanout ratio will overflow the UUID clock_seq."))
    else some (.ok c)

/-! ## What is accepted -/

/-- The values of the backends. -/
def backends (sect : Section) : List Line :=
  (sect.filter fun e => config.upper e.1 = "BACKEND".toList).map Prod.snd

variable {env : Env} {c c' : ConnectorBase} {sect : Section}

variable {a : AddressType} {key : List Char} {mode : Mode} {ss : List InterfaceBase} {alive : StreamId → Bool}
  {now later : Int} {cs : List Callback} {b : Backend} {m : Moment} {qs : List Query}

theorem make_north_south {r : Bool} (h : make_north env c a = some (.ok (c', r))) : c'.south = c.south := by
  unfold make_north at h
  split at h
  case h_1 =>
    split at h
    case h_1 => cases h
    case h_2 => cases h
    case h_3 =>
      dsimp only at h
      split at h
      case isTrue =>
        split at h
        case h_1 => cases h
        case h_2 =>
          cases h
          rfl
      case isFalse =>
        cases h
        rfl
  case h_2 =>
    cases h
    rfl

variable {s s' : InterfaceBase} {value : Line} {rewrite : List Char → List Char → Option (List Char)}

/-- An entry for a backend adds its interface. -/
theorem load_entry_backend (hk : config.upper key = "BACKEND".toList) (h : load_entry env c key value = some (.ok c')) :
    ∃ a s, (config.make_address env.inet value).value = some a ∧ make_south env a = some (.ok s) ∧
      c'.south = c.south ++ [s] := by
  have hbind : "BACKEND".toList ≠ "BIND".toList := by decide
  unfold load_entry at h
  simp only [hk, if_neg hbind, if_true] at h
  split at h
  case h_1 => cases h
  case h_2 a ha =>
    split at h
    case h_1 => cases h
    case h_2 => cases h
    case h_3 s hs =>
      cases h
      exact ⟨a, s, ha, hs, rfl⟩

/-- Any other entry leaves the backends as they are. -/
theorem load_entry_other (hk : config.upper key ≠ "BACKEND".toList)
    (h : load_entry env c key value = some (.ok c')) : c'.south = c.south := by
  unfold load_entry at h
  dsimp only at h
  split at h
  case isTrue =>
    split at h
    case h_1 => cases h
    case h_2 =>
      split at h
      case h_1 => cases h
      case h_2 => cases h
      case h_3 => cases h
      case h_4 hn =>
        cases h
        have hsouth := make_north_south hn
        exact hsouth
  case isFalse =>
    split at h
    case isTrue =>
      cases h
      split <;> rfl
    case isFalse =>
      split at h
      case isTrue =>
        cases h
        rfl
      case isFalse =>
        split at h <;> cases h <;> rfl

/-- The interfaces are those of the values of the backends, one for each. -/
inductive Made (env : Env) : List Line → List InterfaceBase → Prop
  | nil : Made env [] []
  | cons {value : Line} {values : List Line} {a : AddressType} {s : InterfaceBase} {ss : List InterfaceBase} :
      (config.make_address env.inet value).value = some a → make_south env a = some (.ok s) → Made env values ss →
      Made env (value :: values) (s :: ss)

theorem load_south (h : load env sect c = some (.ok c')) :
    ∃ ss, c'.south = c.south ++ ss ∧ Made env (backends sect) ss := by
  induction sect generalizing c with
  | nil =>
    cases h
    exact ⟨[], by simp, .nil⟩
  | cons e sect ih =>
    obtain ⟨key, value⟩ := e
    unfold load at h
    split at h
    case h_1 => cases h
    case h_2 => cases h
    case h_3 c₁ hentry =>
      obtain ⟨ss, hss, hmade⟩ := ih h
      by_cases hk : config.upper key = "BACKEND".toList
      · obtain ⟨a, s, ha, hs, hsouth⟩ := load_entry_backend hk hentry
        refine ⟨s :: ss, by rw [hss, hsouth, List.append_assoc, List.singleton_append], ?_⟩
        have hcons : backends ((key, value) :: sect) = value :: backends sect := by
          unfold backends
          rw [List.filter_cons_of_pos (by rwa [decide_eq_true_eq]), List.map_cons]
        rw [hcons]
        exact .cons ha hs hmade
      · refine ⟨ss, by rw [hss, load_entry_other hk hentry], ?_⟩
        have hcons : backends ((key, value) :: sect) = backends sect := by
          unfold backends
          rw [List.filter_cons_of_neg (by rwa [decide_eq_true_eq])]
        rwa [hcons]

theorem connector_base_south (h : connector_base env sect mode = some (.ok c)) : Made env (backends sect) c.south := by
  unfold connector_base at h
  split at h
  case h_1 => cases h
  case h_2 => cases h
  case h_3 c₁ hload =>
    split at h
    case isTrue => cases h
    case isFalse =>
      split at h
      case isTrue => cases h
      case isFalse =>
        split at h
        case isTrue => cases h
        case isFalse =>
          cases h
          obtain ⟨ss, hss, hmade⟩ := load_south hload
          rw [List.nil_append] at hss
          rwa [hss]

/-- Each interface comes from the value of a backend. -/
theorem Made.mem {values : List Line} (h : Made env values ss) (hs : s ∈ ss) :
    ∃ value ∈ values, ∃ a, (config.make_address env.inet value).value = some a ∧ make_south env a = some (.ok s) := by
  induction h with
  | nil => cases hs
  | @cons value values a s' ss ha hmake _ ih =>
    rcases List.mem_cons.1 hs with rfl | hs
    · exact ⟨value, .head _, a, ha, hmake⟩
    · obtain ⟨v, hv, hrest⟩ := ih hs
      exact ⟨v, .tail _ hv, hrest⟩

/-! ## Backends that never throw -/

/-- A value that `resolve` can deal with: an address; a URL for TCP, or one whose host reads as a scheme that
is found out anew; a URI. Behind a scheme of an address there are at least three characters. -/
def Usable (inet : InetPton) (value : Line) : Prop :=
  config.Reaches value ∧
    match config.address inet value.chars with
    | .sockaddr _ _ _ => True
    | .url host protocol => protocol = config.TCP ∨ (interface host protocol).discovered = true
    | .uri uri => uri ≠ []

open dns

/-- An SRV answer for a URI of another scheme than those that are found out anew is one for TCP. -/
def ForTcp (_ : Moment) (b : Backend) (e : dns.Event) : Prop :=
  ∀ i name targets, e = .answer i (.srv targets) → b.queries[i]? = some (.getsrv name) →
    b.iface.discovered = true ∨ extract_protocol name = some dns.TCP

/-- There are addresses, and none of them ever expires. -/
structure Lasting (s : InterfaceBase) : Prop where
  ne : s.addresses ≠ []
  stays : ∀ a ∈ s.addresses, a.interval ≤ -1 ∧ a.max ≠ 0

/-- The name is complete, and the protocol is one that `resolve` knows, or is forgotten in time. -/
structure Named (s : InterfaceBase) : Prop where
  colon : ':' ∈ s.uri
  protocol : s.discovered = true ∨ s.protocol = [] ∨ s.protocol = dns.TCP

/-- A backend that has its addresses or its name. -/
structure Settled (b : Backend) : Prop where
  sound : Sound b
  kind : Lasting b.iface ∧ b.queries = [] ∨ Named b.iface

theorem Lasting.keeps (h : Lasting s) (t : Int) : s.addresses.filter (InterfaceBase.keeps t) = s.addresses := by
  rw [List.filter_eq_self]
  intro a ha
  obtain ⟨hi, hm⟩ := h.stays a ha
  have hpast : a.past t = false := by
    unfold Address.past
    rw [decide_eq_false_iff_not]
    omega
  simp [InterfaceBase.keeps, hpast, hm]

/-- Counters do not matter. -/
theorem Lasting.congr (h : Lasting s)
    (heq : s'.addresses.map (Address.set_count 0) = s.addresses.map (Address.set_count 0)) : Lasting s' := by
  constructor
  · intro hnil
    rw [hnil, List.map_nil, eq_comm, List.map_eq_nil_iff] at heq
    exact h.ne heq
  · intro a ha
    have hmem : a.set_count 0 ∈ s.addresses.map (Address.set_count 0) := heq ▸ List.mem_map_of_mem ha
    obtain ⟨b, hb, hab⟩ := List.mem_map.1 hmem
    have hi : a.interval = b.interval := (congrArg Address.interval hab).symm
    have hm : a.max = b.max := (congrArg Address.max hab).symm
    rw [hi, hm]
    exact h.stays b hb

/-- `_resolve_callbacks` takes nothing from such addresses. -/
theorem Lasting.resolve (h : Lasting s) (hc : Counted s)
    (hr : s.resolve_callbacks alive now later = some (s', cs)) : Lasting s' := by
  obtain ⟨s₁, cs₁, hr₁, -, -, heq, -⟩ := InterfaceBase.resolve_callbacks_spec alive now later hc
  rw [hr] at hr₁
  cases hr₁
  rw [h.keeps, h.keeps] at heq
  exact h.congr heq

/-- The same addresses are set anew. -/
theorem Lasting.set (h : Lasting s) (hc : Counted s)
    (hr : s.set_addresses alive now later s.addresses = some (s', cs)) : Lasting s' := by
  have hsame : (InterfaceBase.weigh { s with addresses := s.addresses }).addresses = s.addresses := by
    rw [InterfaceBase.weigh_eq]
    exact InterfaceBase.map_weighed_of_pos fun a ha => (h.stays a ha).2
  have hw : Lasting (InterfaceBase.weigh { s with addresses := s.addresses }) := by
    refine h.congr ?_
    rw [hsame]
  have hcw : Counted (InterfaceBase.weigh { s with addresses := s.addresses }) := by
    unfold Counted
    rw [hsame]
    exact hc
  exact hw.resolve hcw hr

theorem Lasting.south_err {s s' : InterfaceBase} {alive : StreamId → Bool} {now later : Int} {err : Nat}
    {w : StreamId} {m : SocketMessage} (h : Lasting s) (hc : Counted s)
    (hr : s.south_err alive now later err w m = some s') : Lasting s' := by
  unfold InterfaceBase.south_err at hr
  rw [Option.map_eq_some_iff] at hr
  obtain ⟨⟨s₁, cs⟩, hs₁, rfl⟩ := hr
  split at hs₁
  case isTrue =>
    rw [InterfaceBase.expire_address_of_eq] at hs₁
    obtain ⟨hne, hstays⟩ := h.set hc hs₁
    exact ⟨hne, hstays⟩
  case isFalse =>
    cases hs₁
    exact ⟨h.ne, h.stays⟩

/-- The name and the protocol of an interface are kept. -/
theorem Named.kept (h : Named s) (hk : Kept s s') : Named s' := by
  have hd : s'.discovered = s.discovered := InterfaceBase.discovered_congr hk.uri
  refine ⟨hk.uri ▸ h.colon, ?_⟩
  rw [hd]
  rcases hk.protocol with hp | ⟨-, hp⟩
  · rw [hp]
    exact h.protocol
  · exact .inr (.inl hp)

/-- `resolve` does not throw for a complete name without a protocol, or with TCP. -/
theorem resolve_ne_none (hcolon : ':' ∈ s.uri) (hp : s.protocol = [] ∨ s.protocol = dns.TCP) : resolve s ≠ none := by
  unfold resolve
  rcases hp with hp | hp
  · rw [if_pos hp]
    split
    case isTrue => simp
    case isFalse =>
      split
      case isTrue => simp
      case isFalse => split <;> simp
  · have hne : s.protocol ≠ [] := by
      rw [hp]
      decide
    rw [if_neg hne, if_pos hp]
    simp

/-- A connect leaves a backend as it was, and finds a query when it needs one. -/
theorem Settled.connect (h : Settled b) (m : Moment) (w : StreamId) :
    ∃ s', dns.connect m w b.iface =
        some (s', if s'.addresses = [] ∧ s'.pending.length = 1 then some (resolve s') else none) ∧
      (Lasting b.iface ∧ b.queries = [] → Lasting s') ∧ (Named b.iface → Named s') ∧
      (s'.addresses = [] → resolve s' ≠ none) := by
  obtain ⟨s', hconn, -, hres⟩ := connect_spec m w h.sound.counted
  have hkept : Kept b.iface s' := ⟨hres.uri, hres.protocol⟩
  have hlasting : Lasting b.iface → Lasting s' := by
    intro hl
    unfold dns.connect at hconn
    rw [Option.map_eq_some_iff] at hconn
    obtain ⟨⟨s₁, cs⟩, hreg, heq⟩ := hconn
    obtain rfl : s₁ = s' := congrArg Prod.fst heq
    have hl' : Lasting { b.iface with pending := b.iface.pending ++ [w] } := ⟨hl.ne, hl.stays⟩
    exact hl'.resolve h.sound.counted hreg
  refine ⟨s', hconn, fun hl => hlasting hl.1, fun hn => hn.kept hkept, fun hnil => ?_⟩
  rcases h.kind with ⟨hl, -⟩ | hn
  · exact absurd hnil (hlasting hl).ne
  · have hn' := hn.kept hkept
    refine resolve_ne_none hn'.colon ?_
    rcases hn'.protocol with hd | hp
    · -- a protocol that is found out anew is forgotten with the last address
      rw [InterfaceBase.discovered_congr hkept.uri] at hd
      exact .inl (hres.forgotten hnil hd)
    · exact hp

/-- An answer to an SRV query sets the protocol of its name. -/
theorem answered_srv_protocol {name : List Char} {targets : List Target}
    (h : answered rewrite m s (.getsrv name) (.srv targets) = some (s', qs)) :
    ∃ p, extract_protocol name = some p ∧ s' = { s with protocol := p } := by
  unfold answered at h
  rw [Option.map_eq_some_iff] at h
  obtain ⟨p, hp, heq⟩ := h
  exact ⟨p, hp, (congrArg Prod.fst heq).symm⟩

/-- An answer leaves the name of an interface, and a protocol that `resolve` knows. -/
theorem Named.answered {q : Query} {answer : Answer} (h : Named s)
    (hq : q.Fresh)
    (hf : ∀ name targets, answer = .srv targets → q = .getsrv name →
      s.discovered = true ∨ extract_protocol name = some dns.TCP)
    (ha : answered rewrite m s q answer = some (s', qs)) : Named s' := by
  cases answered_cases ha with
  | found hget hset =>
    subst hget
    exact h.kept (set_kept (found_counts _ _ hq) hset).2
  | failed hcount hset => exact h.kept (set_kept (found_counts _ _ hcount) hset).2
  | targets hget hsrv =>
    subst hget hsrv
    obtain ⟨p, hp, heq⟩ := answered_srv_protocol ha
    rw [heq]
    refine ⟨h.colon, ?_⟩
    rcases hf _ _ rfl rfl with hd | htcp
    · exact .inl hd
    · rw [hp] at htcp
      exact .inr (.inr (Option.some.inj htcp))
  | follows _ _ => exact h

theorem Settled.step {rewrite : List Char → List Char → Option (List Char)} {m : Moment} {b b' : Backend} {e : dns.Event}
    (h : Settled b) (hf : ForTcp m b e) (hstep : b.step rewrite m e = some b') : Settled b' := by
  refine ⟨h.sound.step hstep, ?_⟩
  cases e with
  | connect w =>
    obtain ⟨s', hconn, hlasting, hnamed, -⟩ := h.connect m w
    rcases h.kind with hl | hn
    · rw [if_neg fun hnil => (hlasting hl).ne hnil.1] at hconn
      simp only [Backend.step, hconn] at hstep
      cases hstep
      exact .inl ⟨hlasting hl, hl.2⟩
    · rcases step_connect hconn hstep with ⟨rfl, -⟩ | ⟨q, -, rfl⟩
      · exact .inr (hnamed hn)
      · exact .inr (hnamed hn)
  | answer i answer =>
    cases hq : b.queries[i]? with
    | none =>
      simp only [Backend.step, hq] at hstep
      cases hstep
    | some q =>
      simp only [Backend.step, hq] at hstep
      obtain ⟨⟨s', qs⟩, ha, rfl⟩ := Option.map_eq_some_iff.1 hstep
      rcases h.kind with ⟨-, hnone⟩ | hn
      · rw [hnone] at hq
        cases hq
      · refine .inr (hn.answered (h.sound.fresh q (List.mem_of_getElem? hq)) ?_ ha)
        rintro name targets rfl rfl
        exact hf i name targets rfl hq
  | refused err w buffer =>
    obtain ⟨s', hs', -, hkept, -⟩ := south_err_spec m err w buffer h.sound.counted
    simp only [Backend.step, hs'] at hstep
    cases hstep
    exact h.kind.imp (fun hl => ⟨hl.1.south_err h.sound.counted hs', hl.2⟩) fun hn => hn.kept hkept
  | make w =>
    cases hstep
    exact h.kind.imp (fun hl => ⟨⟨hl.1.ne, hl.1.stays⟩, hl.2⟩) fun hn => ⟨hn.colon, hn.protocol⟩
  | erase w =>
    cases hstep
    exact h.kind.imp (fun hl => ⟨⟨hl.1.ne, hl.1.stays⟩, hl.2⟩) fun hn => ⟨hn.colon, hn.protocol⟩

theorem Settled.run {start : Backend} (h : Settled start) (hr : dns.Reach rewrite ForTcp start b) : Settled b := by
  induction hr with
  | start => exact h
  | step m e _ hf hstep ih => exact ih.step hf hstep

/-! ## The services that are accepted -/

/-- The first token of a line with a scheme has a colon. -/
theorem colon_of_scheme {l : List Char} (h : config.scheme l ≠ []) : ':' ∈ config.token l := by
  have hspace := (config.token_of_not_space fun c (hc : c ∈ config.token l) => config.not_space_of_mem_token hc).1
  obtain ⟨rest, hrest⟩ := config.scheme_cut (l := config.token l) (by rwa [config.scheme_token])
  rw [hspace] at hrest
  rw [hrest]
  simp

/-- What `make_address` returns: its failure value, an address, or a name with a colon in it. -/
theorem address_cases (inet : InetPton) (l : List Char) :
    config.address inet l = .failure ∨ (∃ p a len, config.address inet l = .sockaddr p a len) ∨
      (∃ u p, config.address inet l = .url u p ∧ ':' ∈ u) ∨ ∃ u, config.address inet l = .uri u ∧ ':' ∈ u := by
  unfold config.address
  dsimp only
  split
  case isTrue => exact .inl rfl
  case isFalse hscheme =>
    split
    case isTrue =>
      split
      case isTrue =>
        cases config.unixAddress (config.token (l.drop ((config.scheme l).length + 3))) with
        | none => exact .inl rfl
        | some v => exact .inr (.inl ⟨_, _, _, rfl⟩)
      case isFalse =>
        rcases config.hostAddress_cases inet (config.upper (config.scheme l))
          ((l.drop ((config.scheme l).length + 3)).takeWhile fun c => !Text.isspace c) with
          hc | ⟨x, n, -, -, hc⟩ | ⟨y, n, -, -, -, hc⟩ | ⟨hc, h, p, hr, -⟩
        · exact .inl hc
        · exact .inr (.inl ⟨_, _, _, hc⟩)
        · exact .inr (.inl ⟨_, _, _, hc⟩)
        · refine .inr (.inr (.inl ⟨_, _, hc, ?_⟩))
          rw [hr]
          simp
    case isFalse => exact .inr (.inr (.inr ⟨_, rfl, colon_of_scheme hscheme⟩))

theorem settled_of_named (hnil : s.addresses = []) (h : Named s) : Settled ⟨s, []⟩ :=
  ⟨⟨fun _ ha => absurd (hnil ▸ ha) List.not_mem_nil, fun _ hq => absurd hq List.not_mem_nil⟩, .inr h⟩

/-- An address that is configured never expires. -/
theorem settled_of_address {p : List Char} {a : Sockaddr} {len : Nat}
    (h : interface_at env.now p a len = some (.ok s)) : Settled ⟨s, []⟩ := by
  unfold interface_at at h
  split at h
  case isTrue => cases h
  case isFalse =>
    split at h
    case isFalse => cases h
    case isTrue hfits =>
      cases h
      refine ⟨⟨?_, fun q hq => absurd hq List.not_mem_nil⟩, .inl ⟨⟨by simp, ?_⟩, rfl⟩⟩
      · intro x hx
        obtain rfl := List.mem_singleton.1 hx
        exact Nat.zero_le 1
      · intro x hx
        obtain rfl := List.mem_singleton.1 hx
        exact ⟨le_refl (-1), Nat.one_ne_zero⟩

/-- A usable value makes a backend that has its addresses or its name. -/
theorem Usable.settled (h : Usable env.inet value) (ha : (config.make_address env.inet value).value = some a)
    (hs : make_south env a = some (.ok s)) : Settled ⟨s, []⟩ := by
  obtain ⟨hreach, hkind⟩ := h
  rw [(config.ends_make_address hreach).value] at ha
  obtain rfl := Option.some.inj ha
  rcases address_cases env.inet value.chars with hc | ⟨p, x, len, hc⟩ | ⟨u, p, hc, hcolon⟩ | ⟨u, hc, hcolon⟩
  · rw [hc] at hkind
    exact absurd rfl hkind
  · rw [hc] at hs
    exact settled_of_address hs
  · rw [hc] at hs hkind
    cases hs
    refine settled_of_named rfl ⟨hcolon, ?_⟩
    rcases hkind with hp | hd
    · exact .inr (.inr hp)
    · exact .inl hd
  · rw [hc] at hs
    cases hs
    exact settled_of_named rfl ⟨hcolon, .inr (.inl rfl)⟩

/-- A service whose backends are usable: none of them is the failure value of `make_address`, and in no run
does `resolve` throw for one of them. -/
theorem an_accepted_service_is_usable (env : Env) (sect : Section) (mode : Mode) (c : ConnectorBase)
    (h : connector_base env sect mode = some (.ok c)) (hu : ∀ value ∈ backends sect, Usable env.inet value) :
    (∀ value ∈ backends sect, ∃ a, (config.make_address env.inet value).value = some a ∧ a ≠ .failure) ∧
      ∀ s ∈ c.south, ∀ rewrite b, dns.Reach rewrite ForTcp ⟨s, []⟩ b →
        ∀ m w s' call, dns.connect m w b.iface = some (s', some call) → call ≠ none := by
  constructor
  · intro value hv
    obtain ⟨hreach, hkind⟩ := hu value hv
    refine ⟨_, (config.ends_make_address hreach).value, fun hfail => ?_⟩
    rw [hfail] at hkind
    exact hkind rfl
  · intro s hs rewrite b hrun m w s' call hcall
    obtain ⟨value, hv, a, ha, hmake⟩ := (connector_base_south h).mem hs
    have hb : Settled b := ((hu value hv).settled ha hmake).run hrun
    obtain ⟨s₁, hconn, -, -, hres⟩ := hb.connect m w
    rw [hconn] at hcall
    simp only [Option.some.injEq, Prod.mk.injEq] at hcall
    obtain ⟨rfl, hcall⟩ := hcall
    split at hcall
    case isTrue hguard =>
      cases hcall
      exact hres hguard.1
    case isFalse => cases hcall

/-! ## Some services -/

/-- All system calls succeed. -/
def willing : Env := ⟨config.loopback, 0, fun _ => none⟩

theorem bind_fits : "tcp://127.0.0.1:80".toList.length < 2 ^ 63 := by decide

/-- A section with a bind address and this backend. -/
def serving (backend : String) (h : backend.toList.length < 2 ^ 63) : Section :=
  [("bind".toList, ⟨"tcp://127.0.0.1:80".toList, bind_fits⟩), ("backend".toList, ⟨backend.toList, h⟩)]

theorem backends_serving (backend : String) (h : backend.toList.length < 2 ^ 63) :
    backends (serving backend h) = [⟨backend.toList, h⟩] := rfl

/-- The south interfaces of a service that is accepted. -/
def accepted (env : Env) (sect : Section) (mode : Mode) : Option (List InterfaceBase) :=
  match connector_base env sect mode with
  | some (.ok c) => some c.south
  | _ => none

theorem connector_base_of_accepted (h : accepted env sect mode = some ss) :
    ∃ c, connector_base env sect mode = some (.ok c) ∧ c.south = ss := by
  unfold accepted at h
  split at h
  case h_1 c hc => exact ⟨c, hc, Option.some.inj h⟩
  case h_2 => cases h

theorem a_named_backend_is_usable :
    ∃ c, connector_base willing (serving "srv:_x._tcp.b" (by decide)) .HALF_DUPLEX = some (.ok c) ∧
      c.south = [interface "srv:_x._tcp.b".toList []] ∧
      ∀ s ∈ c.south, ∀ rewrite b, dns.Reach rewrite ForTcp ⟨s, []⟩ b →
        ∀ m w s' call, dns.connect m w b.iface = some (s', some call) → call ≠ none := by
  have hacc : accepted willing (serving "srv:_x._tcp.b" (by decide)) .HALF_DUPLEX =
      some [interface "srv:_x._tcp.b".toList []] := by decide +kernel
  obtain ⟨c, hc, hsouth⟩ := connector_base_of_accepted hacc
  have hu : ∀ value ∈ backends (serving "srv:_x._tcp.b" (by decide)), Usable willing.inet value := by
    intro value hv
    rw [backends_serving] at hv
    obtain rfl := List.mem_singleton.1 hv
    refine ⟨by decide, ?_⟩
    have haddr : config.address willing.inet "srv:_x._tcp.b".toList = .uri "srv:_x._tcp.b".toList := by decide
    rw [haddr]
    decide
  exact ⟨c, hc, hsouth, (an_accepted_service_is_usable willing _ .HALF_DUPLEX c hc hu).2⟩

/-- A URL with another protocol than TCP, which is not forgotten: the first connect makes `resolve` throw. -/
theorem resolve_throws {host protocol : List Char} (hp : protocol ≠ []) (htcp : protocol ≠ dns.TCP)
    (hd : (interface host protocol).discovered = false) (m : Moment) (w : StreamId) :
    ∃ s', dns.connect m w (interface host protocol) = some (s', some none) := by
  have hc : Counted (interface host protocol) := fun _ ha => absurd ha List.not_mem_nil
  obtain ⟨s', hconn, -, hres⟩ := connect_spec m w hc
  obtain ⟨hnil, hpending⟩ := hres.waits rfl
  have hprotocol : s'.protocol = protocol := by
    rcases hres.protocol with h | ⟨h, -⟩
    · exact h
    · exact absurd (hd.symm.trans h) Bool.false_ne_true
  have hthrows : resolve s' = none := by
    unfold resolve
    rw [hprotocol, if_neg hp, if_neg htcp]
  have hone : s'.pending.length = 1 := by rw [hpending]; rfl
  exact ⟨s', by rw [hconn, if_pos ⟨hnil, hone⟩, hthrows]⟩

/-- A NAPTR answer for `web:b` that leads to the SRV records of `_x._udp.b`, and an address that expires. -/
def udpDiscovery : List (Moment × dns.Event) :=
  [(still 0, .make 1), (still 0, .connect 1), (still 0, .answer 0 (.naptr [⟨['s'], [], "_x._udp.b".toList⟩])),
    (still 0, .answer 0 (.srv [(oneTarget "a" 1).1])), (still 0, .answer 0 (.addrinfo [⟨[1], 16, 1, sockaddr_in_le⟩]))]

/-- Three services that are accepted: a backend that is no address at all becomes an empty URI; a URL for UDP
throws with its first connect; and a URI does once an SRV answer has set its protocol to UDP. -/
theorem an_unusable_service_is_accepted :
    (∃ c, connector_base willing (serving "nonsense" (by decide)) .HALF_DUPLEX = some (.ok c) ∧
      c.south = [interface [] []] ∧
      (config.make_address willing.inet ⟨"nonsense".toList, by decide⟩).value = some .failure) ∧
    (∃ c, connector_base willing (serving "udp://host:80" (by decide)) .HALF_DUPLEX = some (.ok c) ∧
      ∃ s ∈ c.south, ∃ s', dns.connect (still 0) 1 s = some (s', some none)) ∧
    ∃ c, connector_base willing (serving "web:b" (by decide)) .HALF_DUPLEX = some (.ok c) ∧
      ∃ s ∈ c.south, ((Backend.run noRewrite ⟨s, []⟩ udpDiscovery).bind fun b =>
        (dns.connect (still 9999) 2 b.iface).map Prod.snd) = some (some none) := by
  refine ⟨?_, ?_, ?_⟩
  · have hacc : accepted willing (serving "nonsense" (by decide)) .HALF_DUPLEX =
        some [interface [] []] := by decide +kernel
    obtain ⟨c, hc, hsouth⟩ := connector_base_of_accepted hacc
    exact ⟨c, hc, hsouth, by decide +kernel⟩
  · have hacc : accepted willing (serving "udp://host:80" (by decide)) .HALF_DUPLEX =
        some [interface "host:80".toList config.UDP] := by decide +kernel
    obtain ⟨c, hc, hsouth⟩ := connector_base_of_accepted hacc
    refine ⟨c, hc, interface "host:80".toList config.UDP, hsouth ▸ List.mem_singleton_self _, ?_⟩
    exact resolve_throws (by decide) (by decide) (by decide) (still 0) 1
  · have hacc : accepted willing (serving "web:b" (by decide)) .HALF_DUPLEX =
        some [interface "web:b".toList []] := by decide +kernel
    obtain ⟨c, hc, hsouth⟩ := connector_base_of_accepted hacc
    exact ⟨c, hc, interface "web:b".toList [], hsouth ▸ List.mem_singleton_self _, by decide +kernel⟩

end cloudbus.connector
