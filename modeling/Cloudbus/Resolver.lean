-- The resolver (dns/dns.cpp) and the interface that it finds addresses for:
-- the queries that are outstanding, what their answers do, and when a new query
-- is made.
import Cloudbus.Refused

namespace cloudbus

/-! ## The parts of a URI -/

def lower (l : List Char) : List Char := l.map Char.toLower

/-- What follows the first colon. -/
def after_colon (uri : List Char) : List Char := (uri.dropWhile (· != ':')).drop 1

/-- `port_`: what follows the first colon, when it is digits and nothing else. -/
def port_ (uri : List Char) : List Char :=
  if after_colon uri ≠ [] ∧ (after_colon uri).all Char.isDigit then after_colon uri else []

namespace InterfaceBase

def port (s : InterfaceBase) : List Char := port_ s.uri

def host (s : InterfaceBase) : List Char := if s.port = [] then [] else lower (s.uri.takeWhile (· != ':'))

/-- `nid()`, which is asked for with the scheme `urn` alone. -/
def nid (s : InterfaceBase) : List Char := lower ((s.uri.drop 4).takeWhile (· != ':'))

end InterfaceBase

namespace dns

/-! ## Queries and answers -/

/-- The queries that c-ares is asked, with what their callbacks get. -/
inductive Query where
  | getaddrinfo (name service : List Char) (weight : Weight) (stream : Bool)
  | getsrv (name : List Char)
  | getnaptr (name subject : List Char)
deriving DecidableEq, Repr

/-- A node of `ares_addrinfo`. -/
structure Node where
  addr : List UInt8
  len : Nat
  ttl : Int
  fits : len ≤ STORAGE

/-- A record of `ares_srv_reply`; the numbers have 16 bits. -/
structure Target where
  host : List Char
  port : Nat
  weight : Nat
  priority : Fin (2 ^ 16)

/-- A record of `ares_naptr_reply`. -/
structure Naptr where
  flags : List Char
  regexp : List Char
  replacement : List Char

/-- What c-ares calls back with: a failure of any kind, or the records. -/
inductive Answer where
  | failure
  | addrinfo (nodes : List Node)
  | srv (targets : List Target)
  | naptr (records : List Naptr)

/-- The clock, as the handlers of one event read it: for the addresses that they make, and twice in
`_resolve_callbacks`. -/
structure Clock where
  stamp : Int
  now : Int
  later : Int

/-- `ares_addrinfo_success`: the nodes with the weight of the query. -/
def addresses_of (stamp : Int) (weight : Weight) (nodes : List Node) : List Address :=
  nodes.map fun n => ⟨n.addr, n.len, stamp, n.ttl, weight, .inl n.fits⟩

/-- `ares_handle_error`: one address that is none. -/
def null_address (stamp : Int) : Address := ⟨[], NULL_LEN, stamp, 0, ⟨1, 0, SIZE_MAX⟩, .inr rfl⟩

/-- What a lookup of addresses leaves for the interface: `ares_addrinfo_cb`. -/
def found (stamp : Int) (weight : Weight) : Answer → List Address
  | .addrinfo nodes => addresses_of stamp weight nodes
  | _ => [null_address stamp]

/-- `extract_protocol`: the letters of the second label, without its first character. Where there are
none the scan leaves the name. -/
def extract_protocol (name : List Char) : Option (List Char) :=
  match name.dropWhile (· != '.') with
  | [] => none
  | _ :: rest =>
    let label := (rest.takeWhile (· != '.')).drop 1
    if label.any Char.isAlpha then some ((label.dropWhile fun c => !c.isAlpha).map Char.toUpper) else none

def TCP : List Char := "TCP".toList

/-- `resolve_ares_getaddrinfo` -/
def getaddrinfo (s : InterfaceBase) (name service : List Char) (weight : Weight) : Query :=
  .getaddrinfo name service weight (s.protocol = TCP)

/-- The query for a target of an SRV answer. -/
def target_query (s : InterfaceBase) (t : Target) : Query :=
  getaddrinfo s t.host (Nat.repr t.port).toList ⟨t.weight, 0, t.priority.castLE (by decide)⟩

/-- `ares_match_naptr_flag` and `naptr_resolve_sub`: the query for a substitution. -/
def naptr_query (subject substitution : List Char) (r : Naptr) : Option Query :=
  match r.flags with
  | [] => some (.getnaptr substitution subject)
  | c :: _ => if c.toLower = 's' then some (.getsrv substitution) else none

/-- The loop of `ares_parse_naptr_success`; `rewrite` is the substitution of the regular expression. -/
def naptr_success (rewrite : List Char → List Char → Option (List Char)) (subject : List Char) :
    List Naptr → Option Query
  | [] => none
  | r :: rs =>
    if r.regexp ≠ [] ∧ r.replacement ≠ [] then naptr_success rewrite subject rs
    else if r.regexp ≠ [] then
      match (rewrite r.regexp subject).bind fun sub => if sub = [] then none else naptr_query subject sub r with
      | some q => some q
      | none => naptr_success rewrite subject rs
    else if r.replacement ≠ [] then
      match naptr_query subject r.replacement r with
      | some q => some q
      | none => naptr_success rewrite subject rs
    else naptr_success rewrite subject rs

/-- `resolver_base::resolve`: the query that is made; there is none where it throws. -/
def resolve (s : InterfaceBase) : Option Query :=
  if s.protocol = [] then
    if s.scheme = "srv".toList then
      if ':' ∈ s.uri then some (.getsrv (after_colon s.uri)) else none
    else if s.scheme = "naptr".toList then
      if ':' ∈ s.uri then some (.getnaptr (after_colon s.uri) (after_colon s.uri)) else none
    else if s.scheme = "urn".toList then some (.getnaptr (s.nid ++ '.' :: s.scheme) s.uri)
    else some (.getnaptr (s.scheme ++ ".uri".toList) s.uri)
  else if s.protocol = TCP then some (getaddrinfo s s.host s.port ⟨1, 0, SIZE_MAX⟩)
  else none

/-! ## One interface and its queries -/

/-- What surrounds the handlers of an event: the clock, and the streams that are alive. -/
structure Moment where
  clock : Clock
  alive : StreamId → Bool

/-- The list of the interface is set. -/
def set (m : Moment) (l : List Address) (s : InterfaceBase) : Option InterfaceBase :=
  (s.set_addresses m.alive m.clock.now m.clock.later l).map Prod.fst

/-- The callback of a query: the interface, and the queries that follow. -/
def answered (rewrite : List Char → List Char → Option (List Char)) (m : Moment) (s : InterfaceBase) :
    Query → Answer → Option (InterfaceBase × List Query)
  | .getaddrinfo _ _ weight _, answer => (set m (found m.clock.stamp weight answer) s).map fun s => (s, [])
  | .getsrv name, .srv targets =>
    (extract_protocol name).map fun p =>
      ({ s with protocol := p }, targets.map (target_query { s with protocol := p }))
  | .getnaptr _ subject, .naptr records =>
    match naptr_success rewrite subject records with
    | some q => some (s, [q])
    | none => (set m [null_address m.clock.stamp] s).map fun s => (s, [])
  | _, _ => (set m [null_address m.clock.stamp] s).map fun s => (s, [])

/-- The connect of a stream, as `_north_connect` of either service makes it, and the call of `resolve`
when there is one. -/
def connect (m : Moment) (w : StreamId) (s : InterfaceBase) : Option (InterfaceBase × Option (Option Query)) :=
  (s.register_connect m.alive m.clock.now m.clock.later w).map fun x =>
    (x.1, if x.1.addresses = [] ∧ x.1.pending.length = 1 then some (resolve x.1) else none)

/-- An interface, and its queries that c-ares has not answered. -/
structure Backend where
  iface : InterfaceBase
  queries : List Query

inductive Event where
  | connect (w : StreamId)
  | answer (i : Nat) (answer : Answer)
  | refused (err : Nat) (w : StreamId) (buffer : SocketMessage)
  | make (w : StreamId)
  | erase (w : StreamId)

/-- An event. Nothing catches what `resolve` throws, so the service does not survive it. -/
def Backend.step (rewrite : List Char → List Char → Option (List Char)) (m : Moment) (b : Backend) :
    Event → Option Backend
  | .connect w =>
    match dns.connect m w b.iface with
    | none => none
    | some (s, none) => some ⟨s, b.queries⟩
    | some (_, some none) => none
    | some (s, some (some q)) => some ⟨s, b.queries ++ [q]⟩
  | .answer i answer =>
    match b.queries[i]? with
    | none => none
    | some q => (answered rewrite m b.iface q answer).map fun x => ⟨x.1, b.queries.eraseIdx i ++ x.2⟩
  | .refused err w buffer =>
    (b.iface.south_err m.alive m.clock.now m.clock.later err w buffer).map fun s => ⟨s, b.queries⟩
  | .make w => some { b with iface := { b.iface with streams := b.iface.streams ++ [w] } }
  | .erase w => some { b with iface := b.iface.erase w }

/-! ## What a new list leaves -/

variable {t : Int} {l : List Address} {weight : Weight} {m : Moment} {targets : List (Target × Answer)}

/-- Setting a list of addresses whose counters are not above their weights. -/
theorem set_spec (m : Moment) (hl : ∀ a ∈ l, a.count ≤ a.max) (s : InterfaceBase) :
    ∃ s', set m l s = some s' ∧ (∀ a ∈ s'.addresses, a.count ≤ a.max) ∧
      s'.addresses.map (Address.set_count 0) =
        (((l.map (Address.weighed l)).filter (InterfaceBase.keeps (m.clock.now - InterfaceBase.HYST_WND))).filter
          (InterfaceBase.keeps m.clock.later)).map (Address.set_count 0) ∧
      InterfaceBase.Resolved (m.clock.now - InterfaceBase.HYST_WND)
        { s with addresses := l.map (Address.weighed l) } s' := by
  have hw := InterfaceBase.weigh_eq { s with addresses := l }
  have hc : ∀ a ∈ ({ s with addresses := l } : InterfaceBase).weigh.addresses, a.count ≤ a.max := by
    rw [hw]
    intro a ha
    obtain ⟨b, hb, rfl⟩ := List.mem_map.mp ha
    exact InterfaceBase.weighed_counts hl b hb
  obtain ⟨s', cs, heq, hcounts, -, hmap, hres⟩ :=
    InterfaceBase.resolve_callbacks_spec m.alive m.clock.now m.clock.later hc
  refine ⟨s', ?_, hcounts, ?_, ?_⟩
  · unfold set InterfaceBase.set_addresses
    rw [heq]
    rfl
  · rwa [hw] at hmap
  · rw [hw] at hres
    exact ⟨hres.uri, hres.protocol, hres.forgotten, hres.waits, hres.called⟩

/-- The addresses that one lookup finds have one weight and one priority, and no call was counted yet. -/
theorem found_weight (stamp : Int) (answer : Answer) (hcount : weight.count = 0) :
    ∃ w : Weight, w.count = 0 ∧ ∀ a ∈ found stamp weight answer, a.weight = w ∧ a.time = stamp := by
  cases answer with
  | addrinfo nodes =>
    refine ⟨weight, hcount, fun a ha => ?_⟩
    obtain ⟨n, -, rfl⟩ := List.mem_map.mp ha
    exact ⟨rfl, rfl⟩
  | _ =>
    refine ⟨⟨1, 0, SIZE_MAX⟩, rfl, fun a ha => ?_⟩
    rw [List.mem_singleton.mp ha]
    exact ⟨rfl, rfl⟩

theorem found_counts (stamp : Int) (answer : Answer) (hcount : weight.count = 0) :
    ∀ a ∈ found stamp weight answer, a.count ≤ a.max := by
  obtain ⟨w, hw, hall⟩ := found_weight stamp answer hcount
  intro a ha
  have : a.count = 0 := by rw [Address.count, (hall a ha).1, hw]
  omega

/-- Of addresses with one weight and one priority none has a weight of zero once they are weighed. -/
theorem weighed_pos {w : Weight} (hl : ∀ a ∈ l, a.weight = w) : ∀ a ∈ l, (a.weighed l).max ≠ 0 := by
  intro a ha
  have hprio : (least l).prio = w.priority := by
    obtain ⟨b, hb, hp⟩ := (least_of l).attained (List.ne_nil_of_mem ha)
    rw [← hp, Address.priority, hl b hb]
  have ha' : a.priority = w.priority := by rw [Address.priority, hl a ha]
  unfold Address.weighed
  split
  · exact one_ne_zero
  · rename_i h
    intro hzero
    refine h ⟨?_, ha'.trans hprio.symm⟩
    apply List.sum_eq_zero
    intro n hn
    obtain ⟨b, hb, rfl⟩ := List.mem_map.mp hn
    unfold Address.share
    split
    · rw [Address.max, hl b hb, ← hl a ha]
      exact hzero
    · rfl

/-! ## The targets of an SRV answer -/

/-- The lookups of the targets are answered one after the other. -/
def answer_all (rewrite : List Char → List Char → Option (List Char)) (order : List (Moment × Query × Answer))
    (s : InterfaceBase) : Option InterfaceBase :=
  order.foldlM (fun s x => (answered rewrite x.1 s x.2.1 x.2.2).map Prod.fst) s

/-- The weight of a target. -/
def Target.weights (t : Target) : Weight := ⟨t.weight, 0, t.priority.castLE (by decide)⟩

/-- What the lookup of a target leaves in the interface when its answer is the last one. -/
def left (stamp : Int) (x : Target × Answer) : List Address :=
  (found stamp x.1.weights x.2).map (Address.weighed (found stamp x.1.weights x.2))

/-- The lookups of the targets, with their answers. -/
def lookups (s : InterfaceBase) (targets : List (Target × Answer)) : List (Query × Answer) :=
  targets.map fun x => (target_query s x.1, x.2)

/-- At a clock that stands still nothing expires: the interface has what the lookup found. -/
theorem answered_left (rewrite : List Char → List Char → Option (List Char)) (hm : m.clock = ⟨t, t, t⟩)
    (s₀ s : InterfaceBase) (x : Target × Answer) :
    ∃ s', (answered rewrite m s (target_query s₀ x.1) x.2).map Prod.fst = some s' ∧
      s'.addresses.map (Address.set_count 0) = (left t x).map (Address.set_count 0) := by
  obtain ⟨s', hset, -, hmap, -⟩ := set_spec m (found_counts t x.2 (show x.1.weights.count = 0 from rfl)) s
  refine ⟨s', ?_, hmap.trans ?_⟩
  · have hstamp : m.clock.stamp = t := by rw [hm]
    unfold target_query getaddrinfo answered
    rw [hstamp]
    show Option.map _ (Option.map _ (set m (found t x.1.weights x.2) s)) = _
    rw [hset]
    rfl
  · obtain ⟨w, -, hall⟩ := found_weight t x.2 (show x.1.weights.count = 0 from rfl)
    have hkeep : ∀ t' ≤ t, ∀ a ∈ left t x, InterfaceBase.keeps t' a := by
      intro t' ht' a ha
      obtain ⟨b, hb, rfl⟩ := List.mem_map.mp ha
      have hpos := weighed_pos (fun a ha => (hall a ha).1) b hb
      have hpast : ¬ b.past t' := by
        unfold Address.past
        rw [decide_eq_true_eq, (hall b hb).2]
        omega
      simp only [InterfaceBase.keeps, InterfaceBase.weighed_past, Bool.not_eq_true', Bool.or_eq_false_iff,
        beq_eq_false_iff_ne]
      exact ⟨Bool.eq_false_iff.mpr hpast, hpos⟩
    have h₁ : (left t x).filter (InterfaceBase.keeps (t - InterfaceBase.HYST_WND)) = left t x :=
      List.filter_eq_self.mpr (hkeep _ (by unfold InterfaceBase.HYST_WND; omega))
    have h₂ : (left t x).filter (InterfaceBase.keeps t) = left t x := List.filter_eq_self.mpr (hkeep t le_rfl)
    rw [hm]
    show ((List.filter _ (List.filter _ (left t x)))).map _ = _
    rw [h₁, h₂]

/-- Whatever was answered before, the last answer decides. -/
theorem answer_all_left (rewrite : List Char → List Char → Option (List Char)) (s₀ : InterfaceBase)
    {order : List (Moment × Query × Answer)} (hclock : ∀ x ∈ order, x.1.clock = ⟨t, t, t⟩)
    (hmem : ∀ x ∈ order, x.2 ∈ lookups s₀ targets) (s : InterfaceBase) :
    ∃ s', answer_all rewrite order s = some s' ∧
      (order ≠ [] → ∃ x ∈ targets, s'.addresses.map (Address.set_count 0) = (left t x).map (Address.set_count 0)) := by
  induction order generalizing s with
  | nil => exact ⟨s, rfl, fun h => absurd rfl h⟩
  | cons y order ih =>
    obtain ⟨x, hx, hy⟩ := List.mem_map.mp (hmem y List.mem_cons_self)
    obtain ⟨s₁, h₁, hleft⟩ := answered_left rewrite (hclock y List.mem_cons_self) s₀ s x
    obtain ⟨s', h', hlast⟩ := ih (fun z hz => hclock z (List.mem_cons_of_mem y hz))
      (fun z hz => hmem z (List.mem_cons_of_mem y hz)) s₁
    refine ⟨s', ?_, fun _ => ?_⟩
    · unfold answer_all at h' ⊢
      rw [List.foldlM_cons, ← hy, h₁]
      exact h'
    · by_cases hnil : order = []
      · subst hnil
        cases h'
        exact ⟨x, hx, hleft⟩
      · exact hlast hnil

/-- All lookups leave the same addresses, and one that finds some has a weight to give them. -/
structure Agreeing (t : Int) (targets : List (Target × Answer)) : Prop where
  same : ∀ x ∈ targets, ∀ y ∈ targets,
    ((left t x).map (Address.set_count 0)).Perm ((left t y).map (Address.set_count 0))
  weight : ∀ x ∈ targets, ∀ nodes, x.2 = .addrinfo nodes → nodes ≠ [] → x.1.weight ≠ 0

/-- A target whose weight is not zero leaves the addresses that it found, with that weight. -/
theorem left_of_weight {x : Target × Answer} {nodes : List Node} (hx : x.2 = .addrinfo nodes)
    (hw : nodes ≠ [] → x.1.weight ≠ 0) : (left t x).map (Address.set_count 0) = addresses_of t x.1.weights nodes := by
  have hfound : found t x.1.weights x.2 = addresses_of t x.1.weights nodes := by rw [hx]; rfl
  unfold left
  rw [hfound, InterfaceBase.map_weighed_of_pos]
  · unfold addresses_of
    rw [List.map_map]
    rfl
  · intro a ha
    obtain ⟨n, hn, rfl⟩ := List.mem_map.mp ha
    exact hw (List.ne_nil_of_mem hn)

/-- The queries that an SRV answer makes, with the answers that they get. -/
theorem answered_srv {rewrite : List Char → List Char → Option (List Char)} {s s₁ : InterfaceBase} {name : List Char}
    {queries : List Query}
    (h : answered rewrite m s (.getsrv name) (.srv (targets.map Prod.fst)) = some (s₁, queries)) :
    queries.zip (targets.map Prod.snd) = lookups s₁ targets := by
  obtain ⟨p, -, heq⟩ := Option.map_eq_some_iff.mp h
  cases heq
  unfold lookups
  rw [List.map_map, List.zip_map']
  rfl

/-- A target, and the node that its lookup finds. -/
def oneTarget (host : String) (byte : UInt8) : Target × Answer :=
  (⟨host.toList, 80, 1, 0⟩, .addrinfo [⟨[byte], 16, 60, sockaddr_in_le⟩])

/-- An interface without addresses. -/
def unresolved (uri protocol : String) : InterfaceBase := ⟨uri.toList, protocol.toList, [], [], [], 0, 0, SIZE_MAX⟩

def noRewrite : List Char → List Char → Option (List Char) := fun _ _ => none

def still (t : Int) : Moment := ⟨⟨t, t, t⟩, fun _ => true⟩

end dns

end cloudbus
