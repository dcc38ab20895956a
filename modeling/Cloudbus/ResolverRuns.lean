-- A backend over any history of connects, answers, refused connects and
-- expiries: the query that is made for it, and the connects that wait for one.
import Cloudbus.Lib.Text
import Cloudbus.Resolver

namespace cloudbus.dns

/-- A history of events; `C` holds for each one and the state that it finds. -/
inductive Reach (rewrite : List Char → List Char → Option (List Char)) (C : Moment → Backend → Event → Prop)
    (start : Backend) : Backend → Prop
  | start : Reach rewrite C start start
  | step {b b' : Backend} (m : Moment) (e : Event) : Reach rewrite C start b → C m b e →
      b.step rewrite m e = some b' → Reach rewrite C start b'

/-- A history as a list. -/
def Backend.run (rewrite : List Char → List Char → Option (List Char)) (start : Backend)
    (events : List (Moment × Event)) : Option Backend :=
  events.foldlM (fun b x => b.step rewrite x.1 x.2) start

/-! ## What an event does to the interface -/

section Specs

variable {s s' : InterfaceBase} {m : Moment}

/-- No address was handed out more often than its weight. -/
def Counted (s : InterfaceBase) : Prop := ∀ a ∈ s.addresses, a.count ≤ a.max

/-- The URI stays, and the protocol too, but where it is to be found out anew. -/
structure Kept (s s' : InterfaceBase) : Prop where
  uri : s'.uri = s.uri
  protocol : s'.protocol = s.protocol ∨ s.discovered ∧ s'.protocol = []

theorem connect_spec (m : Moment) (w : StreamId) (hc : Counted s) :
    ∃ s', connect m w s = some (s', if s'.addresses = [] ∧ s'.pending.length = 1 then some (resolve s') else none) ∧
      Counted s' ∧ InterfaceBase.Resolved (m.clock.now - InterfaceBase.HYST_WND)
        { s with pending := s.pending ++ [w] } s' := by
  obtain ⟨s', cs, heq, hcounts, -, -, hres⟩ :=
    InterfaceBase.resolve_callbacks_spec (s := { s with pending := s.pending ++ [w] }) m.alive m.clock.now m.clock.later hc
  refine ⟨s', ?_, hcounts, hres⟩
  unfold connect InterfaceBase.register_connect
  rw [heq]
  rfl

/-- Where connects wait after the callbacks, there is no address, and they are the ones that waited
before. -/
theorem waiting_of_resolved {t : Int} (hr : InterfaceBase.Resolved t s s') (hw : s'.pending ≠ []) :
    s'.addresses = [] ∧ s'.pending = s.pending := by
  by_cases h : s.addresses.filter (InterfaceBase.keeps t) = []
  · exact hr.waits h
  · exact absurd (hr.called h) hw

/-- A connect that is refused. -/
theorem south_err_spec (m : Moment) (err : Nat) (w : StreamId) (buffer : SocketMessage) (hc : Counted s) :
    ∃ s', s.south_err m.alive m.clock.now m.clock.later err w buffer = some s' ∧ Counted s' ∧ Kept s s' ∧
      (s'.pending ≠ [] → s'.pending = s.pending ∧ (s.addresses = [] → s'.addresses = [])) := by
  unfold InterfaceBase.south_err
  by_cases herr : err = ECONNREFUSED
  · obtain ⟨s', hset, hcounts, -, hres⟩ := set_spec m hc s
    obtain ⟨x, hx, rfl⟩ := Option.map_eq_some_iff.mp hset
    rw [if_pos herr, InterfaceBase.expire_address_of_eq, hx]
    refine ⟨_, rfl, hcounts, ⟨hres.uri, hres.protocol⟩, fun hw => ?_⟩
    obtain ⟨haddr, hpend⟩ := waiting_of_resolved hres hw
    exact ⟨hpend, fun _ => haddr⟩
  · rw [if_neg herr]
    exact ⟨_, rfl, hc, ⟨rfl, .inl rfl⟩, fun _ => ⟨rfl, id⟩⟩

end Specs

/-! ## What an answer does -/

/-- A weight that a query passes on was not counted yet. -/
def Query.Fresh : Query → Prop
  | .getaddrinfo _ _ weight _ => weight.count = 0
  | _ => True

/-- An answer without a record. -/
def Answer.Empty : Answer → Prop
  | .addrinfo nodes => nodes = []
  | .srv targets => targets = []
  | _ => False

/-- The clock is not read so long after an address is made that the address is past the window. -/
def Clock.Steady (c : Clock) : Prop := c.now - InterfaceBase.HYST_WND ≤ c.stamp

section Answered

variable {rewrite : List Char → List Char → Option (List Char)} {m : Moment} {s s' : InterfaceBase}

variable {answer : Answer} {subject : List Char}

/-- A list that is found and not empty lets every connect go on. -/
theorem found_called (hm : m.clock.Steady) {weight : Weight} (hw : weight.count = 0)
    (hne : found m.clock.stamp weight answer ≠ []) :
    ∃ s', set m (found m.clock.stamp weight answer) s = some s' ∧ Counted s' ∧ Kept s s' ∧ s'.pending = [] := by
  obtain ⟨s', hset, hcounts, -, hres⟩ := set_spec m (found_counts m.clock.stamp answer hw) s
  refine ⟨s', hset, hcounts, ⟨hres.uri, hres.protocol⟩, hres.called ?_⟩
  obtain ⟨w, -, hall⟩ := found_weight m.clock.stamp answer hw
  obtain ⟨a, ha⟩ := List.exists_mem_of_ne_nil _ hne
  have hpos := weighed_pos (fun a ha => (hall a ha).1) a ha
  have hpast : ¬ a.past (m.clock.now - InterfaceBase.HYST_WND) := by
    unfold Clock.Steady at hm
    unfold Address.past
    rw [decide_eq_true_eq, (hall a ha).2]
    omega
  apply List.ne_nil_of_mem (a := a.weighed (found m.clock.stamp weight answer))
  refine List.mem_filter.mpr ⟨List.mem_map_of_mem ha, ?_⟩
  simp only [InterfaceBase.keeps, InterfaceBase.weighed_past, Bool.not_eq_true', Bool.or_eq_false_iff,
    beq_eq_false_iff_ne]
  exact ⟨Bool.eq_false_iff.mpr hpast, hpos⟩

/-- The ways that an answer can go: a list is set, after a lookup of addresses or a failure; or the
protocol is set and the targets are looked up; or one query follows. -/
inductive Outcome (m : Moment) (s : InterfaceBase) (q : Query) (answer : Answer) : InterfaceBase → List Query → Prop
  | found {n v : List Char} {w : Weight} {stream : Bool} {s' : InterfaceBase} : q = .getaddrinfo n v w stream →
      set m (dns.found m.clock.stamp w answer) s = some s' → Outcome m s q answer s' []
  | failed {w : Weight} {s' : InterfaceBase} : w.count = 0 → set m (dns.found m.clock.stamp w .failure) s = some s' →
      Outcome m s q answer s' []
  | targets {name p : List Char} {ts : List Target} : q = .getsrv name → answer = .srv ts →
      Outcome m s q answer { s with protocol := p } (ts.map (target_query { s with protocol := p }))
  | follows {name subject : List Char} {q' : Query} : q = .getnaptr name subject → q'.Fresh → Outcome m s q answer s [q']

variable {q : Query}

theorem naptr_query_fresh {sub : List Char} {r : Naptr} (h : naptr_query subject sub r = some q) : q.Fresh := by
  unfold naptr_query at h
  split at h
  · cases h
    trivial
  · split at h
    · cases h
      trivial
    · cases h

theorem naptr_success_fresh {rs : List Naptr} (h : naptr_success rewrite subject rs = some q) : q.Fresh := by
  induction rs with
  | nil => cases h
  | cons r rs ih =>
    unfold naptr_success at h
    split at h
    · exact ih h
    · split at h
      · split at h
        · rename_i q' hq'
          cases h
          obtain ⟨sub, -, hsub⟩ := Option.bind_eq_some_iff.mp hq'
          split at hsub
          · cases hsub
          · exact naptr_query_fresh hsub
        · exact ih h
      · split at h
        · split at h
          · rename_i q' hq'
            cases h
            exact naptr_query_fresh hq'
          · exact ih h
        · exact ih h

theorem answered_naptr (name subject : List Char) (records : List Naptr) :
    answered rewrite m s (.getnaptr name subject) (.naptr records) =
      match naptr_success rewrite subject records with
      | some q => some (s, [q])
      | none => (set m [null_address m.clock.stamp] s).map fun s => (s, []) := rfl

theorem answered_cases {qs : List Query}
    (h : answered rewrite m s q answer = some (s', qs)) : Outcome m s q answer s' qs := by
  have failed : (set m [null_address m.clock.stamp] s).map (fun s => (s, ([] : List Query))) = some (s', qs) →
      Outcome m s q answer s' qs := by
    intro h
    obtain ⟨s₁, hset, heq⟩ := Option.map_eq_some_iff.mp h
    cases heq
    exact .failed (w := ⟨1, 0, 0⟩) rfl hset
  cases q with
  | getaddrinfo n v w stream =>
    obtain ⟨s₁, hset, heq⟩ := Option.map_eq_some_iff.mp h
    cases heq
    exact .found rfl hset
  | getsrv name =>
    cases answer with
    | srv ts =>
      obtain ⟨p, -, heq⟩ := Option.map_eq_some_iff.mp h
      cases heq
      exact .targets rfl rfl
    | _ => exact failed h
  | getnaptr name subject =>
    cases answer with
    | naptr records =>
      rw [answered_naptr] at h
      cases hn : naptr_success rewrite subject records with
      | some q' =>
        rw [hn] at h
        obtain ⟨rfl, rfl⟩ := Prod.mk.inj (Option.some.inj h)
        exact .follows rfl (naptr_success_fresh hn)
      | none =>
        rw [hn] at h
        exact failed h
    | _ => exact failed h

theorem set_kept {l : List Address} (hl : ∀ a ∈ l, a.count ≤ a.max) (h : set m l s = some s') :
    Counted s' ∧ Kept s s' := by
  obtain ⟨s₁, hset, hcounts, -, hres⟩ := set_spec m hl s
  rw [hset] at h
  cases h
  exact ⟨hcounts, hres.uri, hres.protocol⟩

end Answered

/-! ## What an event does -/

/-- The counters are right, and those of the queries are at zero. -/
structure Sound (b : Backend) : Prop where
  counted : Counted b.iface
  fresh : ∀ q ∈ b.queries, q.Fresh

variable {s s' : InterfaceBase} {q : Query} {m : Moment} {answer : Answer} {qs : List Query}
  {rewrite : List Char → List Char → Option (List Char)} {b : Backend}

theorem resolve_fresh (h : resolve s = some q) : q.Fresh := by
  unfold resolve at h
  split at h
  · repeat' split at h
    all_goals cases h
    all_goals trivial
  · split at h
    · cases h
      rfl
    · cases h

theorem Outcome.sound (h : Outcome m s q answer s' qs) (hc : Counted s)
    (hq : q.Fresh) : Counted s' ∧ ∀ q' ∈ qs, q'.Fresh := by
  cases h with
  | found heq hset =>
    subst heq
    exact ⟨(set_kept (found_counts _ _ hq) hset).1, by simp⟩
  | failed hw hset => exact ⟨(set_kept (found_counts _ _ hw) hset).1, by simp⟩
  | targets _ _ =>
    refine ⟨hc, fun q' hq' => ?_⟩
    obtain ⟨t, -, rfl⟩ := List.mem_map.mp hq'
    rfl
  | follows _ hf =>
    refine ⟨hc, fun q' hq' => ?_⟩
    rw [List.mem_singleton.mp hq']
    exact hf

section Step

variable {rewrite : List Char → List Char → Option (List Char)} {m : Moment} {b b' : Backend}

/-- After a connect the interface is the one that the callbacks left, and the queries are the same or
one more. -/
theorem step_connect {w : StreamId} {s' : InterfaceBase}
    (hconn : connect m w b.iface =
      some (s', if s'.addresses = [] ∧ s'.pending.length = 1 then some (resolve s') else none))
    (h : b.step rewrite m (.connect w) = some b') :
    (b' = ⟨s', b.queries⟩ ∧ ¬ (s'.addresses = [] ∧ s'.pending.length = 1)) ∨
      ∃ q, resolve s' = some q ∧ b' = ⟨s', b.queries ++ [q]⟩ := by
  by_cases hguard : s'.addresses = [] ∧ s'.pending.length = 1
  · rw [if_pos hguard] at hconn
    simp only [Backend.step, hconn] at h
    cases hr : resolve s' with
    | none =>
      rw [hr] at h
      cases h
    | some q =>
      rw [hr] at h
      exact .inr ⟨q, rfl, (Option.some.inj h).symm⟩
  · rw [if_neg hguard] at hconn
    simp only [Backend.step, hconn] at h
    exact .inl ⟨(Option.some.inj h).symm, hguard⟩

theorem step_answer {i : Nat} {answer : Answer} (h : b.step rewrite m (.answer i answer) = some b') :
    ∃ q s' qs, b.queries[i]? = some q ∧ Outcome m b.iface q answer s' qs ∧ b' = ⟨s', b.queries.eraseIdx i ++ qs⟩ := by
  cases hq : b.queries[i]? with
  | none =>
    simp only [Backend.step, hq] at h
    cases h
  | some q =>
    simp only [Backend.step, hq] at h
    obtain ⟨x, hx, heq⟩ := Option.map_eq_some_iff.mp h
    exact ⟨q, x.1, x.2, rfl, answered_cases hx, heq.symm⟩

end Step

theorem Sound.step {rewrite : List Char → List Char → Option (List Char)} {m : Moment} {b b' : Backend} {e : Event}
    (hb : Sound b) (h : b.step rewrite m e = some b') : Sound b' := by
  cases e with
  | connect w =>
    obtain ⟨s', hconn, hc, -⟩ := connect_spec m w hb.counted
    rcases step_connect hconn h with ⟨rfl, -⟩ | ⟨q, hq, rfl⟩
    · exact ⟨hc, hb.fresh⟩
    · refine ⟨hc, fun q' hq' => ?_⟩
      rcases List.mem_append.mp hq' with hq' | hq'
      · exact hb.fresh q' hq'
      · rw [List.mem_singleton.mp hq']
        exact resolve_fresh hq
  | answer i answer =>
    obtain ⟨q, s', qs, hq, hout, rfl⟩ := step_answer h
    obtain ⟨hc, hf⟩ := hout.sound hb.counted (hb.fresh q (List.mem_of_getElem? hq))
    refine ⟨hc, fun q' hq' => ?_⟩
    rcases List.mem_append.mp hq' with hq' | hq'
    · exact hb.fresh q' (List.mem_of_mem_eraseIdx hq')
    · exact hf q' hq'
  | refused err w buffer =>
    obtain ⟨s', hs, hc, -⟩ := south_err_spec m err w buffer hb.counted
    simp only [Backend.step, hs, Option.map_some, Option.some_inj] at h
    subst h
    exact ⟨hc, hb.fresh⟩
  | make w =>
    cases h
    exact ⟨hb.counted, hb.fresh⟩
  | erase w =>
    cases h
    exact ⟨hb.counted, hb.fresh⟩

/-! ## No connect waits forever -/

/-- Connects wait only while there is no address, and while a query is outstanding. -/
structure Served (b : Backend) : Prop where
  unresolved : b.iface.pending ≠ [] → b.iface.addresses = []
  outstanding : b.iface.pending ≠ [] → b.queries ≠ []

/-- An answer without a record comes only when no connect waits, or another query is outstanding. -/
def Found (m : Moment) (b : Backend) (e : Event) : Prop :=
  m.clock.Steady ∧ ∀ i answer, e = .answer i answer → answer.Empty → b.iface.pending = [] ∨ 2 ≤ b.queries.length

/-- After an answer connects wait only if they did before, and then a query follows or the answer was
without a record. -/
theorem Outcome.waits (h : Outcome m s q answer s' qs) (hm : m.clock.Steady) (hq : q.Fresh) (hw : s'.pending ≠ []) :
    s'.pending = s.pending ∧ (s.addresses = [] → s'.addresses = []) ∧ (qs ≠ [] ∨ answer.Empty) := by
  cases h with
  | @found n v w stream s' heq hset =>
    subst heq
    by_cases hne : dns.found m.clock.stamp w answer = []
    · have hempty : answer.Empty := by
        cases answer with
        | addrinfo nodes => exact List.map_eq_nil_iff.mp hne
        | _ => cases hne
      obtain ⟨s₁, hset', -, -, hres⟩ := set_spec m (found_counts m.clock.stamp answer hq) s
      rw [hset] at hset'
      cases hset'
      obtain ⟨haddr, hpend⟩ := waiting_of_resolved hres hw
      exact ⟨hpend, fun _ => haddr, .inr hempty⟩
    · obtain ⟨s₁, hset', -, -, hpend⟩ := found_called (s := s) hm hq hne
      rw [hset] at hset'
      cases hset'
      exact absurd hpend hw
  | @failed w s' hzero hset =>
    have hne : dns.found m.clock.stamp w .failure ≠ [] := List.cons_ne_nil _ _
    obtain ⟨s₁, hset', -, -, hpend⟩ := found_called (s := s) hm hzero hne
    rw [hset] at hset'
    cases hset'
    exact absurd hpend hw
  | @targets name p ts _ hans =>
    refine ⟨rfl, id, ?_⟩
    by_cases hts : ts = []
    · exact .inr (hans ▸ hts)
    · exact .inl fun h => hts (List.map_eq_nil_iff.mp h)
  | follows _ _ => exact ⟨rfl, id, .inl (List.cons_ne_nil _ _)⟩

theorem Served.step {rewrite : List Char → List Char → Option (List Char)} {m : Moment} {b b' : Backend} {e : Event}
    (hb : Served b) (hsound : Sound b) (hf : Found m b e) (h : b.step rewrite m e = some b') : Served b' := by
  cases e with
  | connect w =>
    obtain ⟨s', hconn, -, hres⟩ := connect_spec m w hsound.counted
    rcases step_connect hconn h with ⟨rfl, hguard⟩ | ⟨q, -, rfl⟩
    · refine ⟨fun hw => (waiting_of_resolved hres hw).1, fun hw => ?_⟩
      -- no query was made, so this is not the first connect that waits
      obtain ⟨haddr, hpend⟩ := waiting_of_resolved hres hw
      apply hb.outstanding
      intro hnil
      apply hguard
      refine ⟨haddr, ?_⟩
      rw [hpend]
      show (b.iface.pending ++ [w]).length = 1
      rw [hnil]
      rfl
    · refine ⟨fun hw => (waiting_of_resolved hres hw).1, fun _ hnil => ?_⟩
      exact List.cons_ne_nil _ _ (List.append_eq_nil_iff.mp hnil).2
  | answer i answer =>
    obtain ⟨q, s', qs, hq, hout, rfl⟩ := step_answer h
    have hfresh := hsound.fresh q (List.mem_of_getElem? hq)
    constructor
    · intro hw
      obtain ⟨hpend, haddr, -⟩ := hout.waits hf.1 hfresh hw
      exact haddr (hb.unresolved (hpend ▸ hw))
    · intro hw hnil
      obtain ⟨hpend, -, hqs | hempty⟩ := hout.waits hf.1 hfresh hw
      · exact hqs (List.append_eq_nil_iff.mp hnil).2
      · rcases hf.2 i answer rfl hempty with hp | hlen
        · exact hw (hpend.trans hp)
        · have hlt : i < b.queries.length := (List.getElem?_eq_some_iff.mp hq).1
          have := congrArg List.length (List.append_eq_nil_iff.mp hnil).1
          rw [List.length_eraseIdx_of_lt hlt, List.length_nil] at this
          omega
  | refused err w buffer =>
    obtain ⟨s', hs, -, -, hwait⟩ := south_err_spec m err w buffer hsound.counted
    simp only [Backend.step, hs, Option.map_some, Option.some_inj] at h
    subst h
    constructor
    · intro hw
      obtain ⟨hpend, haddr⟩ := hwait hw
      exact haddr (hb.unresolved (hpend ▸ hw))
    · intro hw
      exact hb.outstanding ((hwait hw).1 ▸ hw)
  | make w =>
    cases h
    exact ⟨hb.unresolved, hb.outstanding⟩
  | erase w =>
    cases h
    exact ⟨hb.unresolved, hb.outstanding⟩

/-! ## The configured backends -/

/-- `host:port`, as `make_url` accepts it. -/
structure Url where
  host : List Char
  port : List Char
  colon : ':' ∉ host
  digits : port ≠ [] ∧ port.all Char.isDigit

/-- A URI with its scheme. -/
structure Uri where
  text : List Char
  colon : ':' ∈ text

/-- What a backend can be configured as: an address, a URL with its protocol, or a URI. -/
inductive Configured where
  | sockaddr (protocol : List Char) (addr : List UInt8) (len : Nat) (fits : len ≤ STORAGE)
  | url (protocol : List Char) (u : Url)
  | uri (u : Uri)

/-- `make_south`: the interface of a backend, without queries. -/
def Configured.backend : Configured → Backend
  | .sockaddr protocol addr len fits =>
    ⟨⟨[], protocol, [⟨addr, len, 0, -1, ⟨1, 0, SIZE_MAX⟩, .inl fits⟩], [], [], 0, 0, SIZE_MAX⟩, []⟩
  | .url protocol u => ⟨⟨u.host ++ ':' :: u.port, protocol, [], [], [], 0, 0, SIZE_MAX⟩, []⟩
  | .uri u => ⟨⟨u.text, [], [], [], [], 0, 0, SIZE_MAX⟩, []⟩

theorem Configured.sound (c : Configured) : Sound c.backend := by
  cases c with
  | sockaddr protocol addr len fits =>
    refine ⟨fun a ha => ?_, by simp [backend]⟩
    rw [List.mem_singleton.mp ha]
    exact Nat.zero_le _
  | url protocol u => exact ⟨by simp [Counted, backend], by simp [backend]⟩
  | uri u => exact ⟨by simp [Counted, backend], by simp [backend]⟩

theorem Configured.pending (c : Configured) : c.backend.iface.pending = [] := by
  cases c <;> rfl

variable {C : Moment → Backend → Event → Prop} {c : Configured}

theorem Reach.sound (h : Reach rewrite C c.backend b) : Sound b := by
  induction h with
  | start => exact c.sound
  | step m e _ _ hs ih => exact ih.step hs

/-- A connect that waits has a query outstanding that will let it go on. -/
theorem no_connect_waits_forever (rewrite : List Char → List Char → Option (List Char)) (c : Configured) (b : Backend)
    (h : Reach rewrite Found c.backend b) : b.iface.pending ≠ [] → b.queries ≠ [] := by
  have hserved : Served b := by
    induction h with
    | start => exact ⟨fun hw => absurd c.pending hw, fun hw => absurd c.pending hw⟩
    | step m e hr hf hs ih => exact ih.step hr.sound hf hs
  exact hserved.outstanding

/-- `tcp://a:80` -/
def a80 : Configured := .url TCP ⟨['a'], ['8', '0'], by decide, by decide⟩

theorem the_first_connect_waits_for_a_query :
    ∃ b, Reach noRewrite Found a80.backend b ∧ b.iface.pending = [1] ∧ b.queries ≠ [] := by
  have hquiet : ∀ (b : Backend) (w : StreamId), Found (still 0) b (.make w) ∧ Found (still 0) b (.connect w) := by
    intro b w
    have hm : (still 0).clock.Steady := by
      unfold Clock.Steady
      decide
    exact ⟨⟨hm, by simp⟩, hm, by simp⟩
  have h : Reach noRewrite Found a80.backend
      ⟨⟨"a:80".toList, TCP, [], [1], [1], 0, 0, SIZE_MAX⟩, [.getaddrinfo ['a'] ['8', '0'] ⟨1, 0, SIZE_MAX⟩ true]⟩ := by
    refine .step (still 0) (.connect 1) (.step (still 0) (.make 1) .start (hquiet _ _).1 rfl) (hquiet _ _).2 ?_
    rfl
  exact ⟨_, h, rfl, no_connect_waits_forever noRewrite a80 _ h (by simp)⟩

/-- A lookup that succeeds without an address: the connect waits on, and those that come later wait
behind it, with no query that would let them go on. -/
theorem a_connect_waits_forever :
    (a80.backend.run noRewrite [(still 0, .make 1), (still 0, .connect 1), (still 0, .answer 0 (.addrinfo []))]).map
        (fun b => (b.iface.pending, b.queries)) = some ([1], []) ∧
      (a80.backend.run noRewrite
        [(still 0, .make 1), (still 0, .connect 1), (still 0, .answer 0 (.addrinfo [])), (still 0, .make 2),
          (still 9, .connect 2)]).map (fun b => (b.iface.pending, b.queries)) = some ([1, 2], []) := by
  refine ⟨by decide +kernel, by decide +kernel⟩

/-! ## A backend resolves as configured -/

/-- A lookup of addresses. -/
def Query.Lookup : Query → Prop
  | .getaddrinfo _ _ _ _ => True
  | _ => False

theorem Outcome.kept (h : Outcome m s q answer s' qs) (hq : q.Fresh) :
    Kept s s' ∧ qs = [] ∨ ¬ q.Lookup ∧ s'.uri = s.uri := by
  cases h with
  | found heq hset =>
    subst heq
    exact .inl ⟨(set_kept (found_counts _ _ hq) hset).2, rfl⟩
  | failed hw hset => exact .inl ⟨(set_kept (found_counts _ _ hw) hset).2, rfl⟩
  | targets heq _ =>
    subst heq
    exact .inr ⟨id, rfl⟩
  | follows heq _ =>
    subst heq
    exact .inr ⟨id, rfl⟩

/-- An event keeps the interface and asks no more than `resolve` does, or it is the answer to an SRV or
a NAPTR query. -/
theorem step_kept {b' : Backend} {e : Event} (hb : Sound b) (h : b.step rewrite m e = some b') :
    (Kept b.iface b'.iface ∧ ∀ q ∈ b'.queries, q ∈ b.queries ∨ resolve b'.iface = some q) ∨
      (∃ q ∈ b.queries, ¬ q.Lookup) ∧ b'.iface.uri = b.iface.uri := by
  cases e with
  | connect w =>
    obtain ⟨s', hconn, -, hres⟩ := connect_spec m w hb.counted
    have hkept : Kept b.iface s' := ⟨hres.uri, hres.protocol⟩
    rcases step_connect hconn h with ⟨rfl, -⟩ | ⟨q, hq, rfl⟩
    · exact .inl ⟨hkept, fun q hq => .inl hq⟩
    · refine .inl ⟨hkept, fun q' hq' => ?_⟩
      rcases List.mem_append.mp hq' with hq' | hq'
      · exact .inl hq'
      · rw [List.mem_singleton.mp hq']
        exact .inr hq
  | answer i answer =>
    obtain ⟨q, s', qs, hq, hout, rfl⟩ := step_answer h
    have hmem := List.mem_of_getElem? hq
    rcases hout.kept (hb.fresh q hmem) with ⟨hkept, rfl⟩ | ⟨hlookup, huri⟩
    · refine .inl ⟨hkept, fun q' hq' => .inl ?_⟩
      rw [List.append_nil] at hq'
      exact List.mem_of_mem_eraseIdx hq'
    · exact .inr ⟨⟨q, hmem, hlookup⟩, huri⟩
  | refused err w buffer =>
    obtain ⟨s', hs, -, hkept, -⟩ := south_err_spec m err w buffer hb.counted
    simp only [Backend.step, hs, Option.map_some, Option.some_inj] at h
    subst h
    exact .inl ⟨hkept, fun q hq => .inl hq⟩
  | make w =>
    cases h
    exact .inl ⟨⟨rfl, .inl rfl⟩, fun q hq => .inl hq⟩
  | erase w =>
    cases h
    exact .inl ⟨⟨rfl, .inl rfl⟩, fun q hq => .inl hq⟩

theorem Reach.uri (h : Reach rewrite C c.backend b) : b.iface.uri = c.backend.iface.uri := by
  induction h with
  | start => rfl
  | step m e hr _ hs ih =>
    rcases step_kept hr.sound hs with ⟨hkept, -⟩ | ⟨-, huri⟩
    · exact hkept.uri.trans ih
    · exact huri.trans ih

section Url

variable {s : InterfaceBase} {u : Url}

theorem port_of_url (h : s.uri = u.host ++ ':' :: u.port) : s.port = u.port := by
  have hafter : after_colon s.uri = u.port := by
    unfold after_colon
    rw [h, (Text.cut_at u.colon u.port).2]
    rfl
  unfold InterfaceBase.port port_
  rw [hafter, if_pos u.digits]

theorem host_of_url (h : s.uri = u.host ++ ':' :: u.port) : s.host = lower u.host := by
  unfold InterfaceBase.host
  rw [port_of_url h, if_neg u.digits.1, h, (Text.cut_at u.colon u.port).1]

/-- The query for a URL: its host and its port. -/
def Url.query (u : Url) : Query := .getaddrinfo (lower u.host) u.port ⟨1, 0, SIZE_MAX⟩ true

theorem resolve_url (huri : s.uri = u.host ++ ':' :: u.port) (hp : s.protocol = TCP) : resolve s = some u.query := by
  unfold resolve getaddrinfo
  rw [if_neg (by rw [hp]; decide), if_pos hp, host_of_url huri, port_of_url huri, hp]
  rfl

/-- While the URL does not read as a scheme that is found out anew, its protocol stays, and every query
is a lookup of addresses. -/
theorem Reach.lookups {rewrite : List Char → List Char → Option (List Char)} {C : Moment → Backend → Event → Prop}
    {b : Backend} (h : Reach rewrite C (Configured.url TCP u).backend b)
    (hd : ¬ (Configured.url TCP u).backend.iface.discovered) :
    b.iface.protocol = TCP ∧ ∀ q ∈ b.queries, q.Lookup := by
  induction h with
  | start => exact ⟨rfl, by simp [Configured.backend]⟩
  | @step b b' m e hr hc hs ih =>
    obtain ⟨hp, hq⟩ := ih
    rcases step_kept hr.sound hs with ⟨hkept, hnew⟩ | ⟨⟨q, hmem, hlookup⟩, -⟩
    · have hp' : b'.iface.protocol = TCP := by
        rcases hkept.protocol with heq | ⟨hdisc, -⟩
        · exact heq.trans hp
        · rw [InterfaceBase.discovered_congr hr.uri] at hdisc
          exact absurd hdisc hd
      refine ⟨hp', fun q hmem => ?_⟩
      rcases hnew q hmem with hold | hres
      · exact hq q hold
      · rw [resolve_url ((hr.step m e hc hs).uri) hp'] at hres
        cases hres
        trivial
    · exact absurd (hq q hmem) hlookup

end Url

section Uri

variable {s : InterfaceBase} {u : Uri}

def Uri.scheme (u : Uri) : List Char := lower (u.text.takeWhile (· != ':'))

/-- The query for a URI, by its scheme: SRV for `srv`, and NAPTR for every other one. -/
def Uri.query (u : Uri) : Query :=
  let rest := after_colon u.text
  if u.scheme = "srv".toList then .getsrv rest
  else if u.scheme = "naptr".toList then .getnaptr rest rest
  else if u.scheme = "urn".toList then .getnaptr (lower (rest.takeWhile (· != ':')) ++ ".urn".toList) u.text
  else .getnaptr (u.scheme ++ ".uri".toList) u.text

/-- The scheme `urn` has three letters, so `nid` starts behind the colon. -/
theorem nid_of_urn (huri : s.uri = u.text) (hs : u.scheme = "urn".toList) :
    s.nid = lower ((after_colon u.text).takeWhile (· != ':')) := by
  have hlen : (u.text.takeWhile (· != ':')).length = 3 := by
    have := congrArg List.length hs
    unfold Uri.scheme lower at this
    rwa [List.length_map] at this
  have hdrop : u.text.drop 4 = after_colon u.text := by
    unfold after_colon
    conv_lhs => rw [← List.takeWhile_append_dropWhile (p := (· != ':')) (l := u.text)]
    rw [List.drop_append, hlen, List.drop_eq_nil_of_le (by omega)]
    rfl
  unfold InterfaceBase.nid
  rw [huri, hdrop]

theorem resolve_uri (huri : s.uri = u.text) (hp : s.protocol = []) : resolve s = some u.query := by
  have hs : s.scheme = u.scheme := by
    unfold InterfaceBase.scheme Uri.scheme lower
    rw [huri]
  have hcolon : ':' ∈ s.uri := huri ▸ u.colon
  unfold resolve Uri.query
  rw [if_pos hp, hs]
  split
  · rw [huri]
  · split
    · rw [huri]
    · split
      · rename_i hurn
        rw [nid_of_urn huri hurn, hurn, huri]
        rfl
      · rw [huri]

end Uri

/-- The query that a configuration stands for; a backend with an address has none, nor has a URL with a
protocol that cannot be resolved. -/
def Configured.query : Configured → Option Query
  | .sockaddr _ _ _ _ => none
  | .url protocol u => if protocol = TCP then some u.query else none
  | .uri u => some u.query

/-- A URL whose host does not read as `srv`, `naptr` or `urn`; a URI with one of these schemes, or for
which no SRV answer has set a protocol. -/
def Configured.Unmistaken (c : Configured) (b : Backend) : Prop :=
  match c with
  | .sockaddr _ _ _ _ => True
  | .url _ _ => ¬ c.backend.iface.discovered
  | .uri _ => c.backend.iface.discovered ∨ b.iface.protocol = []

/-- Whatever happened to a backend, a connect that makes a query makes the configured one. -/
theorem a_backend_resolves_as_configured (rewrite : List Char → List Char → Option (List Char)) (c : Configured)
    (q : Query) (hq : c.query = some q) (b : Backend) (h : Reach rewrite (fun _ _ _ => True) c.backend b)
    (hc : c.Unmistaken b) (m : Moment) (w : StreamId) (s' : InterfaceBase) (call : Option Query)
    (hcall : connect m w b.iface = some (s', some call)) : call = some q := by
  obtain ⟨s₁, hconn, -, hres⟩ := connect_spec m w h.sound.counted
  rw [hcall] at hconn
  obtain ⟨rfl, hguard⟩ := Prod.mk.inj (Option.some.inj hconn)
  split at hguard
  case isFalse => cases hguard
  case isTrue hempty =>
    cases hguard
    have huri : s'.uri = c.backend.iface.uri := hres.uri.trans h.uri
    have hdisc : b.iface.discovered = c.backend.iface.discovered := InterfaceBase.discovered_congr h.uri
    cases c with
    | sockaddr protocol addr len fits => cases hq
    | url protocol u =>
      obtain ⟨rfl, heq⟩ := (Option.ite_none_right_eq_some).mp hq
      cases heq
      have hp : s'.protocol = TCP := by
        rcases hres.protocol with hp | ⟨hd, -⟩
        · exact hp.trans (h.lookups hc).1
        · exact absurd (hdisc ▸ hd) hc
      exact resolve_url huri hp
    | uri u =>
      cases hq
      have hp : s'.protocol = [] := by
        rcases hc with hd | hnone
        · exact hres.forgotten hempty.1 (hdisc ▸ hd)
        · rcases hres.protocol with hp | ⟨-, hp⟩
          · exact hp.trans hnone
          · exact hp
      exact resolve_uri huri hp

theorem the_host_and_the_port_are_asked_for :
    ∃ s' call, connect (still 0) 1 a80.backend.iface = some (s', some call) ∧
      call = some (.getaddrinfo ['a'] ['8', '0'] ⟨1, 0, SIZE_MAX⟩ true) := by
  have hcall : connect (still 0) 1 a80.backend.iface =
      some (⟨"a:80".toList, TCP, [], [], [1], 0, 0, SIZE_MAX⟩, some (resolve a80.backend.iface)) := rfl
  have hplain : ¬ a80.backend.iface.discovered := by decide
  exact ⟨_, _, hcall, a_backend_resolves_as_configured noRewrite a80 _ rfl _ .start hplain (still 0) 1 _ _ hcall⟩

/-- `tcp://srv:80` -/
def srv80 : Configured := .url TCP ⟨"srv".toList, "80".toList, by decide, by decide⟩

/-- `web:b` -/
def webB : Configured := .uri ⟨"web:b".toList, by decide⟩

/-- A NAPTR answer that leads to the SRV records of `_x._tcp.b`, an SRV answer with one target, and its
address, which is soon past; after that the stream `1` is gone. -/
def discovery : List (Moment × Event) :=
  [(still 0, .make 1), (still 0, .connect 1), (still 0, .answer 0 (.naptr [⟨['s'], [], "_x._tcp.b".toList⟩])),
    (still 0, .answer 0 (.srv [(oneTarget "a" 1).1])), (still 0, .answer 0 (.addrinfo [⟨[1], 16, 1, sockaddr_in_le⟩])),
    (still 0, .erase 1)]

/-- A host with the name of a scheme is asked for as an SRV record from the first connect on; and once an
SRV answer has set the protocol of a URI, the next query after its addresses expired is a lookup of no host. -/
theorem a_backend_forgets_its_configuration :
    srv80.query = some (.getaddrinfo "srv".toList "80".toList ⟨1, 0, SIZE_MAX⟩ true) ∧
      (connect (still 0) 1 srv80.backend.iface).map Prod.snd = some (some (some (.getsrv "80".toList))) ∧
      webB.query = some (.getnaptr "web.uri".toList "web:b".toList) ∧
      ((webB.backend.run noRewrite discovery).bind fun b => (connect (still 9999) 2 b.iface).map Prod.snd) =
        some (some (some (.getaddrinfo [] [] ⟨1, 0, SIZE_MAX⟩ true))) := by
  refine ⟨by decide, by decide +kernel, by decide, by decide +kernel⟩

end cloudbus.dns
