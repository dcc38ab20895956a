-- The order of the frames of one session on one transport. The frames that are
-- sent for an eid are read by an automaton, and the state of a connection tells
-- how far its frames are. A frame is sent in five places: the chunk of a client
-- or a service, the first chunk, the latch, the end of a stream, and the answer
-- to a frame that no connection takes.
import Cloudbus.Lookup
import Cloudbus.Transit

namespace cloudbus

open cloudbus.io cloudbus.messages

/-! ## The automaton -/

/-- How far the frames of a session are. -/
inductive Phase
  /-- Nothing was sent. -/
  | fresh
  /-- The session was started. -/
  | running
  /-- A STOP was sent. -/
  | stopped
  /-- An ABORT was sent. -/
  | aborted
  /-- Only ABORTs were sent, for a session that was never started. -/
  | refused
  | broken
deriving DecidableEq

def Phase.step (p : Phase) (t : Msgtype) : Phase :=
  match p with
  | .fresh => if t = abortType then .refused else if t = ⟨DATA, INIT⟩ then .running else .broken
  | .running =>
    if t = ⟨DATA, 0⟩ then .running else if t = ⟨STOP, 0⟩ then .stopped
    else if t = abortType then .aborted else .broken
  | .stopped => if t = abortType then .aborted else .broken
  | .aborted => if t = abortType then .aborted else .broken
  | .refused => if t = abortType then .refused else .broken
  | .broken => .broken

def phase (start : Phase) (ts : List Msgtype) : Phase := ts.foldl Phase.step start

theorem phase_append (start : Phase) (ts us : List Msgtype) :
    phase start (ts ++ us) = phase (phase start ts) us := List.foldl_append

/-- Any number of data frames, then at most one STOP, and then ABORTs. -/
def InOrder (ts : List Msgtype) : Prop :=
  ∃ k s a, s ≤ 1 ∧ ts = List.replicate k ⟨DATA, 0⟩ ++ (List.replicate s ⟨STOP, 0⟩ ++ List.replicate a abortType)

/-- A frame with INIT, and the others in their order. -/
def Started (ts : List Msgtype) : Prop := ∃ us, ts = ⟨DATA, INIT⟩ :: us ∧ InOrder us

/-- Nothing but ABORTs. -/
def Denied (ts : List Msgtype) : Prop := ∃ a, ts = List.replicate a abortType

/-- What was sent in each phase, after the frames `first` that start a session. -/
def Phase.Shape (first : List Msgtype) : Phase → List Msgtype → Prop
  | .fresh, ts => ts = []
  | .running, ts => ∃ k, ts = first ++ List.replicate k ⟨DATA, 0⟩
  | .stopped, ts => ∃ k, ts = first ++ (List.replicate k ⟨DATA, 0⟩ ++ [⟨STOP, 0⟩])
  | .aborted, ts => ∃ us, ts = first ++ us ∧ InOrder us
  | .refused, ts => Denied ts
  | .broken, _ => True

variable {ts : List Msgtype}

theorem InOrder.abort (h : InOrder ts) : InOrder (ts ++ [abortType]) := by
  obtain ⟨k, s, a, hs, rfl⟩ := h
  refine ⟨k, s, a + 1, hs, ?_⟩
  rw [List.replicate_succ', List.append_assoc, List.append_assoc]

theorem inOrder_data (k : Nat) : InOrder (List.replicate k ⟨DATA, 0⟩) :=
  ⟨k, 0, 0, Nat.zero_le 1, by simp⟩

theorem inOrder_stop (k : Nat) : InOrder (List.replicate k ⟨DATA, 0⟩ ++ [⟨STOP, 0⟩]) :=
  ⟨k, 1, 0, Nat.le_refl 1, by simp⟩

/-- The step of each phase, when the frames before it have their shape. -/
theorem Phase.Shape.step {first : List Msgtype} {p : Phase} {ts : List Msgtype} (h : p.Shape first ts)
    (hstart : p = .fresh → first = [⟨DATA, INIT⟩]) (t : Msgtype) : (p.step t).Shape first (ts ++ [t]) := by
  cases p with
  | fresh =>
    obtain rfl : ts = [] := h
    rw [hstart rfl]
    unfold Phase.step
    dsimp only
    split
    · rename_i ht
      exact ⟨1, by rw [ht]; rfl⟩
    · split
      · rename_i ht
        exact ⟨0, by rw [ht]; rfl⟩
      · trivial
  | running =>
    obtain ⟨k, rfl⟩ := h
    unfold Phase.step
    dsimp only
    split
    · rename_i ht
      refine ⟨k + 1, ?_⟩
      rw [ht, List.append_assoc, List.replicate_succ']
    · split
      · rename_i ht
        exact ⟨k, by rw [ht, List.append_assoc]⟩
      · split
        · rename_i ht
          refine ⟨List.replicate k ⟨DATA, 0⟩ ++ [abortType], by rw [ht, List.append_assoc], ?_⟩
          exact (inOrder_data k).abort
        · trivial
  | stopped =>
    obtain ⟨k, rfl⟩ := h
    unfold Phase.step
    dsimp only
    split
    · rename_i ht
      refine ⟨List.replicate k ⟨DATA, 0⟩ ++ [⟨STOP, 0⟩] ++ [abortType], by rw [ht, List.append_assoc], ?_⟩
      exact (inOrder_stop k).abort
    · trivial
  | aborted =>
    obtain ⟨us, rfl, ho⟩ := h
    unfold Phase.step
    dsimp only
    split
    · rename_i ht
      exact ⟨us ++ [abortType], by rw [ht, List.append_assoc], ho.abort⟩
    · trivial
  | refused =>
    obtain ⟨a, rfl⟩ := h
    unfold Phase.step
    dsimp only
    split
    · rename_i ht
      exact ⟨a + 1, by rw [ht, List.replicate_succ']⟩
    · trivial
  | broken => trivial

theorem Phase.step_ne_fresh (p : Phase) (t : Msgtype) : p.step t ≠ .fresh := by
  cases p <;> simp only [Phase.step] <;> (repeat' split) <;> simp

/-- What was sent, told by the phase. -/
theorem phase_spec (first : List Msgtype) (start : Phase) (h0 : start.Shape first [])
    (hstart : start = .fresh → first = [⟨DATA, INIT⟩]) (ts : List Msgtype) : (phase start ts).Shape first ts := by
  induction ts using List.reverseRecOn with
  | nil => exact h0
  | append_singleton ts t ih =>
    rw [phase_append]
    refine ih.step (fun hp => ?_) t
    cases ts using List.reverseRecOn with
    | nil => exact hstart hp
    | append_singleton ts u =>
      rw [phase_append] at hp
      exact absurd hp (Phase.step_ne_fresh _ u)

/-- The phases of a session that was started. -/
def Phase.isStarted : Phase → Bool
  | .running => true
  | .stopped => true
  | .aborted => true
  | _ => false

theorem phase_aborts {p : Phase} (h : p.isStarted) (a : Nat) :
    (phase p (List.replicate a abortType)).isStarted := by
  induction a generalizing p with
  | zero => exact h
  | succ a ih =>
    refine ih (p := p.step abortType) ?_
    cases p with
    | running => rfl
    | stopped => rfl
    | aborted => rfl
    | fresh => cases h
    | refused => cases h
    | broken => cases h

theorem isStarted_of_inOrder (h : InOrder ts) : (phase .running ts).isStarted := by
  obtain ⟨k, s, a, hs, rfl⟩ := h
  have hdata : phase .running (List.replicate k ⟨DATA, 0⟩) = .running := by
    induction k with
    | zero => rfl
    | succ k ih => exact ih
  rw [phase_append, phase_append, hdata]
  refine phase_aborts ?_ a
  obtain rfl | rfl : s = 0 ∨ s = 1 := by omega
  · rfl
  · rfl

/-- The automaton reads the frames in their order, and no others. -/
theorem inOrder_iff : InOrder ts ↔ phase .running ts ≠ .broken := by
  constructor
  · intro h hb
    have := isStarted_of_inOrder h
    rw [hb] at this
    cases this
  · intro h
    have hs := phase_spec [] .running ⟨0, rfl⟩ nofun ts
    generalize phase .running ts = p at h hs
    cases p with
    | fresh => exact hs ▸ inOrder_data 0
    | running =>
      obtain ⟨k, rfl⟩ := hs
      exact inOrder_data k
    | stopped =>
      obtain ⟨k, rfl⟩ := hs
      exact inOrder_stop k
    | aborted =>
      obtain ⟨us, rfl, ho⟩ := hs
      exact ho
    | refused =>
      obtain ⟨a, rfl⟩ := hs
      exact ⟨0, 0, a, Nat.zero_le 1, rfl⟩
    | broken => exact absurd rfl h

theorem started_iff : Started ts ↔ (phase .fresh ts).isStarted := by
  constructor
  · rintro ⟨us, rfl, ho⟩
    exact isStarted_of_inOrder ho
  · intro h
    have hs := phase_spec [⟨DATA, INIT⟩] .fresh rfl (fun _ => rfl) ts
    generalize phase .fresh ts = p at h hs
    cases p with
    | running =>
      obtain ⟨k, rfl⟩ := hs
      exact ⟨_, rfl, inOrder_data k⟩
    | stopped =>
      obtain ⟨k, rfl⟩ := hs
      exact ⟨_, rfl, inOrder_stop k⟩
    | aborted =>
      obtain ⟨us, rfl, ho⟩ := hs
      exact ⟨us, rfl, ho⟩
    | fresh => cases h
    | refused => cases h
    | broken => cases h

instance (ts : List Msgtype) : Decidable (InOrder ts) := decidable_of_iff _ inOrder_iff.symm

instance (ts : List Msgtype) : Decidable (Started ts) := decidable_of_iff _ started_iff.symm

theorem denied_or_started (h : phase .fresh ts ≠ .broken) : Denied ts ∨ Started ts := by
  by_cases hs : (phase .fresh ts).isStarted
  · exact .inr (started_iff.mpr hs)
  · left
    have hshape := phase_spec [⟨DATA, INIT⟩] .fresh rfl (fun _ => rfl) ts
    generalize phase .fresh ts = p at h hs hshape
    cases p with
    | fresh => exact ⟨0, hshape⟩
    | refused => exact hshape
    | broken => exact absurd rfl h
    | running => exact absurd rfl hs
    | stopped => exact absurd rfl hs
    | aborted => exact absurd rfl hs

/-! ## The frames of an eid -/

/-- The type of the frame, when it is sent to `t` for the eid `e`. -/
def Obs.sentFor (t : StreamId) (e : Uuid) : Obs → Option Msgtype
  | .sent _ dst eid type _ _ => if dst = t ∧ eid = e then some type else none
  | _ => none

/-- The frames that were sent to `t` for the eid `e`. -/
def emitted (t : StreamId) (e : Uuid) (log : List Obs) : List Msgtype := log.filterMap (Obs.sentFor t e)

theorem emitted_append (t : StreamId) (e : Uuid) (a b : List Obs) :
    emitted t e (a ++ b) = emitted t e a ++ emitted t e b := List.filterMap_append

/-- The entry is about a frame that was sent, or a new connection. -/
def Obs.acts : Obs → Bool
  | .sent _ _ _ _ _ _ => true
  | .opened _ _ => true
  | _ => false

variable {obs : List Obs}

theorem emitted_eq_nil {t : StreamId} {e : Uuid} (h : ∀ o ∈ obs, o.sentFor t e = none) :
    emitted t e obs = [] := List.filterMap_eq_nil_iff.mpr h

theorem sentFor_of_not_acts {o : Obs} (h : o.acts = false) (t : StreamId) (e : Uuid) : o.sentFor t e = none := by
  cases o with
  | sent => cases h
  | _ => rfl

theorem emitted_cons (t : StreamId) (e : Uuid) (o : Obs) (obs : List Obs) :
    emitted t e (o :: obs) = (o.sentFor t e).toList ++ emitted t e obs := by
  unfold emitted
  rw [List.filterMap_cons]
  cases o.sentFor t e <;> rfl

theorem emitted_got (cid : Option Nat) (s : StreamId) (f : Frame) (t : StreamId) (e : Uuid) (obs : List Obs) :
    emitted t e (.got cid s f.eid f.type f.payload :: obs) = emitted t e obs := rfl

/-- A loop that sends one frame for each of its connections. -/
theorem emitted_of_loop {via : Connection → StreamId} {type : Msgtype} {R : Connection → Obs → Prop}
    {cs : List Connection} (hR : ∀ c ∈ cs, ∀ o, R c o → ∃ cid p ok, o = .sent cid (via c) c.uuid type p ok)
    (h : List.Forall₂ R cs obs) (t : StreamId) (e : Uuid) :
    emitted t e obs = (cs.filter fun c => via c = t ∧ c.uuid = e).map fun _ => type := by
  induction h with
  | nil => rfl
  | @cons c o cs obs hr _ ih =>
    obtain ⟨cid, p, ok, rfl⟩ := hR c List.mem_cons_self o hr
    rw [emitted_cons, ih fun d hd => hR d (List.mem_cons_of_mem c hd), List.filter_cons, Obs.sentFor]
    by_cases hk : via c = t ∧ c.uuid = e
    · simp [hk]
    · simp [hk]

/-- Each eid of a transport is that of one connection of `cs`. -/
def Apart (via : Connection → StreamId) (cs : List Connection) : Prop :=
  ∀ c ∈ cs, ∀ d ∈ cs, via c = via d → c.uuid = d.uuid → c = d

/-- The same, when the loop is over the connections in `p`: at most one frame is sent for
an eid. -/
theorem emitted_of_own {via : Connection → StreamId} {type : Msgtype} {R : Connection → Obs → Prop}
    {cs : List Connection} {p : Connection → Bool} {obs : List Obs}
    (hR : ∀ c ∈ cs, p c → ∀ o, R c o → ∃ cid p ok, o = .sent cid (via c) c.uuid type p ok)
    (h : List.Forall₂ R (cs.filter p) obs)
    (hn : (cs.map (·.cid)).Nodup) (hown : Apart via cs) (t : StreamId) (e : Uuid) :
    (∃ c ∈ cs, p c ∧ via c = t ∧ c.uuid = e ∧ emitted t e obs = [type]) ∨
      (∀ c ∈ cs, via c = t → c.uuid = e → p c = false) ∧ emitted t e obs = [] := by
  rw [emitted_of_loop (fun c hc => hR c (List.mem_of_mem_filter hc) (List.mem_filter.mp hc).2) h t e]
  by_cases hex : ∃ c ∈ cs, p c ∧ via c = t ∧ c.uuid = e
  · obtain ⟨c, hc, hp, hv, hu⟩ := hex
    refine .inl ⟨c, hc, hp, hv, hu, ?_⟩
    -- the filter by the eid is the filter by the number of the connection
    have hkey : (cs.filter p).filter (fun d => via d = t ∧ d.uuid = e) =
        (cs.filter fun d => d.cid == c.cid).filter p := by
      rw [List.filter_filter, List.filter_filter]
      refine List.filter_congr fun d hd => ?_
      have hiff : (via d = t ∧ d.uuid = e) ↔ d.cid = c.cid := by
        refine ⟨fun ⟨h1, h2⟩ => ?_, fun he => ?_⟩
        · rw [hown d hd c hc (h1.trans hv.symm) (h2.trans hu.symm)]
        · rw [List.inj_on_of_nodup_map hn hd hc he]
          exact ⟨hv, hu⟩
      rw [Bool.and_comm]
      congr 1
      rw [Bool.eq_iff_iff, decide_eq_true_eq, beq_iff_eq]
      exact hiff
    rw [hkey, Loop.filter_key _ hn hc, List.filter_cons, if_pos hp]
    rfl
  · have hnone : ∀ c ∈ cs, via c = t → c.uuid = e → p c = false := by
      intro c hc hv hu
      by_contra hp
      exact hex ⟨c, hc, by simpa using hp, hv, hu⟩
    refine .inr ⟨hnone, ?_⟩
    rw [List.map_eq_nil_iff, List.filter_filter, List.filter_eq_nil_iff]
    intro c hc hk
    simp only [Bool.and_eq_true, decide_eq_true_eq] at hk
    rw [hnone c hc hk.1.1 hk.1.2] at hk
    cases hk.2

/-! ## The law of a transport -/

/-- The frames that were sent for a connection, up to now. -/
def sofar (via : Connection → StreamId) (start : Phase) (c : Connection) (log : List Obs) : Phase :=
  phase start (emitted (via c) c.uuid log)

/-- The frames of every eid are in order, and those of a connection were started. They are
ended only for a connection that is closed, when `A` allows it to stay in the table. -/
structure Wired (via : Connection → StreamId) (start : Phase) (A : Prop) (st : Connector) : Prop where
  order : ∀ t e, phase start (emitted t e st.log) ≠ .broken
  alive : ∀ c ∈ st.connections, sofar via start c st.log = .running ∨ sofar via start c st.log = .stopped ∨
    A ∧ c.state = .CLOSED ∧ sofar via start c st.log = .aborted

/-- What an act does with the frames to `t` for the eid `e`. -/
inductive Emits (via : Connection → StreamId) (start : Phase) (A : Prop) (t : StreamId) (e : Uuid)
    (st st' : Connector) (obs : List Obs) : Prop
  | nothing : emitted t e obs = [] → (∀ c ∈ st'.connections, via c = t → c.uuid = e →
      ∃ d ∈ st.connections, via d = t ∧ d.uuid = e ∧ d.state.rank ≤ c.state.rank) →
      Emits via start A t e st st' obs
  | chunk (type : Msgtype) : type = ⟨DATA, 0⟩ ∨ type = ⟨STOP, 0⟩ → emitted t e obs = [type] →
      phase start (emitted t e st.log) = .running → Emits via start A t e st st' obs
  | abort : emitted t e obs = [abortType] → (∀ c ∈ st'.connections, via c = t → c.uuid = e →
      A ∧ c.state = .CLOSED ∧ ∃ d ∈ st.connections, via d = t ∧ d.uuid = e) →
      Emits via start A t e st st' obs
  | started : phase start (emitted t e st.log ++ emitted t e obs) = .running →
      Emits via start A t e st st' obs

section

variable {via : Connection → StreamId} {start : Phase} {A : Prop} {st st' : Connector} {obs : List Obs}

theorem wired_init (h : start ≠ .broken) (mode : Mode) : Wired via start A { mode := mode } :=
  ⟨fun _ _ => h, nofun⟩

theorem step_abort {p : Phase} (h : p ≠ .broken) : p.step abortType ≠ .broken := by
  cases p with
  | broken => exact absurd rfl h
  | _ => decide

theorem Wired.step (h : Wired via start A st) (hlog : st'.log = st.log ++ obs)
    (he : ∀ t e, Emits via start A t e st st' obs) : Wired via start A st' := by
  refine ⟨fun t e => ?_, fun c hc => ?_⟩
  · rw [hlog, emitted_append]
    cases he t e with
    | nothing hn _ =>
      rw [hn, List.append_nil]
      exact h.order t e
    | chunk type ht hn hp =>
      rw [hn, phase_append, hp]
      rcases ht with rfl | rfl <;> decide
    | abort hn _ =>
      rw [hn, phase_append]
      exact step_abort (h.order t e)
    | started hp =>
      rw [hp]
      decide
  · unfold sofar
    rw [hlog, emitted_append]
    cases he (via c) c.uuid with
    | nothing hn hold =>
      rw [hn, List.append_nil]
      obtain ⟨d, hd, hv, hu, hrank⟩ := hold c hc rfl rfl
      have hold := h.alive d hd
      rw [sofar, hv, hu] at hold
      refine hold.imp_right (Or.imp_right fun ⟨ha, hs, hp⟩ => ⟨ha, ?_, hp⟩)
      exact closed_of_rank (hs ▸ hrank)
    | chunk type ht hn hp =>
      rw [hn, phase_append, hp]
      rcases ht with rfl | rfl
      · exact .inl rfl
      · exact .inr (.inl rfl)
    | abort hn hclosed =>
      obtain ⟨ha, hs, d, hd, hv, hu⟩ := hclosed c hc rfl rfl
      have hold := h.alive d hd
      rw [sofar, hv, hu] at hold
      rw [hn, phase_append]
      refine .inr (.inr ⟨ha, hs, ?_⟩)
      rcases hold with hp | hp | ⟨-, -, hp⟩ <;> rw [hp] <;> rfl
    | started hp => exact .inl hp

variable {R : Rules} {i : StreamId} {hit keep : Connection → Bool} {L : Connection → Obs → Prop}

/-- An act that sends nothing for the eid and makes no connection. -/
theorem Emits.kept {t : StreamId} {e : Uuid} (ht : Turned R st st' obs)
    (hvia : ∀ c s, via { c with state := s } = via c) (hno : ∀ n cid, .opened n cid ∉ obs)
    (hn : emitted t e obs = []) : Emits via start A t e st st' obs := by
  refine .nothing hn fun c hc hv hu => ?_
  obtain ⟨d, hd, s, rfl, hrank⟩ := ht.old hno hc
  exact ⟨d, hd, (hvia d s).symm.trans hv, hu, hrank⟩

theorem Wired.silent (h : Wired via start A st) (ht : Turned R st st' obs)
    (hvia : ∀ c s, via { c with state := s } = via c) (ho : ∀ o ∈ obs, o.acts = false) : Wired via start A st' := by
  refine h.step ht.log fun t e => .kept ht hvia (fun n cid hmem => ?_) ?_
  · exact absurd (ho _ hmem) (by simp [Obs.acts])
  · exact emitted_eq_nil fun o hmem => sentFor_of_not_acts (ho o hmem) t e

theorem acts_of_erased {upd : Connection → Connection} (hg : Gone i hit upd keep L st st' obs)
    (hL : ∀ c o, L c o → o.acts = false) : ∀ o ∈ obs ++ [.erased i (st.connsOf i) (st'.sock i)], o.acts = false := by
  intro o ho
  rcases List.mem_append.mp ho with ho | ho
  · obtain ⟨c, -, hc⟩ := exists_of_forall₂ hg.logged ho
    exact hL c o hc
  · rw [List.mem_singleton.mp ho]
    rfl

/-- The connections of a stream that goes away are aborted and removed. -/
theorem Emits.gone (hg : Gone i hit id keep L st st' obs)
    (hL : ∀ c ∈ st.connections, hit c → ∀ o, L c o → ∃ cid p ok, o = .sent cid (via c) c.uuid abortType p ok)
    (hkeep : ∀ c ∈ st.connections, hit c → keep c = false) (hn : (st.connections.map (·.cid)).Nodup)
    (hown : Apart via st.connections) (t : StreamId) (e : Uuid) :
    Emits via start A t e st st' (obs ++ [.erased i (st.connsOf i) (st'.sock i)]) := by
  have hmem : ∀ c ∈ st'.connections, c ∈ st.connections ∧ keep c := by
    intro c hc
    rw [hg.connections, List.mem_filter, List.mem_map] at hc
    obtain ⟨⟨d, hd, rfl⟩, hk⟩ := hc
    simp only [id_eq, ite_self] at hk ⊢
    exact ⟨hd, hk⟩
  have hlast : emitted t e (obs ++ [.erased i (st.connsOf i) (st'.sock i)]) = emitted t e obs := by
    rw [emitted_append]
    exact List.append_nil _
  rcases emitted_of_own hL hg.logged hn hown t e with ⟨c, hc, hp, hv, hu, he⟩ | ⟨-, he⟩
  · refine .abort (hlast.trans he) fun d hd hdv hdu => ?_
    obtain ⟨hd', hk⟩ := hmem d hd
    rw [hown d hd' c hc (hdv.trans hv.symm) (hdu.trans hu.symm), hkeep c hc hp] at hk
    cases hk
  · exact .nothing (hlast.trans he) fun c hc hv hu => ⟨c, (hmem c hc).1, hv, hu, Nat.le_refl _⟩

end

end cloudbus

namespace cloudbus.controller

open cloudbus.io cloudbus.messages Connector

/-! ## The controller -/

/-- The eid of a frame that was sent. -/
def sentEid : Obs → Option Uuid
  | .sent _ _ eid _ _ _ => some eid
  | _ => none

/-- The node of `eid` was not used before. -/
def Unused (eid : Uuid) (st : Connector) : Prop :=
  (∀ c ∈ st.connections, c.uuid.node ≠ eid.node) ∧ ∀ o ∈ st.log, ∀ e ∈ sentEid o, e.node ≠ eid.node

instance (eid : Uuid) (st : Connector) : Decidable (Unused eid st) := inferInstanceAs (Decidable (_ ∧ _))

/-- Every transport has room for a frame. -/
def Roomy (st : Connector) : Prop :=
  ∀ s < st.next, st.live s → (st.ep s).iface ≠ .north → (st.sock s).parea.length + UINT16_MAX ≤ MAX_BUFSIZE

instance (st : Connector) : Decidable (Roomy st) :=
  inferInstanceAs (Decidable (∀ s < st.next, st.live s → (st.ep s).iface ≠ .north →
    (st.sock s).parea.length + UINT16_MAX ≤ MAX_BUFSIZE))

/-- No STOP was sent for the connections of the client `n` that are not closed. -/
def Unended (n : StreamId) (st : Connector) : Prop :=
  ∀ c ∈ st.connections, c.north = n → st.live c.south → c.state ≠ .CLOSED →
    sofar Connection.south .fresh c st.log ≠ .stopped

/-- A frame of the transport `s` for a half closed connection comes with ABORT, or after the
end of the client. -/
def Awaited (s : StreamId) (st : Connector) : Prop :=
  ∀ f ∈ arriving s st, f.type.has ABORT = false → ∀ c ∈ st.connections, c.south = s → c.uuid = f.eid →
    c.state = .HALF_CLOSED → st.live c.north → (st.sock c.north).eof

instance (n : StreamId) (st : Connector) : Decidable (Unended n st) :=
  inferInstanceAs (Decidable (∀ c ∈ st.connections, c.north = n → st.live c.south → c.state ≠ .CLOSED →
    sofar Connection.south .fresh c st.log ≠ .stopped))

instance (s : StreamId) (st : Connector) : Decidable (Awaited s st) :=
  inferInstanceAs (Decidable (∀ f ∈ arriving s st, f.type.has ABORT = false → ∀ c ∈ st.connections,
    c.south = s → c.uuid = f.eid → c.state = .HALF_CLOSED → st.live c.north → (st.sock c.north).eof))

/-- When a stream is read. The session that a client starts has a node of its own, and there
is room for its first chunk. -/
def InTurn : Call → Connector → Prop
  | .inn i o, st => Unended i st ∧ Awaited i st ∧
    ((st.ep i).iface = .north → connected i st = false → Unused o.eid st ∧ Roomy st)
  | _, _ => True

instance (c : Call) (st : Connector) : Decidable (InTurn c st) :=
  match c with
  | .inn _ _ => inferInstanceAs (Decidable (_ ∧ _ ∧ _))
  | .out _ => isTrue trivial
  | .env _ => isTrue trivial

/-- The connections of a transport have nodes of their own. -/
def OwnNodes (st : Connector) : Prop :=
  ∀ c ∈ st.connections, ∀ d ∈ st.connections, c.south = d.south → c.uuid.node = d.uuid.node → c = d

theorem OwnNodes.apart {st : Connector} (h : OwnNodes st) : Apart Connection.south st.connections :=
  fun c hc d hd hs hu => h c hc d hd hs (by rw [hu])

variable {st st' : Connector} {obs : List Obs}

theorem OwnNodes.old {C : Call → Connector → Prop} (h : OwnNodes st) (ht : Turned (rules C) st st' obs)
    (hno : ∀ n cid, Obs.opened n cid ∉ obs) : OwnNodes st' := by
  intro c hc d hd hs hu
  obtain ⟨c0, hc0, s, rfl, -⟩ := ht.old hno hc
  obtain ⟨d0, hd0, s', rfl, -⟩ := ht.old hno hd
  have hold : c0 = d0 := h c0 hc0 d0 hd0 hs hu
  exact List.inj_on_of_nodup_map ht.cids hc hd (by rw [hold])

variable {n : StreamId} {st0 : Connector} {eid : Uuid} {cs : List Connection} {c : Connection} {o : Oracle}
  {bs : List UInt8}

variable {st1 : Connector} {s : StreamId} {f : Frame}

/-- A session starts with a node that was not used. -/
theorem unused_of_read (hcall : InTurn (.inn n o) st0) (hif : (st0.ep n).iface = .north) (hr : ChunkRead n st0 st1 bs)
    (hq : Quiet st1 st) (hcon : connected n st = false) : Unused o.eid st ∧ Roomy st0 := by
  have hsame : connected n st = connected n st0 :=
    (connected_of_quiet hq).trans (connected_congr hr.live (by rw [hr.connections]))
  obtain ⟨hu, hroom⟩ := hcall.2.2 hif (hsame ▸ hcon)
  refine ⟨?_, hroom⟩
  unfold Unused
  rw [hq.connections, hr.connections, hq.log, hr.effect.log, List.append_nil]
  exact hu

theorem south_of_dials {b : Nat} (hd : Dials n b eid st st' cs) (hc : c ∈ cs) : (st'.ep c.south).iface ≠ .north := by
  have hmem := List.mem_map_of_mem (f := fun c => (st'.ep c.south).iface) hc
  rw [hd.ifaces] at hmem
  obtain ⟨k, -, hk⟩ := List.mem_map.mp hmem
  rw [← hk]
  simp

theorem parea_of_ran {s s' : Sockstream} (h : Ran s [] s') : s'.parea.length ≤ s.parea.length := by
  obtain ⟨k, hw⟩ := h.some
  have hlen := congrArg List.length hw
  rw [List.take_nil, List.append_nil, Sockstream.written, Sockstream.written, List.length_append,
    List.length_append] at hlen
  have hk := h.kernel.length_le
  omega

/-- There is room for the first chunk. -/
theorem not_full (hroom : Roomy st0) (he : Effect st0 st []) (hnext : st.next = st0.next)
    (hsmall : (st.chunk n).ppos ≤ MAXCHUNK) (hd : Dials n 0 eid st st' cs) : ¬ Full n st cs := by
  rintro ⟨c, hc, hlt⟩
  have hchunk : (st.chunk n).tellp ≤ MAXCHUNK := hsmall
  have hsum : MAXCHUNK + HDRLEN = UINT16_MAX := by decide
  split at hlt
  · rename_i hold
    have hif := south_of_dials hd hc
    rw [hd.dialed.effect.iface _ hold, he.iface _ (hnext ▸ hold)] at hif
    have hlive := (hd.dialed.effect.live _ (hd.live c hc)).resolve_right (Nat.not_le.mpr hold)
    have hlive0 := (he.live _ hlive).resolve_right (Nat.not_le.mpr (hnext ▸ hold))
    have hfits := hroom c.south (hnext ▸ hold) hlive0 hif
    have hshrinks := parea_of_ran (he.ran c.south (hnext ▸ hold))
    omega
  · have hmax : UINT16_MAX ≤ MAX_BUFSIZE := by decide
    omega

theorem OwnNodes.connects (h : OwnNodes st) (hunused : Unused eid st)
    (ho : Opened n eid st st' cs obs) : OwnNodes st' := by
  obtain ⟨st1, hd, -, -⟩ := ho.dials
  have hinj : (cs.map fun c => (st1.ep c.south).iface).Nodup := by
    rw [hd.ifaces]
    exact (List.nodup_range').map fun a b hab => by simpa using hab
  intro c hc d hd' hs hu
  rw [ho.connections, List.mem_append] at hc hd'
  rcases hc with hc | hc <;> rcases hd' with hd' | hd'
  · exact h c hc d hd' hs hu
  · exact absurd (hu.trans (hd.node d hd')) (hunused.1 c hc)
  · exact absurd (hu.symm.trans (hd.node c hc)) (hunused.1 d hd')
  · exact List.inj_on_of_nodup_map hinj hc hd' (by rw [hs])

theorem sent_of_chunkSent {type : Msgtype} {payload : List UInt8} {o : Obs}
    (h : chunkSent type payload c o) : ∃ cid p ok, o = .sent cid c.south c.uuid type p ok := by
  obtain ⟨ok, rfl⟩ := h
  exact ⟨_, _, ok, rfl⟩

theorem sent_of_abortSent {o : Obs} (h : abortSent c o) : ∃ cid p ok, o = .sent cid c.south c.uuid abortType p ok := by
  obtain ⟨eid, ok, rfl, rfl⟩ := h
  exact ⟨_, _, ok, rfl⟩

/-- What is sent to a new connection is its first frame. -/
theorem emits_of_opened (hunused : Unused eid st) (hown : OwnNodes st') (ho : Opened n eid st st' cs obs)
    (hs : SentInit n ⟨DATA, INIT⟩ st st' cs obs) (t : StreamId) (e : Uuid) :
    Emits Connection.south .fresh True t e st st' (obs ++ cs.map fun c => .opened c.north c.cid) := by
  obtain ⟨st1, hd, -, -⟩ := ho.dials
  have hrest : emitted t e (obs ++ cs.map fun c => .opened c.north c.cid) = emitted t e obs := by
    have hnone : emitted t e (cs.map fun c => .opened c.north c.cid) = [] := emitted_eq_nil fun o hmem => by
      obtain ⟨c, -, rfl⟩ := List.mem_map.mp hmem
      rfl
    rw [emitted_append, hnone, List.append_nil]
  have hnew : ∀ c ∈ cs, c ∈ st'.connections := fun c hc => by
    rw [ho.connections]
    exact List.mem_append_right _ hc
  have hcids : (cs.map (·.cid)).Nodup := by
    rw [hd.cids]
    exact List.nodup_range'
  have hcases := @emitted_of_own Connection.south ⟨DATA, INIT⟩ _ cs (fun _ => true) obs
    (fun _ _ _ _ => sent_of_chunkSent) (by rw [List.filter_true]; exact hs.sent) hcids
    (fun c hc d hd' => hown.apart c (hnew c hc) d (hnew d hd')) t e
  rcases hcases with ⟨c, hc, -, -, hu, he⟩ | ⟨hnone, he⟩
  · -- nothing was sent with this node
    have hbefore : emitted t e st.log = [] := emitted_eq_nil fun o hmem => by
      cases o with
      | sent cid dst eid' type p ok =>
        refine if_neg fun hk => hunused.2 _ hmem eid' rfl ?_
        rw [hk.2, ← hu, hd.node c hc]
      | _ => rfl
    refine .started ?_
    rw [hbefore, hrest, he]
    rfl
  · refine .nothing (hrest.trans he) fun c hc hv hu => ?_
    rw [ho.connections, List.mem_append] at hc
    rcases hc with hc | hc
    · exact ⟨c, hc, hv, hu, Nat.le_refl _⟩
    · exact absurd (hnone c hc hv hu) (by simp)

/-- The chunk of a client, or its end, is sent to connections that were not ended. -/
theorem emits_of_sentAll (hs : Sound st) (hown : OwnNodes st) (hw : Wired Connection.south .fresh True st)
    (ht : Turned (rules InTurn) st st' obs) (hcall : InTurn (.inn n o) st0) (hr : ChunkRead n st0 st1 bs)
    (hq : Quiet st1 st) (hsent : SentAll n (routeType st n) st st' obs) (t : StreamId)
    (e : Uuid) : Emits Connection.south .fresh True t e st st' obs := by
  have hcases := emitted_of_own (fun _ _ _ _ => sent_of_chunkSent) hsent.sent hs.cids hown.apart t e
  rcases hcases with ⟨c, hc, hp, hv, hu, he⟩ | ⟨-, he⟩
  · obtain ⟨hn, hl, hstate⟩ := active_iff.mp hp
    have hlog : st.log = st0.log := by rw [hq.log, hr.effect.log, List.append_nil]
    have hopen := hcall.1 c (by rw [← hr.connections, ← hq.connections]; exact hc) hn
      (by rw [← hr.live, ← hq.live]; exact hl) hstate
    rw [← hlog] at hopen
    have hphase : sofar Connection.south .fresh c st.log = .running := by
      rcases hw.alive c hc with h | h | ⟨-, h, -⟩
      · exact h
      · exact absurd h hopen
      · exact absurd h hstate
    rw [sofar, hv, hu] at hphase
    refine .chunk _ ?_ he hphase
    unfold routeType
    split
    · exact .inr rfl
    · exact .inl rfl
  · refine .kept ht (fun _ _ => rfl) (fun n cid hmem => ?_) he
    obtain ⟨d, -, ok, heq⟩ := exists_of_forall₂ hsent.sent hmem
    cases heq

/-- ABORT is the answer to a frame whose connection is closed or unknown. -/
theorem emits_of_refused (hs : Sound st) (hown : OwnNodes st) (hcall : InTurn (.inn s o) st0)
    (hr : TransportRead s st0 st bs) (hf : frameOf (st.frame s) = some f) (hun : Untaken s f st)
    (hconn : st'.connections = st.connections) (href : refusal s f st obs) (t : StreamId)
    (e : Uuid) : Emits Connection.south .fresh True t e st st' obs := by
  have hkept : ∀ c ∈ st'.connections, c.south = t → c.uuid = e →
      ∃ d ∈ st.connections, d.south = t ∧ d.uuid = e ∧ d.state.rank ≤ c.state.rank :=
    fun c hc hv hu => ⟨c, hconn ▸ hc, hv, hu, Nat.le_refl _⟩
  unfold refusal at href
  split at href
  · rename_i hanswer
    obtain ⟨ok, rfl⟩ := href
    have habort : f.type.has ABORT = false := by simpa using (Bool.and_eq_true_iff.mp hanswer).2
    by_cases hk : s = t ∧ f.eid = e
    · obtain ⟨rfl, rfl⟩ := hk
      refine .abort (by rw [emitted_got, emitted_cons, Obs.sentFor, if_pos ⟨rfl, rfl⟩]; rfl) fun c hc hv hu => ?_
      rw [hconn] at hc
      refine ⟨trivial, ?_, c, hc, hv, hu⟩
      rcases hun with hnone | ⟨k, d, hfind, hget, hwhy⟩
      · unfold findConn at hnone
        rw [List.findIdx?_eq_none_iff] at hnone
        have := hnone c hc
        simp [hv, hu, Uuid.sameNode] at this
      · obtain ⟨hds, hdn⟩ := south_of_findConn hfind hget
        have hd := List.mem_of_getElem? hget
        obtain rfl := hown c hc d hd (hv.trans hds.symm) (by rw [hu]; exact (eq_of_beq hdn).symm)
        rcases hwhy with hclosed | ⟨hlive, hhalf, heof, -⟩
        · exact hclosed
        · -- the client of a half closed connection is at its end
          have hlt := hs.norths c hc
          rw [hr.next] at hlt
          have hend := hcall.2.1 f (arriving_of_read hr hf) habort c (hr.connections ▸ hc) hv hu hhalf
            (by rw [← hr.live]; exact hlive)
          rw [hr.effect.grows.eof _ hlt hend] at heof
          cases heof
    · exact .nothing (by rw [emitted_got, emitted_cons, Obs.sentFor, if_neg hk]; rfl) hkept
  · subst href
    exact .nothing rfl hkept

/-- The latch aborts the other connections of the session. -/
theorem emits_of_delivered {k : Nat} {fed aborts : List Obs} (hs : Sound st) (hown : OwnNodes st)
    (ht : Turned (rules InTurn) st st' (fed ++ .got (some c.cid) s f.eid f.type f.payload :: aborts))
    (h : Delivers InTurn s f k c st st' fed aborts) (t : StreamId) (e : Uuid) :
    Emits Connection.south .fresh True t e st st' (fed ++ .got (some c.cid) s f.eid f.type f.payload :: aborts) := by
  have hd := h.delivered
  have hfirst : emitted t e (fed ++ .got (some c.cid) s f.eid f.type f.payload :: aborts) = emitted t e aborts := by
    rw [emitted_append, emitted_got, emitted_eq_nil, List.nil_append]
    intro o ho
    obtain ⟨p, ok, rfl⟩ := hd.fed.cid o ho
    rfl
  have hno := h.no_opened ht.log
  have hget := h.get
  obtain ⟨hsouth, -⟩ := south_of_findConn h.found hget
  have haborts := hd.aborts
  have hconns := hd.connections
  split at haborts
  · rename_i hlatch
    rw [if_pos hlatch] at hconns
    -- the connection that got the frame is on this transport, and the latch spares it
    have hself : ∀ d : Connection, d.south = s → latched s f.eid st d = false := fun d hd' => by
      simp [latched, hd']
    rw [Loop.filter_set hget (hself c hsouth) (hself (state_update c f.type) hsouth)] at haborts
    rcases emitted_of_own (fun _ _ _ _ => sent_of_abortSent) haborts hs.cids hown.apart t e with
      ⟨d, hd', hp, hv, hu, he⟩ | ⟨-, he⟩
    · refine .abort (hfirst.trans he) fun d' hmem hv' hu' => ⟨trivial, ?_, d, hd', hv, hu⟩
      rw [hconns, List.mem_map] at hmem
      obtain ⟨x, hx, rfl⟩ := hmem
      by_cases hlat : latched s f.eid st x
      · rw [if_pos hlat]
        exact update_abort _
      · rw [if_neg hlat] at hv' hu'
        rcases List.mem_or_eq_of_mem_set hx with hx | rfl
        · rw [hown.apart x hx d hd' (hv'.trans hv.symm) (hu'.trans hu.symm)] at hlat
          exact absurd hp hlat
        · rw [hself d (hv.trans (hv'.symm.trans hsouth))] at hp
          cases hp
    · exact .kept ht (fun _ _ => rfl) hno (hfirst.trans he)
  · subst haborts
    exact .kept ht (fun _ _ => rfl) hno hfirst

/-- What holds of the tables and the frames in every run. -/
structure Grammatical (st : Connector) : Prop where
  carried : Sides st ∧ Carried Transport st
  own : OwnNodes st
  wired : Wired Connection.south .fresh True st

theorem grammatical_lawful : Lawful InTurn Grammatical := by
  intro st st' obs act hs ht h
  obtain ⟨hcar, hown, hw⟩ := h
  have hcar' := carried_lawful act hs ht hcar
  -- the acts that send nothing and make no connection
  have silent : ∀ {obs'}, st'.log = st.log ++ obs' → (∀ o ∈ obs', o.acts = false) → Grammatical st' := by
    intro obs' hl ho
    obtain rfl := List.append_cancel_left (ht.log.symm.trans hl)
    refine ⟨hcar', hown.old ht fun n cid hmem => ?_, hw.silent ht (fun _ _ => rfl) ho⟩
    exact absurd (ho _ hmem) (by simp [Obs.acts])
  have same : Same st st' → Grammatical st' := fun hsame =>
    silent (by rw [hsame.log, List.append_nil]) (by simp)
  have still : Effect st st' [] → Grammatical st' := fun he => silent he.log (by simp)
  cases act with
  | quiet hq => exact same hq.same
  | errors => exact same (.takeErrors st _)
  | clientRead _ _ _ hr => exact still hr.effect
  | transportRead _ _ _ hr => exact still hr.effect
  | sentAll hc _ _ hr hq hsent =>
    obtain rfl := List.append_cancel_left (ht.log.symm.trans hsent.effect.log)
    refine ⟨hcar', hown.old ht fun n cid hmem => ?_, hw.step ht.log (emits_of_sentAll hs hown hw ht hc hr hq hsent)⟩
    obtain ⟨d, -, ok, heq⟩ := exists_of_forall₂ hsent.sent hmem
    cases heq
  | @opened n o st0 st1 _ _ bs cs obs' hc hl hif hr he hpos hcon hq ho hsent =>
    obtain ⟨hunused, hroom⟩ := unused_of_read hc hif hr hq hcon
    obtain ⟨st2, hd, -, hef⟩ := ho.dials
    have hinit := hsent.resolve_left fun ⟨_, _, hfull⟩ =>
      not_full hroom (hr.effect.trans_nil hq.effect) (hq.keeps.next.trans hr.next) (hcar.2.small n) hd hfull
    have hlog := (hd.dialed.effect.trans_nil hef).log
    have hown' := hown.connects hunused ho
    exact ⟨hcar', hown', hw.step hlog (emits_of_opened hunused hown' ho hinit)⟩
  | refused hc _ hr hf hun hd href =>
    obtain rfl := List.append_cancel_left (ht.log.symm.trans hd.effect.log)
    refine ⟨hcar', ?_, hw.step ht.log (emits_of_refused hs hown hc hr hf hun hd.connections href)⟩
    unfold OwnNodes
    rw [hd.connections]
    exact hown
  | orphan _ _ _ _ _ _ _ _ hd => exact silent hd.effect.log (by simp [Obs.acts])
  | deferred _ _ _ hd => exact still hd.effect
  | delivered hc hl hr hf hk hget hstate hlive hh hd =>
    obtain rfl := List.append_cancel_left (ht.log.symm.trans hd.effect.log)
    have h : Delivers InTurn _ _ _ _ st st' _ _ := ⟨⟨_, _, _, hc, hl, hr⟩, hf, hk, hget, hstate, hlive, hh, hd⟩
    exact ⟨hcar', hown.old ht (h.no_opened ht.log), hw.step ht.log (emits_of_delivered hs hown ht h)⟩
  | clientGone _ hg =>
    obtain rfl := List.append_cancel_left (ht.log.symm.trans hg.effect.log)
    refine ⟨hcar', hown.old ht fun n cid hmem => ?_, hw.step ht.log
      (.gone hg (fun _ _ _ _ => sent_of_abortSent) (fun c _ hp => ?_) hs.cids hown.apart)⟩
    · rcases List.mem_append.mp hmem with hmem | hmem
      · obtain ⟨d, -, eid, ok, heq, -⟩ := exists_of_forall₂ hg.logged hmem
        cases heq
      · cases List.mem_singleton.mp hmem
    · simp only [aborting, Bool.and_eq_true, beq_iff_eq] at hp
      simp [hp.1.1]
  | transportGone _ hg =>
    exact silent hg.effect.log (acts_of_erased hg fun c o ho => by rw [ho]; rfl)
  | shut => exact silent (shutdown_effect _ _).log (by simp [Obs.acts])
  | dialed hd _ _ => exact still hd.effect
  | connectLost _ _ _ _ _ hl =>
    obtain ⟨obs', he, hobs⟩ := hl.effect
    refine silent he.log ?_
    rcases hobs with rfl | rfl <;> simp [Obs.acts]
  | pushRx => exact same (.pushRx st _ _)
  | pushTx => exact same (.pushTx st _ _)

end cloudbus.controller

namespace cloudbus.segment

open cloudbus.io cloudbus.messages Connector

/-! ## The segment -/

/-- No STOP was sent for the connections of the service `v`. -/
def Unended (v : StreamId) (st : Connector) : Prop :=
  ∀ c ∈ st.connections, c.south = v → st.live c.north → sofar Connection.north .running c st.log ≠ .stopped

/-- A frame of the transport `t` for a closed connection that is still in the table comes with
ABORT and without INIT. -/
def Awaited (t : StreamId) (st : Connector) : Prop :=
  ∀ f ∈ arriving t st, ∀ c ∈ st.connections, c.north = t → c.uuid = f.eid → c.state = .CLOSED →
    f.type.has ABORT ∧ f.type.has INIT = false

/-- Nothing was sent for a session that the transport `t` starts. -/
def Anew (t : StreamId) (st : Connector) : Prop :=
  ∀ f ∈ arriving t st, f.type.has INIT → (∀ c ∈ st.connections, c.north = t → c.uuid ≠ f.eid) →
    emitted t f.eid st.log = []

instance (v : StreamId) (st : Connector) : Decidable (Unended v st) :=
  inferInstanceAs (Decidable (∀ c ∈ st.connections, c.south = v → st.live c.north →
    sofar Connection.north .running c st.log ≠ .stopped))

instance (t : StreamId) (st : Connector) : Decidable (Awaited t st) :=
  inferInstanceAs (Decidable (∀ f ∈ arriving t st, ∀ c ∈ st.connections, c.north = t → c.uuid = f.eid →
    c.state = .CLOSED → f.type.has ABORT ∧ f.type.has INIT = false))

instance (t : StreamId) (st : Connector) : Decidable (Anew t st) :=
  inferInstanceAs (Decidable (∀ f ∈ arriving t st, f.type.has INIT →
    (∀ c ∈ st.connections, c.north = t → c.uuid ≠ f.eid) → emitted t f.eid st.log = []))

/-- When a stream is read. -/
def InTurn : Call → Connector → Prop
  | .inn i _, st => Unended i st ∧ Awaited i st ∧ ((st.ep i).iface = .north → Anew i st)
  | _, _ => True

instance (c : Call) (st : Connector) : Decidable (InTurn c st) :=
  match c with
  | .inn _ _ => inferInstanceAs (Decidable (_ ∧ _ ∧ _))
  | .out _ => isTrue trivial
  | .env _ => isTrue trivial

theorem InTurn.initsAnew (call : Call) (st : Connector) (h : InTurn call st) : InitsAnew call st := by
  cases call with
  | inn t fd =>
    intro _ f hf hinit c hc hn hu hclosed
    have := (h.2.1 f hf c hc hn hu hclosed).2
    rw [hinit] at this
    cases this
  | out => trivial
  | env => trivial

variable {st st' : Connector} {obs : List Obs}

variable {fd : Option Int} {t : StreamId} {f : Frame}

theorem sent_of_abortSent {o : Obs} (h : abortSent c o) : ∃ cid p ok, o = .sent cid c.north c.uuid abortType p ok := by
  obtain ⟨ok, rfl⟩ := h
  exact ⟨_, _, ok, rfl⟩

/-- The chunk of a service, or its end, is sent for a connection that was not ended. -/
theorem emits_of_sent {v : StreamId} {k : Nat} {ok : Bool} (hw : Wired Connection.north .running False st)
    (ht : Turned (rules InTurn) st st' [.sent (some c.cid) c.north c.uuid (routeType v st) (st.chunk v).chunk ok])
    (hcall : InTurn (.inn v fd) st0) (hr : ChunkRead v st0 st bs) (hk : findSouth v st = some k)
    (hget : st.connections[k]? = some c) (t : StreamId) (e : Uuid) :
    Emits Connection.north .running False t e st st'
      [.sent (some c.cid) c.north c.uuid (routeType v st) (st.chunk v).chunk ok] := by
  have hc := List.mem_of_getElem? hget
  by_cases hkey : c.north = t ∧ c.uuid = e
  · obtain ⟨hsouth, hlive⟩ := south_of_findSouth hk hget
    have hopen := hcall.1 c (by rw [← hr.connections]; exact hc) hsouth (by rw [← hr.live]; exact hlive)
    rw [← List.append_nil st0.log, ← hr.effect.log] at hopen
    have hphase : sofar Connection.north .running c st.log = .running := by
      rcases hw.alive c hc with h | h | ⟨h, -⟩
      · exact h
      · exact absurd h hopen
      · exact h.elim
    rw [sofar, hkey.1, hkey.2] at hphase
    refine .chunk (routeType v st) ?_ (by rw [emitted_cons, Obs.sentFor, if_pos hkey]; rfl) hphase
    unfold routeType
    split
    · exact .inr rfl
    · exact .inl rfl
  · exact .kept ht (fun _ _ => rfl) (by simp) (by rw [emitted_cons, Obs.sentFor, if_neg hkey]; rfl)

/-- ABORT is the answer to a frame without a connection. -/
theorem emits_of_refused (hcall : InTurn (.inn t fd) st0) (hr : TransportRead t st0 st bs)
    (hf : frameOf (st.frame t) = some f) (hun : Untaken t f st) (hconn : st'.connections = st.connections)
    (href : refusal t f st obs) (t' : StreamId) (e : Uuid) : Emits Connection.north .running False t' e st st' obs := by
  have hkept : ∀ c ∈ st'.connections, c.north = t' → c.uuid = e →
      ∃ d ∈ st.connections, d.north = t' ∧ d.uuid = e ∧ d.state.rank ≤ c.state.rank :=
    fun c hc hv hu => ⟨c, hconn ▸ hc, hv, hu, Nat.le_refl _⟩
  unfold refusal at href
  split at href
  · rename_i hanswer
    obtain ⟨ok, rfl⟩ := href
    by_cases hk : t = t' ∧ f.eid = e
    · obtain ⟨rfl, rfl⟩ := hk
      refine .abort (by rw [emitted_got, emitted_cons, Obs.sentFor, if_pos ⟨rfl, rfl⟩]; rfl) fun c hc hv hu => ?_
      rw [hconn] at hc
      rcases hun with hnone | ⟨k, d, hfind, hget, hclosed⟩
      · exact absurd hu (findConn_eq_none hnone hc hv)
      · -- a closed connection gets no frame that is answered
        obtain ⟨hdn, hdu⟩ := north_of_findConn hfind hget
        have hd := List.mem_of_getElem? hget
        rw [hr.connections] at hd
        have habort := (hcall.2.1 f (arriving_of_read hr hf) d hd hdn hdu hclosed).1
        rw [habort, Bool.not_true, Bool.and_false] at hanswer
        cases hanswer
    · exact .nothing (by rw [emitted_got, emitted_cons, Obs.sentFor, if_neg hk]; rfl) hkept
  · subst href
    exact .nothing rfl hkept

/-- A session starts with an eid for which nothing was sent. -/
theorem emits_of_opened (hanew : emitted t f.eid st.log = []) (ho : Opened t f st st') (t' : StreamId) (e : Uuid) :
    Emits Connection.north .running False t' e st st' (openObs t f st) := by
  by_cases hk : t = t' ∧ f.eid = e
  · obtain ⟨rfl, rfl⟩ := hk
    refine .started ?_
    rw [hanew]
    rfl
  · refine .nothing rfl fun c hc hv hu => ?_
    rw [ho.connections, List.mem_append, List.mem_singleton] at hc
    rcases hc with hc | rfl
    · exact ⟨c, hc, hv, hu, Nat.le_refl _⟩
    · exact absurd ⟨hv, hu⟩ hk

/-- What holds of the tables and the frames in every run. -/
structure Grammatical (st : Connector) : Prop where
  own : OwnEids st
  wired : Wired Connection.north .running False st

theorem grammatical_lawful : Lawful InTurn Grammatical := by
  intro st st' obs act hs ht h
  obtain ⟨hown, hw⟩ := h
  refine ⟨ownEids_lawful InTurn.initsAnew act hs ht hown, ?_⟩
  have silent : ∀ {obs'}, st'.log = st.log ++ obs' → (∀ o ∈ obs', o.acts = false) →
      Wired Connection.north .running False st' := by
    intro obs' hl ho
    obtain rfl := List.append_cancel_left (ht.log.symm.trans hl)
    exact hw.silent ht (fun _ _ => rfl) ho
  have same : Same st st' → Wired Connection.north .running False st' := fun hsame =>
    silent (by rw [hsame.log, List.append_nil]) (by simp)
  have still : Effect st st' [] → Wired Connection.north .running False st' := fun he => silent he.log (by simp)
  cases act with
  | quiet hq => exact same hq.same
  | errors => exact same (.takeErrors st _)
  | frameRead _ _ _ hr => exact still hr.effect
  | chunkRead _ _ _ hr => exact still hr.effect
  | refused hc _ hr hf hun hd href =>
    exact hw.step hd.effect.log (emits_of_refused hc hr hf hun hd.connections href)
  | @opened t fd st0 _ _ bs f hc hl hif hr hf hun he hinit hpay ho =>
    have hif' : (st.ep t).iface = .north := by rw [hr.eq, iface_readTransport]; exact hif
    have hunused : ∀ c ∈ st0.connections, c.north = t → c.uuid ≠ f.eid := fun c hc' hn =>
      unused_of_untaken InTurn.initsAnew ⟨_, _, _, hc, hl, hr⟩ hif' hf hinit hun (by rw [hr.connections]; exact hc') hn
    refine hw.step ho.effect.log (emits_of_opened ?_ ho)
    rw [hr.effect.log, List.append_nil]
    exact hc.2.2 hif f (arriving_of_read hr hf) hinit hunused
  | deferred _ _ _ hd => exact still hd.effect
  | delivered _ _ _ _ _ _ _ hd =>
    refine silent hd.effect.log fun o ho => ?_
    rcases List.mem_append.mp ho with ho | ho
    · obtain ⟨p, ok, rfl⟩ := hd.fed.cid o ho
      rfl
    · rw [List.mem_singleton.mp ho]
      rfl
  | idle _ _ _ _ _ _ _ hl _ => exact still hl.effect
  | full _ _ _ hr => exact still hr.effect
  | sent hc _ hr hk hget _ hsent hl _ =>
    obtain rfl := List.append_cancel_left (ht.log.symm.trans (hsent.effect.nil_trans hl.effect).log)
    exact hw.step ht.log (emits_of_sent hw ht hc hr hk hget)
  | transportGone _ hg => exact silent hg.effect.log (acts_of_erased hg fun c o ho => by rw [ho]; rfl)
  | serviceGone _ hg =>
    refine hw.step hg.effect.log (.gone hg (fun _ _ _ _ => sent_of_abortSent) (fun c _ hp => ?_) hs.cids hown)
    simp only [aborting, Bool.and_eq_true, beq_iff_eq] at hp
    simp [hp.1.1]
  | shut => exact silent (shutdown_effect _ _).log (by simp [Obs.acts])
  | dialed hd _ _ => exact still hd.effect
  | connectLost _ _ hto hg =>
    refine hw.step hg.effect.log (.gone hg (fun c hc hp o ho => ?_) (fun c _ hp => ?_) hs.cids hown)
    · obtain ⟨ok, rfl⟩ := ho
      exact ⟨_, _, ok, by rw [hto c hc (eq_of_beq hp)]⟩
    · simpa using hp
  | pushRx => exact same (.pushRx st _ _)
  | pushTx => exact same (.pushTx st _ _)

end cloudbus.segment

namespace cloudbus

open cloudbus.io cloudbus.messages

/-! ## The order of the frames -/

/-- The backend sends two STOPs, and then the client sends a byte. -/
def backendEndsTwice : List controller.Event :=
  clientSpeaks ++ [.env (.rx 1 stopFrame.recv), .poll 1 Mask.POLLIN {}, .env (.rx 1 stopFrame.recv),
    .poll 1 Mask.POLLIN {}, .env (.rx 0 (.data 1 [])), .poll 0 Mask.POLLIN {}]

end cloudbus
