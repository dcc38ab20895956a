-- What the log tells about one connection. An act of a handler changes a
-- connection in one of a few ways and logs what it did, so a law about sessions
-- is proved once for these ways and holds for the controller and the segment.
import Cloudbus.Effect

namespace cloudbus

open cloudbus.io cloudbus.messages

/-! ## The entries about a connection -/

/-- The connection that an entry of the log is about. -/
def Obs.cid : Obs → Option Nat
  | .opened _ cid => some cid
  | .sent cid _ _ _ _ _ => cid
  | .got cid _ _ _ _ => cid
  | .fed cid _ _ _ _ => some cid
  | .failed cid => some cid
  | .shut _ _ _ => none
  | .erased _ _ _ => none

/-- The entry is neither about a new connection nor about a payload that is forwarded. -/
def Obs.plain : Obs → Bool
  | .opened _ _ => false
  | .sent _ _ _ t _ _ => !t.has INIT
  | .fed _ _ _ _ _ => false
  | _ => true

/-- The entry is about the end of a stream, or of its writing half. -/
def Obs.closes : Obs → Bool
  | .shut _ _ _ => true
  | .erased _ _ _ => true
  | _ => false

def about (cid : Nat) (log : List Obs) : List Obs := log.filter fun o => o.cid == some cid

@[simp] theorem about_nil (cid : Nat) : about cid [] = [] := rfl

@[simp] theorem about_append (cid : Nat) (a b : List Obs) :
    about cid (a ++ b) = about cid a ++ about cid b := List.filter_append ..

theorem about_cons (cid : Nat) (o : Obs) (obs : List Obs) :
    about cid (o :: obs) = if o.cid = some cid then o :: about cid obs else about cid obs := by
  simp [about, List.filter_cons]

variable {obs log : List Obs} {st st' : Connector} {cid : Nat} {P : List Obs → Obs → Prop} {c : Connection}

theorem about_eq_nil (h : ∀ o ∈ obs, o.cid ≠ some cid) : about cid obs = [] := by
  simpa [about] using h

variable {o : Obs} {R : Connection → Obs → Prop} {cs : List Connection} {i : StreamId}

theorem mem_about : o ∈ about cid log ↔ o ∈ log ∧ o.cid = some cid := by
  simp [about]

/-- Each entry was logged at a moment at which `P` allowed it. -/
def Always (P : List Obs → Obs → Prop) (log : List Obs) : Prop :=
  ∀ i o, log[i]? = some o → P (log.take i) o

theorem Always.append (h : Always P log)
    (ho : ∀ i o, obs[i]? = some o → P (log ++ obs.take i) o) : Always P (log ++ obs) := by
  intro i o hi
  rw [List.take_append]
  by_cases hlt : i < log.length
  · rw [List.getElem?_append_left hlt] at hi
    rw [Nat.sub_eq_zero_of_le (Nat.le_of_lt hlt), List.take_zero, List.append_nil]
    exact h i o hi
  · rw [List.getElem?_append_right (Nat.not_lt.mp hlt)] at hi
    rw [List.take_of_length_le (Nat.not_lt.mp hlt)]
    exact ho _ o hi

theorem Always.append_of_mem (h : Always P log) (ho : ∀ o ∈ obs, ∀ log, P log o) : Always P (log ++ obs) :=
  h.append fun _ o hi => ho o (List.mem_of_getElem? hi) _

theorem Always.snoc (h : Always P log) (ho : P log o) : Always P (log ++ [o]) := by
  refine h.append fun i o' hi => ?_
  obtain ⟨hlt, rfl⟩ := List.getElem?_eq_some_iff.mp hi
  obtain rfl : i = 0 := Nat.lt_one_iff.mp hlt
  simpa using ho

theorem exists_of_forall₂ {α β : Type} {R : α → β → Prop} {l : List α} {l' : List β}
    (h : List.Forall₂ R l l') {b : β} (hb : b ∈ l') : ∃ a ∈ l, R a b := by
  induction h with
  | nil => cases hb
  | cons hr _ ih =>
    rcases List.mem_cons.mp hb with rfl | hb
    · exact ⟨_, .head _, hr⟩
    · obtain ⟨a, ha, hr⟩ := ih hb
      exact ⟨a, .tail _ ha, hr⟩

/-- A loop that logs one entry for each connection in `p`. -/
theorem about_of_loop (hR : ∀ c o, R c o → o.cid = some c.cid) {p : Connection → Bool}
    (h : List.Forall₂ R (cs.filter p) obs) (hn : (cs.map (·.cid)).Nodup) (hc : c ∈ cs) :
    if p c then ∃ o, R c o ∧ about c.cid obs = [o] else about c.cid obs = [] := by
  have hf := Loop.forall₂_filter (p := fun d => d.cid == c.cid) (q := fun o => o.cid == some c.cid) h
    fun d o hr => by simp [hR d o hr]
  rw [List.filter_filter] at hf
  simp only [Bool.and_comm (_ == _)] at hf
  rw [← List.filter_filter, Loop.filter_key _ hn hc] at hf
  change List.Forall₂ R _ (about c.cid obs) at hf
  cases hp : p c with
  | true =>
    rw [List.filter_cons, if_pos hp, List.filter_nil] at hf
    obtain ⟨o, t, hr, ht, he⟩ := List.forall₂_cons_left_iff.mp hf
    rw [List.forall₂_nil_left_iff.mp ht] at he
    exact ⟨o, hr, he⟩
  | false =>
    rw [List.filter_cons, if_neg (by simp [hp]), List.filter_nil] at hf
    exact List.forall₂_nil_left_iff.mp hf

theorem about_of_all (hR : ∀ c o, R c o → o.cid = some c.cid) (h : List.Forall₂ R cs obs) (hn : (cs.map (·.cid)).Nodup)
    (hc : c ∈ cs) : ∃ o, R c o ∧ about c.cid obs = [o] := by
  have h' := about_of_loop (p := fun _ => true) hR (by rw [List.filter_true]; exact h) hn hc
  rwa [if_pos rfl] at h'

/-! ## The ways in which an act changes a connection -/

/-- What a connector does with its connections. `own` is the client or service of a
connection and `via` its transport. -/
structure Rules where
  own : Connection → StreamId
  via : Connection → StreamId
  /-- The chunk or the end of the file of its own stream is sent. -/
  sends : Connector → Connection → Msgtype → List UInt8 → Prop
  /-- A frame of its transport is taken. -/
  takes : Connector → Connection → Frame → Prop
  /-- It is made, and this was logged about it. -/
  opens : Connector → Connector → Connection → List Obs → Prop

/-- Where a connection of the table comes from, after an act from `st` to `st'` that
logged `obs`. -/
inductive Turn (R : Rules) (st st' : Connector) (obs : List Obs) : Connection → Prop
  | kept {c : Connection} : c ∈ st.connections → about c.cid obs = [] → Turn R st st' obs c
  | sent {c : Connection} {t : Msgtype} {p : List UInt8} {ok : Bool} : c ∈ st.connections →
      R.sends st c t p → about c.cid obs = [.sent (some c.cid) (R.via c) c.uuid t p ok] →
      Turn R st st' obs (state_update c t)
  | idle {c : Connection} : c ∈ st.connections → about c.cid obs = [] →
      Turn R st st' obs (state_update c ⟨DATA, 0⟩)
  | got {c : Connection} {f : Frame} {fed : List Obs} : c ∈ st.connections → R.takes st c f →
      Feed c.cid (R.via c) (R.own c) f.payload st st' fed →
      about c.cid obs = fed ++ [.got (some c.cid) (R.via c) f.eid f.type f.payload] →
      Turn R st st' obs (state_update c f.type)
  | dropped {c : Connection} {f : Frame} : c ∈ st.connections →
      about c.cid obs = [.got (some c.cid) (R.via c) f.eid f.type f.payload] → Turn R st st' obs c
  | aborted {c : Connection} {ok : Bool} : c ∈ st.connections → c.state ≠ .CLOSED →
      about c.cid obs = [.sent (some c.cid) (R.via c) c.uuid abortType [] ok] →
      Turn R st st' obs (state_update c abortType)
  | failed {c : Connection} : c ∈ st.connections → about c.cid obs = [.failed c.cid] →
      Turn R st st' obs (state_update c abortType)
  | opened {c : Connection} : st.ncid ≤ c.cid → .opened (R.own c) c.cid ∈ obs →
      R.opens st st' c (about c.cid obs) → Turn R st st' obs c

/-- A connection never goes back. -/
theorem rank_update (s : ConnState) (t : Msgtype) : s.rank ≤ (s.update t).rank := by
  cases s <;> simp only [ConnState.update] <;> (repeat' split) <;> decide

theorem closed_of_rank {s : ConnState} (h : ConnState.CLOSED.rank ≤ s.rank) : s = .CLOSED := by
  cases s with
  | CLOSED => rfl
  | _ => exact absurd h (by decide)

@[simp] theorem update_abort (s : ConnState) : s.update abortType = .CLOSED := by
  cases s <;> rfl

/-- But for its state a connection is an old one, unless it is new. -/
theorem Turn.origin {R : Rules} (h : Turn R st st' obs c) :
    (∃ d ∈ st.connections, ∃ s, c = { d with state := s } ∧ d.state.rank ≤ s.rank) ∨
      st.ncid ≤ c.cid ∧ .opened (R.own c) c.cid ∈ obs ∧ R.opens st st' c (about c.cid obs) := by
  have update : ∀ {d t}, d ∈ st.connections → ∃ e ∈ st.connections, ∃ s,
      state_update d t = { e with state := s } ∧ e.state.rank ≤ s.rank :=
    fun {d t} hd => ⟨d, hd, _, rfl, rank_update d.state t⟩
  cases h with
  | kept hc _ => exact .inl ⟨c, hc, c.state, rfl, Nat.le_refl _⟩
  | sent hc _ _ => exact .inl (update hc)
  | idle hc _ => exact .inl (update hc)
  | got hc _ _ _ => exact .inl (update hc)
  | dropped hc _ => exact .inl ⟨c, hc, c.state, rfl, Nat.le_refl _⟩
  | aborted hc _ _ => exact .inl (update hc)
  | failed hc _ => exact .inl (update hc)
  | opened hn hlog ho => exact .inr ⟨hn, hlog, ho⟩

/-- Connections have numbers of their own, and the log speaks of no others. -/
structure Numbered (st : Connector) : Prop where
  cids : (st.connections.map (·.cid)).Nodup
  bound : ∀ c ∈ st.connections, c.cid < st.ncid
  logged : ∀ o ∈ st.log, ∀ cid, o.cid = some cid → cid < st.ncid

theorem numbered_init (mode : Mode) : Numbered { mode := mode } := ⟨List.nodup_nil, nofun, nofun⟩

theorem Numbered.about_new (h : Numbered st) (hc : st.ncid ≤ cid) : about cid st.log = [] :=
  about_eq_nil fun o ho he => Nat.lt_irrefl _ (Nat.lt_of_lt_of_le (h.logged o ho cid he) hc)

/-- An act that logged `obs`, seen from the connections. -/
structure Turned (R : Rules) (st st' : Connector) (obs : List Obs) : Prop where
  log : st'.log = st.log ++ obs
  ncid : st.ncid ≤ st'.ncid
  known : ∀ o ∈ obs, ∀ cid, o.cid = some cid → cid < st'.ncid
  cids : (st'.connections.map (·.cid)).Nodup
  bound : ∀ c ∈ st'.connections, c.cid < st'.ncid
  turn : ∀ c ∈ st'.connections, Turn R st st' obs c

/-- What only grows: ids are not used again, and a stream that is gone stays away. -/
structure Grows (st st' : Connector) : Prop where
  mode : st'.mode = st.mode
  next : st.next ≤ st'.next
  live : ∀ i, st'.live i → st.live i ∨ st.next ≤ i
  iface : ∀ i, i < st.next → (st'.ep i).iface = (st.ep i).iface
  eof : ∀ i, i < st.next → (st.sock i).eof → (st'.sock i).eof

theorem Effect.grows (h : Effect st st' obs) : Grows st st' :=
  ⟨h.mode, h.next, h.live, h.iface, fun i hi => (h.ran i hi).eof⟩

theorem Same.grows (h : Same st st') : Grows st st' :=
  ⟨h.mode, Nat.le_of_eq h.next.symm, fun i hi => .inl (by rwa [h.live] at hi), h.iface,
    fun i _ he => by rwa [h.eof]⟩

theorem Grows.was_live (h : Grows st st') (hi : i < st.next)
    (hl : st'.live i) : st.live i := (h.live i hl).resolve_right (Nat.not_le.mpr hi)

/-- A stream that was there and is gone stays away. -/
theorem Grows.gone (h : Grows st st') (hi : i < st.next) (hl : st.live i = false) : st'.live i = false := by
  by_contra hne
  rw [h.was_live hi (by simpa using hne)] at hl
  cases hl

@[simp] theorem cid_state_update (c : Connection) (t : Msgtype) : (state_update c t).cid = c.cid := rfl

namespace Turned

variable {R : Rules} {st st' : Connector} {obs : List Obs}

/-- When no connection is logged as new, all of them are old. -/
theorem old (h : Turned R st st' obs) (hno : ∀ n cid, .opened n cid ∉ obs) (hc : c ∈ st'.connections) :
    ∃ d ∈ st.connections, ∃ s, c = { d with state := s } ∧ d.state.rank ≤ s.rank :=
  (h.turn c hc).origin.resolve_right fun ⟨_, hlog, _⟩ => hno _ _ hlog

theorem numbered (h : Turned R st st' obs) (hn : Numbered st) : Numbered st' where
  cids := h.cids
  bound := h.bound
  logged o ho cid hc := by
    rw [h.log, List.mem_append] at ho
    rcases ho with ho | ho
    · exact Nat.lt_of_lt_of_le (hn.logged o ho cid hc) h.ncid
    · exact h.known o ho cid hc

/-- The table is as it was, and no connection is logged. -/
theorem same (hn : Numbered st) (hl : st'.log = st.log ++ obs) (ho : ∀ o ∈ obs, o.cid = none)
    (hc : st'.connections = st.connections) (hk : st.ncid ≤ st'.ncid) : Turned R st st' obs where
  log := hl
  ncid := hk
  known o h cid he := by rw [ho o h] at he; cases he
  cids := by rw [hc]; exact hn.cids
  bound c h := Nat.lt_of_lt_of_le (hn.bound c (hc ▸ h)) hk
  turn c h := .kept (hc ▸ h) (about_eq_nil fun o ho' he => by rw [ho o ho'] at he; cases he)

/-- Each connection is updated, and some are removed. -/
theorem map (upd : Connection → Connection) (keep : Connection → Bool) (hn : Numbered st)
    (hl : st'.log = st.log ++ obs) (hk : st'.ncid = st.ncid)
    (ho : ∀ o ∈ obs, ∀ cid, o.cid = some cid → ∃ c ∈ st.connections, c.cid = cid)
    (hupd : ∀ c, (upd c).cid = c.cid) (hc : st'.connections = (st.connections.map upd).filter keep)
    (turn : ∀ c ∈ st.connections, keep (upd c) → Turn R st st' obs (upd c)) : Turned R st st' obs := by
  have hsub : (st'.connections.map (·.cid)).Sublist (st.connections.map (·.cid)) := by
    rw [hc]
    refine (List.filter_sublist.map _).trans ?_
    rw [List.map_map]
    simp only [Function.comp_def, hupd]
    exact List.Sublist.refl _
  refine ⟨hl, Nat.le_of_eq hk.symm, fun o h cid he => ?_, hn.cids.sublist hsub, fun c h => ?_,
    fun c h => ?_⟩
  · obtain ⟨c, h', rfl⟩ := ho o h cid he
    rw [hk]
    exact hn.bound c h'
  · obtain ⟨d, hd, he⟩ := List.mem_map.mp (hsub.subset (List.mem_map_of_mem h))
    rw [hk, ← he]
    exact hn.bound d hd
  · rw [hc, List.mem_filter, List.mem_map] at h
    obtain ⟨⟨d, hd, rfl⟩, hkeep⟩ := h
    exact turn d hd hkeep

/-- A loop over the table that logs and updates the connections in `p`. Connections may
be removed after it. -/
theorem loop {p : Connection → Bool} {upd : Connection → Connection} {L : Connection → Obs → Prop}
    (keep : Connection → Bool) (rest : List Obs) (hn : Numbered st)
    (hl : st'.log = st.log ++ (obs ++ rest)) (hk : st'.ncid = st.ncid)
    (hL : ∀ c o, L c o → o.cid = some c.cid) (hr : ∀ o ∈ rest, o.cid = none)
    (hupd : ∀ c, (upd c).cid = c.cid)
    (h : List.Forall₂ L (st.connections.filter p) obs)
    (hc : st'.connections = (st.connections.map fun c => if p c then upd c else c).filter keep)
    (hit : ∀ c o, c ∈ st.connections → p c → keep (upd c) → L c o →
      about c.cid (obs ++ rest) = [o] → Turn R st st' (obs ++ rest) (upd c)) :
    Turned R st st' (obs ++ rest) := by
  have hrest : ∀ cid, about cid rest = [] :=
    fun cid => about_eq_nil fun o ho he => by rw [hr o ho] at he; cases he
  refine map _ keep hn hl hk (fun o ho cid he => ?_) (fun c => ?_) hc fun c hmem hkeep => ?_
  · rcases List.mem_append.mp ho with ho | ho
    · obtain ⟨c, hc', hr'⟩ := exists_of_forall₂ h ho
      rw [hL c o hr', Option.some.injEq] at he
      exact ⟨c, List.mem_of_mem_filter hc', he⟩
    · rw [hr o ho] at he
      cases he
  · split
    · exact hupd c
    · rfl
  · have habout := about_of_loop hL h hn.cids hmem
    split
    · rename_i hp
      rw [if_pos hp] at habout hkeep
      obtain ⟨o, hLo, he⟩ := habout
      exact hit c o hmem hp hkeep hLo (by rw [about_append, he, hrest, List.append_nil])
    · rename_i hp
      rw [if_neg hp] at habout
      exact .kept hmem (by rw [about_append, habout, hrest, List.append_nil])

/-- One connection of the table is updated, and all that is logged is about it. -/
theorem set {k : Nat} {c' : Connection} (hn : Numbered st) (hget : st.connections[k]? = some c)
    (hl : st'.log = st.log ++ obs) (hk : st'.ncid = st.ncid) (ho : ∀ o ∈ obs, ∀ cid, o.cid = some cid → cid = c.cid)
    (hcid : c'.cid = c.cid) (hc : st'.connections = st.connections.set k c') (turn : Turn R st st' obs c') :
    Turned R st st' obs := by
  have hmem : c ∈ st.connections := List.mem_of_getElem? hget
  rw [Loop.set_key (·.cid) hn.cids hget] at hc
  refine map _ (fun _ => true) hn hl hk (fun o h cid he => ⟨c, hmem, (ho o h cid he).symm⟩)
    (fun d => ?_) (by rw [hc, List.filter_true]) fun d hd _ => ?_
  · split
    · rename_i he
      rw [hcid, ← eq_of_beq he]
    · rfl
  · split
    · exact turn
    · rename_i he
      refine .kept hd (about_eq_nil fun o h ho' => he ?_)
      rw [ho o h _ ho', beq_self_eq_true]

end Turned

end cloudbus
