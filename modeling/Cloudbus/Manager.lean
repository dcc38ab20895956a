-- The manager of a node (manager.hpp, manager.cpp): a service for each section of
-- the configuration, with a thread that runs it. `merge` brings both in line with a
-- new configuration, and leaves alone what did not change.
import Cloudbus.Config
import Cloudbus.Lib.OrderedMap

namespace cloudbus.manager

open cloudbus.config

/-- `basic_node`, by the number of its construction and the section it was made from. -/
structure Node where
  serial : Nat
  conf : Section
deriving DecidableEq, Repr

/-- `thread_type`: a thread runs the node that it was started with. -/
structure Thread where
  node : Nat
deriving DecidableEq, Repr

inductive Action where
  | stop (heading : List Char)
  | start (heading : List Char)
deriving DecidableEq, Repr

def Action.heading : Action → List Char
  | .stop h => h
  | .start h => h

@[simp] theorem Action.heading_stop (h : List Char) : (Action.stop h).heading = h := rfl
@[simp] theorem Action.heading_start (h : List Char) : (Action.start h).heading = h := rfl

/-- `basic_manager`, with the threads that it stopped and started so far. -/
structure Manager where
  services : OrderedMap (List Char) Node := {}
  threads : OrderedMap (List Char) Thread := {}
  serial : Nat := 0
  actions : List Action := []

namespace Manager

/-- `stop(threads().find(heading))`: the thread is notified, joined and erased. -/
def stop (heading : List Char) (m : Manager) : Manager :=
  match m.threads.find heading with
  | none => m
  | some _ => { m with threads := m.threads.erase heading, actions := m.actions ++ [.stop heading] }

def start (heading : List Char) (node : Node) (m : Manager) : Manager :=
  { m with
    threads := (m.threads.try_emplace heading ⟨node.serial⟩).1
    actions := m.actions ++ [.start heading] }

def erase (heading : List Char) (m : Manager) : Manager := { m with services := m.services.erase heading }

section

variable (constructs : Section → Bool)

/-- A new node for a heading that has none. -/
def construct (heading : List Char) (section_ : Section) (m : Manager) : Manager :=
  { m with
    services := (m.services.try_emplace heading ⟨m.serial, section_⟩).1
    serial := m.serial + 1 }

/-- `services().try_emplace(heading, section)`. A node is constructed when there is none; there is no
result when its constructor throws. -/
def try_emplace (heading : List Char) (section_ : Section) (m : Manager) : Option (Manager × Bool) :=
  match m.services.find heading with
  | some _ => some (m, false)
  | none => if constructs section_ then some (m.construct heading section_, true) else none

/-- The loop around `try_emplace`: whether a node was constructed. -/
def emplace (heading : List Char) (section_ : Section) : Nat → Manager → Option (Manager × Bool)
  | 0, _ => none
  | fuel + 1, m =>
    match m.try_emplace constructs heading section_ with
    | none => none
    | some (m, true) => some (m, true)
    | some (m, false) =>
      match m.services.find heading with
      | none => none
      | some node =>
        if node.conf = section_ then some (m, false)
        else emplace heading section_ fuel ((m.stop heading).erase heading)

/-- The body of the second loop of `merge`. -/
def place (fuel : Nat) (heading : List Char) (section_ : Section) (m : Manager) : Option Manager :=
  if heading.map Char.toLower ≠ "cloudbus".toList then
    match m.emplace constructs heading section_ fuel with
    | none => none
    | some (m, false) => some m
    | some (m, true) => (m.services.find heading).map fun node => m.start heading node
  else some m

def place_all (fuel : Nat) : List (List Char × Section) → Manager → Option Manager
  | [], m => some m
  | (heading, section_) :: rest, m => (m.place constructs fuel heading section_).bind (place_all fuel rest)

/-- The first loop of `merge`, over the services. -/
def sweep (config : OrderedMap (List Char) Section) : List (List Char × Node) → Manager → Manager
  | [], m => m
  | (heading, _) :: rest, m =>
    match config.find heading with
    | none => sweep config rest ((m.stop heading).erase heading)
    | some _ => sweep config rest m

def merge (fuel : Nat) (config : OrderedMap (List Char) Section) (m : Manager) : Option Manager :=
  place_all constructs fuel config.entries (sweep config m.services.entries m)

end

/-! ## What is to be done -/

/-- `h != "cloudbus"` fails for this heading. -/
def reserved (heading : List Char) : Prop := heading.map Char.toLower = "cloudbus".toList

instance (heading : List Char) : Decidable (reserved heading) := inferInstanceAs (Decidable (_ = _))

/-- The section that a service runs with. -/
def running (m : Manager) (heading : List Char) : Option Section := (m.services.find heading).map Node.conf

/-- The section that a service is to run with. -/
def wanted (config : OrderedMap (List Char) Section) (heading : List Char) : Option Section :=
  if reserved heading then none else config.find heading

/-- What a service needs to get from what it runs with to what is wanted. -/
def plan (heading : List Char) : Option Section → Option Section → List Action
  | none, none => []
  | none, some _ => [.start heading]
  | some _, none => [.stop heading]
  | some old, some new => if old = new then [] else [.stop heading, .start heading]

/-- What was done to one service. -/
def done (heading : List Char) (m : Manager) : List Action := m.actions.filter fun a => a.heading = heading

/-- Nothing was done to a service. -/
structure Untouched (m m' : Manager) (heading : List Char) : Prop where
  services : m'.services.find heading = m.services.find heading
  threads : m'.threads.find heading = m.threads.find heading
  done : m'.done heading = m.done heading

/-- A service got what it needs to run with `wanted`. -/
structure Settled (m m' : Manager) (heading : List Char) (wanted : Option Section) : Prop where
  running : m'.running heading = wanted
  thread : (m'.threads.find heading).isSome = (m'.services.find heading).isSome
  done : m'.done heading = m.done heading ++ plan heading (m.running heading) wanted
  kept : m.running heading = wanted → Untouched m m' heading

/-- A service was stopped, and there is nothing left of it. -/
structure Removed (m m' : Manager) (heading : List Char) : Prop where
  services : m'.services.find heading = none
  threads : m'.threads.find heading = none
  done : m'.done heading = m.done heading ++ [.stop heading]

/-- Each service has a thread, and each thread a service. -/
def SameKeys (m : Manager) : Prop := ∀ h, (m.threads.find h).isSome = (m.services.find h).isSome

variable {m m' : Manager} {heading h : List Char}

theorem Untouched.refl (m : Manager) (h : List Char) : Untouched m m h := ⟨rfl, rfl, rfl⟩

theorem Untouched.trans {m'' : Manager} (h1 : Untouched m m' h) (h2 : Untouched m' m'' h) : Untouched m m'' h :=
  ⟨h2.services.trans h1.services, h2.threads.trans h1.threads, h2.done.trans h1.done⟩

theorem Untouched.running (hu : Untouched m m' h) : m'.running h = m.running h := by
  unfold Manager.running
  rw [hu.services]

variable {m'' : Manager}

theorem Removed.append (h1 : Removed m m' h) (h2 : Untouched m' m'' h) : Removed m m'' h :=
  ⟨h2.services.trans h1.services, h2.threads.trans h1.threads, h2.done.trans h1.done⟩

theorem Removed.prepend (h1 : Untouched m m' h) (h2 : Removed m' m'' h) : Removed m m'' h :=
  ⟨h2.services, h2.threads, by rw [h2.done, h1.done]⟩

theorem Settled.append {w : Option Section} (h1 : Settled m m' h w) (h2 : Untouched m' m'' h) : Settled m m'' h w :=
  ⟨h2.running.trans h1.running, by rw [h2.threads, h2.services, h1.thread], h2.done.trans h1.done,
    fun hw => (h1.kept hw).trans h2⟩

theorem Settled.prepend {w : Option Section} (h1 : Untouched m m' h) (h2 : Settled m' m'' h w) : Settled m m'' h w :=
  ⟨h2.running, h2.thread, by rw [h2.done, h1.done, h1.running],
    fun hw => h1.trans (h2.kept (h1.running.trans hw))⟩

/-! ## One service -/

theorem stop_eq (hs : (m.threads.find heading).isSome) :
    m.stop heading = { m with threads := m.threads.erase heading, actions := m.actions ++ [.stop heading] } := by
  obtain ⟨t, ht⟩ := Option.isSome_iff_exists.mp hs
  unfold stop
  rw [ht]

/-- What an action adds to what was done to a service. -/
theorem done_append (m : Manager) (a : Action) (h : List Char) :
    (m.actions ++ [a]).filter (fun a => a.heading = h) = m.done h ++ if a.heading = h then [a] else [] := by
  rw [List.filter_append]
  unfold done
  by_cases ha : a.heading = h
  · rw [if_pos ha, List.filter_cons_of_pos (by simpa using ha), List.filter_nil]
  · rw [if_neg ha, List.filter_cons_of_neg (by simpa using ha), List.filter_nil]

/-- A service is stopped and erased, and no other one is touched. -/
theorem remove_spec (hs : (m.threads.find heading).isSome) :
    (∀ h ≠ heading, Untouched m ((m.stop heading).erase heading) h) ∧
      Removed m ((m.stop heading).erase heading) heading := by
  rw [stop_eq hs]
  unfold erase
  refine ⟨fun h hne => ⟨?_, ?_, ?_⟩, ?_, ?_, ?_⟩
  · exact (OrderedMap.find_erase _ _ _).trans (if_neg hne)
  · exact (OrderedMap.find_erase _ _ _).trans (if_neg hne)
  · exact (done_append m _ h).trans (by simp [Ne.symm hne])
  · exact (OrderedMap.find_erase _ _ _).trans (if_pos rfl)
  · exact (OrderedMap.find_erase _ _ _).trans (if_pos rfl)
  · exact (done_append m _ heading).trans (by simp)

/-- A service is constructed and started, and no other one is touched. -/
theorem launch_spec (s : Section) (hn : m.services.find heading = none) (ht : m.threads.find heading = none) :
    ∃ node, (m.construct heading s).services.find heading = some node ∧ node.conf = s ∧
      (∀ h ≠ heading, Untouched m ((m.construct heading s).start heading node) h) ∧
      ((m.construct heading s).start heading node).services.find heading = some node ∧
      ((m.construct heading s).start heading node).threads.find heading = some ⟨node.serial⟩ ∧
      ((m.construct heading s).start heading node).done heading = m.done heading ++ [.start heading] := by
  have hserv := (OrderedMap.try_emplace_of_none ⟨m.serial, s⟩ hn).2
  have hthr := (OrderedMap.try_emplace_of_none (⟨m.serial⟩ : Thread) ht).2
  have hnode := (hserv heading).trans (if_pos rfl)
  refine ⟨⟨m.serial, s⟩, hnode, rfl, fun h hne => ⟨?_, ?_, ?_⟩, hnode, ?_, ?_⟩
  · exact (hserv h).trans (if_neg hne)
  · exact (hthr h).trans (if_neg hne)
  · exact (done_append m _ h).trans (by simp [Ne.symm hne])
  · exact (hthr heading).trans (if_pos rfl)
  · exact (done_append m _ heading).trans (by simp)

section

variable {constructs : Section → Bool} {s : Section} {node : Node}

theorem emplace_of_none (fuel : Nat) (hc : constructs s = true) (hn : m.services.find heading = none) :
    m.emplace constructs heading s (fuel + 1) = some (m.construct heading s, true) := by
  have htry : m.try_emplace constructs heading s = some (m.construct heading s, true) := by
    unfold try_emplace
    rw [hn]
    exact if_pos hc
  rw [emplace, htry]

theorem emplace_of_some (fuel : Nat) (hn : m.services.find heading = some node) :
    m.emplace constructs heading s (fuel + 1) =
      if node.conf = s then some (m, false)
      else ((m.stop heading).erase heading).emplace constructs heading s fuel := by
  have htry : m.try_emplace constructs heading s = some (m, false) := by
    unfold try_emplace
    rw [hn]
  rw [emplace, htry]
  simp only [hn]

/-- A service with the wanted section stays as it is. -/
theorem place_of_running (fuel : Nat) (hr : m.running heading = some s) :
    m.place constructs (fuel + 1) heading s = some m := by
  obtain ⟨node, hnode, hconf⟩ := Option.map_eq_some_iff.mp hr
  unfold place
  split
  · rw [emplace_of_some fuel hnode, if_pos hconf]
  · rfl

theorem place_of_reserved (fuel : Nat) (hres : reserved heading) :
    m.place constructs fuel heading s = some m := by
  unfold place
  exact if_neg (not_not_intro hres)

variable {config : OrderedMap (List Char) Section} {fuel : Nat}

/-- One turn of the second loop. Two tries are enough: after the second one there is a new node. -/
theorem place_spec (hfuel : 2 ≤ fuel) (hkeys : (m.threads.find heading).isSome = (m.services.find heading).isSome)
    (hc : ¬reserved heading → constructs s = true) :
    ∃ m', m.place constructs fuel heading s = some m' ∧ (∀ h ≠ heading, Untouched m m' h) ∧
      (reserved heading → Untouched m m' heading) ∧ (¬reserved heading → Settled m m' heading (some s)) := by
  obtain ⟨f, rfl⟩ := Nat.exists_eq_add_of_le' hfuel
  by_cases hres : reserved heading
  · exact ⟨m, place_of_reserved _ hres, fun h _ => .refl m h, fun _ => .refl m heading, absurd hres⟩
  -- what the two cases with a new node have in common, from a state without the service
  have hnew : ∀ m₁ : Manager, m₁.services.find heading = none → m₁.threads.find heading = none →
      m.emplace constructs heading s (f + 2) = some (m₁.construct heading s, true) →
      (∀ h ≠ heading, Untouched m m₁ h) → m.running heading ≠ some s →
      m₁.done heading ++ [.start heading] = m.done heading ++ plan heading (m.running heading) (some s) →
      ∃ m', m.place constructs (f + 2) heading s = some m' ∧ (∀ h ≠ heading, Untouched m m' h) ∧
        (reserved heading → Untouched m m' heading) ∧ (¬reserved heading → Settled m m' heading (some s)) := by
    intro m₁ hnone hthr hemp hothers hdiff hdone
    obtain ⟨node, hnode, hconf, hun, hserv, hthread, hstart⟩ := launch_spec s hnone hthr
    refine ⟨(m₁.construct heading s).start heading node, ?_, fun h hne => (hothers h hne).trans (hun h hne),
      fun h => absurd h hres, fun _ => ⟨?_, ?_, hstart.trans hdone, fun h => absurd h hdiff⟩⟩
    · unfold place
      refine (if_pos hres).trans ?_
      simp only [hemp, hnode, Option.map_some]
    · unfold running
      rw [hserv, Option.map_some, hconf]
    · rw [hthread, hserv]
      rfl
  cases hn : m.services.find heading with
  | none =>
    have hrun : m.running heading = none := by
      unfold running
      rw [hn]
      rfl
    have hthr : m.threads.find heading = none := by
      rw [hn] at hkeys
      exact Option.not_isSome_iff_eq_none.mp (by simp [hkeys])
    refine hnew m hn hthr (emplace_of_none _ (hc hres) hn) (fun h _ => .refl m h) (by simp [hrun]) ?_
    rw [hrun]
    rfl
  | some node =>
    have hrun : m.running heading = some node.conf := by
      unfold running
      rw [hn]
      rfl
    by_cases hconf : node.conf = s
    · rw [hconf] at hrun
      refine ⟨m, place_of_running _ hrun, fun h _ => .refl m h, fun _ => .refl m heading,
        fun _ => ⟨hrun, hkeys, ?_, fun _ => .refl m heading⟩⟩
      rw [hrun, plan, if_pos rfl, List.append_nil]
    · have hsome : (m.threads.find heading).isSome := by
        rw [hkeys, hn]
        rfl
      obtain ⟨hothers, hgone⟩ := remove_spec hsome
      refine hnew _ hgone.services hgone.threads ?_ hothers ?_ ?_
      · rw [emplace_of_some _ hn, if_neg hconf]
        exact emplace_of_none f (hc hres) hgone.services
      · rw [hrun]
        exact fun h => hconf (Option.some.inj h)
      · rw [hgone.done, hrun, plan, if_neg hconf, List.append_assoc]
        rfl

/-! ## The two loops -/

theorem place_all_spec (hfuel : 2 ≤ fuel) (E : List (List Char × Section)) (hnodup : (E.map Prod.fst).Nodup)
    (hc : ∀ e ∈ E, ¬reserved e.1 → constructs e.2 = true) (m : Manager)
    (hkeys : ∀ e ∈ E, (m.threads.find e.1).isSome = (m.services.find e.1).isSome) :
    ∃ m', m.place_all constructs fuel E = some m' ∧ (∀ h ∉ E.map Prod.fst, Untouched m m' h) ∧
      ∀ e ∈ E, (reserved e.1 → Untouched m m' e.1) ∧ (¬reserved e.1 → Settled m m' e.1 (some e.2)) := by
  induction E generalizing m with
  | nil => exact ⟨m, rfl, fun h _ => .refl m h, fun e he => absurd he List.not_mem_nil⟩
  | cons e E ih =>
    rw [List.map_cons, List.nodup_cons] at hnodup
    obtain ⟨m₁, hplace, hothers, hres, hset⟩ :=
      place_spec hfuel (hkeys e List.mem_cons_self) (hc e List.mem_cons_self)
    -- the later headings are other ones, and are as they were
    have hne : ∀ e' ∈ E, e'.1 ≠ e.1 := fun e' he' heq =>
      hnodup.1 (heq ▸ List.mem_map_of_mem he')
    have hkeys₁ : ∀ e' ∈ E, (m₁.threads.find e'.1).isSome = (m₁.services.find e'.1).isSome := by
      intro e' he'
      have hun := hothers e'.1 (hne e' he')
      rw [hun.threads, hun.services]
      exact hkeys e' (List.mem_cons_of_mem _ he')
    obtain ⟨m', hall, hout, hin⟩ :=
      ih hnodup.2 (fun e' he' => hc e' (List.mem_cons_of_mem _ he')) m₁ hkeys₁
    refine ⟨m', ?_, fun h hh => ?_, fun e' he' => ?_⟩
    · rw [place_all, hplace]
      exact hall
    · rw [List.map_cons, List.mem_cons, not_or] at hh
      exact (hothers h hh.1).trans (hout h hh.2)
    · cases he' with
      | head =>
        have hun := hout e.1 hnodup.1
        exact ⟨fun h => (hres h).trans hun, fun h => (hset h).append hun⟩
      | tail _ he' =>
        have hun := hothers e'.1 (hne e' he')
        exact ⟨fun h => hun.trans ((hin e' he').1 h), fun h => ((hin e' he').2 h).prepend hun⟩

theorem sweep_spec (config : OrderedMap (List Char) Section) (L : List (List Char × Node))
    (hnodup : (L.map Prod.fst).Nodup) (m : Manager) (hthr : ∀ e ∈ L, (m.threads.find e.1).isSome) :
    (∀ h, h ∉ L.map Prod.fst ∨ config.find h ≠ none → Untouched m (m.sweep config L) h) ∧
      ∀ h ∈ L.map Prod.fst, config.find h = none → Removed m (m.sweep config L) h := by
  induction L generalizing m with
  | nil => exact ⟨fun h _ => .refl m h, fun h hh => absurd hh List.not_mem_nil⟩
  | cons e L ih =>
    rw [List.map_cons, List.nodup_cons] at hnodup
    have hne : ∀ e' ∈ L, e'.1 ≠ e.1 := fun e' he' heq =>
      hnodup.1 (heq ▸ List.mem_map_of_mem he')
    cases hf : config.find e.1 with
    | some s =>
      rw [show m.sweep config (e :: L) = m.sweep config L by rw [sweep, hf]]
      obtain ⟨hun, hrem⟩ := ih hnodup.2 m fun e' he' => hthr e' (List.mem_cons_of_mem _ he')
      refine ⟨fun h hh => hun h (hh.imp_left fun h => fun hmem => h (List.mem_cons_of_mem _ hmem)), ?_⟩
      intro h hh hnone
      rw [List.map_cons, List.mem_cons] at hh
      obtain rfl | hmem := hh
      · rw [hf] at hnone
        cases hnone
      · exact hrem h hmem hnone
    | none =>
      rw [show m.sweep config (e :: L) = ((m.stop e.1).erase e.1).sweep config L by rw [sweep, hf]]
      obtain ⟨hothers, hgone⟩ := remove_spec (hthr e List.mem_cons_self)
      have hthr₁ : ∀ e' ∈ L, (((m.stop e.1).erase e.1).threads.find e'.1).isSome := by
        intro e' he'
        rw [(hothers e'.1 (hne e' he')).threads]
        exact hthr e' (List.mem_cons_of_mem _ he')
      obtain ⟨hun, hrem⟩ := ih hnodup.2 _ hthr₁
      refine ⟨fun h hh => ?_, fun h hh hnone => ?_⟩
      · have hother : h ≠ e.1 := by
          rintro rfl
          exact hh.elim (fun h => h List.mem_cons_self) (fun h => h hf)
        exact (hothers h hother).trans
          (hun h (hh.imp_left fun h => fun hmem => h (List.mem_cons_of_mem _ hmem)))
      · rw [List.map_cons, List.mem_cons] at hh
        obtain rfl | hmem := hh
        · exact hgone.append (hun e.1 (.inl hnodup.1))
        · obtain ⟨e', he', rfl⟩ := List.mem_map.mp hmem
          exact .prepend (hothers e'.1 (hne e' he')) (hrem e'.1 hmem hnone)

/-! ## The whole merge -/

theorem wanted_of_reserved (hres : reserved h) : wanted config h = none :=
  if_pos hres

theorem wanted_of_not_reserved (hres : ¬reserved h) : wanted config h = config.find h :=
  if_neg hres

theorem running_eq_none : m.running h = none ↔ m.services.find h = none := Option.map_eq_none_iff

/-- Each service gets what it needs. -/
theorem merge_settles (hfuel : 2 ≤ fuel) (hkeys : m.SameKeys)
    (hfree : ∀ h, reserved h → m.running h = none) (hc : ∀ h s, wanted config h = some s → constructs s = true) :
    ∃ m', m.merge constructs fuel config = some m' ∧ ∀ h, Settled m m' h (wanted config h) := by
  have hthr : ∀ e ∈ m.services.entries, (m.threads.find e.1).isSome := by
    intro e he
    rw [hkeys e.1, OrderedMap.find_eq_some.mpr he]
    rfl
  obtain ⟨hun, hrem⟩ := sweep_spec config m.services.entries m.services.nodup_keys m hthr
  have hkeys₁ : ∀ e ∈ config.entries, ((m.sweep config m.services.entries).threads.find e.1).isSome =
      ((m.sweep config m.services.entries).services.find e.1).isSome := by
    intro e he
    have hfind := OrderedMap.find_eq_some.mpr he
    have hu := hun e.1 (.inr (by simp [hfind]))
    rw [hu.threads, hu.services]
    exact hkeys e.1
  have hc₁ : ∀ e ∈ config.entries, ¬reserved e.1 → constructs e.2 = true := fun e he hres =>
    hc e.1 e.2 ((wanted_of_not_reserved hres).trans (OrderedMap.find_eq_some.mpr he))
  obtain ⟨m', hall, hout, hin⟩ := place_all_spec hfuel config.entries config.nodup_keys hc₁ _ hkeys₁
  refine ⟨m', hall, fun h => ?_⟩
  -- a service for which nothing is wanted and that does not run
  have hidle : Untouched m m' h → m.running h = none → wanted config h = none →
      Settled m m' h (wanted config h) := by
    intro hu hrun hw
    refine ⟨by rw [hu.running, hrun, hw], ?_, ?_, fun _ => hu⟩
    · rw [hu.threads, hu.services]
      exact hkeys h
    · rw [hu.done, hrun, hw, plan, List.append_nil]
  cases hf : config.find h with
  | none =>
    have hout' := hout h fun hmem => OrderedMap.mem_keys.mp hmem hf
    have hw : wanted config h = none := by
      unfold wanted
      rw [hf, ite_self]
    cases hrun : m.running h with
    | none =>
      refine hidle ((hun h (.inl fun hmem => ?_)).trans hout') hrun hw
      exact OrderedMap.mem_keys.mp hmem (running_eq_none.mp hrun)
    | some c =>
      have hmem : h ∈ m.services.entries.map Prod.fst := by
        refine OrderedMap.mem_keys.mpr fun hnone => ?_
        rw [running_eq_none.mpr hnone] at hrun
        cases hrun
      have hgone := (hrem h hmem hf).append hout'
      rw [hw]
      refine ⟨running_eq_none.mpr hgone.services, ?_, ?_, ?_⟩
      · rw [hgone.threads, hgone.services]
        rfl
      · rw [hgone.done, hrun, plan]
      · intro hnone
        rw [hrun] at hnone
        cases hnone
  | some s =>
    have hu := hun h (.inr (by simp [hf]))
    obtain ⟨hskip, hset⟩ := hin (h, s) (OrderedMap.find_eq_some.mp hf)
    by_cases hres : reserved h
    · exact hidle (hu.trans (hskip hres)) (hfree h hres) (wanted_of_reserved hres)
    · rw [wanted_of_not_reserved hres, hf]
      exact (hset hres).prepend hu

theorem place_all_of_settled (fuel : Nat) (E : List (List Char × Section))
    (hE : ∀ e ∈ E, ¬reserved e.1 → m.running e.1 = some e.2) :
    m.place_all constructs (fuel + 1) E = some m := by
  induction E with
  | nil => rfl
  | cons e E ih =>
    have hplace : m.place constructs (fuel + 1) e.1 e.2 = some m := by
      by_cases hres : reserved e.1
      · exact place_of_reserved _ hres
      · exact place_of_running fuel (hE e List.mem_cons_self hres)
    rw [place_all, hplace]
    exact ih fun e' he' => hE e' (List.mem_cons_of_mem _ he')

theorem sweep_of_settled (L : List (List Char × Node))
    (hL : ∀ e ∈ L, config.find e.1 ≠ none) : m.sweep config L = m := by
  induction L with
  | nil => rfl
  | cons e L ih =>
    obtain ⟨s, hs⟩ := Option.ne_none_iff_exists'.mp (hL e List.mem_cons_self)
    rw [sweep, hs]
    exact ih fun e' he' => hL e' (List.mem_cons_of_mem _ he')

/-- Where everything runs as it is wanted, there is nothing to do. -/
theorem merge_of_settled (fuel : Nat)
    (hset : ∀ h, m.running h = wanted config h) : m.merge constructs (fuel + 1) config = some m := by
  have hsweep : m.sweep config m.services.entries = m := by
    refine sweep_of_settled _ fun e he hnone => ?_
    have hw : wanted config e.1 = none := by
      unfold wanted
      rw [hnone, ite_self]
    have hfind := running_eq_none.mp ((hset e.1).trans hw)
    rw [OrderedMap.find_eq_some.mpr he] at hfind
    cases hfind
  unfold merge
  rw [hsweep]
  refine place_all_of_settled fuel _ fun e he hres => ?_
  rw [hset, wanted_of_not_reserved hres, OrderedMap.find_eq_some.mpr he]

end

/-- After a merge each service runs with the section that is wanted for it, and has a thread. It was
stopped and started as its change needs, so not at all where nothing changed, and a second merge of the
same configuration does nothing. -/
theorem the_services_follow_the_configuration (constructs : Section → Bool)
    (config : OrderedMap (List Char) Section) (m : Manager) (fuel : Nat) (hfuel : 2 ≤ fuel)
    (hkeys : m.SameKeys) (hfree : ∀ h, reserved h → m.running h = none)
    (hc : ∀ h s, wanted config h = some s → constructs s = true) :
    ∃ m', m.merge constructs fuel config = some m' ∧ m'.SameKeys ∧
      (∀ h, m'.running h = wanted config h) ∧
      (∀ h, m'.done h = m.done h ++ plan h (m.running h) (wanted config h)) ∧
      (∀ h, m.running h = wanted config h → Untouched m m' h) ∧
      m'.merge constructs fuel config = some m' := by
  obtain ⟨m', hmerge, hset⟩ := merge_settles hfuel hkeys hfree hc
  obtain ⟨f, rfl⟩ := Nat.exists_eq_add_of_le' hfuel
  exact ⟨m', hmerge, fun h => (hset h).thread, fun h => (hset h).running, fun h => (hset h).done,
    fun h => (hset h).kept, merge_of_settled (f + 1) fun h => (hset h).running⟩

/-- A manager with one service. -/
def single (heading : List Char) (conf : Section) : Manager where
  services := { entries := [(heading, ⟨0, conf⟩)], ordered := List.pairwise_singleton _ _ }
  threads := { entries := [(heading, ⟨0⟩)], ordered := List.pairwise_singleton _ _ }
  serial := 1

theorem sameKeys_single (heading : List Char) (conf : Section) : (single heading conf).SameKeys := by
  intro h
  rw [Bool.eq_iff_iff, Option.isSome_iff_ne_none, Option.isSome_iff_ne_none, ← OrderedMap.mem_keys,
    ← OrderedMap.mem_keys]
  exact Iff.rfl

/-- A service whose section changes is stopped and started. -/
theorem a_changed_section_restarts :
    ∃ m', (single ['a'] []).merge (fun _ => true) 2
        { entries := [(['a'], [(['k'], ['v'])])], ordered := List.pairwise_singleton _ _ } = some m' ∧
      m'.done ['a'] = [.stop ['a'], .start ['a']] := by
  obtain ⟨m', hmerge, -, -, hdone, -⟩ := the_services_follow_the_configuration (fun _ => true)
    { entries := [(['a'], [(['k'], ['v'])])], ordered := List.pairwise_singleton _ _ } (single ['a'] []) 2
    le_rfl (sameKeys_single _ _)
    (by
      intro h hres
      refine running_eq_none.mpr (Option.not_isSome_iff_eq_none.mp fun hsome => ?_)
      have hmem := OrderedMap.mem_keys.mpr (Option.isSome_iff_ne_none.mp hsome)
      rw [List.mem_singleton.mp hmem] at hres
      exact absurd hres (by decide))
    (fun _ _ _ => rfl)
  exact ⟨m', hmerge, (hdone ['a']).trans rfl⟩

/-- A service with the heading that is reserved would stay, although no service is wanted for it. -/
theorem a_reserved_service_stays :
    (single "cloudbus".toList []).SameKeys ∧
      (∃ m', (single "cloudbus".toList []).merge (fun _ => true) 2
          { entries := [("cloudbus".toList, [])], ordered := List.pairwise_singleton _ _ } = some m' ∧
        m'.running "cloudbus".toList = some []) ∧
      wanted { entries := [("cloudbus".toList, [])], ordered := List.pairwise_singleton _ _ }
        "cloudbus".toList = none :=
  ⟨sameKeys_single _ _, ⟨_, rfl, rfl⟩, rfl⟩

end Manager

end cloudbus.manager
