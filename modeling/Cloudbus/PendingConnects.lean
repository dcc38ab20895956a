-- The connects that wait for an address (interfaces/interfaces.cpp), each with its own
-- callback. A callback may erase streams while the others still wait for their turn.
-- The sums of weights are those of `std::size_t` here.
import Cloudbus.Lib.Ordered
import Cloudbus.RoundRobin

namespace cloudbus

/-! ## Sums of 64 bits -/

/-- `find_weights` -/
def find_weightsU64 (l : List Address) : List Address × Nat × SizeT :=
  let g := least l
  if g.weight % 2 ^ 64 = 0 then (g.its.foldl (fun l i => l.modify i (Address.set_max 1)) l, g.its.length, g.prio)
  else (l, g.weight % 2 ^ 64, g.prio)

namespace InterfaceBase

/-- `auto[weight, prio] = find_weights(_addresses)` -/
def weighU64 (s : InterfaceBase) : InterfaceBase :=
  let r := find_weightsU64 s.addresses
  { s with addresses := r.1, total := r.2.1, prio := r.2.2 }

/-- `expire_addresses(t)` -/
def expire_addressesU64 (t : Int) (s : InterfaceBase) : InterfaceBase :=
  let s := weighU64 { s with addresses := s.addresses.filter (keeps t) }
  if s.addresses = [] ∧ s.discovered then { s with protocol := [] } else s

/-- The loop of `next`. -/
def scanU64 : Nat → Nat → InterfaceBase → Option (Option Nat × InterfaceBase)
  | 0, _, _ => none
  | fuel + 1, sum, s =>
    if sum < s.total then
      let s := { s with idx := (s.idx + 1) % s.addresses.length }
      match s.addresses[s.idx]? with
      | none => none
      | some a =>
        if a.priority = s.prio then
          if a.count < a.max then
            some (some s.idx, { s with addresses := s.addresses.modify s.idx fun a => a.set_count (a.count + 1) })
          else scanU64 fuel ((sum + a.count) % 2 ^ 64) s
        else scanU64 fuel sum s
    else some (none, s)

/-- `next()` -/
def nextU64 : Nat → InterfaceBase → Option (Option Nat × InterfaceBase)
  | 0, _ => none
  | fuel + 1, s =>
    if s.addresses = [] then some (none, s)
    else
      match scanU64 (fuel + 1) 0 s with
      | none => none
      | some (some i, s) => some (some i, s)
      | some (none, s) => nextU64 fuel (clear_counters s)

/-! ## `next` -/

section Next

variable {s s' : InterfaceBase} {fuel sum : Nat} {r : Option Nat}

/-- There is an address, and `_prio` is the least priority. -/
structure Best (s : InterfaceBase) : Prop where
  ne : s.addresses ≠ []
  le : ∀ a ∈ s.addresses, s.prio ≤ a.priority

theorem Best.frame (h : Best s) (hf : Frame s s') : Best s' := by
  constructor
  · intro hnil
    have hlen := hf.length
    rw [hnil, List.length_nil] at hlen
    exact h.ne (List.length_eq_zero_iff.1 hlen.symm)
  · intro a ha
    obtain ⟨i, hi, rfl⟩ := List.getElem_of_mem ha
    obtain ⟨b, hb, heq⟩ := hf.getElem? (List.getElem?_eq_getElem hi)
    have hprio : s'.addresses[i].priority = b.priority := by simpa using congrArg Address.priority heq
    rw [hf.prio, hprio]
    exact h.le b (List.mem_of_getElem? hb)

/-- The place of an address of priority `_prio`. -/
theorem scanU64_spec (h : scanU64 fuel sum s = some (r, s')) :
    Frame s s' ∧ ∀ i, r = some i → s'.Candidate i := by
  induction fuel generalizing sum s with
  | zero => simp [scanU64] at h
  | succ fuel ih =>
    unfold scanU64 at h
    split at h
    case isFalse =>
      simp only [Option.some.injEq, Prod.mk.injEq] at h
      obtain ⟨rfl, rfl⟩ := h
      exact ⟨.refl s, nofun⟩
    case isTrue =>
      -- only `_idx` is different
      have hidx : Frame s { s with idx := (s.idx + 1) % s.addresses.length } := ⟨rfl, rfl⟩
      dsimp only at h
      split at h
      case h_1 => cases h
      case h_2 a ha =>
        split at h
        case isTrue hp =>
          split at h
          case isTrue =>
            simp only [Option.some.injEq, Prod.mk.injEq] at h
            obtain ⟨rfl, rfl⟩ := h
            refine ⟨Frame.take_at s _, ?_⟩
            rintro i ⟨⟩
            exact ⟨a.set_count (a.count + 1), by simp [ha], hp⟩
          case isFalse =>
            obtain ⟨hf, hc⟩ := ih h
            exact ⟨hidx.trans hf, hc⟩
        case isFalse =>
          obtain ⟨hf, hc⟩ := ih h
          exact ⟨hidx.trans hf, hc⟩

theorem nextU64_spec (hb : Best s) (h : nextU64 fuel s = some (r, s')) :
    Frame s s' ∧ ∃ i, r = some i ∧ s'.Candidate i := by
  induction fuel generalizing s with
  | zero => simp [nextU64] at h
  | succ fuel ih =>
    unfold nextU64 at h
    rw [if_neg hb.ne] at h
    split at h
    case h_1 => cases h
    case h_2 i s₁ hscan =>
      simp only [Option.some.injEq, Prod.mk.injEq] at h
      obtain ⟨rfl, rfl⟩ := h
      obtain ⟨hf, hc⟩ := scanU64_spec hscan
      exact ⟨hf, i, rfl, hc i rfl⟩
    case h_3 s₁ hscan =>
      have hf : Frame s s₁.clear_counters := (scanU64_spec hscan).1.trans (.clear_counters s₁)
      obtain ⟨hf', hr⟩ := ih (hb.frame hf) h
      exact ⟨hf.trans hf', hr⟩

/-! ## The expiry -/

theorem find_weightsU64_prio (l : List Address) : (find_weightsU64 l).2.2 = (least l).prio := by
  unfold find_weightsU64
  dsimp only
  split <;> rfl

/-- The addresses as they are, or with other weights. -/
theorem find_weightsU64_addresses (l : List Address) (i : Nat) :
    (find_weightsU64 l).1[i]? = l[i]? ∨ (find_weightsU64 l).1[i]? = l[i]?.map (Address.set_max 1) := by
  unfold find_weightsU64
  dsimp only
  split
  case isTrue =>
    rw [getElem?_foldl_modify (Address.set_max 1) (fun _ => rfl)]
    split
    case isTrue => exact .inr rfl
    case isFalse => exact .inl rfl
  case isFalse => exact .inl rfl

variable {l : List Address} {t : Int}

theorem find_weightsU64_nil : (find_weightsU64 l).1 = [] ↔ l = [] := by
  have h0 := find_weightsU64_addresses l 0
  constructor
  · intro h
    rw [h] at h0
    cases l with
    | nil => rfl
    | cons a l => simp at h0
  · rintro rfl
    rfl

/-- What `expire_addresses` leaves has a least priority. -/
theorem expire_addressesU64_best (h : (s.expire_addressesU64 t).addresses ≠ []) : Best (s.expire_addressesU64 t) := by
  refine ⟨h, ?_⟩
  unfold expire_addressesU64 at h ⊢
  dsimp only at h ⊢
  split at h
  case isTrue hnil => exact absurd hnil.1 h
  case isFalse hne =>
    rw [if_neg hne]
    intro a ha
    simp only [weighU64, find_weightsU64_prio] at ha ⊢
    obtain ⟨i, hi⟩ := List.getElem?_of_mem ha
    have hle := (least_of (s.addresses.filter (keeps t))).le
    rcases find_weightsU64_addresses (s.addresses.filter (keeps t)) i with heq | heq
    · rw [heq] at hi
      exact hle a (List.mem_of_getElem? hi)
    · rw [heq, Option.map_eq_some_iff] at hi
      obtain ⟨b, hb, rfl⟩ := hi
      exact hle b (List.mem_of_getElem? hb)

/-- When nothing is left after `expire_addresses`, nothing was to be kept. -/
theorem expire_addressesU64_nil : (s.expire_addressesU64 t).addresses = [] ↔ s.addresses.filter (keeps t) = [] := by
  have hkept : (s.expire_addressesU64 t).addresses = (find_weightsU64 (s.addresses.filter (keeps t))).1 := by
    unfold expire_addressesU64 weighU64
    dsimp only
    split <;> rfl
  rw [hkept]
  exact find_weightsU64_nil

/-! ## Sums that fit -/

/-- All weights together are below 2^63. -/
def Light (l : List Address) : Prop := (l.map Address.max).sum < 2 ^ 63

theorem total_share_le (p : SizeT) (l : List Address) : total_share p l ≤ (l.map Address.max).sum := by
  apply List.sum_le_sum
  intro a _
  unfold Address.share
  split
  · exact le_refl _
  · exact Nat.zero_le _

theorem Light.filter (h : Light l) (p : Address → Bool) : Light (l.filter p) :=
  lt_of_le_of_lt (List.Sublist.sum_le_sum (List.filter_sublist.map Address.max) fun _ _ => Nat.zero_le _) h

theorem find_weightsU64_eq (h : Light l) : find_weightsU64 l = find_weights l := by
  have hweight : (least l).weight % 2 ^ 64 = (least l).weight := by
    have hle := total_share_le (least l).prio l
    unfold Light at h
    rw [(least_of l).weight]
    omega
  simp only [find_weightsU64, find_weights, hweight]

theorem weighU64_eq (h : Light s.addresses) : s.weighU64 = s.weigh := by
  unfold weighU64 weigh
  rw [find_weightsU64_eq h]

theorem expire_addressesU64_eq (h : Light s.addresses) : s.expire_addressesU64 t = s.expire_addresses t := by
  unfold expire_addressesU64 expire_addresses
  rw [weighU64_eq (h.filter (keeps t))]

theorem scanU64_eq (hr : s.Ready) (ht : s.total < 2 ^ 63) : scanU64 fuel sum s = scan fuel sum s := by
  induction fuel generalizing sum s with
  | zero => rfl
  | succ fuel ih =>
    unfold scanU64 scan
    split
    case isFalse => rfl
    case isTrue hsum =>
      have hr' := hr.with_idx ((s.idx + 1) % s.addresses.length)
      cases ha : s.addresses[(s.idx + 1) % s.addresses.length]? with
      | none => simp only [ha]
      | some a =>
        have hmem : a ∈ s.addresses := List.mem_of_getElem? ha
        simp only [ha]
        by_cases hp : a.priority = s.prio
        case neg => rw [if_neg hp, if_neg hp, ih hr' ht]
        case pos =>
          have hfits : (sum + a.count) % 2 ^ 64 = sum + a.count := by
            have hcount := hr.counts a hmem
            have hmax := max_le_total_share hmem
            rw [hp, ← hr.total] at hmax
            omega
          rw [if_pos hp, if_pos hp, hfits, ih hr' ht]

/-- Without an address the loop only moves on. -/
theorem scan_none (h : scan fuel sum s = some (none, s')) : ∃ i, s' = { s with idx := i } := by
  induction fuel generalizing sum s with
  | zero => simp [scan] at h
  | succ fuel ih =>
    unfold scan at h
    split at h
    case isFalse =>
      simp only [Option.some.injEq, Prod.mk.injEq, true_and] at h
      exact ⟨s.idx, h.symm⟩
    case isTrue =>
      dsimp only at h
      split at h
      case h_1 => cases h
      case h_2 =>
        split at h
        case isTrue =>
          split at h
          case isTrue => simp at h
          case isFalse =>
            obtain ⟨i, hi⟩ := ih h
            exact ⟨i, hi⟩
        case isFalse =>
          obtain ⟨i, hi⟩ := ih h
          exact ⟨i, hi⟩

theorem nextU64_eq (hr : s.Ready) (ht : s.total < 2 ^ 63) : nextU64 fuel s = next fuel s := by
  induction fuel generalizing s with
  | zero => rfl
  | succ fuel ih =>
    unfold nextU64 next
    rw [scanU64_eq hr ht]
    cases hscan : scan (fuel + 1) 0 s with
    | none => rfl
    | some r =>
      obtain ⟨i, s₁⟩ := r
      cases i with
      | some i => rfl
      | none =>
        obtain ⟨i, rfl⟩ := scan_none hscan
        dsimp only
        rw [ih (hr.with_idx i).clear_counters ht]

end Next

end InterfaceBase

namespace PendingConnects

/-! ## The callbacks -/

/-- A connect that was registered. Its callback is named by its place among all that were. -/
structure Registration where
  name : Nat
  stream : StreamId
deriving DecidableEq, Repr

/-- What became of a registration when its turn came: whether its stream was alive, the interface as it was,
and what the callback was called with, if it was called. -/
structure Entry where
  reg : Registration
  alive : Bool
  face : InterfaceBase
  called : Option (Option Address)
deriving DecidableEq, Repr

/-- What a callback does to the streams. A stream that is erased lives on while others hold it. -/
structure Erasure where
  erased : List StreamId
  destroyed : List StreamId
deriving DecidableEq, Repr

/-- The interface with its `_pending`, the streams that are alive, and the registrations whose turn has come. -/
structure Desk where
  face : InterfaceBase
  waiting : List Registration
  alive : StreamId → Bool
  registered : Nat
  log : List Entry

namespace Desk

/-- `erase(handle)` -/
def erase (w : StreamId) (d : Desk) : Desk :=
  { d with face := { d.face with streams := Ordered.erase id w d.face.streams } }

/-- The last reference to a stream is gone. -/
def destroy (w : StreamId) (d : Desk) : Desk := { d with alive := fun v => d.alive v && v ≠ w }

/-- A callback returns. -/
def after (d : Desk) (x : Erasure) : Desk := x.destroyed.foldl (fun d w => d.destroy w) (x.erased.foldl (fun d w => d.erase w) d)

def record (e : Entry) (d : Desk) : Desk := { d with log := d.log ++ [e] }

/-- The loop of `_resolve_callbacks`. What a callback does can depend on all it sees. -/
def call (fuel : Nat) (cb : Entry → Erasure) : List Registration → Desk → Option Desk
  | [], d => some d
  | r :: rs, d =>
    if d.alive r.stream then
      match d.face.nextU64 fuel with
      | none => none
      | some (i, face) =>
        let a := (i.bind (face.addresses[·]?)).getD NULLADDR
        let addrp := if a.len ≠ NULL_LEN then some a else none
        if r.stream ∈ face.streams then
          let e : Entry := ⟨r, true, face, some addrp⟩
          call fuel cb rs (({ d with face := face }.record e).after (cb e))
        else call fuel cb rs ({ d with face := face }.record ⟨r, true, face, none⟩)
    else call fuel cb rs (d.record ⟨r, false, d.face, none⟩)

/-- `_resolve_callbacks`, with the two times that it reads off the clock. -/
def resolve_callbacks (fuel : Nat) (cb : Entry → Erasure) (now later : Int) (d : Desk) : Option Desk :=
  let d := { d with face := d.face.expire_addressesU64 (now - InterfaceBase.HYST_WND) }
  if d.face.addresses ≠ [] then
    (call fuel cb d.waiting { d with waiting := [] }).map fun d =>
      { d with face := d.face.expire_addressesU64 later }
  else some d

/-- `addresses(addrs)` -/
def set_addresses (fuel : Nat) (cb : Entry → Erasure) (now later : Int) (addrs : List Address) (d : Desk) : Option Desk :=
  resolve_callbacks fuel cb now later { d with face := { d.face with addresses := addrs }.weighU64 }

/-- `register_connect` -/
def register_connect (fuel : Nat) (cb : Entry → Erasure) (now later : Int) (w : StreamId) (d : Desk) : Option Desk :=
  resolve_callbacks fuel cb now later
    { d with waiting := d.waiting ++ [⟨d.registered, w⟩], registered := d.registered + 1 }

/-- `make(...)` -/
def make (w : StreamId) (d : Desk) : Desk :=
  { d with
    face := { d.face with streams := Ordered.insert id w d.face.streams }
    alive := fun v => d.alive v || v = w }

end Desk

/-- A public call, or the end of a stream that the interface does not hold. -/
inductive Event where
  | register_connect (w : StreamId)
  | addresses (addrs : List Address)
  | make (w : StreamId)
  | erase (w : StreamId)
  | destroyed (w : StreamId)

def Desk.step (fuel : Nat) (cb : Entry → Erasure) (now later : Int) (d : Desk) : Event → Option Desk
  | .register_connect w => d.register_connect fuel cb now later w
  | .addresses addrs => d.set_addresses fuel cb now later addrs
  | .make w => some (d.make w)
  | .erase w => some (d.erase w)
  | .destroyed w => some (d.destroy w)

/-- The histories of an interface. Each call has its own times, callbacks and number of turns. -/
inductive Reach : Desk → Prop
  | start (face : InterfaceBase) (alive : StreamId → Bool) : Reach ⟨face, [], alive, 0, []⟩
  | step {d d' : Desk} (fuel : Nat) (cb : Entry → Erasure) (now later : Int) (ev : Event) : Reach d →
      d.step fuel cb now later ev = some d' → Reach d'

/-- What may become of a registration: its callback is called with a listed address of the least priority, or
with `nullptr` when that address is none; or its stream is destroyed or not one of the interface. -/
def Entry.Right (e : Entry) : Prop :=
  match e.called with
  | some addrp =>
    e.alive = true ∧ e.reg.stream ∈ e.face.streams ∧
      ∃ a ∈ e.face.addresses, (∀ b ∈ e.face.addresses, a.priority ≤ b.priority) ∧
        addrp = if a.len ≠ NULL_LEN then some a else none
  | none => e.alive = false ∨ e.reg.stream ∉ e.face.streams

/-- The list that a call expires. -/
def Event.listed (d : Desk) : Event → List Address
  | .addresses addrs => ({ d.face with addresses := addrs }.weighU64).addresses
  | _ => d.face.addresses

/-! ## The loop -/

section Loop

variable {d d' d'' : Desk} {fuel : Nat} {cb : Entry → Erasure}

/-- What the streams do not touch. -/
structure Same (d d' : Desk) : Prop where
  log : d'.log = d.log
  waiting : d'.waiting = d.waiting
  registered : d'.registered = d.registered
  addresses : d'.face.addresses = d.face.addresses
  prio : d'.face.prio = d.face.prio

theorem Same.refl (d : Desk) : Same d d := ⟨rfl, rfl, rfl, rfl, rfl⟩

theorem Same.trans (h : Same d d') (h' : Same d' d'') : Same d d'' :=
  ⟨h'.log.trans h.log, h'.waiting.trans h.waiting, h'.registered.trans h.registered,
    h'.addresses.trans h.addresses, h'.prio.trans h.prio⟩

theorem Same.foldl {f : Desk → StreamId → Desk} (hf : ∀ d w, Same d (f d w)) (ws : List StreamId) (d : Desk) :
    Same d (ws.foldl f d) := by
  induction ws generalizing d with
  | nil => exact .refl d
  | cons w ws ih => exact (hf d w).trans (ih (f d w))

theorem erase_same (d : Desk) (w : StreamId) : Same d (d.erase w) := ⟨rfl, rfl, rfl, rfl, rfl⟩

theorem destroy_same (d : Desk) (w : StreamId) : Same d (d.destroy w) := ⟨rfl, rfl, rfl, rfl, rfl⟩

theorem after_same (d : Desk) (x : Erasure) : Same d (d.after x) :=
  (Same.foldl erase_same x.erased d).trans (Same.foldl destroy_same x.destroyed _)

theorem Same.best (h : Same d d') (hb : d.face.Best) : d'.face.Best := by
  constructor
  · rw [h.addresses]
    exact hb.ne
  · rw [h.addresses, h.prio]
    exact hb.le

/-- Each registration gets its entry, in their order, and no other one is made. -/
theorem call_spec {rs : List Registration} (hb : d.face.Best) (h : d.call fuel cb rs = some d') :
    d'.waiting = d.waiting ∧ d'.registered = d.registered ∧
      ∃ es, d'.log = d.log ++ es ∧ es.map Entry.reg = rs ∧ ∀ e ∈ es, e.Right := by
  induction rs generalizing d with
  | nil =>
    simp only [Desk.call, Option.some.injEq] at h
    obtain rfl := h
    exact ⟨rfl, rfl, [], by simp, rfl, by simp⟩
  | cons r rs ih =>
    -- the entry of `r` is right, and the loop goes on from `d₁`
    have turn : ∀ (d₁ : Desk) (e : Entry), d₁.face.Best → d₁.call fuel cb rs = some d' → d₁.waiting = d.waiting →
        d₁.registered = d.registered → d₁.log = d.log ++ [e] → e.reg = r → e.Right →
        d'.waiting = d.waiting ∧ d'.registered = d.registered ∧
          ∃ es, d'.log = d.log ++ es ∧ es.map Entry.reg = r :: rs ∧ ∀ e ∈ es, e.Right := by
      intro d₁ e hb₁ h₁ hw hr hl he hright
      obtain ⟨hw', hr', es, hlog, hregs, hes⟩ := ih hb₁ h₁
      refine ⟨hw'.trans hw, hr'.trans hr, e :: es, ?_, ?_, ?_⟩
      · rw [hlog, hl, List.append_assoc, List.singleton_append]
      · rw [List.map_cons, he, hregs]
      · intro e' he'
        rcases List.mem_cons.1 he' with rfl | he'
        · exact hright
        · exact hes e' he'
    unfold Desk.call at h
    split at h
    case isFalse => exact turn (d.record ⟨r, false, d.face, none⟩) _ hb h rfl rfl rfl rfl (Or.inl rfl)
    case isTrue halive =>
      split at h
      case h_1 => cases h
      case h_2 i face hnext =>
        obtain ⟨hf, j, rfl, a, ha, hp⟩ := InterfaceBase.nextU64_spec hb hnext
        have hbest : face.Best := hb.frame hf
        dsimp only at h
        split at h
        case isFalse hout => exact turn _ ⟨r, true, face, none⟩ hbest h rfl rfl rfl rfl (Or.inr hout)
        case isTrue hin =>
          simp only [Option.bind_some, ha, Option.getD_some] at h
          have hsame := after_same (Desk.record ⟨r, true, face, some (if a.len ≠ NULL_LEN then some a else none)⟩
            { d with face := face }) (cb ⟨r, true, face, some (if a.len ≠ NULL_LEN then some a else none)⟩)
          refine turn _ _ (hsame.best hbest) h hsame.waiting hsame.registered hsame.log rfl ?_
          refine ⟨rfl, hin, a, List.mem_of_getElem? ha, fun b hb' => ?_, rfl⟩
          rw [hp]
          exact hbest.le b hb'

end Loop

/-! ## Every history -/

section Runs

variable {d d' : Desk} {fuel : Nat} {cb : Entry → Erasure} {now later : Int}

/-- The entries and what waits are the registrations in their order, and the entries are right. -/
structure Kept (d : Desk) : Prop where
  once : d.log.map (fun e => e.reg.name) ++ d.waiting.map Registration.name = List.range d.registered
  right : ∀ e ∈ d.log, e.Right

theorem resolve_callbacks_spec (hk : Kept d) (h : d.resolve_callbacks fuel cb now later = some d') :
    Kept d' ∧ (d'.waiting ≠ [] →
      d.face.addresses.filter (InterfaceBase.keeps (now - InterfaceBase.HYST_WND)) = [] ∧ d'.face.addresses = []) := by
  unfold Desk.resolve_callbacks at h
  dsimp only at h
  split at h
  case isFalse hnil =>
    simp only [Option.some.injEq] at h
    obtain rfl := h
    have hnil' := not_not.1 hnil
    exact ⟨⟨hk.once, hk.right⟩, fun _ => ⟨InterfaceBase.expire_addressesU64_nil.1 hnil', hnil'⟩⟩
  case isTrue hne =>
    rw [Option.map_eq_some_iff] at h
    obtain ⟨d₁, hcall, rfl⟩ := h
    obtain ⟨hw, hr, es, hlog, hregs, hes⟩ := call_spec (InterfaceBase.expire_addressesU64_best hne) hcall
    have hw' : d₁.waiting = [] := hw
    refine ⟨⟨?_, ?_⟩, fun hwait => absurd hw' hwait⟩
    · have hnames : es.map (fun e => e.reg.name) = d.waiting.map Registration.name := by
        rw [← hregs, List.map_map]
        rfl
      simp only [hlog, hw', hr, List.map_append, List.map_nil, List.append_nil, hnames]
      exact hk.once
    · intro e he
      rw [hlog] at he
      rcases List.mem_append.1 he with he | he
      · exact hk.right e he
      · exact hes e he

/-- A call keeps the account, and what still waits has no address. -/
theorem step_spec (ev : Event) (hk : Kept d) (hwait : d.waiting ≠ [] → d.face.addresses = [])
    (h : d.step fuel cb now later ev = some d') :
    Kept d' ∧ (d'.waiting ≠ [] →
      (ev.listed d).filter (InterfaceBase.keeps (now - InterfaceBase.HYST_WND)) = [] ∧ d'.face.addresses = []) := by
  cases ev with
  | register_connect w =>
    have hk' : Kept { d with waiting := d.waiting ++ [⟨d.registered, w⟩], registered := d.registered + 1 } := by
      refine ⟨?_, hk.right⟩
      rw [List.range_succ, ← hk.once, List.map_append, List.append_assoc]
      rfl
    have hspec := resolve_callbacks_spec hk' h
    exact hspec
  | addresses addrs =>
    have hk' : Kept { d with face := { d.face with addresses := addrs }.weighU64 } := ⟨hk.once, hk.right⟩
    have hspec := resolve_callbacks_spec hk' h
    exact hspec
  | make w =>
    simp only [Desk.step, Option.some.injEq] at h
    obtain rfl := h
    refine ⟨⟨hk.once, hk.right⟩, fun hw => ?_⟩
    have hnil := hwait hw
    exact ⟨by simp [Event.listed, hnil], hnil⟩
  | erase w =>
    simp only [Desk.step, Option.some.injEq] at h
    obtain rfl := h
    refine ⟨⟨hk.once, hk.right⟩, fun hw => ?_⟩
    have hnil := hwait hw
    exact ⟨by simp [Event.listed, hnil], hnil⟩
  | destroyed w =>
    simp only [Desk.step, Option.some.injEq] at h
    obtain rfl := h
    refine ⟨⟨hk.once, hk.right⟩, fun hw => ?_⟩
    have hnil := hwait hw
    exact ⟨by simp [Event.listed, hnil], hnil⟩

theorem Reach.kept (h : Reach d) : Kept d ∧ (d.waiting ≠ [] → d.face.addresses = []) := by
  induction h with
  | start face alive => exact ⟨⟨rfl, by simp⟩, fun hw => absurd rfl hw⟩
  | step fuel cb now later ev _ hstep ih =>
    obtain ⟨hk, hw⟩ := step_spec ev ih.1 ih.2 hstep
    exact ⟨hk, fun hwait => (hw hwait).2⟩

/-- Connects run at most once, and none is lost. In every history the entries followed by what waits are the
registrations in their order; each entry is right; and a call that leaves something to wait found no address
that it could keep. -/
theorem pending_connects_run_at_most_once (d : Desk) (h : Reach d) :
    d.log.map (fun e => e.reg.name) ++ d.waiting.map Registration.name = List.range d.registered ∧
      (∀ e ∈ d.log, e.Right) ∧ (d.waiting ≠ [] → d.face.addresses = []) ∧
      ∀ fuel cb now later ev d', d.step fuel cb now later ev = some d' → d'.waiting ≠ [] →
        (ev.listed d).filter (InterfaceBase.keeps (now - InterfaceBase.HYST_WND)) = [] ∧ d'.face.addresses = [] := by
  obtain ⟨hk, hwait⟩ := h.kept
  exact ⟨hk.once, hk.right, hwait, fun fuel cb now later ev d' hstep => (step_spec ev hk hwait hstep).2⟩

/-- A callback that destroys the stream of the next one. -/
def rude (e : Entry) : Erasure := if e.reg.name = 0 then ⟨[2], [2]⟩ else ⟨[], []⟩

/-- One address that never ends. -/
def lasting : Address := ⟨[2, 0, 31, 144, 127, 0, 0, 1], 16, 0, -1, ⟨1, 0, 0⟩, sockaddr_in_fits⟩

/-- Three connects wait, and the first callback destroys the stream of the second. -/
theorem a_destroyed_stream_is_passed_over :
    ∃ d, Reach d ∧ d.log.map (fun e => (e.reg.name, e.called.isSome)) = [(0, true), (1, false), (2, true)] ∧
      d.log.map (fun e => e.reg.name) ++ d.waiting.map Registration.name = List.range d.registered := by
  have h0 : Reach ⟨⟨"host:80".toList, "TCP".toList, [], [], [], 0, 0, SIZE_MAX⟩, [], fun _ => false, 0, []⟩ :=
    .start _ _
  have h1 := Reach.step 9 rude 0 0 (.make 1) h0 rfl
  have h2 := Reach.step 9 rude 0 0 (.make 2) h1 rfl
  have h3 := Reach.step 9 rude 0 0 (.make 3) h2 rfl
  have h4 := Reach.step 9 rude 0 0 (.register_connect 1) h3 rfl
  have h5 := Reach.step 9 rude 0 0 (.register_connect 2) h4 rfl
  have h6 := Reach.step 9 rude 0 0 (.register_connect 3) h5 rfl
  have h7 := Reach.step 9 rude 0 0 (.addresses [lasting]) h6 rfl
  exact ⟨_, h7, by decide +kernel, (pending_connects_run_at_most_once _ h7).1⟩

end Runs

/-! ## Calls that return -/

section Returns

variable {d : Desk} {fuel : Nat}

theorem Same.ready {d' : Desk} (h : Same d d') (ht : d'.face.total = d.face.total) (hr : d.face.Ready) :
    d'.face.Ready := by
  obtain ⟨hle, htotal, hpos, hcounts⟩ := hr
  constructor
  · rwa [h.addresses, h.prio]
  · rwa [h.addresses, h.prio, ht]
  · rwa [ht]
  · rwa [h.addresses]

theorem after_total (d : Desk) (x : Erasure) : (d.after x).face.total = d.face.total := by
  have herase : ∀ (ws : List StreamId) (d : Desk), (ws.foldl (fun d w => d.erase w) d).face.total = d.face.total := by
    intro ws
    induction ws with
    | nil => exact fun _ => rfl
    | cons w ws ih => exact fun d => ih (d.erase w)
  have hdestroy : ∀ (ws : List StreamId) (d : Desk), (ws.foldl (fun d w => d.destroy w) d).face.total = d.face.total := by
    intro ws
    induction ws with
    | nil => exact fun _ => rfl
    | cons w ws ih => exact fun d => ih (d.destroy w)
  exact (hdestroy _ _).trans (herase _ _)

/-- Where the sums fit, the callbacks are all called, whatever they erase. -/
theorem call_returns (cb : Entry → Erasure) (rs : List Registration) (hr : d.face.Ready) (ht : d.face.total < 2 ^ 63)
    (hfuel : d.face.enough ≤ fuel) : ∃ d', d.call fuel cb rs = some d' := by
  induction rs generalizing d with
  | nil => exact ⟨d, rfl⟩
  | cons r rs ih =>
    unfold Desk.call
    split
    case isFalse => exact ih hr ht hfuel
    case isTrue =>
      obtain ⟨i, a, face, hnext, ha, hp, hr', hf⟩ := hr.next_frame
      have ht' : face.total < 2 ^ 63 := hf.total.trans_lt ht
      have hfuel' : face.enough ≤ fuel := hf.enough.trans_le hfuel
      rw [InterfaceBase.nextU64_eq hr ht, hnext fuel hfuel]
      dsimp only
      split
      case isFalse => exact ih hr' ht' hfuel'
      case isTrue =>
        generalize hd : Desk.record _ { d with face := face } = d₁
        have hd₁ : d₁.face = face := by
          rw [← hd]
          rfl
        generalize cb _ = x
        have hsame := after_same d₁ x
        have htotal := after_total d₁ x
        rw [← hd₁] at hr' ht' hfuel'
        refine ih (hsame.ready htotal hr') (htotal.trans_lt ht') ?_
        unfold InterfaceBase.enough at hfuel' ⊢
        rwa [hsame.addresses]

/-- `_resolve_callbacks` returns where the sums fit. -/
theorem resolve_callbacks_returns (cb : Entry → Erasure) (now later : Int) (hl : InterfaceBase.Light d.face.addresses)
    (hc : ∀ a ∈ d.face.addresses, a.count ≤ a.max) (hfuel : d.face.enough ≤ fuel) :
    ∃ d', d.resolve_callbacks fuel cb now later = some d' := by
  unfold Desk.resolve_callbacks
  dsimp only
  rw [InterfaceBase.expire_addressesU64_eq hl]
  split
  case isFalse => exact ⟨_, rfl⟩
  case isTrue hne =>
    have hr := InterfaceBase.expire_addresses_ready hc hne
    have hkept := InterfaceBase.expire_addresses_addresses (now - InterfaceBase.HYST_WND) d.face
    have htotal : (d.face.expire_addresses (now - InterfaceBase.HYST_WND)).total < 2 ^ 63 := by
      rw [hr.total, hkept]
      exact lt_of_le_of_lt (InterfaceBase.total_share_le ..) (hl.filter _)
    have henough : (d.face.expire_addresses (now - InterfaceBase.HYST_WND)).enough ≤ fuel := by
      refine le_trans ?_ hfuel
      unfold InterfaceBase.enough
      rw [hkept]
      exact Nat.add_le_add_right (List.length_filter_le ..) 3
    obtain ⟨d', hd'⟩ := call_returns (d := { d with
      face := d.face.expire_addresses (now - InterfaceBase.HYST_WND), waiting := [] }) cb d.waiting hr htotal henough
    exact ⟨_, by rw [hd']; rfl⟩

/-- Every call returns, whatever its callbacks erase. Once there is an address, each connect that was
registered had its turn. -/
theorem every_connect_has_its_turn (h : Reach d) (cb : Entry → Erasure) (now later : Int) (ev : Event)
    (hl : InterfaceBase.Light (ev.listed d)) (hc : ∀ a ∈ ev.listed d, a.count ≤ a.max)
    (hfuel : (ev.listed d).length + 3 ≤ fuel) :
    ∃ d', d.step fuel cb now later ev = some d' ∧
      ((ev.listed d).filter (InterfaceBase.keeps (now - InterfaceBase.HYST_WND)) ≠ [] →
        d'.log.map (fun e => e.reg.name) = List.range d'.registered) := by
  have hreturns : ∃ d', d.step fuel cb now later ev = some d' := by
    cases ev with
    | register_connect w => exact resolve_callbacks_returns cb now later hl hc hfuel
    | addresses addrs => exact resolve_callbacks_returns cb now later hl hc hfuel
    | _ => exact ⟨_, rfl⟩
  obtain ⟨d', hd'⟩ := hreturns
  obtain ⟨hk, hwait⟩ := step_spec ev h.kept.1 h.kept.2 hd'
  refine ⟨d', hd', fun hne => ?_⟩
  have hnil : d'.waiting = [] := by
    by_contra hw
    exact hne (hwait hw).1
  have honce := hk.once
  rw [hnil, List.map_nil, List.append_nil] at honce
  exact honce

theorem the_first_connect_has_its_turn :
    ∃ d', Desk.step 4 rude 0 0 ⟨⟨[], [], [lasting], [1], [], 0, 1, 0⟩, [], (· = 1), 0, []⟩ (.register_connect 1) =
      some d' ∧ d'.log.map (fun e => e.reg.name) = List.range d'.registered := by
  obtain ⟨d', hd', hturn⟩ := every_connect_has_its_turn (.start ⟨[], [], [lasting], [1], [], 0, 1, 0⟩ (· = 1)) rude 0 0
    (.register_connect 1) (by decide : 1 < 2 ^ 63) (by decide) (Nat.le_refl _)
  exact ⟨d', hd', hturn (by decide)⟩

/-- What a callback of the simpler loop is called with. -/
def Entry.callback (e : Entry) : Option Callback := e.called.map fun addrp => ⟨e.reg.stream, addrp, e.face.protocol⟩

/-- With callbacks that erase nothing, and sums that fit, this is the loop over streams alone. -/
theorem call_eq (rs : List Registration) (hr : d.face.Ready) (ht : d.face.total < 2 ^ 63) :
    ∃ d' es, d.call d.face.enough (fun _ => ⟨[], []⟩) rs = some d' ∧ d'.log = d.log ++ es ∧
      d.face.call d.alive (rs.map Registration.stream) = some (d'.face, es.filterMap Entry.callback) := by
  induction rs generalizing d with
  | nil => exact ⟨d, [], rfl, by simp, rfl⟩
  | cons r rs ih =>
    unfold Desk.call
    rw [List.map_cons]
    unfold InterfaceBase.call
    split
    case isFalse halive =>
      obtain ⟨d', es, hcall, hlog, heq⟩ := ih (d := d.record ⟨r, false, d.face, none⟩) hr ht
      refine ⟨d', ⟨r, false, d.face, none⟩ :: es, hcall, ?_, ?_⟩
      · rw [hlog]
        simp [Desk.record]
      · exact heq
    case isTrue halive =>
      obtain ⟨i, a, face, hnext, ha, hp, hr', hf⟩ := hr.next_frame
      have ht' : face.total < 2 ^ 63 := hf.total.trans_lt ht
      rw [InterfaceBase.nextU64_eq hr ht, hnext _ (le_refl _)]
      simp only [ite_not]
      generalize ((some i).bind fun x => face.addresses[x]?).getD NULLADDR = b
      generalize (if b.len = NULL_LEN then none else some b) = addrp
      by_cases hin : r.stream ∈ face.streams
      · simp only [if_pos hin]
        obtain ⟨d', es, hcall, hlog, heq⟩ :=
          ih (d := Desk.record ⟨r, true, face, some addrp⟩ { d with face := face }) hr' ht'
        have heq' : face.call d.alive (rs.map Registration.stream) = some (d'.face, es.filterMap Entry.callback) := heq
        refine ⟨d', ⟨r, true, face, some addrp⟩ :: es, ?_, ?_, ?_⟩
        · rw [← hf.enough]
          exact hcall
        · rw [hlog]
          simp [Desk.record]
        · rw [heq']
          rfl
      · simp only [if_neg hin]
        obtain ⟨d', es, hcall, hlog, heq⟩ :=
          ih (d := Desk.record ⟨r, true, face, none⟩ { d with face := face }) hr' ht'
        have heq' : face.call d.alive (rs.map Registration.stream) = some (d'.face, es.filterMap Entry.callback) := heq
        refine ⟨d', ⟨r, true, face, none⟩ :: es, ?_, ?_, ?_⟩
        · rw [← hf.enough]
          exact hcall
        · rw [hlog]
          simp [Desk.record]
        · rw [heq']
          rfl

end Returns

end PendingConnects

end cloudbus
