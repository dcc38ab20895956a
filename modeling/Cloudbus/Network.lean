-- A fabric from its start on. Clients come, transports are dialed and accepted, wires
-- are laid between them, and bytes move over the wires, all of it in any order.
import Cloudbus.Fabric

namespace cloudbus

open cloudbus.io cloudbus.messages Connector

namespace Fabric

/-! ## The moves -/

/-- What happens next: an event at one of the ends, more bytes at an end of a wire, or a new wire. -/
inductive Move where
  | ctl (ev : controller.Event)
  | seg (ev : segment.Event)
  | down (w : Wire) (r : Recv)
  | up (w : Wire) (r : Recv)
  | join (w : Wire)
deriving DecidableEq, Repr

def move (x : Fabric) : Move → Fabric
  | .ctl ev => { x with ctl := controller.handle ev x.ctl }
  | .seg ev => { x with seg := segment.handle ev x.seg }
  | .down w r => { x with seg := segment.handle (.env (.rx w.north r)) x.seg }
  | .up w r => { x with ctl := controller.handle (.env (.rx w.south r)) x.ctl }
  | .join w => { x with wires := w :: x.wires }

/-- Two transports can be joined by a wire: they have none yet, and nothing came in on them. -/
def Free (x : Fabric) (w : Wire) : Prop :=
  (w.south < x.ctl.next ∧ (x.ctl.ep w.south).iface ≠ .north ∧ w.south ∉ x.souths ∧
    (x.ctl.sock w.south).received = []) ∧
  w.north < x.seg.next ∧ (x.seg.ep w.north).iface = .north ∧ w.north ∉ x.norths ∧
    (x.seg.sock w.north).received = []

/-- The calls of the controller meet `C` and those of the segment `D`. What comes in on a wire is
what the kernel took at its other end. -/
def Enabled (C : controller.Call → Connector → Prop) (D : segment.Call → Connector → Prop) (x : Fabric) : Move → Prop
  | .ctl ev => ∀ p ∈ controller.calls ev x.ctl, C p.1 p.2 ∧ controller.Sealed x.souths p.1 p.2
  | .seg ev => ∀ p ∈ segment.calls ev x.seg, D p.1 p.2 ∧ segment.Sealed x.norths p.1 p.2
  | .down w r => w ∈ x.wires ∧ (x.seg.sock w.north).received ++ r.bytes <+: (x.ctl.sock w.south).kernel
  | .up w r => w ∈ x.wires ∧ (x.ctl.sock w.south).received ++ r.bytes <+: (x.seg.sock w.north).kernel
  | .join w => x.Free w

section

variable {C : controller.Call → Connector → Prop} {D : segment.Call → Connector → Prop} {x : Fabric}

/-- A move that lays no wire is a step. -/
theorem step_of_enabled {m : Move} (h : x.Enabled C D m) (hm : ∀ w, m ≠ .join w) : Step C D x (x.move m) := by
  cases m with
  | ctl ev => exact .ctl x ev h
  | seg ev => exact .seg x ev h
  | down w r => exact .down x w r h.1 h.2
  | up w r => exact .up x w r h.1 h.2
  | join w => exact absurd rfl (hm w)

theorem Consistent.join (h : Consistent x) {w : Wire} (hw : x.Free w) : Consistent (x.move (.join w)) := by
  obtain ⟨⟨hs, hst, hns, hrs⟩, hn, hnt, hnn, hrn⟩ := hw
  refine ⟨h.ctl, h.seg, List.nodup_cons.mpr ⟨hns, h.souths⟩, List.nodup_cons.mpr ⟨hnn, h.norths⟩, fun v hv => ?_⟩
  rcases List.mem_cons.mp hv with rfl | hv
  · exact ⟨⟨hs, hst⟩, ⟨hn, hnt⟩, hrn ▸ List.nil_prefix, hrs ▸ List.nil_prefix⟩
  · obtain ⟨h1, h2, h3, h4⟩ := h.wires v hv
    exact ⟨h1, h2, h3, h4⟩

theorem Consistent.move (h : Consistent x) {m : Move} (hm : x.Enabled C D m) : Consistent (x.move m) := by
  cases m with
  | join w => exact h.join hm
  | _ => exact h.step (step_of_enabled hm nofun)

end

/-! ## Runs -/

/-- The fabrics of the runs whose calls meet `C` and `D`. -/
inductive Run (C : controller.Call → Connector → Prop) (D : segment.Call → Connector → Prop) : Fabric → Prop
  | init (mode mode' : Mode) : Run C D ⟨{ mode := mode }, { mode := mode' }, []⟩
  | move {x : Fabric} (m : Move) : Run C D x → x.Enabled C D m → Run C D (x.move m)

section

variable {C : controller.Call → Connector → Prop} {D : segment.Call → Connector → Prop} {x : Fabric}

theorem Run.consistent (hr : Run C D x) : Consistent x := by
  induction hr with
  | init mode mode' =>
    exact ⟨controller.Run.consistent (C := fun _ _ => True) (.init mode),
      segment.Run.consistent (C := fun _ _ => True) (.init mode'), List.nodup_nil, List.nodup_nil, nofun⟩
  | move m _ hm ih => exact ih.move hm

/-- The ends of a fabric make runs of their own. What a wire brings is no concern of `C` and `D`. -/
theorem Run.ends (hr : Run C D x) (hC : ∀ e st, C (.env e) st) (hD : ∀ e st, D (.env e) st) :
    controller.Run C x.ctl ∧ segment.Run D x.seg := by
  induction hr with
  | init mode mode' => exact ⟨.init mode, .init mode'⟩
  | move m _ hm ih =>
    cases m with
    | ctl ev => exact ⟨ih.1.step ev fun p hp => (hm p hp).1, ih.2⟩
    | seg ev => exact ⟨ih.1, ih.2.step ev fun p hp => (hm p hp).1⟩
    | down w r =>
      refine ⟨ih.1, ih.2.step (.env (.rx w.north r)) fun p hp => ?_⟩
      rw [List.mem_singleton.mp hp]
      exact hD _ _
    | up w r =>
      refine ⟨ih.1.step (.env (.rx w.south r)) fun p hp => ?_, ih.2⟩
      rw [List.mem_singleton.mp hp]
      exact hC _ _
    | join w => exact ih

end

/-! ## Playing a run -/

instance (W : List StreamId) (c : controller.Call) (st : Connector) : Decidable (controller.Sealed W c st) :=
  match c with
  | .env (.rx i r) => inferInstanceAs (Decidable (i ∈ W → r.bytes = []))
  | .inn _ _ | .out _ => isTrue trivial
  | .env (.accept _) | .env (.connected _ _) | .env (.refused _) | .env (.timeout _) | .env (.tx _ _) => isTrue trivial

instance (W : List StreamId) (c : segment.Call) (st : Connector) : Decidable (segment.Sealed W c st) :=
  match c with
  | .env (.rx i r) => inferInstanceAs (Decidable (i ∈ W → r.bytes = []))
  | .inn _ _ | .out _ => isTrue trivial
  | .env (.accept _) | .env (.connected _ _) | .env (.refused _) | .env (.tx _ _) => isTrue trivial

section

variable {C : controller.Call → Connector → Prop} {D : segment.Call → Connector → Prop}
  [∀ c st, Decidable (C c st)] [∀ c st, Decidable (D c st)]

instance (x : Fabric) (m : Move) : Decidable (x.Enabled C D m) :=
  match m with
  | .ctl ev => inferInstanceAs (Decidable (∀ p ∈ controller.calls ev x.ctl,
      C p.1 p.2 ∧ controller.Sealed x.souths p.1 p.2))
  | .seg ev => inferInstanceAs (Decidable (∀ p ∈ segment.calls ev x.seg,
      D p.1 p.2 ∧ segment.Sealed x.norths p.1 p.2))
  | .down _ _ => inferInstanceAs (Decidable (_ ∧ _))
  | .up _ _ => inferInstanceAs (Decidable (_ ∧ _))
  | .join _ => inferInstanceAs (Decidable ((_ ∧ _ ∧ _ ∧ _) ∧ _ ∧ _ ∧ _ ∧ _))

end

/-- The fabric after the moves `ms`. -/
def play (ms : List Move) (x : Fabric) : Fabric := ms.foldl move x

/-- Each of the moves `ms` is enabled when it is made. -/
def Enables (C : controller.Call → Connector → Prop) (D : segment.Call → Connector → Prop) :
    List Move → Fabric → Prop
  | [], _ => True
  | m :: ms, x => x.Enabled C D m ∧ Enables C D ms (x.move m)

instance Enables.decidable {C : controller.Call → Connector → Prop} {D : segment.Call → Connector → Prop}
    [∀ c st, Decidable (C c st)] [∀ c st, Decidable (D c st)] :
    ∀ (ms : List Move) (x : Fabric), Decidable (Enables C D ms x)
  | [], _ => isTrue trivial
  | m :: ms, x =>
    have := Enables.decidable (C := C) (D := D) ms (x.move m)
    inferInstanceAs (Decidable (_ ∧ _))

theorem Run.after {C : controller.Call → Connector → Prop} {D : segment.Call → Connector → Prop} {x : Fabric}
    {ms : List Move} (hr : Run C D x) (h : Enables C D ms x) : Run C D (play ms x) := by
  induction ms generalizing x with
  | nil => exact hr
  | cons m ms ih => exact ih (hr.move m h.1) h.2

end Fabric

end cloudbus
