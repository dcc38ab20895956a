-- Whether `sync` and `overflow` return (io/sockbuf.cpp). The loops of `sync` end when
-- the kernel does not say "again" for ever; `overflow` also needs room in the put area.
import Cloudbus.Sockbuf

namespace cloudbus.io.Sockbuf

variable {α β γ : Type} {k : Kernel} {s s' : Sockbuf} {w w' : Wire} {mem : List UInt8}

/-! ## Loops that return -/

/-- The loop returns `r`: from some number of turns on, this is its result. -/
def Returns (f : Nat → Option α) (r : α) : Prop := ∃ n, ∀ fuel, n ≤ fuel → f fuel = some r

theorem Returns.pure (r : α) : Returns (fun _ => some r) r := ⟨0, fun _ _ => rfl⟩

variable {fuel m buflen off off' buflen' : Nat}

/-- A turn that waits for `g` and then for `g'`, and goes on as `h`. -/
theorem Returns.step₂ {f h : Nat → Option α} {g : Nat → Option β} {g' : Nat → Option γ} {a : β} {b : γ} {r : α}
    (hg : Returns g a) (hg' : Returns g' b) (hh : Returns h r)
    (hf : ∀ fuel, g fuel = some a → g' fuel = some b → f (fuel + 1) = h fuel) : Returns f r := by
  obtain ⟨l, hg⟩ := hg
  obtain ⟨m, hg'⟩ := hg'
  obtain ⟨n, hh⟩ := hh
  refine ⟨max l (max m n) + 1, fun fuel hle => ?_⟩
  obtain ⟨fuel, rfl⟩ : ∃ fuel', fuel = fuel' + 1 := ⟨fuel - 1, by omega⟩
  rw [hf fuel (hg fuel (by omega)) (hg' fuel (by omega))]
  exact hh fuel (by omega)

/-- A turn that waits for `g`, and then goes on as `h`. -/
theorem Returns.step {f h : Nat → Option α} {g : Nat → Option β} {a : β} {r : α} (hg : Returns g a)
    (hh : Returns h r) (hf : ∀ fuel, g fuel = some a → f (fuel + 1) = h fuel) : Returns f r :=
  Returns.step₂ hg (Returns.pure ()) hh fun fuel hf' _ => hf fuel hf'

/-- A turn that goes on as `h`. -/
theorem Returns.turn {f h : Nat → Option α} {r : α} (hh : Returns h r) (hf : ∀ fuel, f (fuel + 1) = h fuel) :
    Returns f r :=
  Returns.step (Returns.pure ()) hh fun fuel _ => hf fuel

theorem Returns.map {f : Nat → Option β} {b : β} (h : Returns f b) (g : β → α) :
    Returns (fun fuel => (f fuel).map g) (g b) := by
  obtain ⟨n, h⟩ := h
  refine ⟨n, fun fuel hle => ?_⟩
  simp only [h fuel hle, Option.map_some]

theorem Returns.result {f : Nat → Option α} {r : α} (h : Returns f r) : ∃ fuel, f fuel = some r := by
  obtain ⟨n, h⟩ := h
  exact ⟨n, h n (le_refl n)⟩

/-- A turn that is the last one. -/
theorem Returns.last {f : Nat → Option α} {r : α} (hf : ∀ fuel, f (fuel + 1) = some r) : ∃ r, Returns f r :=
  ⟨r, (Returns.pure r).turn hf⟩

/-! ## The kernel -/

/-- After these answers `sync` calls `sendmsg` again. -/
def Again (a : SendAnswer) : Prop := a = .error .EINTR ∨ a = .error .EISCONN ∨ a = .error .ENOTCONN

/-- The kernel does not say "again" for ever. It may block for ever. -/
structure Settles (k : Kernel) : Prop where
  sends : ∀ n, ∃ m, n ≤ m ∧ ¬ Again (k.sends m)
  connects : ∀ n, ∃ m, n ≤ m ∧ k.connects m ≠ .error .EINTR

/-! ## The loop over `sendmsg` -/

/-- The loop returns if it does after the first answer `m` that settles: until then nothing is sent. -/
theorem send_loop_settles (hm : ¬ Again (k.sends m))
    (hless : ∀ off buflen' w, buflen' < buflen → ∃ r, Returns (fun fuel => send_loop k mem fuel off buflen' w) r)
    (off : Nat) (w : Wire) (hle : w.sends ≤ m) : ∃ r, Returns (fun fuel => send_loop k mem fuel off buflen w) r := by
  induction hd : m - w.sends using Nat.strong_induction_on generalizing w with
  | _ d ih =>
  subst hd
  -- an answer that says "again" is not the one at `m`
  have hnext : Again (k.sends w.sends) → w.sends + 1 ≤ m := by
    intro hagain
    have : w.sends ≠ m := fun heq => hm (heq ▸ hagain)
    omega
  cases ha : k.sends w.sends with
  | bytes n =>
    have hlen : min n (min buflen MIN_BUFSIZE) ≤ buflen := by omega
    generalize hlen' : min n (min buflen MIN_BUFSIZE) = len at hlen
    by_cases h0 : len = 0
    · apply Returns.last
      intro fuel
      simp only [send_loop, ha, hlen', if_pos h0]
      rfl
    · by_cases h1 : buflen - len = 0
      · apply Returns.last
        intro fuel
        simp only [send_loop, ha, hlen', if_neg h0, if_pos h1]
        rfl
      · obtain ⟨r, hr⟩ := hless (off + len) (buflen - len)
          { w with errno := none, sends := w.sends + 1, accepted := w.accepted ++ (mem.drop off).take len } (by omega)
        exact ⟨r, hr.turn fun fuel => by simp only [send_loop, ha, hlen', if_neg h0, if_neg h1]⟩
  | error e =>
    cases e with
    | EINTR =>
      have hlt := hnext (.inl ha)
      obtain ⟨r, hr⟩ := ih (m - (w.sends + 1)) (by omega) { w with errno := some .EINTR, sends := w.sends + 1 } hlt rfl
      exact ⟨r, hr.turn fun fuel => by simp only [send_loop, ha]⟩
    | EISCONN =>
      have hlt := hnext (.inr (.inl ha))
      obtain ⟨r, hr⟩ := ih (m - (w.sends + 1)) (by omega)
        { w with errno := some .EISCONN, sends := w.sends + 1, connected := true } hlt rfl
      exact ⟨r, hr.turn fun fuel => by simp only [send_loop, ha]⟩
    | _ =>
      apply Returns.last
      intro fuel
      simp only [send_loop, ha]
      rfl

theorem send_loop_returns (hk : Settles k) (mem : List UInt8) (off buflen : Nat) (w : Wire) :
    ∃ r, Returns (fun fuel => send_loop k mem fuel off buflen w) r := by
  induction buflen using Nat.strong_induction_on generalizing off w with
  | _ buflen ih =>
    obtain ⟨m, hle, hm⟩ := hk.sends w.sends
    exact send_loop_settles hm (fun off buflen' w hlt => ih buflen' hlt off w) off w hle

theorem send_loop_sends (h : send_loop k mem fuel off buflen w = some (off', buflen', w')) : w.sends < w'.sends := by
  induction fuel generalizing off buflen w with
  | zero => simp [send_loop] at h
  | succ fuel ih =>
    unfold send_loop at h
    split at h
    case h_1 =>
      dsimp only at h
      split at h
      case isTrue =>
        simp only [Option.some.injEq, Prod.mk.injEq] at h
        obtain ⟨-, -, rfl⟩ := h
        exact Nat.lt_succ_self _
      case isFalse =>
        split at h
        case isTrue =>
          simp only [Option.some.injEq, Prod.mk.injEq] at h
          obtain ⟨-, -, rfl⟩ := h
          exact Nat.lt_succ_self _
        case isFalse => exact (Nat.lt_succ_self _).trans (ih h)
    case h_2 => exact (Nat.lt_succ_self _).trans (ih h)
    case h_3 => exact (Nat.lt_succ_self _).trans (ih h)
    case h_4 =>
      simp only [Option.some.injEq, Prod.mk.injEq] at h
      obtain ⟨-, -, rfl⟩ := h
      exact Nat.lt_succ_self _

/-- A loop that ends with `ENOTCONN` has sent a byte, or has not come to the answer `m` that settles. -/
theorem send_loop_again (hm : ¬ Again (k.sends m)) (hle : w.sends ≤ m)
    (h : send_loop k mem fuel off buflen w = some (off', buflen', w')) (hn : w'.errno = some .ENOTCONN) :
    buflen' < buflen ∨ w'.sends ≤ m := by
  induction fuel generalizing off buflen w with
  | zero => simp [send_loop] at h
  | succ fuel ih =>
    have hnext : Again (k.sends w.sends) → w.sends + 1 ≤ m := by
      intro hagain
      have : w.sends ≠ m := fun heq => hm (heq ▸ hagain)
      omega
    unfold send_loop at h
    split at h
    case h_1 n _ =>
      dsimp only at h
      split at h
      case isTrue =>
        simp only [Option.some.injEq, Prod.mk.injEq] at h
        obtain ⟨-, -, rfl⟩ := h
        cases hn
      case isFalse h0 =>
        split at h
        case isTrue =>
          simp only [Option.some.injEq, Prod.mk.injEq] at h
          obtain ⟨-, -, rfl⟩ := h
          cases hn
        case isFalse =>
          have hless := (send_loop_spec h).2.1
          left
          omega
    case h_2 ha => exact ih (hnext (.inr (.inl ha))) h
    case h_3 ha => exact ih (hnext (.inl ha)) h
    case h_4 e _ _ ha =>
      simp only [Option.some.injEq, Prod.mk.injEq] at h
      obtain ⟨-, -, rfl⟩ := h
      obtain rfl : e = .ENOTCONN := by simpa using hn
      exact .inr (hnext (.inr (.inr ha)))

/-! ## The loops of `sync` -/

/-- The bytes of the first buffer. -/
def frontLen (s : Sockbuf) : Nat :=
  match s.older with
  | [] => s.pptr.toNat
  | b :: _ => b.iov_len

theorem send_returns (hk : Settles k) (h : Good s) : ∃ r, Returns (fun fuel => send k fuel s) r := by
  unfold send
  cases s.older with
  | nil =>
    unfold send_back
    by_cases hsilent : silent s.wire s.back
    · exact ⟨_, by simpa only [if_pos hsilent] using Returns.pure _⟩
    · by_cases h0 : s.pptr = 0
      · exact ⟨_, by simpa only [if_neg hsilent, if_pos h0] using Returns.pure _⟩
      · obtain ⟨r, hr⟩ := send_loop_returns hk s.back.mem 0 s.pptr.toNat s.wire
        exact ⟨_, by simpa only [if_neg hsilent, if_neg h0, if_neg (not_lt.2 h.low)] using hr.map _⟩
  | cons b rest =>
    unfold send_older
    by_cases hstop : silent s.wire b ∨ b.iov_len = 0
    · exact ⟨_, by simpa only [if_pos hstop] using (Returns.pure (b, s.wire, true)).map _⟩
    · obtain ⟨r, hr⟩ := send_loop_returns hk b.mem 0 b.iov_len s.wire
      exact ⟨_, by simpa only [if_neg hstop] using (hr.map _).map _⟩

/-- A `_send` that fails with `ENOTCONN` comes closer to its end. -/
theorem send_again (hm : ¬ Again (k.sends m)) (hle : s.wire.sends ≤ m) (h : Good s) (hs : Short s)
    (hsend : send k fuel s = some (s', false)) (hn : s'.wire.errno = some .ENOTCONN) :
    frontLen s' < frontLen s ∨ frontLen s' ≤ frontLen s ∧ s.wire.sends < s'.wire.sends ∧ s'.wire.sends ≤ m := by
  unfold send at hsend
  split at hsend
  case h_1 ho =>
    unfold send_back at hsend
    split at hsend
    case isTrue => simp at hsend
    case isFalse =>
      split at hsend
      case isTrue => simp at hsend
      case isFalse =>
        split at hsend
        case isTrue => cases hsend
        case isFalse =>
          rw [Option.map_eq_some_iff] at hsend
          obtain ⟨⟨off, buflen, w⟩, hloop, hsend⟩ := hsend
          simp only [Prod.mk.injEq] at hsend
          obtain ⟨rfl, -⟩ := hsend
          obtain ⟨hends, hless, hflows⟩ := send_loop_spec hloop
          have hlow := h.low
          obtain ⟨hkept, hbuflen⟩ := rewind_spec h hs (show off + buflen ≤ s.pptr by omega) (by simpa using hflows) ho
          have hpptr : (({ s with wire := w }.rewind off buflen).resize k).pptr = (buflen : Int) :=
            (resize_pptr hkept.good (hkept.short hs)).trans hbuflen
          have ho' : (({ s with wire := w }.rewind off buflen).resize k).older = [] := resize_older.trans ho
          have hfront : frontLen (({ s with wire := w }.rewind off buflen).resize k) = buflen := by
            simp only [frontLen, ho', hpptr, Int.toNat_natCast]
          have hfront' : frontLen s = s.pptr.toNat := by simp only [frontLen, ho]
          rw [resize_wire] at hn ⊢
          rw [hfront, hfront']
          rcases send_loop_again hm hle hloop hn with hlt | hw
          · exact .inl hlt
          · exact .inr ⟨hless, send_loop_sends hloop, hw⟩
  case h_2 b rest ho =>
    rw [Option.map_eq_some_iff] at hsend
    obtain ⟨⟨b', w, r⟩, hb, hsend⟩ := hsend
    simp only [Prod.mk.injEq] at hsend
    obtain ⟨rfl, rfl⟩ := hsend
    unfold send_older at hb
    split at hb
    case isTrue => simp at hb
    case isFalse =>
      rw [Option.map_eq_some_iff] at hb
      obtain ⟨⟨off, buflen, w₁⟩, hloop, hb⟩ := hb
      simp only [Prod.mk.injEq] at hb
      obtain ⟨rfl, rfl, -⟩ := hb
      simp only [frontLen, ho]
      rcases send_loop_again hm hle hloop hn with hlt | hw
      · exact .inl hlt
      · exact .inr ⟨(send_loop_spec hloop).2.1, send_loop_sends hloop, hw⟩

theorem connect_loop_returns (hk : Settles k) (w : Wire) : ∃ r, Returns (fun fuel => connect_loop k fuel w) r := by
  obtain ⟨m, hle, hm⟩ := hk.connects w.connects
  induction hd : m - w.connects using Nat.strong_induction_on generalizing w with
  | _ d ih =>
  subst hd
  cases ha : k.connects w.connects with
  | ok =>
    apply Returns.last
    intro fuel
    simp only [connect_loop, ha]
    rfl
  | error e =>
    cases e with
    | EINTR =>
      have hne : w.connects ≠ m := fun heq => hm (heq ▸ ha)
      obtain ⟨r, hr⟩ := ih (m - (w.connects + 1)) (by omega)
        { w with errno := some .EINTR, connects := w.connects + 1 } (by dsimp only; omega) rfl
      exact ⟨r, hr.turn fun fuel => by simp only [connect_loop, ha]⟩
    | _ =>
      apply Returns.last
      intro fuel
      simp only [connect_loop, ha]
      rfl

/-- `connect` calls no `sendmsg`. -/
theorem connect_loop_sends {c : Connect} (h : connect_loop k fuel w = some (c, w')) : w'.sends = w.sends := by
  induction fuel generalizing w with
  | zero => simp [connect_loop] at h
  | succ fuel ih =>
    unfold connect_loop at h
    split at h
    case h_2 =>
      have hrest := ih h
      exact hrest
    all_goals
      simp only [Option.some.injEq, Prod.mk.injEq] at h
      obtain ⟨-, rfl⟩ := h
      rfl

/-- The loop `while(_send(buf))` returns. Each turn that `ENOTCONN` ends has sent a byte, or has come closer to
an answer that settles. -/
theorem flush_front_returns (hk : Settles k) (h : Good s) (hs : Short s) :
    ∃ r, Returns (fun fuel => flush_front k fuel s) r := by
  induction hl : frontLen s using Nat.strong_induction_on generalizing s with
  | _ l ihl =>
  subst hl
  obtain ⟨m, hle, hm⟩ := hk.sends s.wire.sends
  -- the front may also get shorter before the answer at `m`, so the bound on it is not the length itself
  suffices hinner : ∀ d s', Good s' → Short s' → frontLen s' ≤ frontLen s → s'.wire.sends ≤ m → m - s'.wire.sends = d →
      ∃ r, Returns (fun fuel => flush_front k fuel s') r from hinner _ s h hs (le_refl _) hle rfl
  intro d
  induction d using Nat.strong_induction_on with
  | _ d ihd =>
  rintro s' h' hs' hlen hle' rfl
  obtain ⟨⟨s₁, r⟩, hsend⟩ := send_returns hk h'
  obtain ⟨fuel₁, hsend₁⟩ := hsend.result
  obtain ⟨hkept, -⟩ := send_spec h' hs' hsend₁
  cases r with
  | true => exact ⟨_, hsend.step (Returns.pure (s₁, none)) fun fuel hf => by simp only [flush_front, hf]⟩
  | false =>
    by_cases hn : s₁.wire.errno = some .ENOTCONN
    case neg =>
      exact ⟨_, hsend.step (Returns.pure (s₁, some false)) fun fuel hf => by simp only [flush_front, hf, if_neg hn]⟩
    by_cases hfam : s₁.front.family = true
    case neg =>
      exact ⟨_, hsend.step (Returns.pure (s₁, some true)) fun fuel hf => by
        simp only [flush_front, hf, if_pos hn, if_neg hfam]⟩
    obtain ⟨⟨c, w⟩, hconn⟩ := connect_loop_returns hk s₁.wire
    obtain ⟨fuel₂, hconn₂⟩ := hconn.result
    have hkept₁ : Kept s' { s₁ with wire := w } := hkept.trans (.wire hkept.good (connect_loop_accepted hconn₂))
    have hsends : w.sends = s₁.wire.sends := connect_loop_sends hconn₂
    have hagain : ∃ r, Returns (fun fuel => flush_front k fuel { s₁ with wire := w }) r := by
      rcases send_again hm hle' h' hs' hsend₁ hn with hlt | ⟨hle₁, hlt, hm₁⟩
      · exact ihl _ (hlt.trans_le hlen) hkept₁.good (hkept₁.short hs') rfl
      · refine ihd (m - w.sends) (by omega) _ hkept₁.good (hkept₁.short hs') (hle₁.trans hlen) ?_ rfl
        exact hsends.trans_le hm₁
    cases c with
    | done =>
      obtain ⟨r, hr⟩ := hagain
      exact ⟨r, hsend.step₂ hconn hr fun fuel hf hc => by simp only [flush_front, hf, if_pos hn, if_pos hfam, hc]⟩
    | isconn =>
      obtain ⟨r, hr⟩ := hagain
      exact ⟨r, hsend.step₂ hconn hr fun fuel hf hc => by simp only [flush_front, hf, if_pos hn, if_pos hfam, hc]⟩
    | pending =>
      exact ⟨_, hsend.step₂ hconn (Returns.pure ({ s₁ with wire := w }, some true)) fun fuel hf hc => by
        simp only [flush_front, hf, if_pos hn, if_pos hfam, hc]⟩
    | failed =>
      exact ⟨_, hsend.step₂ hconn (Returns.pure ({ s₁ with wire := w }, some false)) fun fuel hf hc => by
        simp only [flush_front, hf, if_pos hn, if_pos hfam, hc]⟩

theorem sync_returns (hk : Settles k) (h : Good s) (hs : Short s) : ∃ r, Returns (fun fuel => sync k fuel s) r := by
  induction hn : s.older.length using Nat.strong_induction_on generalizing s with
  | _ n ih =>
  subst hn
  obtain ⟨⟨s₁, r⟩, hflush⟩ := flush_front_returns hk h hs
  obtain ⟨fuel₁, hflush₁⟩ := hflush.result
  obtain ⟨hkept, -⟩ := flush_front_spec h hs hflush₁
  cases r with
  | some r => exact ⟨_, hflush.step (Returns.pure (s₁, r)) fun fuel hf => by simp only [sync, hf]⟩
  | none =>
    cases ho : s₁.older with
    | nil => exact ⟨_, hflush.step (Returns.pure (s₁, true)) fun fuel hf => by simp only [sync, hf, ho]⟩
    | cons b rest =>
      by_cases hb : b.iov_len ≠ 0
      · exact ⟨_, hflush.step (Returns.pure (s₁, true)) fun fuel hf => by simp only [sync, hf, ho, if_pos hb]⟩
      · have herase := hkept.trans (.erase hkept.good ho (not_not.1 hb))
        have hfewer : rest.length < s.older.length := by
          have := hkept.fewer
          rw [ho, List.length_cons] at this
          omega
        obtain ⟨r, hr⟩ := ih rest.length hfewer herase.good (herase.short hs) rfl
        exact ⟨r, hflush.step hr fun fuel hf => by simp only [sync, hf, ho, if_neg hb]⟩

/-! ## `overflow` -/

/-- What `overflow` has done when it returns: the byte is the last one that is queued, or it is not written. -/
def Appended (s : Sockbuf) (ch : UInt8) (s' : Sockbuf) : Bool → Prop
  | true => ∃ rest, Flows s.wire s.queued s'.wire rest ∧ s'.queued = rest ++ [ch]
  | false => Flows s.wire s.queued s'.wire s'.queued

/-- A write makes progress when `sync` comes to the last buffer or the put area has room: `overflow` returns,
and either appends its byte or says that it did not. Then a `sync` that returns leaves room for a byte. -/
theorem a_write_makes_progress (k : Kernel) (hk : Settles k) (written : List UInt8) (s : Sockbuf)
    (h : Reach k Short written s) (hs : Short s) (hroomy : Roomy s) (ch : UInt8) :
    (∃ s' r, Returns (fun fuel => overflow k ch fuel s) (s', r) ∧ Appended s ch s' r) ∧
      ∀ fuel s', sync k fuel s = some (s', true) → s'.pptr < s'.epptr := by
  have hgood : Good s := h.holds.good
  refine ⟨?_, fun fuel s' hsync => (sync_spec hgood hs hsync).2 hroomy⟩
  obtain ⟨⟨s₁, r⟩, hsync⟩ := sync_returns hk hgood hs
  obtain ⟨fuel₁, hsync₁⟩ := hsync.result
  obtain ⟨hkept, hroom⟩ := sync_spec hgood hs hsync₁
  cases r with
  | false =>
    refine ⟨s₁, false, hsync.step (Returns.pure (s₁, false)) fun fuel hf => ?_, hkept.flows⟩
    simp only [overflow, hf]
  | true =>
    have hlow : ¬ s₁.pptr < 0 := not_lt.2 hkept.good.low
    refine ⟨s₁.put ch, true, hsync.step (Returns.pure (s₁.put ch, true)) fun fuel hf => ?_, s₁.queued, hkept.flows, ?_⟩
    · simp only [overflow, hf, if_neg hlow, if_pos (hroom hroomy)]
    · exact (put_spec hkept.good (hroom hroomy) ch).2

theorem blocking_settles : Settles blocking where
  sends n := ⟨n + 1, Nat.le_succ n, by simp [Again, blocking]⟩
  connects n := ⟨n, le_refl n, by simp [blocking]⟩

theorem a_full_put_area_makes_progress :
    ∃ written s, Reach blocking Short written s ∧ s.pptr = 32768 ∧ s.epptr = 32768 ∧
      (∃ s' r, Returns (fun fuel => overflow blocking 7 fuel s) (s', r) ∧ Appended s 7 s' r) ∧
      ∀ fuel s', sync blocking fuel s = some (s', true) → s'.pptr < s'.epptr := by
  obtain ⟨s, hreach, hfilled, htight⟩ := fill blocking 32768 (by omega)
  have hs : Short s := by
    have := hfilled.pptr
    unfold Short INT_MAX
    omega
  have hfull : s.epptr = 32768 := by
    have hhigh := hfilled.good.high
    have htight' := htight (by omega)
    obtain ⟨j, hj⟩ := hfilled.blocks
    rw [hfilled.pptr] at hhigh
    simp only [MIN_BUFSIZE] at hj htight'
    omega
  exact ⟨_, s, hreach, hfilled.pptr, hfull,
    a_write_makes_progress blocking blocking_settles _ s hreach hs (.inl hfilled.older) 7⟩

/-! ## An older buffer that waits -/

/-- A full put area behind an older buffer. -/
structure Stuck (s : Sockbuf) : Prop where
  older : ∃ b rest, s.older = b :: rest ∧ b.iov_len ≠ 0
  opened : s.wire.opened = true
  connected : s.wire.connected = true
  low : 0 ≤ s.pptr
  full : s.pptr = s.epptr

/-- The kernel never takes a byte. -/
def waiting : Kernel := ⟨fun _ => .error .EWOULDBLOCK, fun _ => .ok, fun _ => 0⟩

theorem waiting_settles : Settles waiting where
  sends n := ⟨n, le_refl n, by simp [Again, waiting]⟩
  connects n := ⟨n, le_refl n, by simp [waiting]⟩

/-- `_send` of the older buffer sends nothing. -/
theorem send_stuck {b : SendBuffer} {rest : List SendBuffer} (h : Stuck s) (ho : s.older = b :: rest)
    (hb : b.iov_len ≠ 0) (fuel : Nat) :
    send waiting (fuel + 1) s = some ({ s with
      older := { b with mem := memmove b.mem 0 b.iov_len } :: rest
      wire := { s.wire with errno := some .EWOULDBLOCK, sends := s.wire.sends + 1 } }, true) := by
  have hnot : ¬ (silent s.wire b = true ∨ b.iov_len = 0) := by simp [silent, h.opened, h.connected, hb]
  simp only [send, ho, send_older, if_neg hnot, send_loop, waiting, Option.map_some]
  rfl

/-- `sync` returns 0 before it comes to the last buffer. -/
theorem sync_stuck (h : Stuck s) (fuel : Nat) : ∃ s', sync waiting (fuel + 3) s = some (s', true) ∧ Stuck s' := by
  obtain ⟨b, rest, ho, hb⟩ := h.older
  refine ⟨{ s with
    older := { b with mem := memmove b.mem 0 b.iov_len } :: rest
    wire := { s.wire with errno := some .EWOULDBLOCK, sends := s.wire.sends + 1 } }, ?_, ?_⟩
  · simp only [sync, flush_front, send_stuck h ho hb, if_pos hb]
  · exact ⟨⟨_, rest, rfl, hb⟩, h.opened, h.connected, h.low, h.full⟩

/-- Too few turns for a `sync`. -/
theorem sync_stuck_early (h : Stuck s) (hf : fuel < 3) : sync waiting fuel s = none := by
  obtain ⟨b, rest, ho, hb⟩ := h.older
  have hnot : ¬ (silent s.wire b = true ∨ b.iov_len = 0) := by simp [silent, h.opened, h.connected, hb]
  obtain rfl | rfl | rfl : fuel = 0 ∨ fuel = 1 ∨ fuel = 2 := by omega
  · rfl
  · rfl
  · simp only [sync, flush_front, send, ho, send_older, if_neg hnot, send_loop, Option.map_none]

/-- `overflow` calls `sync` again and again. -/
theorem overflow_stuck (h : Stuck s) (ch : UInt8) (fuel : Nat) : overflow waiting ch fuel s = none := by
  induction fuel generalizing s with
  | zero => rfl
  | succ fuel ih =>
    by_cases hf : fuel < 3
    · simp only [overflow, sync_stuck_early h hf]
    · obtain ⟨fuel', rfl⟩ : ∃ fuel', fuel = fuel' + 3 := ⟨fuel - 3, by omega⟩
      obtain ⟨s', hsync, h'⟩ := sync_stuck h fuel'
      have hlow : ¬ s'.pptr < 0 := not_lt.2 h'.low
      have hfull : ¬ s'.pptr < s'.epptr := not_lt.2 h'.full.ge
      simp only [overflow, hsync, if_neg hlow, if_neg hfull]
      exact ih h'

/-- The room in the put area is written to. -/
theorem fill_area {written : List UInt8} (h : Reach k Short written s) (hmax : (s.epptr : Int) ≤ INT_MAX) :
    ∃ written' s', Reach k Short written' s' ∧ s'.pptr = s'.epptr ∧ s'.epptr = s.epptr ∧ s'.older = s.older ∧
      s'.wire = s.wire := by
  have hgood : Good s := h.holds.good
  induction hn : (s.epptr - s.pptr).toNat generalizing s written with
  | zero =>
    have := hgood.high
    exact ⟨written, s, h, by omega, rfl, rfl, rfl⟩
  | succ n ih =>
    have hroom : s.pptr < s.epptr := by omega
    have hs : Short s := hroom.le.trans hmax
    have hput : sputc k 0 0 s = some (s.put 0, true) := by
      simp only [sputc, if_neg (not_lt.2 hgood.low), if_pos hroom]
    have hnext : (((s.put 0).epptr : Int) - (s.put 0).pptr).toNat = n := by
      simp only [put]
      omega
    obtain ⟨written', s', hreach, hfull, hep, ho, hw⟩ :=
      ih (.write 0 0 h hs hput) hmax (put_spec hgood hroom 0).1 hnext
    exact ⟨written', s', hreach, hfull, hep, ho, hw⟩

/-- A byte for a first address waits while the put area for a second one fills up. Then `overflow` does not
return: each `sync` returns 0 at the first buffer, and the put area is as full as before. -/
theorem a_waiting_buffer_stops_writes :
    ∃ written s, Reach waiting Short written s ∧ Settles waiting ∧ Short s ∧
      (∃ fuel s', sync waiting fuel s = some (s', true) ∧ ¬ s'.pptr < s'.epptr) ∧
      ∀ ch fuel, overflow waiting ch fuel s = none := by
  have h0 : Reach waiting Short [] (init waiting true true) := .start true true
  obtain ⟨s₁, hs₁, hconn₁⟩ : ∃ s, s = { init waiting true true with back.family := true } ∧
      connectto waiting true 0 (init waiting true true) = some (s, true) := ⟨_, rfl, rfl⟩
  have h1 : Reach waiting Short [] s₁ := .connectto true 0 h0 (by decide) hconn₁
  have hput : sputc waiting 7 0 s₁ = some (s₁.put 7, true) := by subst hs₁; rfl
  have h2 : Reach waiting Short [7] (s₁.put 7) := .write 7 0 h1 (by subst hs₁; decide) hput
  obtain ⟨s₃, hconn₃, hopen, hconnected, hep, b, ho, hb⟩ : ∃ s, connectto waiting true 0 (s₁.put 7) = some (s, true) ∧
      s.wire.opened = true ∧ s.wire.connected = true ∧ s.epptr = MIN_BUFSIZE ∧
      ∃ b, s.older = [b] ∧ b.iov_len = 1 := by
    subst hs₁
    exact ⟨_, rfl, rfl, rfl, rfl, _, rfl, rfl⟩
  have h3 : Reach waiting Short [7] s₃ := .connectto true 0 h2 (by subst hs₁; decide) hconn₃
  obtain ⟨written, s, h, hfull, hep', ho', hw⟩ := fill_area h3 (by rw [hep]; decide)
  have hstuck : Stuck s := by
    refine ⟨⟨b, [], ho'.trans ho, by omega⟩, ?_, ?_, h.holds.good.low, hfull⟩
    · rw [hw, hopen]
    · rw [hw, hconnected]
  have hs : Short s := by
    unfold Short
    rw [hfull, hep', hep]
    decide
  obtain ⟨s', hsync, hstuck'⟩ := sync_stuck hstuck 0
  exact ⟨written, s, h, waiting_settles, hs, ⟨3, s', hsync, not_lt.2 hstuck'.full.ge⟩, overflow_stuck hstuck⟩

end cloudbus.io.Sockbuf
