-- Which sockets a handler can touch. A handler that is confined to some streams
-- leaves the socket of every other stream as it was, with all that is buffered
-- in it.
import Cloudbus.ControllerTurns
import Cloudbus.SegmentTurns

namespace cloudbus

open cloudbus.io cloudbus.messages Connector

/-- Only sockets in `P` are touched. -/
def Confined (P : StreamId → Prop) (st st' : Connector) : Prop := ∀ i, ¬ P i → st'.sock i = st.sock i

namespace Confined

variable {P Q : StreamId → Prop} {st st' st'' : Connector}

theorem refl (P : StreamId → Prop) (st : Connector) : Confined P st st := fun _ _ => rfl

theorem trans (h : Confined P st st') (h' : Confined P st' st'') : Confined P st st'' :=
  fun i hi => (h' i hi).trans (h i hi)

/-- No stream is touched: triggers, timers, `revents`, connections and the log may change. -/
theorem of_eps (h : st'.eps = st.eps) : Confined P st st' := by
  intro i _
  rw [sock, ep, h]
  rfl

variable {i : StreamId}

theorem setSock {s : Sockstream} (hi : P i) : Confined P st (st.setSock i s) := by
  intro j hj
  rw [sock_setSock, if_neg]
  rintro rfl
  exact hj hi

theorem setFrame (i : StreamId) (x : Xmsgstream) : Confined P st (st.setFrame i x) :=
  fun j _ => sock_setFrame st i j x

theorem setChunk (i : StreamId) (c : Stringstream) : Confined P st (st.setChunk i c) :=
  fun j _ => sock_setChunk st i j c

theorem flushSock (hi : P i) : Confined P st (st.flushSock i) := setSock hi

theorem setTrigger (i : StreamId) (m : Mask) : Confined P st (st.setTrigger i m) := of_eps rfl

theorem deferInput (i : StreamId) : Confined P st (st.deferInput i) := of_eps rfl

theorem note (o : Obs) : Confined P st (st.note o) := of_eps rfl

theorem setConn (k : Nat) (c : Connection) : Confined P st (st.setConn k c) := of_eps rfl

theorem setTriggerOpen (i : StreamId) (m : Mask) : Confined P st (st.setTriggerOpen i m) := by
  unfold Connector.setTriggerOpen
  split
  · exact refl P st
  · exact of_eps rfl

theorem writeHeader (cid : Option Nat) (eid : Uuid) (t : Msgtype) (hi : P i) :
    Confined P st (st.writeHeader cid i eid t) :=
  trans (setSock hi) (of_eps rfl)

theorem erase (i : StreamId) (cs : List Connection) : Confined P st (st.erase i cs) :=
  fun j _ => sock_erase st i j cs

theorem dropInput (i : StreamId) : Confined P st (st.dropInput i) := fun j _ => dropInput_sock st i j

theorem pollout_handler (hi : P i) : Confined P st (st.pollout_handler i).1 := by
  have herrors : Confined P st (st.takeErrors i) := by
    unfold takeErrors
    split
    · exact setSock hi
    · exact refl P st
  unfold Connector.pollout_handler
  dsimp only
  split
  · exact herrors.trans (flushSock hi)
  · refine (herrors.trans (flushSock hi)).trans ?_
    unfold finishOut setRevents
    split
    · exact of_eps rfl
    · exact of_eps rfl

/-- A loop of turns that keep `inv` and touch nothing else. -/
theorem foldl {α : Type} {turn : Connector → α → Connector} (inv : Connector → Prop)
    (h : ∀ st a, inv st → Confined P st (turn st a) ∧ inv (turn st a)) (l : List α) (st : Connector)
    (hi : inv st) : Confined P st (l.foldl turn st) := by
  induction l generalizing st with
  | nil => exact refl P st
  | cons a l ih =>
    obtain ⟨h1, h2⟩ := h st a hi
    exact h1.trans (ih (turn st a) h2)

theorem enter (i : StreamId) (m : Mask) (st : Connector) : Confined P st (st.enter i m) := by
  unfold Connector.enter
  split
  · refine trans (of_eps rfl : Confined P st (st.setRevents m)) ?_
    unfold wakePeers
    refine foldl (fun _ => True) ?_ _ _ trivial
    intro a c _
    refine ⟨?_, trivial⟩
    unfold wakeTurn
    split
    · exact setTrigger _ _
    · exact refl P a
  · exact of_eps rfl

end Confined

end cloudbus

namespace cloudbus.controller

open cloudbus.io cloudbus.messages Connector

variable {P : StreamId → Prop}

variable {s : StreamId}

theorem readTransport_confined (st : Connector) (hs : P s) :
    Confined P st (readTransport s st) := (Confined.setFrame s _).trans (.setSock hs)

theorem south_write_confined {n : StreamId} (cid : Nat) (st : Connector) (hn : P n) :
    Confined P st (south_write s n cid st).1 := by
  unfold south_write
  dsimp only
  have hflush : Confined P st (if (MAX_BUFSIZE : Int) - ((st.frame s).tellp - (st.frame s).tellg : Nat) ≤
      (st.sock n).tellp then st.flushSock n else st) := by
    split
    · exact .flushSock hn
    · exact .refl P st
  split
  · exact .refl P st
  · generalize (if (MAX_BUFSIZE : Int) - ((st.frame s).tellp - (st.frame s).tellg : Nat) ≤
      (st.sock n).tellp then st.flushSock n else st) = a at hflush ⊢
    split
    · exact hflush
    · split
      · exact ((hflush.trans (.setSock hn)).trans (.setFrame s _)).trans (.note _)
      · exact hflush

/-- The latch touches the transports of the session. -/
theorem latch_confined {eid : Uuid} (st : Connector)
    (h : ∀ c ∈ st.connections, c.uuid = eid → P c.south) : Confined P st (latch s eid st) := by
  refine Confined.foldl (fun st => ∀ c ∈ st.connections, c.uuid = eid → P c.south) ?_ _ st h
  intro a k ha
  unfold latchTurn
  split
  · rename_i c hget
    split
    · rename_i hif
      have hP : P c.south := ha c (List.mem_of_getElem? hget) hif.1
      refine ⟨((Confined.writeHeader (some c.cid) eid abortType hP).trans (.setTrigger c.south _)).trans
        (.setConn k _), ?_⟩
      intro d hd heid
      rcases List.mem_or_eq_of_mem_set hd with hd | rfl
      · exact ha d hd heid
      · exact hP
    · exact ⟨.refl P a, ha⟩
  · exact ⟨.refl P a, ha⟩

theorem refuse_confined (f : Frame) (st : Connector) (hs : P s) : Confined P st (refuse s f st) := by
  have hgot : Confined P st ((st.mark s).note (.got none s f.eid f.type f.payload)) :=
    (Confined.setFrame s _).trans (.note _)
  unfold refuse
  dsimp only
  split
  · exact (hgot.trans (.writeHeader none f.eid abortType hs)).trans (.setTrigger s _)
  · exact hgot

theorem deliver_confined {f : Frame} {k : Nat} {c : Connection} (st : Connector) (hc : P c.north)
    (hget : st.connections[k]? = some c) (h : ∀ d ∈ st.connections, d.uuid = f.eid → P d.south) :
    Confined P st (deliver s f k c st).1 := by
  unfold deliver
  dsimp only
  generalize hseek : (if (st.frame s).tellg ≤ HDRLEN then HDRLEN else (st.frame s).tellg) = seekpos
  generalize hw : (if (st.frame s).tellp > seekpos then south_write s c.north c.cid
      ((st.setTrigger c.north Mask.POLLOUT).setFrame s
        (((st.setTrigger c.north Mask.POLLOUT).frame s).seekg seekpos))
    else (st.setTrigger c.north Mask.POLLOUT, true)) = w
  have hwrite : Confined P st w.1 ∧ w.1.connections = st.connections := by
    rw [← hw]
    split
    · refine ⟨((Confined.setTrigger c.north _).trans (.setFrame s _)).trans (south_write_confined _ _ hc), ?_⟩
      unfold south_write
      dsimp only
      (repeat' split) <;> rfl
    · exact ⟨.setTrigger c.north _, rfl⟩
  obtain ⟨a, b⟩ := w
  obtain ⟨hconf, hconn⟩ := hwrite
  cases b with
  | false => exact hconf.trans (.deferInput s)
  | true =>
    dsimp only at hconf hconn ⊢
    have hgot : Confined P st ((a.setConn k (state_update c f.type)).note
        (.got (some c.cid) s f.eid f.type f.payload)) := (hconf.trans (.setConn k _)).trans (.note _)
    split
    · refine (hgot.trans (latch_confined _ ?_)).trans (.setFrame s _)
      intro d hd heid
      have hd' : d ∈ a.connections.set k (state_update c f.type) := hd
      rw [hconn] at hd'
      rcases List.mem_or_eq_of_mem_set hd' with hd' | rfl
      · exact h d hd' heid
      · exact h c (List.mem_of_getElem? hget) heid
    · exact hgot.trans (.setFrame s _)

/-- A frame of the transport `s` touches `s`, the client of the connection it finds, and the
transports with connections of its eid. -/
theorem route_south_confined {f : Frame} (st : Connector) (hf : frameOf (st.frame s) = some f) (hs : P s)
    (hclient : ∀ c ∈ st.connections, c.south = s → c.uuid.sameNode f.eid → c.state ≠ .CLOSED → P c.north)
    (htransports : ∀ d ∈ st.connections, d.uuid = f.eid → P d.south) : Confined P st (route_south s st).1 := by
  unfold route_south
  dsimp only
  rw [hf]
  dsimp only
  split
  · exact refuse_confined f st hs
  · rename_i k hk
    split
    · exact refuse_confined f st hs
    · rename_i c hget
      obtain ⟨hsouth, hnode⟩ := south_of_findConn hk hget
      split
      · exact refuse_confined f st hs
      · rename_i hstate
        split
        · exact (Confined.setFrame s _).trans (.note _)
        · split
          · exact refuse_confined f st hs
          · have hP := hclient c (List.mem_of_getElem? hget) hsouth hnode hstate
            have hd := deliver_confined (s := s) (f := f) st hP hget htransports
            generalize deliver s f k c st = r at hd
            obtain ⟨a, b⟩ := r
            cases b with
            | true => exact hd
            | false => exact hd

end cloudbus.controller

namespace cloudbus.segment

open cloudbus.io cloudbus.messages Connector

variable {P : StreamId → Prop}

variable {t v : StreamId} {f : Frame}

theorem readTransport_confined (st : Connector) (ht : P t) :
    Confined P st (readTransport t st) := (Confined.setFrame t _).trans (.setSock ht)

theorem readService_confined (st : Connector) (hv : P v) :
    Confined P st (readService v st) := (Confined.setChunk v _).trans (.setSock hv)

theorem north_write_confined (cid : Nat) (st : Connector) (hv : P v) : Confined P st (north_write t v cid st).1 := by
  unfold north_write
  dsimp only
  generalize decide ((MAX_BUFSIZE : Int) - ((st.frame t).tellp - (st.frame t).tellg : Nat) ≤
    (st.sock v).tellp) = flushed
  have hflush : Confined P st (if flushed = true then st.flushSock v else st) := by
    split
    · exact .flushSock hv
    · exact .refl P st
  generalize (if flushed = true then st.flushSock v else st) = a at hflush ⊢
  split
  · exact hflush
  · split
    · exact ((hflush.trans (.setSock hv)).trans (.setFrame t _)).trans (.note _)
    · exact hflush

theorem north_connect_confined {fd : Option Int} (st : Connector)
    (hv : P st.next) : Confined P st (north_connect t f fd st).1 := by
  have hmake : Confined P st (st.make (.south 0) BAD_SOCKET) := by
    intro i hi
    rw [sock_make, if_neg]
    rintro rfl
    exact hi hv
  unfold north_connect
  dsimp only
  refine Confined.trans ?_ (north_write_confined _ _ hv)
  cases fd with
  | none => exact hmake.trans (.of_eps rfl)
  | some fd => exact (hmake.trans (.setSock hv)).trans (.of_eps rfl)

theorem unmatched_confined {fd : Option Int} (st : Connector) (ht : P t)
    (hv : P st.next) : Confined P st (unmatched fd t f st).1 := by
  unfold unmatched
  dsimp only
  split
  · exact (Confined.setFrame t _).trans (.note _)
  · split
    · have hc : Confined P st (north_connect t f fd
          ((st.mark t).setFrame t (((st.mark t).frame t).seekg HDRLEN))).1 :=
        ((Confined.setFrame t _).trans (.setFrame t _)).trans (north_connect_confined _ hv)
      generalize north_connect t f fd ((st.mark t).setFrame t (((st.mark t).frame t).seekg HDRLEN)) = r at hc
      obtain ⟨a, answer⟩ := r
      cases answer with
      | none => exact hc
      | some room =>
        cases room with
        | true => exact hc
        | false => exact hc.trans (.deferInput t)
    · have hgot : Confined P st ((st.mark t).note (.got none t f.eid f.type f.payload)) :=
        (Confined.setFrame t _).trans (.note _)
      split
      · exact (hgot.trans (.writeHeader none f.eid abortType ht)).trans (.setTrigger t _)
      · exact hgot

theorem deliver_confined {k : Nat} {c : Connection} (st : Connector)
    (hc : P c.south) : Confined P st (deliver t f k c st).1 := by
  unfold deliver
  dsimp only
  generalize hseek : (if (st.frame t).tellg ≤ HDRLEN then HDRLEN else (st.frame t).tellg) = seekpos
  generalize hw : (if (st.frame t).tellp > seekpos then north_write t c.south c.cid
      ((st.setTriggerOpen c.south Mask.POLLOUT).setFrame t
        (((st.setTriggerOpen c.south Mask.POLLOUT).frame t).seekg seekpos))
    else (st.setTriggerOpen c.south Mask.POLLOUT, some true)) = w
  have hwrite : Confined P st w.1 := by
    rw [← hw]
    split
    · exact ((Confined.setTriggerOpen c.south _).trans (.setFrame t _)).trans (north_write_confined _ _ hc)
    · exact .setTriggerOpen c.south _
  obtain ⟨a, answer⟩ := w
  have hdone : Confined P st ((((if f.type.has ABORT then a.setSock c.south (a.sock c.south).set_badbit
      else a).setConn k (state_update c f.type)).note (.got (some c.cid) t f.eid f.type f.payload)).mark t) := by
    refine (((hwrite.trans ?_).trans (.setConn k _)).trans (.note _)).trans (.setFrame t _)
    split
    · exact .setSock hc
    · exact .refl P a
  cases answer with
  | none => exact hdone
  | some room =>
    cases room with
    | true => exact hdone
    | false => exact hwrite.trans (.deferInput t)

/-- A frame of the transport `t` touches `t`, the services of `t`, and a new service. -/
theorem route_north_confined {t : StreamId} {fd : Option Int} (st : Connector) (ht : P t) (hv : P st.next)
    (hservice : ∀ c ∈ st.connections, c.north = t → P c.south) :
    Confined P st (route_north fd t st).1 := by
  unfold route_north
  dsimp only
  split
  · exact .refl P st
  · rename_i f _
    split
    · exact unmatched_confined st ht hv
    · rename_i k hk
      split
      · exact unmatched_confined st ht hv
      · rename_i c hget
        have hnorth := (north_of_findConn hk hget).1
        split
        · exact unmatched_confined st ht hv
        · split
          · exact ((Confined.setConn k _).trans (.note _)).trans (.setFrame t _)
          · have hd := deliver_confined (t := t) (f := f) (k := k) st
              (hservice c (List.mem_of_getElem? hget) hnorth)
            generalize deliver t f k c st = r at hd
            obtain ⟨a, b⟩ := r
            cases b with
            | true => exact hd
            | false => exact hd

theorem south_write_confined {c : Connection} (st : Connector) (hc : P c.north) :
    Confined P st (south_write v c st).1 := by
  unfold south_write
  dsimp only
  generalize decide ((MAX_BUFSIZE : Int) - (HDRLEN + (st.chunk v).tellp : Nat) ≤
    (st.sock c.north).tellp) = flushed
  generalize (⟨if !st.live v || (st.sock v).eof then STOP else DATA, 0⟩ : Msgtype) = type
  have hflush : Confined P st (if flushed = true then st.flushSock c.north else st) := by
    split
    · exact .flushSock hc
    · exact .refl P st
  generalize (if flushed = true then st.flushSock c.north else st) = a at hflush ⊢
  split
  · exact hflush.trans (.note _)
  · split
    · exact hflush
    · split
      · exact (hflush.trans (.setSock hc)).trans (.note _)
      · exact ((hflush.trans (.setSock hc)).trans (.setChunk v _)).trans (.note _)

/-- A chunk of the service `v` touches the transport of its connection. -/
theorem route_south_confined (st : Connector) (htransport : ∀ c ∈ st.connections, c.south = v → P c.north) :
    Confined P st (route_south v st).1 := by
  unfold route_south
  dsimp only
  split
  · exact .refl P st
  · rename_i k hk
    split
    · exact .refl P st
    · rename_i c hget
      have hP := htransport c (List.mem_of_getElem? hget) (south_of_findSouth hk hget).1
      generalize hw : (if ((st.sock v).eof || decide ((st.chunk v).tellp > 0)) = true then
        south_write v c ((st.setChunk v (st.chunk v).rewindg).setTrigger c.north Mask.POLLOUT)
        else (st, true)) = w
      have hwrite : Confined P st w.1 := by
        rw [← hw]
        split
        · exact ((Confined.setChunk v _).trans (.setTrigger c.north _)).trans (south_write_confined _ hP)
        · exact .refl P st
      obtain ⟨a, b⟩ := w
      cases b with
      | false => exact hwrite.trans (.deferInput v)
      | true =>
        refine hwrite.trans ?_
        dsimp only
        split
        · exact .of_eps rfl
        · exact .of_eps rfl

theorem north_err_handler_confined (t : StreamId) (st : Connector) :
    Confined P st (north_err_handler t st) := by
  have hloop : Confined P st ((List.range st.connections.length).foldl (failTurn t) st) := by
    refine Confined.foldl (fun _ => True) ?_ _ st trivial
    intro a k _
    refine ⟨?_, trivial⟩
    unfold failTurn
    split
    · split
      · exact .of_eps rfl
      · exact .refl P a
    · exact .refl P a
  unfold north_err_handler
  dsimp only
  exact (hloop.trans (.of_eps rfl)).trans (.erase t _)

theorem south_err_handler_confined (st : Connector) (htransport : ∀ c ∈ st.connections, c.south = v → P c.north) :
    Confined P st (south_err_handler v st) := by
  have hloop : ∀ (cs : List Connection), (∀ c ∈ cs, c.south = v → P c.north) →
      ∀ a : Connector, Confined P a (cs.foldl (abortTurn v) a) := by
    intro cs
    induction cs with
    | nil => exact fun _ a => .refl P a
    | cons c cs ih =>
      intro h a
      refine Confined.trans ?_ (ih (fun d hd => h d (.tail _ hd)) _)
      unfold abortTurn
      split
      · rename_i hif
        exact (Confined.writeHeader (some c.cid) c.uuid abortType (h c (.head _) hif.1)).trans
          (.setTrigger c.north _)
      · exact .refl P a
  unfold south_err_handler
  dsimp only
  exact ((hloop st.connections htransport st).trans (.of_eps rfl)).trans (.erase v _)

end cloudbus.segment
