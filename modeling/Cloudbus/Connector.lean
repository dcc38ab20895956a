-- The state that the controller and the segment share: the streams of their
-- interfaces, the table of connections, the interest in poll events. Each has
-- its own handlers. The log is not in the source: it keeps what the handlers
-- did, so that a law can speak of a whole run.
import Cloudbus.Framing
import Cloudbus.Lib.Table

namespace cloudbus

open cloudbus.io cloudbus.messages

abbrev StreamId := Nat

/-- `MAX_BUFSIZE`, the bytes that may wait in the put area of a stream. -/
def MAX_BUFSIZE : Nat := 65536 * 4096

/-! ## Connections -/

/-- `connection::states`. -/
inductive ConnState where
  | HALF_OPEN
  | OPEN
  | HALF_CLOSED
  | CLOSED
deriving DecidableEq, Repr, Inhabited

/-- The value of the enumerator, for `<` and `std::min`. -/
def ConnState.rank : ConnState → Nat
  | .HALF_OPEN => 0
  | .OPEN => 1
  | .HALF_CLOSED => 2
  | .CLOSED => 3

/-- The switch of `state_update`. The first case falls through to the others. -/
def ConnState.update (s : ConnState) (t : Msgtype) : ConnState :=
  match s with
  | .HALF_OPEN =>
    if t.op != STOP then .OPEN else if t.has ABORT then .CLOSED else .HALF_CLOSED
  | .OPEN =>
    if t.op != STOP then .OPEN else if t.has ABORT then .CLOSED else .HALF_CLOSED
  | .HALF_CLOSED => if t.op != STOP then .HALF_CLOSED else .CLOSED
  | .CLOSED => .CLOSED

def abortType : Msgtype := ⟨STOP, ABORT⟩

/-- `connection`. A `std::weak_ptr` to a stream is its id. `cid` is not in the
source: it tells connections apart, and `base` is what the client had sent
before the connection was made. -/
structure Connection where
  uuid : Uuid
  north : StreamId
  south : StreamId
  state : ConnState
  cid : Nat
  base : List UInt8 := []
deriving DecidableEq, Repr

/-- The other end of a connection of the stream `i`. -/
def Connection.peer (c : Connection) (i : StreamId) : StreamId :=
  if c.south = i then c.north else c.south

def state_update (c : Connection) (t : Msgtype) : Connection :=
  { c with state := c.state.update t }

inductive Mode where
  | HALF_DUPLEX
  | FULL_DUPLEX
deriving DecidableEq, Repr, Inhabited

/-! ## Poll events -/

/-- `revents`, or the interest of a trigger. -/
structure Mask where
  pollin : Bool := false
  pollout : Bool := false
  pollerr : Bool := false
  pollhup : Bool := false
  pollnval : Bool := false
deriving DecidableEq, Repr, Inhabited

namespace Mask

def union (a b : Mask) : Mask :=
  ⟨a.pollin || b.pollin, a.pollout || b.pollout, a.pollerr || b.pollerr, a.pollhup || b.pollhup,
    a.pollnval || b.pollnval⟩

/-- `a & ~b`. -/
def without (a b : Mask) : Mask :=
  ⟨a.pollin && !b.pollin, a.pollout && !b.pollout, a.pollerr && !b.pollerr,
    a.pollhup && !b.pollhup, a.pollnval && !b.pollnval⟩

def POLLIN : Mask := { pollin := true }
def POLLOUT : Mask := { pollout := true }
def POLLHUP : Mask := { pollhup := true }

/-- `revents & (POLLOUT | POLLERR | POLLNVAL)`. -/
def isOut (a : Mask) : Bool := a.pollout || a.pollerr || a.pollnval

/-- `revents & (POLLIN | POLLHUP)`. -/
def isIn (a : Mask) : Bool := a.pollin || a.pollhup

end Mask

/-! ## The connector -/

/-- The interface that a stream belongs to: the listening side, or one backend. -/
inductive Iface where
  | north
  | south (backend : Nat)
deriving DecidableEq, Repr, Inhabited

/-- A stream with the buffers that the marshaller keeps for it. `live` is whether
its `std::weak_ptr` can still be locked: the interface holds the only owner. -/
structure Endpoint where
  sock : Sockstream := {}
  live : Bool := false
  iface : Iface := .north
  chunk : Stringstream := {}
  frame : Xmsgstream := {}
deriving DecidableEq, Repr, Inhabited

/-- What a handler did. `ok` is whether the stream was good when it was written. -/
inductive Obs where
  /-- A connection was inserted for the stream `n`. -/
  | opened (n : StreamId) (cid : Nat)
  /-- A frame was written to the transport `dst`. -/
  | sent (cid : Option Nat) (dst : StreamId) (eid : Uuid) (type : Msgtype) (payload : List UInt8)
      (ok : Bool)
  /-- A complete frame was taken from the transport `src`. -/
  | got (cid : Option Nat) (src : StreamId) (eid : Uuid) (type : Msgtype) (payload : List UInt8)
  /-- The payload of a frame was written to the client or service `dst`. -/
  | fed (cid : Nat) (src dst : StreamId) (payload : List UInt8) (ok : Bool)
  /-- A connection was closed because a stream of it failed. -/
  | failed (cid : Nat)
  /-- `shutdown(SHUT_WR)`. -/
  | shut (sid : StreamId) (conns : List Connection) (sock : Sockstream)
  /-- The stream was erased from its interface. -/
  | erased (sid : StreamId) (conns : List Connection) (sock : Sockstream)
deriving DecidableEq, Repr

structure Connector where
  mode : Mode := .HALF_DUPLEX
  eps : Table Endpoint := {}
  next : StreamId := 0
  connections : List Connection := []
  ncid : Nat := 0
  pending : List (StreamId × StreamId) := []
  timers : List StreamId := []
  interest : Table Mask := {}
  revents : Mask := {}
  log : List Obs := []
deriving DecidableEq, Repr, Inhabited

namespace Connector

def ep (st : Connector) (i : StreamId) : Endpoint := st.eps.get i
def sock (st : Connector) (i : StreamId) : Sockstream := (st.ep i).sock
def live (st : Connector) (i : StreamId) : Bool := (st.ep i).live
def chunk (st : Connector) (i : StreamId) : Stringstream := (st.ep i).chunk
def frame (st : Connector) (i : StreamId) : Xmsgstream := (st.ep i).frame

def setSock (st : Connector) (i : StreamId) (s : Sockstream) : Connector :=
  { st with eps := st.eps.modify i fun e => { e with sock := s } }

def flushSock (st : Connector) (i : StreamId) : Connector := st.setSock i (st.sock i).flush

def setChunk (st : Connector) (i : StreamId) (c : Stringstream) : Connector :=
  { st with eps := st.eps.modify i fun e => { e with chunk := c } }

def setFrame (st : Connector) (i : StreamId) (x : Xmsgstream) : Connector :=
  { st with eps := st.eps.modify i fun e => { e with frame := x } }

def note (st : Connector) (o : Obs) : Connector := { st with log := st.log ++ [o] }

def setConn (st : Connector) (k : Nat) (c : Connection) : Connector :=
  { st with connections := st.connections.set k c }

/-- `std::remove_if` and `erase`, on the connections that do not satisfy `p`. -/
def keepConns (st : Connector) (p : Connection → Bool) : Connector :=
  { st with connections := st.connections.filter p }

/-- The connections of a stream, on either side. -/
def connsOf (st : Connector) (i : StreamId) : List Connection :=
  st.connections.filter fun c => c.north == i || c.south == i

/-- `interface.erase(stream)`. The connections are those the stream had when the
handler began. -/
def erase (st : Connector) (i : StreamId) (conns : List Connection) : Connector :=
  { st with
    eps := st.eps.modify i fun e => { e with live := false }
    log := st.log ++ [.erased i conns (st.sock i)] }

/-- `shutdown(fd, SHUT_WR)`. -/
def shutdown (st : Connector) (i : StreamId) : Connector :=
  st.note (.shut i (st.connsOf i) (st.sock i))

/-- A stream that was not used yet, for which the kernel has its answers. -/
def newborn (fd : Int) (rx : List Recv) (tx : List Send) : Sockstream :=
  { native_handle := fd, rx := rx, tx := tx }

/-- `interface.make(...)`: a stream at an id that was never used. -/
def make (st : Connector) (iface : Iface) (fd : Int) : Connector :=
  { st with
    eps := st.eps.modify st.next fun e =>
      { e with sock := newborn fd e.sock.rx e.sock.tx, live := true, iface := iface }
    next := st.next + 1 }

/-- `triggers().set(fd, mask)`. -/
def setTrigger (st : Connector) (i : StreamId) (m : Mask) : Connector :=
  { st with interest := st.interest.modify i (·.union m) }

/-- `triggers().clear(fd, mask)`. -/
def clearTrigger (st : Connector) (i : StreamId) (m : Mask) : Connector :=
  { st with interest := st.interest.modify i (·.without m) }

/-- `triggers().clear(fd)`. -/
def clearTriggers (st : Connector) (i : StreamId) : Connector :=
  { st with interest := st.interest.set i {} }

/-- `triggers().set(fd, mask)`, for a stream that may have no socket yet. -/
def setTriggerOpen (st : Connector) (i : StreamId) (m : Mask) : Connector :=
  if (st.sock i).native_handle = BAD_SOCKET then st else st.setTrigger i m

/-- A frame without payload, such as the ABORT of the error handlers. -/
def writeHeader (st : Connector) (cid : Option Nat) (dst : StreamId) (eid : Uuid) (type : Msgtype) :
    Connector :=
  (st.setSock dst ((st.sock dst).write (Msgheader.of eid 0 type).encode)).note
    (.sent cid dst eid type [] (st.sock dst).good)

def setRevents (st : Connector) (m : Mask) : Connector := { st with revents := m }

/-- `clear_triggers(fd, triggers, revents, POLLIN | POLLHUP)`. -/
def deferInput (st : Connector) (i : StreamId) : Connector :=
  { st with
    revents := st.revents.without (Mask.POLLIN.union Mask.POLLHUP)
    interest := st.interest.modify i (·.without (Mask.POLLIN.union Mask.POLLHUP)) }

/-- `buf.setstate(eofbit)`: the frame of `s` is done with. -/
def mark (st : Connector) (s : StreamId) : Connector := st.setFrame s (st.frame s).set_eofbit

/-! ## Handlers with the same text in both connectors -/

/-- `if(revents & (POLLERR | POLLNVAL)) setstate(badbit)`. -/
def takeErrors (st : Connector) (i : StreamId) : Connector :=
  if st.revents.pollerr || st.revents.pollnval then st.setSock i (st.sock i).set_badbit else st

/-- A stream with nothing to send is not polled for output. -/
def finishOut (st : Connector) (i : StreamId) : Connector :=
  (if (st.sock i).tellp = 0 then st.clearTrigger i Mask.POLLOUT else st).setRevents
    (st.revents.without { pollout := true, pollerr := true, pollnval := true })

/-- `_north_pollout_handler` and `_south_pollout_handler`: all four have the same text.
`true` stands for -1. -/
def pollout_handler (st : Connector) (i : StreamId) : Connector × Bool :=
  let st := (st.takeErrors i).flushSock i
  if (st.sock i).fail then (st, true) else (st.finishOut i, false)

/-- `revents &= ~(POLLIN | POLLHUP)` when the last read gave nothing. -/
def dropInput (st : Connector) (i : StreamId) : Connector :=
  if (st.sock i).gcount = 0 then
    st.setRevents (st.revents.without (Mask.POLLIN.union Mask.POLLHUP)) else st

/-- One turn of the first loop of `_handle`. -/
def wakeTurn (i : StreamId) (st : Connector) (c : Connection) : Connector :=
  if (c.south = i ∨ c.north = i) ∧ st.live (c.peer i) ∧ !(st.sock (c.peer i)).eof then
    st.setTrigger (c.peer i) Mask.POLLIN
  else st

/-- The first loop of `_handle`: when a stream can be written, its peers are read
again. -/
def wakePeers (st : Connector) (i : StreamId) : Connector :=
  st.connections.foldl (wakeTurn i) st

/-- The state in which `_handle` looks at `revents`. -/
def enter (st : Connector) (i : StreamId) (revents : Mask) : Connector :=
  if revents.pollout || revents.pollerr then (st.setRevents revents).wakePeers i
  else st.setRevents revents

/-- The kernel has an answer for a later read. -/
def pushRx (st : Connector) (i : StreamId) (r : Recv) : Connector :=
  st.setSock i { st.sock i with rx := (st.sock i).rx ++ [r] }

/-- The kernel has an answer for a later write. -/
def pushTx (st : Connector) (i : StreamId) (a : Send) : Connector :=
  st.setSock i { st.sock i with tx := (st.sock i).tx ++ [a] }

end Connector

end cloudbus
