-- The connector of a segment: the transports of the controllers are north of
-- it, the service is south. Each connection has a service stream of its own.
import Cloudbus.Connector

namespace cloudbus.segment

open cloudbus.io cloudbus.messages Connector

/-! ## From a transport to the service -/

/-- `_north_write`: the rest of the frame of `t` goes to the service. `none` stands for
-1 and `some false` for 0: there is no room. -/
def north_write (t v : StreamId) (cid : Nat) (st : Connector) : Connector × Option Bool :=
  let x := st.frame t
  let pos : Int := MAX_BUFSIZE - (x.tellp - x.tellg : Nat)
  let flushed := decide (pos ≤ (st.sock v).tellp)
  let st := if flushed then st.flushSock v else st
  if flushed && (st.sock v).bad then (st, none)
  else if (st.sock v).tellp < pos then
    let r := stream_write (x.tellp + 1) (st.sock v) x
    (((st.setSock v r.1).setFrame t r.2).note
      (.fed cid t v (x.contents.drop x.tellg) (st.sock v).good),
      if r.1.bad then none else some true)
  else (st, some false)

/-- `_north_connect`: a new service stream for the session. `fd` is the answer of
`connect`, none while the address is resolved. -/
def north_connect (t : StreamId) (f : Frame) (fd : Option Int) (st : Connector) :
    Connector × Option Bool :=
  let v := st.next
  let st := st.make (.south 0) BAD_SOCKET
  let st := match fd with
    | some fd =>
      (st.setSock v { st.sock v with native_handle := fd }).setTrigger v
        (Mask.POLLIN.union Mask.POLLOUT)
    | none => { st with pending := st.pending ++ [(v, t)] }
  let c : Connection :=
    { uuid := f.eid
      north := t
      south := v
      state := if f.type.op = STOP then .HALF_CLOSED else .HALF_OPEN
      cid := st.ncid }
  north_write t v c.cid
    { st with
      connections := st.connections ++ [c]
      ncid := st.ncid + 1
      log := st.log ++ [.opened v c.cid, .got (some c.cid) t f.eid f.type f.payload] }

/-- The frame belongs to no connection that can take it: INIT with a payload starts a
session, and any other frame is answered with ABORT. -/
def unmatched (fd : Option Int) (t : StreamId) (f : Frame) (st : Connector) : Connector × Bool :=
  let eof := (st.sock t).eof
  let st := st.mark t
  if eof then (st.note (.got none t f.eid f.type f.payload), true)
  else if f.type.has INIT ∧ (st.frame t).tellp > HDRLEN then
    match north_connect t f fd (st.setFrame t ((st.frame t).seekg HDRLEN)) with
    | (st, none) => (st, true)
    | (st, some true) => (st, false)
    | (st, some false) => (st.deferInput t, false)
  else
    let st := st.note (.got none t f.eid f.type f.payload)
    if !f.type.has ABORT then
      ((st.writeHeader none t f.eid abortType).setTrigger t Mask.POLLOUT, false)
    else (st, false)

/-- The frame belongs to the connection `c` at `k`, whose service is there. `false`
when the service has no room and the frame stays. -/
def deliver (t : StreamId) (f : Frame) (k : Nat) (c : Connection) (st : Connector) :
    Connector × Bool :=
  let gpos := (st.frame t).tellg
  let seekpos := if gpos ≤ HDRLEN then HDRLEN else gpos
  let pos := (st.frame t).tellp
  let st := st.setTriggerOpen c.south Mask.POLLOUT
  let written := if pos > seekpos then
    north_write t c.south c.cid (st.setFrame t ((st.frame t).seekg seekpos)) else (st, some true)
  match written with
  | (st, some false) => (st.deferInput t, false)
  | (st, _) =>
    let st := if f.type.has ABORT then st.setSock c.south (st.sock c.south).set_badbit else st
    let st := (st.setConn k (state_update c f.type)).note
      (.got (some c.cid) t f.eid f.type f.payload)
    (st.mark t, true)

/-- The first connection with this eid on this transport. -/
def findConn (t : StreamId) (eid : Uuid) (cs : List Connection) : Option Nat :=
  cs.findIdx? fun c => c.uuid == eid && c.north == t

/-- `_route` for a transport. `true` stands for -1. -/
def route_north (fd : Option Int) (t : StreamId) (st : Connector) : Connector × Bool :=
  let eof := (st.sock t).eof
  match frameOf (st.frame t) with
  | none => (st, eof)
  | some f =>
    match findConn t f.eid st.connections with
    | none => unmatched fd t f st
    | some k =>
      match st.connections[k]? with
      | none => unmatched fd t f st
      | some c =>
        if c.state = .CLOSED then unmatched fd t f st
        else if !st.live c.south then
          (((st.setConn k (state_update c f.type)).note
            (.got (some c.cid) t f.eid f.type f.payload)).mark t, eof)
        else match deliver t f k c st with
          | (st, true) => (st, eof)
          | (st, false) => (st, false)

/-! ## From the service to a transport -/

/-- `_south_write`: a header and the chunk of the service go to the transport. `false`
stands for 0: there is no room. A frame for a transport that went bad is logged as not
taken. -/
def south_write (v : StreamId) (c : Connection) (st : Connector) : Connector × Bool :=
  let t := c.north
  let buf := st.chunk v
  let pos : Int := MAX_BUFSIZE - (HDRLEN + buf.tellp : Nat)
  let type : Msgtype := ⟨if !st.live v || (st.sock v).eof then STOP else DATA, 0⟩
  let sent := Obs.sent (some c.cid) t c.uuid type buf.chunk
  let flushed := decide (pos ≤ (st.sock t).tellp)
  let st := if flushed then st.flushSock t else st
  if flushed && (st.sock t).bad then (st.note (sent false), true)
  else if pos < (st.sock t).tellp then (st, false)
  else
    let s := (st.sock t).write (Msgheader.of c.uuid buf.tellp type).encode
    if s.bad then ((st.setSock t s).note (sent (st.sock t).good), true)
    else
      let r := stream_write_upto buf.tellp s buf buf.tellp
      (((st.setSock t r.1).setChunk v r.2).note (sent (st.sock t).good), true)

/-- The first connection of the service stream whose transport is there. -/
def findSouth (v : StreamId) (st : Connector) : Option Nat :=
  st.connections.findIdx? fun c => c.south == v && st.live c.north

/-- `_route` for the service. `true` stands for -1. -/
def route_south (v : StreamId) (st : Connector) : Connector × Bool :=
  let p := (st.chunk v).tellp
  let eof := (st.sock v).eof
  match findSouth v st with
  | none => (st, p > 0)
  | some k =>
    match st.connections[k]? with
    | none => (st, p > 0)
    | some c =>
      let written := if eof || p > 0 then
        south_write v c ((st.setChunk v (st.chunk v).rewindg).setTrigger c.north Mask.POLLOUT)
        else (st, true)
      match written with
      | (st, false) => (st.deferInput v, false)
      | (st, true) =>
        let c' := state_update c ⟨if eof then STOP else DATA, 0⟩
        let st := st.setConn k c'
        let st := if eof then st.clearTrigger v Mask.POLLIN else st
        (st, c'.state = .CLOSED)

/-! ## Error and state handlers -/

/-- A connection of a transport that goes away is closed for the service. -/
def failTurn (t : StreamId) (st : Connector) (k : Nat) : Connector :=
  match st.connections[k]? with
  | some c =>
    if c.north = t ∧ st.live c.south then
      ((st.setConn k (state_update c abortType)).setTrigger c.south Mask.POLLOUT).note (.failed c.cid)
    else st
  | none => st

/-- `_north_err_handler`. A connection whose service is gone is removed. -/
def north_err_handler (t : StreamId) (st : Connector) : Connector :=
  let conns := st.connsOf t
  let st := (List.range st.connections.length).foldl (failTurn t) st
  let st := st.keepConns fun c => !(c.north == t && !st.live c.south)
  ((st.setRevents {}).clearTriggers t).erase t conns

/-- ABORT for a connection of a service stream that goes away. -/
def abortTurn (v : StreamId) (st : Connector) (c : Connection) : Connector :=
  if c.south = v ∧ st.live c.north ∧ c.state.rank < ConnState.CLOSED.rank then
    (st.writeHeader (some c.cid) c.north c.uuid abortType).setTrigger c.north Mask.POLLOUT
  else st

/-- `_south_err_handler`. -/
def south_err_handler (v : StreamId) (st : Connector) : Connector :=
  let conns := st.connsOf v
  let st := st.connections.foldl (abortTurn v) st
  let st := st.keepConns fun c => c.south != v
  ((st.setRevents {}).clearTriggers v).erase v conns

/-- `_south_state_handler`: the first connection of the service stream decides. -/
def south_state_handler (v : StreamId) (st : Connector) : Connector :=
  match st.connections.find? fun c => c.south == v with
  | none => st
  | some c =>
    match c.state with
    | .CLOSED => south_err_handler v st
    | .HALF_CLOSED => (st.setRevents (st.revents.union Mask.POLLHUP)).shutdown v
    | _ => st

/-! ## Poll handlers -/

/-- The unmarshalling half of `_north_pollin_handler`. -/
def readTransport (t : StreamId) (st : Connector) : Connector :=
  let r := unmarshal (st.frame t) (st.sock t)
  (st.setFrame t r.1).setSock t r.2

/-- The marshalling half of `_south_pollin_handler`. -/
def readService (v : StreamId) (st : Connector) : Connector :=
  let r := marshal (st.chunk v) (st.sock v)
  (st.setChunk v r.1).setSock v r.2

def north_pollin_handler (fd : Option Int) (t : StreamId) (st : Connector) : Connector × Bool :=
  route_north fd t ((readTransport t st).dropInput t)

def south_pollin_handler (v : StreamId) (st : Connector) : Connector × Bool :=
  route_south v ((readService v st).dropInput v)

/-! ## Events -/

/-- What happens around the connector. -/
inductive Env where
  /-- A transport was accepted. -/
  | accept (fd : Int)
  /-- The pending connect at `j` has its socket. -/
  | connected (j : Nat) (fd : Int)
  /-- The address of the pending connect at `j` was not found. -/
  | refused (j : Nat)
  /-- The kernel has an answer for a later read. -/
  | rx (i : StreamId) (r : Recv)
  /-- The kernel has an answer for a later write. -/
  | tx (i : StreamId) (a : Send)
deriving DecidableEq, Repr

/-- The POLLOUT part of `_handle`, its POLLIN part, or something from outside. -/
inductive Call where
  | out (i : StreamId)
  | inn (i : StreamId) (fd : Option Int)
  | env (e : Env)
deriving DecidableEq, Repr

def callOut (i : StreamId) (st : Connector) : Connector :=
  match (st.ep i).iface with
  | .north =>
    match st.pollout_handler i with
    | (st, true) => north_err_handler i st
    | (st, false) => st
  | .south _ =>
    match st.pollout_handler i with
    | (st, true) => south_err_handler i st
    | (st, false) => south_state_handler i st

def callIn (i : StreamId) (fd : Option Int) (st : Connector) : Connector :=
  match (st.ep i).iface with
  | .north =>
    match north_pollin_handler fd i st with
    | (st, true) => north_err_handler i st
    | (st, false) => st
  | .south _ =>
    match south_pollin_handler i st with
    | (st, true) => south_err_handler i st
    | (st, false) => st

/-- One turn of the loop of `erase_connect`. -/
def refuseTurn (v t : StreamId) (st : Connector) (c : Connection) : Connector :=
  if c.south = v then
    (st.writeHeader (some c.cid) t c.uuid abortType).setTrigger t Mask.POLLOUT
  else st

/-- `erase_connect`: the service stream goes, and its connections with it. -/
def erase_connect (v t : StreamId) (st : Connector) : Connector :=
  let conns := st.connsOf v
  let st := st.connections.foldl (refuseTurn v t) st
  (st.keepConns fun c => c.south != v).erase v conns

/-- The callback that waits for the address of the service. -/
def connectCallback (v t : StreamId) (fd : Option Int) (st : Connector) : Connector :=
  if st.live v then
    match fd with
    | none => erase_connect v t st
    | some fd =>
      let st := if (st.sock v).native_handle = BAD_SOCKET then
        st.setSock v { st.sock v with native_handle := fd } else st
      st.setTrigger v (Mask.POLLIN.union Mask.POLLOUT)
  else st

def resolve (j : Nat) (fd : Option Int) (st : Connector) : Connector :=
  match st.pending[j]? with
  | some (v, t) => connectCallback v t fd { st with pending := st.pending.eraseIdx j }
  | none => st

def callEnv : Env → Connector → Connector
  | .accept fd, st => (st.make .north fd).setTrigger st.next Mask.POLLIN
  | .connected j fd, st => resolve j (some fd) st
  | .refused j, st => resolve j none st
  | .rx i r, st => st.pushRx i r
  | .tx i a, st => st.pushTx i a

def call : Call → Connector → Connector
  | .out i, st => if st.live i then callOut i st else st
  | .inn i fd, st => if st.live i then callIn i fd st else st
  | .env e, st => callEnv e st

inductive Event where
  | poll (i : StreamId) (revents : Mask) (fd : Option Int)
  | env (e : Env)
deriving DecidableEq, Repr

/-- The state after the POLLOUT part of `_handle`. -/
def afterOut (i : StreamId) (st : Connector) : Connector :=
  if st.revents.isOut then call (.out i) st else st

/-- `_handle` for one event. -/
def handle : Event → Connector → Connector
  | .poll i revents fd, st =>
    let st := afterOut i (st.enter i revents)
    if st.revents.isIn then call (.inn i fd) st else st
  | .env e, st => callEnv e st

/-- The calls of one event, each with the state it is made in. -/
def calls : Event → Connector → List (Call × Connector)
  | .poll i revents fd, st =>
    let st0 := st.enter i revents
    let st1 := afterOut i st0
    (if st0.revents.isOut then [(.out i, st0)] else []) ++
      (if st1.revents.isIn then [(.inn i fd, st1)] else [])
  | .env e, st => [(.env e, st)]

end cloudbus.segment
