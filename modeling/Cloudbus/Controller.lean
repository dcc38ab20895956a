-- The connector of the controller: clients are north of it, the pooled
-- transports to the segments are south. A chunk of a client is copied to every
-- connection of its session, and a frame of a segment goes to one client.
import Cloudbus.Connector

namespace cloudbus.controller

open cloudbus.io cloudbus.messages Connector

/-! ## From a client to the transports -/

/-- `write_prepare`. `true` when some transport has no room for the chunk. The
flush leaves a stream bad or not, so the test of `flush().bad()` is made on the
stream itself. -/
def write_prepare (n : StreamId) (tellp : Nat) : List Connection → Connector → Connector × Bool
  | [], st => (st, false)
  | c :: cs, st =>
    if c.north = n ∧ st.live c.south then
      let pos : Int := MAX_BUFSIZE - (tellp + HDRLEN : Nat)
      if (st.sock c.south).fail then write_prepare n tellp cs st
      else
        let st' := if pos ≤ (st.sock c.south).tellp then
          st.flushSock c.south else st
        if (st'.sock c.south).bad then write_prepare n tellp cs st'
        else if pos < (st'.sock c.south).tellp then (st', true)
        else write_prepare n tellp cs st'
    else write_prepare n tellp cs st

/-- The header and the chunk of the client go to the transport of a connection. -/
def writeChunk (n : StreamId) (type : Msgtype) (st : Connector) (c : Connection) : Connector :=
  let buf := st.chunk n
  let s := (st.sock c.south).write (Msgheader.of c.uuid buf.tellp type).encode
  let r := stream_write_upto buf.tellp s buf.rewindg buf.tellp
  ((st.setSock c.south r.1).setChunk n r.2).note
    (.sent (some c.cid) c.south c.uuid type buf.chunk (st.sock c.south).good)

/-- One turn of the loop of `_route`, on the connection at `k`. -/
def send (n : StreamId) (type : Msgtype) (st : Connector) (k : Nat) : Connector :=
  match st.connections[k]? with
  | some c =>
    if c.north = n ∧ st.live c.south ∧ c.state ≠ .CLOSED then
      ((writeChunk n type st c).setTriggerOpen c.south Mask.POLLOUT).setConn k (state_update c type)
    else st
  | none => st

def sendAll (n : StreamId) (type : Msgtype) (st : Connector) : Connector :=
  (List.range st.connections.length).foldl (send n type) st

/-- `connected` is not zero: a connection of the client has a transport. -/
def connected (n : StreamId) (st : Connector) : Bool :=
  st.connections.any fun c => c.north == n && st.live c.south

/-! ## A new session -/

/-- What `select_stream` returns for one backend, and the answer of `connect` when
the stream has no socket: the socket, or none while the address is resolved. -/
inductive Pick where
  | use (s : StreamId) (fd : Option Int)
  | make (fd : Option Int)
deriving DecidableEq, Repr

def Pick.fd : Pick → Option Int
  | .use _ fd => fd
  | .make fd => fd

/-- The uuid of `make_uuid_v7`, and one pick for each backend. -/
structure Oracle where
  eid : Uuid := Uuid.nil
  picks : List Pick := []
deriving DecidableEq, Repr, Inhabited

/-- `select_stream`. A stream of another interface is not among `sbd.streams()`. -/
def select_stream (b : Nat) (p : Pick) (st : Connector) : Connector × StreamId :=
  match p with
  | .use s _ =>
    if st.live s ∧ (st.ep s).iface = .south b then (st, s)
    else (st.make (.south b) BAD_SOCKET, st.next)
  | .make _ => (st.make (.south b) BAD_SOCKET, st.next)

/-- A stream with a socket is polled and its failbit cleared. Another one waits for
its address. -/
def prepareStream (n s : StreamId) (fd : Option Int) (st : Connector) : Connector :=
  if (st.sock s).native_handle ≠ BAD_SOCKET then
    (st.setTrigger s (Mask.POLLIN.union Mask.POLLOUT)).setSock s (st.sock s).clear_failbit
  else match fd with
    | some fd =>
      (st.setSock s { st.sock s with native_handle := fd }).setTrigger s
        (Mask.POLLIN.union Mask.POLLOUT)
    | none => { st with pending := st.pending ++ [(s, n)] }

/-- The eid of the next connection of a full duplex session. -/
def bumpEid (m : Mode) (eid : Uuid) : Uuid :=
  match m with
  | .HALF_DUPLEX => eid
  | .FULL_DUPLEX =>
    if eid.clock_seq_reserved &&& CLOCK_SEQ_MAX = CLOCK_SEQ_MAX then
      { eid with clock_seq_reserved := eid.clock_seq_reserved &&& ~~~CLOCK_SEQ_MAX }
    else { eid with clock_seq_reserved := eid.clock_seq_reserved + 1 }

/-- The bytes of the client that were forwarded before the chunk in its buffer. -/
def consumed (st : Connector) (n : StreamId) : List UInt8 :=
  (st.sock n).taken.take ((st.sock n).taken.length - (st.chunk n).pending.length)

/-- The loop over the backends. -/
def connectLoop (n : StreamId) : Nat → List Pick → Uuid → Connector → Connector × List Connection
  | _, [], _, st => (st, [])
  | b, p :: ps, eid, st =>
    let (st, s) := select_stream b p st
    let st := prepareStream n s p.fd st
    let eid := bumpEid st.mode eid
    let c : Connection :=
      { uuid := eid
        north := n
        south := s
        state := if (st.sock n).eof then .HALF_CLOSED else .HALF_OPEN
        cid := st.ncid
        base := consumed st n }
    let (st, cs) := connectLoop n (b + 1) ps eid { st with ncid := st.ncid + 1 }
    (st, c :: cs)

/-- `connections().insert(end, ...)`. -/
def insert (st : Connector) (cs : List Connection) : Connector :=
  { st with
    connections := st.connections ++ cs
    log := st.log ++ cs.map fun c => .opened c.north c.cid }

/-- The frame with INIT for one of the new connections. -/
def sendInit (n : StreamId) (type : Msgtype) (st : Connector) (c : Connection) : Connector :=
  if st.live c.south then writeChunk n type st c else st

/-- `_north_connect`. -/
def north_connect (o : Oracle) (n : StreamId) (st : Connector) : Connector × Int :=
  if o.eid = Uuid.nil then (st, -1)
  else
    let r := connectLoop n 0 o.picks o.eid st
    let p := (r.1.chunk n).tellp
    let type : Msgtype := if (r.1.sock n).eof then ⟨STOP, INIT⟩ else ⟨DATA, INIT⟩
    match write_prepare n p r.2 r.1 with
    | (st, true) => (insert st r.2, 0)
    | (st, false) => (insert (r.2.foldl (sendInit n type) st) r.2, (HDRLEN + p : Nat))

/-- The end of `_route`: at the end of the file, wait for a state handler. -/
def finishNorth (n : StreamId) (st : Connector) : Connector :=
  if (st.sock n).eof then (st.setTrigger n Mask.POLLOUT).clearTrigger n Mask.POLLIN else st

/-- `_route` for a client. `true` stands for -1. -/
def route_north (o : Oracle) (n : StreamId) (st : Connector) : Connector × Bool :=
  let eof := (st.sock n).eof
  let p := (st.chunk n).tellp
  if eof || p > 0 then
    match write_prepare n p st.connections st with
    | (st, true) => (st.deferInput n, false)
    | (st, false) =>
      let st := sendAll n ⟨if eof then STOP else DATA, 0⟩ st
      if !eof && !connected n st then
        match north_connect o n st with
        | (st, status) =>
          if status < 0 then (st, true)
          else if status = 0 then (st.deferInput n, false)
          else (finishNorth n st, false)
      else (finishNorth n st, false)
  else (finishNorth n st, false)

/-! ## From a transport to a client -/

/-- `_south_write`: the rest of the frame of `s` goes to the client. `false` stands
for 0: there is no room. -/
def south_write (s n : StreamId) (cid : Nat) (st : Connector) : Connector × Bool :=
  let x := st.frame s
  let pos : Int := MAX_BUFSIZE - (x.tellp - x.tellg : Nat)
  if (st.sock n).fail then (st, true)
  else
    let st := if pos ≤ (st.sock n).tellp then st.flushSock n else st
    if (st.sock n).bad then (st, true)
    else if (st.sock n).tellp < pos then
      let r := stream_write (x.tellp + 1) (st.sock n) x
      (((st.setSock n r.1).setFrame s r.2).note
        (.fed cid s n (x.contents.drop x.tellg) (st.sock n).good), true)
    else (st, false)

/-- One turn of the loop that aborts the other connections of the session. -/
def latchTurn (s : StreamId) (eid : Uuid) (st : Connector) (k : Nat) : Connector :=
  match st.connections[k]? with
  | some c =>
    if c.uuid = eid ∧ c.state.rank < ConnState.HALF_CLOSED.rank ∧ c.south ≠ s ∧ st.live c.south then
      ((st.writeHeader (some c.cid) c.south eid abortType).setTrigger c.south Mask.POLLOUT).setConn k
        (state_update c abortType)
    else st
  | none => st

def latch (s : StreamId) (eid : Uuid) (st : Connector) : Connector :=
  (List.range st.connections.length).foldl (latchTurn s eid) st

/-- The frame belongs to no connection that can take it. -/
def refuse (s : StreamId) (f : Frame) (st : Connector) : Connector :=
  let st := (st.mark s).note (.got none s f.eid f.type f.payload)
  if !(st.sock s).eof && !f.type.has ABORT then
    (st.writeHeader none s f.eid abortType).setTrigger s Mask.POLLOUT
  else st

/-- The frame belongs to the connection `c` at `k`, whose client is there. `false`
when the client has no room and the frame stays. -/
def deliver (s : StreamId) (f : Frame) (k : Nat) (c : Connection) (st : Connector) :
    Connector × Bool :=
  let gpos := (st.frame s).tellg
  let seekpos := if gpos ≤ HDRLEN then HDRLEN else gpos
  let pos := (st.frame s).tellp
  let st := st.setTrigger c.north Mask.POLLOUT
  let written := if pos > seekpos then
    south_write s c.north c.cid (st.setFrame s ((st.frame s).seekg seekpos)) else (st, true)
  match written with
  | (st, false) => (st.deferInput s, false)
  | (st, true) =>
    let c' := state_update c f.type
    let st := (st.setConn k c').note (.got (some c.cid) s f.eid f.type f.payload)
    let st := if st.mode = .HALF_DUPLEX ∧ c.state = .HALF_OPEN ∧ c'.state ≠ .HALF_OPEN ∧
        seekpos = HDRLEN ∧ pos > seekpos then latch s f.eid st else st
    (st.mark s, true)

/-- The first connection with the node of the eid on this transport. -/
def findConn (s : StreamId) (eid : Uuid) (cs : List Connection) : Option Nat :=
  cs.findIdx? fun c => c.uuid.sameNode eid && c.south == s

/-- `_route` for a transport. `true` stands for -1. -/
def route_south (s : StreamId) (st : Connector) : Connector × Bool :=
  let eof := (st.sock s).eof
  match frameOf (st.frame s) with
  | none => (st, eof)
  | some f =>
    match findConn s f.eid st.connections with
    | none => (refuse s f st, eof)
    | some k =>
      match st.connections[k]? with
      | none => (refuse s f st, eof)
      | some c =>
        if c.state = .CLOSED then (refuse s f st, eof)
        else if !st.live c.north then
          ((st.mark s).note (.got (some c.cid) s f.eid f.type f.payload), eof)
        else if c.state = .HALF_CLOSED ∧ !(st.sock c.north).eof ∧ !f.type.has ABORT then
          (refuse s f st, eof)
        else match deliver s f k c st with
          | (st, true) => (st, eof)
          | (st, false) => (st, false)

/-! ## Error and state handlers -/

/-- ABORT for a connection of a client that goes away. -/
def abortTurn (n : StreamId) (st : Connector) (c : Connection) : Connector :=
  if c.north = n ∧ st.live c.south then
    let st := st.setTrigger c.south Mask.POLLOUT
    if c.state.rank < ConnState.CLOSED.rank then
      st.writeHeader (some c.cid) c.south c.uuid abortType
    else st
  else st

/-- `_north_err_handler`. -/
def north_err_handler (n : StreamId) (st : Connector) : Connector :=
  let conns := st.connsOf n
  let st := st.connections.foldl (abortTurn n) st
  let st := st.keepConns fun c => c.north != n
  ((st.setRevents {}).clearTriggers n).erase n conns

/-- A connection of a transport that goes away is closed for its client. -/
def failTurn (s : StreamId) (st : Connector) (k : Nat) : Connector :=
  match st.connections[k]? with
  | some c =>
    if c.south = s ∧ st.live c.north then
      ((st.setConn k (state_update c abortType)).setTrigger c.north Mask.POLLOUT).note (.failed c.cid)
    else st
  | none => st

/-- `_south_err_handler`. A connection whose client is gone is removed. -/
def south_err_handler (s : StreamId) (st : Connector) : Connector :=
  let conns := st.connsOf s
  let st := (List.range st.connections.length).foldl (failTurn s) st
  let st := st.keepConns fun c => !(c.south == s && !st.live c.north)
  ((st.setRevents {}).clearTriggers s).erase s conns

/-- `session_state`: a connection that is open wins, otherwise the least state. -/
def session_state (n : StreamId) (cs : List Connection) : ConnState :=
  cs.foldl (fun state c =>
    if c.north = n then
      if c.state = .OPEN then .OPEN
      else if state ≠ .OPEN then (if c.state.rank < state.rank then c.state else state) else state
    else state) .CLOSED

/-- `_north_state_handler`. -/
def north_state_handler (n : StreamId) (st : Connector) : Connector :=
  match session_state n st.connections with
  | .CLOSED => north_err_handler n st
  | .HALF_CLOSED => (st.setRevents (st.revents.union Mask.POLLHUP)).shutdown n
  | _ => st

/-- `_south_state_handler`: a transport without a session is given 30 seconds. -/
def south_state_handler (s : StreamId) (st : Connector) : Connector :=
  if st.connections.any fun c => c.south == s && decide (c.state.rank < ConnState.CLOSED.rank) then st
  else { st.clearTriggers s with timers := st.timers ++ [s] }

/-! ## Poll handlers -/

/-- The unmarshalling half of `_north_pollin_handler`. -/
def readClient (n : StreamId) (st : Connector) : Connector :=
  let r := unmarshal (st.chunk n) (st.sock n)
  (st.setChunk n r.1).setSock n r.2

/-- The marshalling half of `_south_pollin_handler`. -/
def readTransport (s : StreamId) (st : Connector) : Connector :=
  let r := marshal (st.frame s) (st.sock s)
  (st.setFrame s r.1).setSock s r.2

def north_pollin_handler (o : Oracle) (n : StreamId) (st : Connector) : Connector × Bool :=
  route_north o n ((readClient n st).dropInput n)

def south_pollin_handler (s : StreamId) (st : Connector) : Connector × Bool :=
  route_south s ((readTransport s st).dropInput s)

/-! ## Events -/

/-- What happens around the connector. -/
inductive Env where
  /-- A client was accepted. -/
  | accept (fd : Int)
  /-- The pending connect at `j` has its socket. -/
  | connected (j : Nat) (fd : Int)
  /-- The address of the pending connect at `j` was not found. -/
  | refused (j : Nat)
  /-- The timer at `j` is over. -/
  | timeout (j : Nat)
  /-- The kernel has an answer for a later read. -/
  | rx (i : StreamId) (r : Recv)
  /-- The kernel has an answer for a later write. -/
  | tx (i : StreamId) (a : Send)
deriving DecidableEq, Repr

/-- The POLLOUT part of `_handle`, its POLLIN part, or something from outside. -/
inductive Call where
  | out (i : StreamId)
  | inn (i : StreamId) (o : Oracle)
  | env (e : Env)
deriving DecidableEq, Repr

def callOut (i : StreamId) (st : Connector) : Connector :=
  match (st.ep i).iface with
  | .north =>
    match st.pollout_handler i with
    | (st, true) => north_err_handler i st
    | (st, false) => north_state_handler i st
  | .south _ =>
    match st.pollout_handler i with
    | (st, true) => south_err_handler i st
    | (st, false) => south_state_handler i st

def callIn (i : StreamId) (o : Oracle) (st : Connector) : Connector :=
  match (st.ep i).iface with
  | .north =>
    match north_pollin_handler o i st with
    | (st, true) => north_err_handler i st
    | (st, false) => st
  | .south _ =>
    match south_pollin_handler i st with
    | (st, true) => south_err_handler i st
    | (st, false) => st

/-- `erase_connect`: the connections of the transport go, and the client that asked
for it. -/
def erase_connect (s n : StreamId) (st : Connector) : Connector :=
  let conns := st.connsOf n
  let st := if st.connections.any (·.south == s) then st.setTriggerOpen s Mask.POLLOUT else st
  let st := st.keepConns fun c => c.south != s
  if st.live n then (st.clearTriggers n).erase n conns else st

/-- The callback that waits for the address of a transport. -/
def connectCallback (s n : StreamId) (fd : Option Int) (st : Connector) : Connector :=
  if st.live s then
    match fd with
    | none => erase_connect s n st
    | some fd =>
      let st := if (st.sock s).native_handle = BAD_SOCKET then
        st.setSock s { st.sock s with native_handle := fd } else st
      st.setTrigger s (Mask.POLLIN.union Mask.POLLOUT)
  else st

def resolve (j : Nat) (fd : Option Int) (st : Connector) : Connector :=
  match st.pending[j]? with
  | some (s, n) => connectCallback s n fd { st with pending := st.pending.eraseIdx j }
  | none => st

/-- The idle timer of `_south_state_handler`. -/
def idleTimeout (s : StreamId) (st : Connector) : Connector :=
  if st.live s && !st.connections.any fun c =>
      c.south == s && decide (c.state.rank < ConnState.CLOSED.rank) then
    (st.setSock s (st.sock s).set_failbit).setTrigger s Mask.POLLOUT
  else st

def callEnv : Env → Connector → Connector
  | .accept fd, st => (st.make .north fd).setTrigger st.next Mask.POLLIN
  | .connected j fd, st => resolve j (some fd) st
  | .refused j, st => resolve j none st
  | .timeout j, st =>
    match st.timers[j]? with
    | some s => idleTimeout s { st with timers := st.timers.eraseIdx j }
    | none => st
  | .rx i r, st => st.pushRx i r
  | .tx i a, st => st.pushTx i a

def call : Call → Connector → Connector
  | .out i, st => if st.live i then callOut i st else st
  | .inn i o, st => if st.live i then callIn i o st else st
  | .env e, st => callEnv e st

inductive Event where
  | poll (i : StreamId) (revents : Mask) (o : Oracle)
  | env (e : Env)
deriving DecidableEq, Repr

/-- The state after the POLLOUT part of `_handle`. -/
def afterOut (i : StreamId) (st : Connector) : Connector :=
  if st.revents.isOut then call (.out i) st else st

/-- `_handle` for one event. -/
def handle : Event → Connector → Connector
  | .poll i revents o, st =>
    let st := afterOut i (st.enter i revents)
    if st.revents.isIn then call (.inn i o) st else st
  | .env e, st => callEnv e st

/-- The calls of one event, each with the state it is made in. -/
def calls : Event → Connector → List (Call × Connector)
  | .poll i revents o, st =>
    let st0 := st.enter i revents
    let st1 := afterOut i st0
    (if st0.revents.isOut then [(.out i, st0)] else []) ++
      (if st1.revents.isIn then [(.inn i o, st1)] else [])
  | .env e, st => [(.env e, st)]

end cloudbus.controller
