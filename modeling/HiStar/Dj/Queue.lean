import HiStar.Dj.AddrCache

namespace HiStar.Dj

inductive DjDeliveryCode
  | done
  | timeout
  | noAddress
  | localDelegation
  | localErr
  deriving DecidableEq

/-- A queued message: which one it is, where it goes, whether it can be
marshalled, and whether its callback is still set. -/
structure MsgClient where
  id : Nat
  dst : DjPubkey
  encodes : Bool
  cb : Bool
  deriving DecidableEq

/-- The state of the protocol: the queue, the connections by their peers, the
addresses, the TCP connects and the key exchanges that are under way; an
incoming connection does not know its peer before the exchange. The last fields
record what was done: callbacks invoked, how messages left the queue, and which
messages came with a callback. -/
structure Djprot where
  self : DjPubkey
  clnt : List MsgClient := []
  tcpconn : List DjPubkey := []
  addrs : AddrCache
  connecting : List DjPubkey := []
  keying : List (Option DjPubkey) := []
  calls : List (Nat × DjDeliveryCode) := []
  ends : List (Nat × DjDeliveryCode) := []
  supplied : List Nat := []
  nextId : Nat := 0
  deriving DecidableEq

namespace Djprot

def clntDone (s : Djprot) (cc : MsgClient) (code : DjDeliveryCode) : Djprot :=
  { s with
    calls := if cc.cb then s.calls ++ [(cc.id, code)] else s.calls
    clnt := s.clnt.filter (·.id ≠ cc.id)
    ends := s.ends ++ [(cc.id, code)] }

def addrExpired (a : PkAddr) (now : Nat) : Bool :=
  now < (a.fromTs + 2 ^ 32 - delegationTimeSkew) % 2 ^ 32 ||
    now > (a.untilTs + delegationTimeSkew) % 2 ^ 32

def addrOf (ih : Ihash PkAddr) (s : Djprot) (k : DjPubkey) : Option PkAddr :=
  ih.pick s.addrs.entries (·.pk.eq k)

def clntTransmit (ih : Ihash PkAddr) (s : Djprot) (cc : MsgClient) (now : Nat) : Djprot :=
  if cc.dst.eq s.self then s.clntDone cc .done
  else if s.tcpconn.any (·.eq cc.dst) then
    if cc.encodes then s.clntDone cc .done else s.clntDone cc .localErr
  else
    match s.addrOf ih cc.dst with
    | none => s.clntDone cc .noAddress
    | some a =>
      if addrExpired a now then s.clntDone cc .noAddress
      else
        -- the callback is invoked whether it is set or not
        { s with
          calls := s.calls ++ [(cc.id, .done)]
          clnt := s.clnt.map fun m ↦ if m.id = cc.id then { m with cb := false } else m
          connecting := cc.dst :: s.connecting }

/-- The state `send` goes on from, with the new message in the queue. -/
def queued (s : Djprot) (dst : DjPubkey) (encodes cb : Bool) : Djprot :=
  { s with
    clnt := ⟨s.nextId, dst, encodes, cb⟩ :: s.clnt
    nextId := s.nextId + 1
    supplied := if cb then s.nextId :: s.supplied else s.supplied }

def send (verifySign : DjStmt → DjPubkey → DjSign → Bool) (ih : Ihash PkAddr) (s : Djprot)
    (msg : DjMessage) (dset : DjDelegationSet) (encodes cb : Bool) (now : Nat) : Djprot :=
  if labelcheckSend verifySign s.self msg dset then
    (s.queued msg.dst encodes cb).clntTransmit ih ⟨s.nextId, msg.dst, encodes, cb⟩ now
  else
    (s.queued msg.dst encodes cb).clntDone ⟨s.nextId, msg.dst, encodes, cb⟩ .localDelegation

def queuedFor (s : Djprot) (k : DjPubkey) : List MsgClient := s.clnt.filter (·.dst.eq k)

def dropAll (s : Djprot) (k : DjPubkey) : Djprot :=
  (s.queuedFor k).foldl (fun s mc ↦ s.clntDone mc .timeout) s

def transmitAll (ih : Ihash PkAddr) (s : Djprot) (k : DjPubkey) (now : Nat) : Djprot :=
  (s.queuedFor k).foldl (fun s mc ↦ s.clntTransmit ih mc now) s

end Djprot

inductive Event
  | send (msg : DjMessage) (dset : DjDelegationSet) (encodes cb : Bool) (now : Nat)
  | tcpConnected (pk : DjPubkey) (ok : Bool)
  | tcpAccept
  | cannotConnect (cc : Option DjPubkey) (remote : DjPubkey)
  | connected (cc : Option DjPubkey) (remote : DjPubkey) (now : Nat)
  | disconnected (remote : DjPubkey)
  | delegation (d : DjDelegation)
  | cleanup (now : Nat)

/-- The handler of an event, where the event can occur: a connect ends that was
begun, an exchange reports once, and an outgoing one with the key it was begun
for. An incoming one that fails may have any `remote_`. -/
def Djprot.step (verifySign : DjStmt → DjPubkey → DjSign → Bool) (ih : Ihash PkAddr) (s : Djprot) :
    Event → Option Djprot
  | .send msg dset encodes cb now => some (s.send verifySign ih msg dset encodes cb now)
  | .tcpConnected pk ok =>
    if pk ∈ s.connecting then
      let s := { s with connecting := s.connecting.erase pk }
      some (if ok then { s with keying := some pk :: s.keying } else s)
    else none
  | .tcpAccept => some { s with keying := none :: s.keying }
  | .cannotConnect cc remote =>
    if cc ∈ s.keying ∧ (cc = none ∨ cc = some remote) then
      let s := { s with keying := s.keying.erase cc }
      some (s.dropAll remote)
    else none
  | .connected cc remote now =>
    if cc ∈ s.keying ∧ (cc = none ∨ cc = some remote) then
      let s := { s with keying := s.keying.erase cc, tcpconn := remote :: s.tcpconn }
      some (s.transmitAll ih remote now)
    else none
  | .disconnected remote =>
    if remote ∈ s.tcpconn then
      let s := { s with tcpconn := s.tcpconn.erase remote }
      some (s.dropAll remote)
    else none
  | .delegation d => (s.addrs.processDelegation ih d).map fun c ↦ { s with addrs := c }
  | .cleanup now => some { s with addrs := s.addrs.cacheCleanup now }

end HiStar.Dj
