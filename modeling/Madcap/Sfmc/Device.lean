import Madcap.Foundation.Runs
import Madcap.Sfmc.Encap

/-!
# The device and its events

The entry points of the driver: the madcap operations, the switchdev operations,
the neighbour notifier and the queued work. A device runs by taking one event
after another in any order.
-/

namespace Madcap

namespace Sfmc

def sfmcAcquireDev (s : Sfmc) (vdev : NetDev) : ℤ × Sfmc :=
  if (List.finRange sfmcVdevMax).any fun n => s.vdev n = some vdev then (-EEXIST, s)
  else
    match (List.finRange sfmcVdevMax).find? fun n => s.vdev n = none with
    | some n => (0, { s with vdev := Function.update s.vdev n (some vdev) })
    | none => (-ENOMEM, s)

def sfmcReleaseDev (s : Sfmc) (vdev : NetDev) : ℤ × Sfmc :=
  match (List.finRange sfmcVdevMax).find? fun n => s.vdev n = some vdev with
  | some n => (0, { s with vdev := Function.update s.vdev n none })
  | none => (-ENOENT, s)

/-- `sfmc_llt_cfg`. The third argument of its `memcmp` is `sizeof (*oc) != 0`, so
that one byte is compared: the first byte of `obj.id`. -/
def sfmcLltCfg (s : Sfmc) (oc : ObjConfig) : ℤ × Sfmc :=
  if byteAt oc.obj.id 0 ≠ byteAt s.oc.obj.id 0 then
    (0, { s.sfmcTableDestroy with oc := oc })
  else
    (0, s)

def sfmcLltConfigGet (s : Sfmc) : ObjConfig := s.oc

def sfmcLltEntryAdd (env : Env) (s : Sfmc) (oe : ObjEntry) : ℤ × Sfmc :=
  match s.sfmcTableFind env oe.id with
  | some _ => (-EEXIST, s)
  | none =>
    match s.kmalloc with
    | (true, s) => (0, s.sfmcTableAdd env oe)
    | (false, s) => (-ENOMEM, s)

def sfmcLltEntryDel (env : Env) (s : Sfmc) (oe : ObjEntry) : ℤ × Sfmc :=
  match s.sfmcTableFind env oe.id with
  | none => (-ENOENT, s)
  | some _ => (0, s.sfmcTableDelete env oe.id)

def sfmcUdpCfg (s : Sfmc) (ou : ObjUdp) : ℤ × Sfmc := (0, { s with ou := ou })

end Sfmc

/-- `enum switchdev_trans`. -/
inductive SwitchdevTrans where
  | none
  | prepare
  | abort
  | commit
  deriving DecidableEq, Repr

/-- `struct switchdev_obj_ipv4_fib`: the kernel passes the destination in host order
and a length that is a prefix length, with the next hop's gateway and scope. -/
structure SwitchdevIpv4Fib where
  dst : U32
  dstLen : Fin 33
  gateway : U32
  scope : U8
  deriving DecidableEq, Repr

/-- `struct switchdev_obj` by its identifier. -/
inductive SwitchdevObj where
  | ipv4Fib (fib : SwitchdevIpv4Fib)
  | other
  deriving DecidableEq, Repr

/-- A device and the neighbour table of its network. -/
structure World where
  sfmc : Sfmc
  arp : ArpTable

namespace World

/-- `sfmc_neigh_resolve`. A missing neighbour is created as `created`, or not at all.
What `neigh_event_send` does to a neighbour is a neighbour change of its own. -/
def sfmcNeighResolve (w : World) (sf : Ref) (created : Option Neighbour) : Res World := do
  let f ← w.sfmc.fibs.read sf
  match (w.arp f.gateway).or created with
  | none => return w
  | some n => do
    let w := { w with arp := Function.update w.arp f.gateway (some n) }
    if nudValid n.nudState then
      let s ← w.sfmc.sfmcNeighWrite sf n
      return { w with sfmc := s }
    else
      return w

/-- The commit of an IPv4 route: `gateway == 0` outside link scope is not installed. -/
def addRoute (w : World) (fib : SwitchdevIpv4Fib) (created : Option Neighbour) :
    Res (ℤ × World) :=
  if fib.gateway = 0 && fib.scope ≠ RT_SCOPE_LINK then return (0, w)
  else do
    let (sf, s) ← w.sfmc.sfmcFibAdd (htonl fib.dst) fib.dstLen fib.gateway fib.scope
    let w := { w with sfmc := s }
    match sf with
    | none => return (-ENOMEM, w)
    | some sf => do
      let w ← w.sfmcNeighResolve sf created
      return (0, w)

def sfmcPortObjAdd (w : World) (phase : SwitchdevTrans) (obj : SwitchdevObj)
    (created : Option Neighbour) : Res (ℤ × World) :=
  match phase with
  | .prepare | .abort => return (0, w)
  | .none => return (-ENOTSUPP, w)
  | .commit =>
    match obj with
    | .ipv4Fib fib => w.addRoute fib created
    | .other => return (-EOPNOTSUPP, w)

def sfmcPortObjDel (w : World) (obj : SwitchdevObj) : Res (ℤ × World) :=
  match obj with
  | .ipv4Fib fib => do
    let (err, s) ← w.sfmc.sfmcFibDel (htonl fib.dst) fib.dstLen
    return (err, { w with sfmc := s })
  | .other => return (-EOPNOTSUPP, w)

/-- `sfmc_ll_neigh_work` for the queued route `sf`. -/
def sfmcLlNeighWork (w : World) (sf : Ref) (created : Option Neighbour) : Res World := do
  let (tmp, s) ← w.sfmc.sfmcFibInsert sf
  let s := if tmp = none then { s with fibs := s.fibs.free sf } else s
  { w with sfmc := s }.sfmcNeighResolve sf created

def runWork (w : World) (sf : Ref) (created : Option Neighbour) : Res World :=
  if sf ∈ w.sfmc.wq then
    { w with sfmc := { w.sfmc with wq := w.sfmc.wq.erase sf } }.sfmcLlNeighWork sf created
  else
    return w

end World

/-- What can happen to a device. A neighbour's change comes with its notification;
a neighbour is only dropped from the table while it is not valid. -/
inductive Event where
  | acquireDev (vdev : NetDev)
  | releaseDev (vdev : NetDev)
  | lltCfg (oc : ObjConfig)
  | lltEntryAdd (oe : ObjEntry)
  | lltEntryDel (oe : ObjEntry)
  | udpCfg (ou : ObjUdp)
  | portObjAdd (phase : SwitchdevTrans) (obj : SwitchdevObj) (created : Option Neighbour)
  | portObjDel (obj : SwitchdevObj)
  | llNeighWork (sf : Ref) (created : Option Neighbour)
  | encapPacket (skb : SkBuff)
  | neighChange (ip : U32) (n : Neighbour)
  | neighDrop (ip : U32)

def ArpTable.drop (arp : ArpTable) (ip : U32) : ArpTable :=
  match arp ip with
  | none => arp
  | some n => if nudValid n.nudState then arp else Function.update arp ip none

namespace World

def step (env : Env) (w : World) : Event → Res World
  | .acquireDev vdev => return { w with sfmc := (w.sfmc.sfmcAcquireDev vdev).2 }
  | .releaseDev vdev => return { w with sfmc := (w.sfmc.sfmcReleaseDev vdev).2 }
  | .lltCfg oc => return { w with sfmc := (w.sfmc.sfmcLltCfg oc).2 }
  | .lltEntryAdd oe => return { w with sfmc := (w.sfmc.sfmcLltEntryAdd env oe).2 }
  | .lltEntryDel oe => return { w with sfmc := (w.sfmc.sfmcLltEntryDel env oe).2 }
  | .udpCfg ou => return { w with sfmc := (w.sfmc.sfmcUdpCfg ou).2 }
  | .portObjAdd phase obj created => do
    let (_, w) ← w.sfmcPortObjAdd phase obj created
    return w
  | .portObjDel obj => do
    let (_, w) ← w.sfmcPortObjDel obj
    return w
  | .llNeighWork sf created => w.runWork sf created
  | .encapPacket skb => do
    let (_, _, s) ← w.sfmc.sfmcEncapPacket env skb
    return { w with sfmc := s }
  | .neighChange ip n => do
    let s ← w.sfmc.sfmcNeighUpdate ip n
    return { sfmc := s, arp := Function.update w.arp ip (some n) }
  | .neighDrop ip => return { w with arp := w.arp.drop ip }

def run (env : Env) (w : World) (es : List Event) : Res World := runSteps (step env) w es

def init (permAddr : Mac) (grants : ℕ → Bool) (arp : ArpTable) : World where
  sfmc := sfmcInit permAddr (freshZone grants)
  arp := arp

end World

end Madcap
