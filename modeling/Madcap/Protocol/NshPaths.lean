import Madcap.Protocol.Nsh
import Madcap.Protocol.Tunnels

/-!
# The paths of a namespace

The requests that create and delete nsh devices, assign them to paths and give paths
their targets, and what the driver does when another device of the namespace is
unregistered. A path leads to an nsh device or to a remote node.
-/

namespace Madcap

def EBUSY : ℤ := 16

/-- A `NSHKMOD_ATTR_ENCAP` value; a path that leads to a device. -/
def NSH_ENCAP_TYPE_NONE : U8 := 0

def VXLAN_HEADROOM : ℤ := 50
def DEFAULT_MTU : ℤ := 1500

/-- A registered device of the namespace. `nsh` says whether its `netdev_ops` are
`nsh_netdev_ops`. -/
structure NetDevice where
  dev : NetDev
  ifindex : U32
  nsh : Bool
  mtu : ℤ
  deriving DecidableEq, Repr

/-- A namespace: `struct nsh_net` with its list of devices, the registered devices, the
madcap devices among them, and the number of `struct nsh_dst` objects in use. -/
structure NshWorld where
  nnet : NshNet
  devList : List NetDev
  netdevs : List NetDevice
  madcap : TunnelNet
  dsts : ℕ

/-- The attributes of a request. -/
structure NshAttrs where
  ifindex : Option U32
  spi : Option U32
  si : Option U8
  mdtype : Option U8
  encap : Option U8
  remote : Option U32
  localIp : Option U32
  vni : Option U32
  ethaddr : Option Mac
  deriving DecidableEq, Repr

/-- What the allocations of a request for a path return: the object for the remote node
with what its memory held before, and whether there is memory for the entry. -/
structure NshMem where
  dst : Option NshDst
  table : Bool
  deriving DecidableEq, Repr

/-- `nt->rdst && nt->rdst->lowerdev == dev`. -/
def NshTable.goesOver (nt : NshTable) (dev : NetDev) : Bool :=
  match nt.rdst with
  | some rdst => rdst.lowerdev = some dev
  | none => false

/-- `htonl((spi << 8) | si)`. -/
def nshKey (spi : U32) (si : U8) : U32 := htonl (spi <<< 8 ||| si.setWidth 32)

namespace NshWorld

def devGetByIndex (w : NshWorld) (ifindex : U32) : Option NetDevice :=
  w.netdevs.find? fun d => d.ifindex = ifindex

def isRegistered (w : NshWorld) (dev : NetDev) : Bool := w.netdevs.any fun d => d.dev = dev

/-- `register_netdevice`, with an error that is not about the ifindex. -/
def registerNetdevice (w : NshWorld) (d : NetDevice) (err : ℤ) : ℤ × NshWorld :=
  if err ≠ 0 then (err, w)
  else if (w.devGetByIndex d.ifindex).isSome then (-EBUSY, w)
  else (0, { w with netdevs := w.netdevs ++ [d] })

/-- The kernel's `eth_change_mtu`. -/
def ethChangeMtu (w : NshWorld) (dev : NetDev) (newMtu : ℤ) : ℤ × NshWorld :=
  if newMtu < 68 ∨ DEFAULT_MTU < newMtu then (-EINVAL, w)
  else
    (0, { w with netdevs := w.netdevs.map fun d => if d.dev = dev then { d with mtu := newMtu } else d })

def nshAddTable (env : NshEnv) (w : NshWorld) (key : U32) (mdtype encapType : U8)
    (rdev : Option NetDev) (rdst : Option NshDst) (granted : Bool) : ℤ × NshWorld :=
  if !granted then (-ENOMEM, w)
  else
    let nt : NshTable :=
      { key := key
        spi := htonl key >>> 8
        si := (htonl key &&& 0xFF).setWidth 8
        mdtype := mdtype
        encapType := encapType
        rdev := rdev
        rdst := rdst }
    let head := env.hash32 key
    (0, { w with nnet := { w.nnet with
      nshTable := Function.update w.nnet.nshTable head (nt :: w.nnet.nshTable head) } })

def freeDsts (w : NshWorld) (nts : List NshTable) : NshWorld :=
  { w with dsts := w.dsts - nts.countP fun nt => nt.rdst.isSome }

/-- `nsh_delete_table` of the entry that `nsh_find_table` returns. -/
def nshDeleteTable (env : NshEnv) (w : NshWorld) (nt : NshTable) : NshWorld :=
  let head := env.hash32 nt.key
  let w := w.freeDsts [nt]
  { w with nnet := { w.nnet with
    nshTable := Function.update w.nnet.nshTable head
      ((w.nnet.nshTable head).eraseP fun e => nt.key == e.key) } }

def nshSweep (w : NshWorld) (doomed : NshTable → Bool) : NshWorld :=
  let w := w.freeDsts (((List.finRange nshHashSize).flatMap w.nnet.nshTable).filter doomed)
  { w with nnet := { w.nnet with
    nshTable := fun n => (w.nnet.nshTable n).filter fun nt => !doomed nt } }

def nshHandleLowerdevUnregister (w : NshWorld) (dev : NetDev) : NshWorld :=
  w.nshSweep fun nt => nt.goesOver dev

/-- The device leaves the namespace, and the driver hears of it. -/
def unregisterNetdevice (w : NshWorld) (dev : NetDev) : NshWorld :=
  let w := { w with
    netdevs := w.netdevs.filter fun d => d.dev ≠ dev
    madcap := { w.madcap with lower := Function.update w.madcap.lower dev none } }
  w.nshHandleLowerdevUnregister dev

/-- `nsh_newlink` of a device that `nsh_setup` has initialised. -/
def nshNewlink (w : NshWorld) (dev : NetDev) (ifindex : U32) (spi : Option U32) (si : Option U8)
    (err : ℤ) : ℤ × NshWorld :=
  let key :=
    match spi, si with
    | some spi, some si => nshKey spi si
    | _, _ => 0
  let w := { w with nnet := { w.nnet with devKey := Function.update w.nnet.devKey dev key } }
  let (err, w) :=
    w.registerNetdevice { dev := dev, ifindex := ifindex, nsh := true, mtu := DEFAULT_MTU } err
  if err ≠ 0 then (err, w) else (0, { w with devList := w.devList ++ [dev] })

/-- `nsh_dellink` with the unregistration it asks for. -/
def nshDellink (w : NshWorld) (dev : NetDev) : ℤ × NshWorld :=
  let w := w.nshSweep fun nt => nt.rdev = some dev
  let w := { w with devList := w.devList.erase dev }
  (0, w.unregisterNetdevice dev)

/-- The loop of `nsh_nl_cmd_path_dst_set` over the list of devices. -/
def acquireAll (m : TunnelNet) (lowerdev : NetDev) (devs : List NetDev) : TunnelNet :=
  devs.foldl (fun m ndev => (m.madcapAcquireDev lowerdev ndev).2) m

def pathDstSetNone (env : NshEnv) (w : NshWorld) (a : NshAttrs) (key : U32) (mdtype : U8)
    (mem : NshMem) : ℤ × NshWorld :=
  match a.ifindex with
  | none => (-EINVAL, w)
  | some ifindex =>
    match w.devGetByIndex ifindex with
    | none => (-ENODEV, w)
    | some dev =>
      if !dev.nsh then (-EINVAL, w)
      else
        (0, (w.nshAddTable env key mdtype NSH_ENCAP_TYPE_NONE (some dev.dev) none mem.table).2)

/-- The path leads to a VXLAN tunnel. Without an ifindex `lowerdev` stays what it was. -/
def pathDstSetVxlan (env : NshEnv) (w : NshWorld) (a : NshAttrs) (key : U32) (mdtype : U8)
    (mem : NshMem) : ℤ × NshWorld :=
  match a.encap, a.remote with
  | some _, some remote =>
    match mem.dst with
    | none => (-ENOMEM, w)
    | some dst =>
      let w := { w with dsts := w.dsts + 1 }
      let dst := { dst with
        remoteIp := remote
        localIp := a.localIp.getD 0
        vni := a.vni.getD 0 }
      match a.ifindex with
      | none =>
        (0, (w.nshAddTable env key mdtype NSH_ENCAP_TYPE_VXLAN none (some dst) mem.table).2)
      | some ifindex =>
        match w.devGetByIndex ifindex with
        | none => (-ENODEV, w)
        | some lowerdev =>
          if lowerdev.nsh then (-EINVAL, w)
          else
            let dst := { dst with lowerdev := some lowerdev.dev }
            let w := { w with madcap := acquireAll w.madcap lowerdev.dev w.devList }
            (0, (w.nshAddTable env key mdtype NSH_ENCAP_TYPE_VXLAN none (some dst) mem.table).2)
  | _, _ => (-EINVAL, w)

def pathDstSetEther (env : NshEnv) (w : NshWorld) (a : NshAttrs) (key : U32) (mdtype : U8)
    (mem : NshMem) : ℤ × NshWorld :=
  match a.ifindex, a.ethaddr with
  | some ifindex, some ethAddr =>
    match w.devGetByIndex ifindex with
    | none => (-ENODEV, w)
    | some lowerdev =>
      if lowerdev.nsh then (-EINVAL, w)
      else
        match mem.dst with
        | none => (-ENOMEM, w)
        | some dst =>
          let w := { w with dsts := w.dsts + 1 }
          let dst := { dst with lowerdev := some lowerdev.dev, ethAddr := ethAddr }
          (0, (w.nshAddTable env key mdtype NSH_ENCAP_TYPE_ETHER none (some dst) mem.table).2)
  | _, _ => (-EINVAL, w)

def nshNlCmdPathDstSet (env : NshEnv) (w : NshWorld) (a : NshAttrs) (mem : NshMem) :
    ℤ × NshWorld :=
  match a.spi, a.si with
  | some spi, some si =>
    let key := nshKey spi si
    match w.nnet.nshFindTable env key with
    | some _ => (-EEXIST, w)
    | none =>
      let mdtype := a.mdtype.getD NSH_BASE_MDTYPE1
      let encapType := a.encap.getD NSH_ENCAP_TYPE_NONE
      if encapType = NSH_ENCAP_TYPE_NONE then w.pathDstSetNone env a key mdtype mem
      else if encapType = NSH_ENCAP_TYPE_VXLAN then w.pathDstSetVxlan env a key mdtype mem
      else if encapType = NSH_ENCAP_TYPE_ETHER then w.pathDstSetEther env a key mdtype mem
      else (-EINVAL, w)
  | _, _ => (-EINVAL, w)

def nshNlCmdPathDstUnset (env : NshEnv) (w : NshWorld) (a : NshAttrs) : ℤ × NshWorld :=
  match a.spi, a.si with
  | some spi, some si =>
    match w.nnet.nshFindTable env (nshKey spi si) with
    | none => (-ENOENT, w)
    | some nt => (0, w.nshDeleteTable env nt)
  | _, _ => (-EINVAL, w)

/-- `nsh_change_mtu_for_path`. It reads the lower device of an entry for a neighbour. -/
def nshChangeMtuForPath (w : NshWorld) (dev : NetDev) (nt : NshTable) : Res NshWorld :=
  let hlen : ℤ :=
    if nt.mdtype = NSH_BASE_MDTYPE1 then NSH_MDTYPE1_HLEN else NSH_MDTYPE2_0_HLEN
  if nt.encapType = NSH_ENCAP_TYPE_VXLAN then
    return (w.ethChangeMtu dev (DEFAULT_MTU - (hlen + VXLAN_HEADROOM))).2
  else if nt.encapType = NSH_ENCAP_TYPE_ETHER then
    match nt.rdst.bind NshDst.lowerdev with
    | none => throw .badAccess
    | some lowerdev =>
      match w.netdevs.find? fun d => d.dev = lowerdev with
      | none => throw .badAccess
      | some d => return (w.ethChangeMtu dev (d.mtu - (hlen + ETH_HLEN))).2
  else return w

def nshNlCmdDevPathSet (env : NshEnv) (w : NshWorld) (a : NshAttrs) : Res (ℤ × NshWorld) :=
  match a.ifindex, a.spi, a.si with
  | some ifindex, some spi, some si =>
    let key := nshKey spi si
    match w.devGetByIndex ifindex with
    | none => return (-ENODEV, w)
    | some dev =>
      if !dev.nsh then return (-EINVAL, w)
      else do
        let w ←
          match w.nnet.nshFindTable env key with
          | some nt => w.nshChangeMtuForPath dev.dev nt
          | none => pure w
        return (0, { w with nnet := { w.nnet with
          devKey := Function.update w.nnet.devKey dev.dev key } })
  | _, _, _ => return (-EINVAL, w)

def nshNlCmdDevPathUnset (w : NshWorld) (a : NshAttrs) : ℤ × NshWorld :=
  match a.ifindex with
  | none => (-EINVAL, w)
  | some ifindex =>
    match w.devGetByIndex ifindex with
    | none => (-ENODEV, w)
    | some dev =>
      if !dev.nsh then (-EINVAL, w)
      else
        (0, { w with nnet := { w.nnet with devKey := Function.update w.nnet.devKey dev.dev 0 } })

/-- What can happen in the namespace. A new device is not at the address of a registered
one, and nsh devices are unregistered by `nsh_dellink` only. -/
inductive Event where
  | newlink (dev : NetDev) (ifindex : U32) (spi : Option U32) (si : Option U8) (err : ℤ)
  | dellink (dev : NetDev)
  | pathDstSet (a : NshAttrs) (mem : NshMem)
  | pathDstUnset (a : NshAttrs)
  | devPathSet (a : NshAttrs)
  | devPathUnset (a : NshAttrs)
  | lowerRegister (dev : NetDev) (ifindex : U32) (mtu : ℤ) (priv : Option FreshMadcap)
  | lowerUnregister (dev : NetDev)

def lowerRegister (w : NshWorld) (dev : NetDev) (ifindex : U32) (mtu : ℤ)
    (priv : Option FreshMadcap) : ℤ × NshWorld :=
  let (err, w) :=
    w.registerNetdevice { dev := dev, ifindex := ifindex, nsh := false, mtu := mtu } 0
  if err ≠ 0 then (err, w)
  else
    (0, { w with madcap := { w.madcap with
      lower := Function.update w.madcap.lower dev (priv.map FreshMadcap.priv) } })

def step (env : NshEnv) (w : NshWorld) : Event → Res (ℤ × NshWorld)
  | .newlink dev ifindex spi si err =>
    return if w.isRegistered dev then (-EEXIST, w) else w.nshNewlink dev ifindex spi si err
  | .dellink dev =>
    return if w.netdevs.any fun d => d.dev = dev && d.nsh then w.nshDellink dev else (-ENODEV, w)
  | .pathDstSet a mem => return w.nshNlCmdPathDstSet env a mem
  | .pathDstUnset a => return w.nshNlCmdPathDstUnset env a
  | .devPathSet a => w.nshNlCmdDevPathSet env a
  | .devPathUnset a => return w.nshNlCmdDevPathUnset a
  | .lowerRegister dev ifindex mtu priv =>
    return if w.isRegistered dev then (-EEXIST, w) else w.lowerRegister dev ifindex mtu priv
  | .lowerUnregister dev =>
    return if w.netdevs.any fun d => d.dev = dev && !d.nsh then (0, w.unregisterNetdevice dev)
      else (-ENODEV, w)

def next (env : NshEnv) (w : NshWorld) (e : Event) : Res NshWorld := do
  let (_, w) ← w.step env e
  return w

/-- The namespace as `nshkmod_init_net` leaves it, before any device is registered. -/
def init : NshWorld where
  nnet := { nshTable := fun _ => [], devKey := fun _ => 0 }
  devList := []
  netdevs := []
  madcap := { lower := fun _ => none, tunnels := fun _ => none }
  dsts := 0

def run (env : NshEnv) (w : NshWorld) (es : List Event) : Res NshWorld := runSteps (next env) w es

end NshWorld

end Madcap
