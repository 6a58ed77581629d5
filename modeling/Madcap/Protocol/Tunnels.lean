import Madcap.Core.Registry

/-!
# Tunnel devices

The vxlan, gre, gretap and ipip devices of a namespace and the madcap devices under
them. A tunnel acquires its lower device when it is created through rtnetlink. What the
kernel decides in the course of a request (whether a VNI is in use, whether a device can
be registered, the results of the `ip_tunnel` functions) comes with the request.
-/

namespace Madcap

def EPERM : ℤ := 1
def ENODEV : ℤ := 19
def EPFNOSUPPORT : ℤ := 96

inductive TunnelKind where
  | vxlan
  | gre
  | gretap
  | ipip
  deriving DecidableEq, Repr

/-- A tunnel device: `mcdev` of a vxlan device, `parms.link` of the others. -/
structure Tunnel where
  kind : TunnelKind
  mcdev : Option NetDev
  link : ℕ
  deriving DecidableEq, Repr

/-- The namespace's devices by ifindex, which options the kernel was built with, and the
`madcap_enable` of the modules. -/
structure TunnelEnv where
  devGetByIndex : ℕ → Option NetDev
  ipv6 : Bool
  vxlanEnable : Bool
  greEnable : Bool
  ipipEnable : Bool

/-- A madcap device to be initialised by its driver. -/
inductive FreshMadcap where
  | raven
  | sfmc (permAddr : Mac) (zone : Zone)

def FreshMadcap.priv : FreshMadcap → MadcapPriv
  | .raven => .raven ravenSetup
  | .sfmc permAddr zone => .sfmc (sfmcInit permAddr zone)

/-- The madcap devices and the tunnel devices that exist. -/
structure TunnelNet where
  lower : NetDev → Option MadcapPriv
  tunnels : NetDev → Option Tunnel

/-- A request for a vxlan device, with the outcomes of the checks in `vxlan_newlink`. -/
structure VxlanLink where
  id : Bool
  useIpv6 : Bool
  link : ℕ
  ipv6Disabled : Bool
  duplicateVni : Bool
  remoteAny : Bool
  fdbErr : ℤ
  registerErr : ℤ
  deriving DecidableEq, Repr

/-- A request for a gre or ipip device: the result of `ip_tunnel_encap_setup` and of the
`ip_tunnel` function at its end. -/
structure IpLink where
  encapErr : ℤ
  link : ℕ
  err : ℤ
  deriving DecidableEq, Repr

/-- A request for a new link. -/
inductive LinkArgs where
  | vxlan (a : VxlanLink)
  | gre (a : IpLink)
  | gretap (a : IpLink)
  | ipip (a : IpLink)
  deriving DecidableEq, Repr

namespace TunnelNet

/-- `get_madcap_ops` is not null. -/
def capable (w : TunnelNet) (dev : NetDev) : Bool := (w.lower dev).isSome

def madcapAcquireDev (w : TunnelNet) (dev vdev : NetDev) : ℤ × TunnelNet :=
  match w.lower dev with
  | none => (-EOPNOTSUPP, w)
  | some (.raven r) =>
    let (err, r) := r.ravenAcquireDev vdev
    (err, { w with lower := Function.update w.lower dev (some (.raven r)) })
  | some (.sfmc s) =>
    let (err, s) := s.sfmcAcquireDev vdev
    (err, { w with lower := Function.update w.lower dev (some (.sfmc s)) })

def addTunnel (w : TunnelNet) (dev : NetDev) (t : Tunnel) : TunnelNet :=
  { w with tunnels := Function.update w.tunnels dev (some t) }

section

variable {w : TunnelNet} {dev d : NetDev} {t : Tunnel}

@[simp] theorem addTunnel_lower : (w.addTunnel dev t).lower = w.lower := rfl

@[simp] theorem addTunnel_self : (w.addTunnel dev t).tunnels dev = some t :=
  Function.update_self ..

theorem addTunnel_of_ne (h : d ≠ dev) : (w.addTunnel dev t).tunnels d = w.tunnels d :=
  Function.update_of_ne h ..

theorem addTunnel_isSome (h : d = dev ∨ (w.tunnels d).isSome = true) :
    ((w.addTunnel dev t).tunnels d).isSome = true := by
  by_cases hd : d = dev
  · subst hd
    rw [addTunnel_self]
    rfl
  · rw [addTunnel_of_ne hd]
    exact h.resolve_left hd

end

variable (env : TunnelEnv)

/-- The end of `vxlan_newlink`. -/
def vxlanRegister (w : TunnelNet) (dev : NetDev) (a : VxlanLink) (mcdev : Option NetDev) :
    ℤ × TunnelNet :=
  if a.duplicateVni then (-EEXIST, w)
  else if !a.remoteAny && a.fdbErr ≠ 0 then (a.fdbErr, w)
  else if a.registerErr ≠ 0 then (a.registerErr, w)
  else (0, w.addTunnel dev { kind := .vxlan, mcdev := mcdev, link := a.link })

/-- `vxlan_newlink`. The lower device is acquired whether or not madcap is enabled, and
before the last checks. -/
def vxlanNewlink (w : TunnelNet) (dev : NetDev) (a : VxlanLink) : ℤ × TunnelNet :=
  if !a.id then (-EINVAL, w)
  else if a.useIpv6 && !env.ipv6 then (-EPFNOSUPPORT, w)
  else if a.link ≠ 0 then
    match env.devGetByIndex a.link with
    | none => (-ENODEV, w)
    | some lowerdev =>
      if w.capable lowerdev then
        let (_, w) := w.madcapAcquireDev lowerdev dev
        if a.useIpv6 && a.ipv6Disabled then (-EPERM, w)
        else w.vxlanRegister dev a (some lowerdev)
      else if a.useIpv6 && a.ipv6Disabled then (-EPERM, w)
      else w.vxlanRegister dev a none
  else w.vxlanRegister dev a none

/-- `ip_tunnel_newlink` with its result. -/
def ipTunnelNewlink (w : TunnelNet) (dev : NetDev) (kind : TunnelKind) (a : IpLink) :
    ℤ × TunnelNet :=
  if a.err ≠ 0 then (a.err, w) else (0, w.addTunnel dev { kind := kind, mcdev := none, link := a.link })

/-- `ipgre_newlink`, for gre and gretap devices. -/
def ipgreNewlink (w : TunnelNet) (dev : NetDev) (kind : TunnelKind) (a : IpLink) : ℤ × TunnelNet :=
  if a.encapErr < 0 then (a.encapErr, w)
  else
    let w :=
      if env.greEnable then
        match env.devGetByIndex a.link with
        | some mcdev => if w.capable mcdev then (w.madcapAcquireDev mcdev dev).2 else w
        | none => w
      else w
    w.ipTunnelNewlink dev kind a

/-- `ipip_newlink`; `madcap_acquire_dev` finds out whether the device is capable. -/
def ipipNewlink (w : TunnelNet) (dev : NetDev) (a : IpLink) : ℤ × TunnelNet :=
  if a.encapErr < 0 then (a.encapErr, w)
  else
    let w :=
      if env.ipipEnable then
        match env.devGetByIndex a.link with
        | some mcdev => (w.madcapAcquireDev mcdev dev).2
        | none => w
      else w
    w.ipTunnelNewlink dev .ipip a

def newlink (w : TunnelNet) (dev : NetDev) : LinkArgs → ℤ × TunnelNet
  | .vxlan a => w.vxlanNewlink env dev a
  | .gre a => w.ipgreNewlink env dev .gre a
  | .gretap a => w.ipgreNewlink env dev .gretap a
  | .ipip a => w.ipipNewlink env dev a

/-- `vxlan_dellink` and `ip_tunnel_dellink`. Nothing is released. -/
def dellink (w : TunnelNet) (dev : NetDev) : ℤ × TunnelNet :=
  (0, { w with tunnels := Function.update w.tunnels dev none })

/-- A successful `ip_tunnel_update`. -/
def ipTunnelUpdate (w : TunnelNet) (dev : NetDev) (t : Tunnel) (link : ℕ) : TunnelNet :=
  w.addTunnel dev { t with link := link }

/-- `ipgre_changelink` and `ipip_changelink`, the latter with its check of the destination.
A vxlan device cannot be changed. -/
def changelink (w : TunnelNet) (dev : NetDev) (a : IpLink) (badDaddr : Bool) : ℤ × TunnelNet :=
  match w.tunnels dev with
  | none => (-ENODEV, w)
  | some t =>
    if t.kind = .vxlan then (-EOPNOTSUPP, w)
    else if a.encapErr < 0 then (a.encapErr, w)
    else if t.kind = .ipip && badDaddr then (-EINVAL, w)
    else if a.err ≠ 0 then (a.err, w)
    else (0, w.ipTunnelUpdate dev t a.link)

/-- `SIOCADDTUNNEL` of a gre or ipip device: the parameters are checked and
`ip_tunnel_ioctl` creates a tunnel. -/
def ioctlAdd (w : TunnelNet) (dev : NetDev) (kind : TunnelKind) (valid : Bool) (link : ℕ) (err : ℤ) :
    ℤ × TunnelNet :=
  if !valid then (-EINVAL, w)
  else if err ≠ 0 then (err, w)
  else (0, w.addTunnel dev { kind := kind, mcdev := none, link := link })

/-- `SIOCCHGTUNNEL`. -/
def ioctlChg (w : TunnelNet) (dev : NetDev) (valid : Bool) (link : ℕ) (err : ℤ) : ℤ × TunnelNet :=
  match w.tunnels dev with
  | none => (-ENODEV, w)
  | some t =>
    if t.kind = .vxlan then (-EOPNOTSUPP, w)
    else if !valid then (-EINVAL, w)
    else if err ≠ 0 then (err, w)
    else (0, w.ipTunnelUpdate dev t link)

/-- The tunnels that the ioctl creates. -/
inductive IoctlKind where
  | gre
  | ipip
  deriving DecidableEq, Repr

def IoctlKind.tunnel : IoctlKind → TunnelKind
  | .gre => .gre
  | .ipip => .ipip

/-- What can happen to the tunnels. A new device is not at the address of an existing one. -/
inductive Event where
  | newlink (dev : NetDev) (a : LinkArgs)
  | dellink (dev : NetDev)
  | changelink (dev : NetDev) (a : IpLink) (badDaddr : Bool)
  | ioctlAdd (dev : NetDev) (kind : IoctlKind) (valid : Bool) (link : ℕ) (err : ℤ)
  | ioctlChg (dev : NetDev) (valid : Bool) (link : ℕ) (err : ℤ)
  deriving DecidableEq, Repr

def step (w : TunnelNet) : Event → ℤ × TunnelNet
  | .newlink dev a => if (w.tunnels dev).isSome then (-EEXIST, w) else w.newlink env dev a
  | .dellink dev => w.dellink dev
  | .changelink dev a badDaddr => w.changelink dev a badDaddr
  | .ioctlAdd dev kind valid link err =>
    if (w.tunnels dev).isSome then (-EEXIST, w) else w.ioctlAdd dev kind.tunnel valid link err
  | .ioctlChg dev valid link err => w.ioctlChg dev valid link err

/-- The madcap devices of a namespace as their drivers initialise them, and no tunnels. -/
def init (lower : NetDev → Option FreshMadcap) : TunnelNet where
  lower := fun dev => (lower dev).map FreshMadcap.priv
  tunnels := fun _ => none

end TunnelNet

end Madcap
