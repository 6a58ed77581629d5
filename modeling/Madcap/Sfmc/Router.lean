import Madcap.Sfmc.Gate
import Madcap.Sfmc.Table

/-!
# The overlay router

What the software device is for, without its trees, lists, hashed chains and caches. A
router maps identifiers to locators and prefixes to next hops, and encapsulates the packets
of the devices that hold it. Work it has put off waits under a number.
-/

namespace Madcap

open LongestPrefix

/-- What the caller of a driver's entry point gets back. -/
inductive Answer where
  | code (err : ℤ)
  | packet (err : ℤ) (skb : SkBuff)
  | done

def Neighbour.address (n : Neighbour) : Option Mac := if nudValid n.nudState then some n.ha else none

/-- The next hop of a prefix: a gateway, or the destinations themselves when they are on the
link, and the address of the gateway as far as it is known. -/
structure Hop where
  gateway : U32
  connected : Bool
  mac : Option Mac
  deriving DecidableEq, Repr

/-- What the neighbour `n` at `ip` means for a next hop. -/
def Hop.hear (ip : U32) (n : Neighbour) (h : Hop) : Hop :=
  if h.gateway = ip then { h with mac := n.address } else h

theorem Hop.hear_mac {ip : U32} {h : Hop} (hgw : h.gateway = ip) (n : Neighbour) :
    (Hop.hear ip n h).mac = n.address := by
  unfold hear
  rw [if_pos hgw]

theorem Hop.hear_link (ip : U32) (n : Neighbour) (h : Hop) :
    (Hop.hear ip n h).connected = h.connected ∧ (Hop.hear ip n h).gateway = h.gateway := by
  unfold hear
  split_ifs <;> exact ⟨rfl, rfl⟩

structure Router where
  address : Mac
  holders : Finset NetDev
  config : ObjConfig
  udp : ObjUdp
  locators : LocatorMap
  hops : PrefixMap Bool Hop
  pending : ℕ → Option U32
  made : ℕ
  arp : ArpTable

namespace Router

def init (address : Mac) (arp : ArpTable) : Router where
  address := address
  holders := ∅
  config := { obj := { id := 0, tbId := 0 }, offset := 0, length := 0, proto := 0, src := 0 }
  udp := { obj := { id := 0, tbId := 0 }, encapEnable := 0, srcHashEnable := 0, dstPort := 0,
           srcPort := 0 }
  locators := fun _ => none
  hops := fun _ => none
  pending := fun _ => none
  made := 0
  arp := arp

/-- The next hop of a destination is that of its longest prefix. -/
def route (r : Router) (dst : U32) : Option Hop := r.hops.longest (maskBits dst 32)

/-- The entry of an identifier, or the default entry where the driver has one. -/
def locate (r : Router) (fallback : Bool) (id : U64) : Option ObjEntry :=
  (r.locators id).or (if fallback then r.locators 0 else none)

/-- The outer headers of a packet of `len` bytes. -/
def headers (r : Router) (len : ℕ) (dst : U32) (mac : Mac) : List U8 :=
  let udp := if r.udp.encapEnable ≠ 0 then udpHeader r.udp (len + sizeofUdphdr) else []
  let totLen := udp.length + len + sizeofIphdr
  let check := ipchecksum (readByte (ipHeader totLen r.config.proto 0 r.config.src dst)) 20 0
  ethHeader mac r.address ++ ipHeader totLen r.config.proto check r.config.src dst ++ udp

def queue (r : Router) (dst : U32) : Router :=
  { r with pending := Function.update r.pending r.made (some dst), made := r.made + 1 }

/-- A packet for a locator. The first packet to a destination on the link only leaves work
behind. -/
def send (r : Router) (skb : SkBuff) (oe : ObjEntry) : Answer × Router :=
  match r.route oe.dst with
  | none => (.packet (-ENOENT) skb, r)
  | some hop =>
    if hop.connected = true ∧ hop.gateway ≠ oe.dst then (.packet (-ENOENT) skb, r.queue oe.dst)
    else
      match hop.mac with
      | none => (.packet (-ENOENT) skb, r)
      | some mac => (.packet 0 (skb.push (r.headers skb.len oe.dst mac)), r)

/-- A packet of a holder goes to the locator of its identifier. -/
def forward (r : Router) (enabled fallback : Bool) (skb : SkBuff) : Answer × Router :=
  if enabled = true ∧ ∃ dev ∈ r.holders, skb.dst = some dev then
    match r.locate fallback (extractIdFromPacket skb r.config) with
    | none => (.packet (-ENOENT) skb, r)
    | some oe => r.send skb oe
  else (.packet 0 skb, r)

/-- A next hop for a prefix, unless the prefix has one. Its gateway is looked up, and is a
neighbour afterwards if the table has it or `created` is one. -/
def link (r : Router) (p : List Bool) (gateway : U32) (connected : Bool)
    (created : Option Neighbour) : Router :=
  let found := (r.arp gateway).or created
  let hop := { gateway := gateway, connected := connected, mac := found.bind Neighbour.address }
  { r with
    hops := Function.update r.hops p ((r.hops p).or (some hop))
    arp := Function.update r.arp gateway found }

def addRoute (r : Router) (fib : SwitchdevIpv4Fib) (created : Option Neighbour) : Router :=
  if fib.gateway = 0 ∧ fib.scope ≠ RT_SCOPE_LINK then r
  else
    { r with made := r.made + 1 }.link (maskBits (htonl fib.dst) fib.dstLen) fib.gateway
      (fib.scope == RT_SCOPE_LINK) created

def delRoute (r : Router) (fib : SwitchdevIpv4Fib) : ℤ × Router :=
  let p := maskBits (htonl fib.dst) fib.dstLen
  if (r.hops p).isSome then (0, { r with hops := Function.update r.hops p none })
  else (-ENOENT, r)

/-- A destination on the link gets a next hop of its own. -/
def work (r : Router) (n : ℕ) (created : Option Neighbour) : Router :=
  match r.pending n with
  | none => r
  | some dst =>
    { r with pending := Function.update r.pending n none }.link (maskBits dst 32) dst true created

/-- Every next hop hears of a neighbour. -/
def hear (r : Router) (ip : U32) (n : Neighbour) : Router :=
  { r with
    hops := fun p => (r.hops p).map (Hop.hear ip n)
    arp := Function.update r.arp ip (some n) }

def configure (r : Router) (oc : ObjConfig) : Router :=
  if byteAt oc.obj.id 0 ≠ byteAt r.config.obj.id 0 then
    { r with config := oc, locators := fun _ => none }
  else r

variable (enabled fallback : Bool)

def step (r : Router) : Event → Answer × Router
  | .acquireDev vdev =>
    (.code (joinHolders r.holders vdev).1, { r with holders := (joinHolders r.holders vdev).2 })
  | .releaseDev vdev =>
    (.code (leaveHolders r.holders vdev).1, { r with holders := (leaveHolders r.holders vdev).2 })
  | .lltCfg oc => (.code 0, r.configure oc)
  | .lltEntryAdd oe =>
    (.code (r.locators.step (.add oe)).1, { r with locators := (r.locators.step (.add oe)).2 })
  | .lltEntryDel oe =>
    (.code (r.locators.step (.del oe)).1, { r with locators := (r.locators.step (.del oe)).2 })
  | .udpCfg ou => (.code 0, { r with udp := ou })
  | .portObjAdd .none _ _ => (.code (-ENOTSUPP), r)
  | .portObjAdd .commit (.ipv4Fib fib) created => (.code 0, r.addRoute fib created)
  | .portObjAdd .commit .other _ => (.code (-EOPNOTSUPP), r)
  | .portObjAdd _ _ _ => (.code 0, r)
  | .portObjDel (.ipv4Fib fib) => (.code (r.delRoute fib).1, (r.delRoute fib).2)
  | .portObjDel .other => (.code (-EOPNOTSUPP), r)
  | .llNeighWork n created => (.done, r.work n created)
  | .encapPacket skb => r.forward enabled fallback skb
  | .neighChange ip n => (.done, r.hear ip n)
  | .neighDrop ip => (.done, { r with arp := r.arp.drop ip })

end Router

end Madcap
