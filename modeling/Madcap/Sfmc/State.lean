import Madcap.Kernel
import Madcap.Patricia.Tree

/-!
# The software madcap device

The state that the ixgbe driver keeps for madcap: the locator table with its
route caches, the outer FIB as a list and as a tree, the work queue and the
configuration. One device is modelled, so the back pointers to it are left out.
-/

namespace Madcap

/-- `enum madcap_obj_id` as it is stored. -/
def MADCAP_OBJ_ID_LLT_CONFIG : U32 := 1
def MADCAP_OBJ_ID_LLT_ENTRY : U32 := 2
def MADCAP_OBJ_ID_UDP : U32 := 3

/-- `struct madcap_obj`. -/
structure MadcapObj where
  id : U32
  tbId : U16
  deriving DecidableEq, Repr

/-- `struct madcap_obj_config`. -/
structure ObjConfig where
  obj : MadcapObj
  offset : U16
  length : U16
  proto : U8
  src : U32
  deriving DecidableEq, Repr

/-- `struct madcap_obj_entry`. -/
structure ObjEntry where
  obj : MadcapObj
  id : U64
  dst : U32
  deriving DecidableEq, Repr

/-- `struct madcap_obj_udp`. -/
structure ObjUdp where
  obj : MadcapObj
  encapEnable : U32
  srcHashEnable : U32
  dstPort : U16
  srcPort : U16
  deriving DecidableEq, Repr

/-- `struct sfmc_table`: a locator entry with its cached route. -/
structure SfmcTable where
  oe : ObjEntry
  fib : Option Ref
  deriving DecidableEq, Repr

/-- `struct sfmc_fib`: an outer route with a copy of its gateway's neighbour. -/
structure SfmcFib where
  pn : Option Ref
  pfx : Option Ref
  network : U32
  len : ℕ
  scope : U8
  gateway : U32
  mac : Mac
  nudState : U8
  deriving DecidableEq, Repr

abbrev sfmcHashSize : ℕ := 256

abbrev sfmcVdevMax : ℕ := 16

/-- The load-time parameters of the driver and the kernel's `hash_64`. -/
structure Env where
  madcapEnable : Bool
  hash64 : U64 → Fin sfmcHashSize

/-- `struct sfmc`, with the allocated routes and the hardware address of its device. -/
structure Sfmc where
  permAddr : Mac
  vdev : Fin sfmcVdevMax → Option NetDev
  sfmcTable : Fin sfmcHashSize → List SfmcTable
  fibList : List Ref
  fibTree : Patricia
  fibs : Heap SfmcFib
  ou : ObjUdp
  oc : ObjConfig
  wq : List Ref

/-- The state `sfmc_init` leaves, given the memory it starts from. -/
def sfmcInit (permAddr : Mac) (zone : Zone) : Sfmc where
  permAddr := permAddr
  vdev := fun _ => none
  sfmcTable := fun _ => []
  fibList := []
  fibTree := newPatricia zone 32
  fibs := Heap.empty
  ou := { obj := { id := 0, tbId := 0 }, encapEnable := 0, srcHashEnable := 0, dstPort := 0,
          srcPort := 0 }
  oc := { obj := { id := 0, tbId := 0 }, offset := 0, length := 0, proto := 0, src := 0 }
  wq := []

def freshZone (grants : ℕ → Bool) : Zone where
  nodes := Heap.empty
  prefixes := Heap.empty
  grants := grants
  requests := 0

namespace Sfmc

def sfmcTableAdd (env : Env) (s : Sfmc) (oe : ObjEntry) : Sfmc :=
  let head := env.hash64 oe.id
  { s with sfmcTable := Function.update s.sfmcTable head ({ oe := oe, fib := none } :: s.sfmcTable head) }

/-- `sfmc_table_find`: the first entry with the id in the id's bucket. -/
def sfmcTableFind (env : Env) (s : Sfmc) (id : U64) : Option SfmcTable :=
  (s.sfmcTable (env.hash64 id)).find? fun st => st.oe.id == id

/-- `sfmc_table_delete` of the entry that `sfmc_table_find` returns. -/
def sfmcTableDelete (env : Env) (s : Sfmc) (id : U64) : Sfmc :=
  let head := env.hash64 id
  { s with sfmcTable :=
      Function.update s.sfmcTable head ((s.sfmcTable head).eraseP fun st => st.oe.id == id) }

/-- The inner loop of `sfmc_table_destroy`. -/
def destroyBucket : List SfmcTable → List SfmcTable
  | [] => []
  | _ :: bucket => destroyBucket bucket

def sfmcTableDestroy (s : Sfmc) : Sfmc :=
  { s with sfmcTable := fun n => destroyBucket (s.sfmcTable n) }

/-- A write of `fib` to the entry that `sfmc_table_find` returns. -/
def cacheFib (fib : Option Ref) (id : U64) : List SfmcTable → List SfmcTable
  | [] => []
  | st :: bucket =>
    if st.oe.id = id then { st with fib := fib } :: bucket else st :: cacheFib fib id bucket

def sfmcTableCache (env : Env) (s : Sfmc) (id : U64) (fib : Option Ref) : Sfmc :=
  let head := env.hash64 id
  { s with sfmcTable := Function.update s.sfmcTable head (cacheFib fib id (s.sfmcTable head)) }

/-- The sweep of `sfmc_fib_delete` over one bucket. -/
def forgetFib (sf : Ref) (bucket : List SfmcTable) : List SfmcTable :=
  bucket.map fun st => if st.fib = some sf then { st with fib := none } else st

def sfmcFibFindExact (s : Sfmc) (network : U32) (len : ℕ) : Res (Option Ref) := do
  match ← s.fibTree.patriciaSearchExact (dst2Prefix network len) with
  | none => return none
  | some pn => do
    let node ← s.fibTree.nodes.read pn
    return node.data

def sfmcFibFindBest (s : Sfmc) (network : U32) (len : ℕ) : Res (Option Ref) := do
  match ← s.fibTree.patriciaSearchBest (dst2Prefix network len) with
  | none => return none
  | some pn => do
    let node ← s.fibTree.nodes.read pn
    return node.data

/-- A `kmalloc` of the device. -/
def kmalloc (s : Sfmc) : Bool × Sfmc :=
  let (granted, tree) := s.fibTree.kmalloc
  (granted, { s with fibTree := tree })

/-- `sfmc_fib_create`; null when the allocation fails. -/
def sfmcFibCreate (s : Sfmc) (network : U32) (len : ℕ) (gateway : U32) (scope : U8) :
    Option Ref × Sfmc :=
  match s.kmalloc with
  | (true, s) =>
    let sf : SfmcFib :=
      { pn := none, pfx := none, network := network, len := len, scope := scope,
        gateway := gateway, mac := 0, nudState := 0 }
    (some s.fibs.next, { s with fibs := s.fibs.alloc sf })
  | (false, s) => (none, s)

/-- The `kmalloc` of a prefix and the writes to it, which fault on null. -/
def kmallocPrefix (s : Sfmc) (pfx : PrefixT) : Res (Ref × Patricia) :=
  match s.fibTree.kmalloc with
  | (true, tree) =>
    .ok (tree.prefixes.next, { tree with prefixes := tree.prefixes.alloc pfx })
  | (false, _) => .error .badAccess

/-- `sfmc_fib_insert`: link a route, or return the route its prefix already has. -/
def sfmcFibInsert (s : Sfmc) (sf : Ref) : Res (Option Ref × Sfmc) := do
  let f ← s.fibs.read sf
  let (pfx, tree) ← s.kmallocPrefix (dst2Prefix f.network f.len)
  let (pn, tree) ← tree.patriciaLookup pfx
  let node ← tree.nodes.read pn
  match node.data with
  | some data =>
    return (some data,
      { s with fibTree := { tree with prefixes := tree.prefixes.free pfx } })
  | none => do
    let tree ← tree.setNode pn fun node => { node with data := some sf }
    let fibs ← s.fibs.write sf fun f => { f with pn := some pn, pfx := some pfx }
    return (some sf, { s with fibTree := tree, fibs := fibs, fibList := sf :: s.fibList })

def sfmcFibAdd (s : Sfmc) (network : U32) (len : ℕ) (gateway : U32) (scope : U8) :
    Res (Option Ref × Sfmc) :=
  match s.sfmcFibCreate network len gateway scope with
  | (none, s) => return (none, s)
  | (some sf, s) => do
    let (tmp, s) ← s.sfmcFibInsert sf
    match tmp with
    | none => return (none, { s with fibs := s.fibs.free sf })
    | some _ => return (some sf, s)

/-- `sfmc_fib_delete`: unlink a route and drop it from every route cache. -/
def sfmcFibDelete (s : Sfmc) (sf : Ref) : Res Sfmc := do
  let f ← s.fibs.read sf
  match f.pn with
  | none => throw .badAccess
  | some pn => do
    let tree ← s.fibTree.patriciaRemove pn
    return { s with
      fibTree := tree
      fibList := s.fibList.erase sf
      sfmcTable := fun n => forgetFib sf (s.sfmcTable n)
      fibs := s.fibs.free sf }

def sfmcFibDel (s : Sfmc) (network : U32) (len : ℕ) : Res (ℤ × Sfmc) := do
  match ← s.sfmcFibFindExact network len with
  | none => return (-ENOENT, s)
  | some sf => do
    let s ← s.sfmcFibDelete sf
    return (0, s)

def sfmcNeighWrite (s : Sfmc) (sf : Ref) (n : Neighbour) : Res Sfmc := do
  let fibs ← s.fibs.write sf fun f => { f with mac := n.ha, nudState := n.nudState }
  return { s with fibs := fibs }

/-- The loop of `sfmc_neigh_update` over the list of routes. -/
def neighUpdateLoop (ip : U32) (n : Neighbour) : List Ref → Sfmc → Res Sfmc
  | [], s => return s
  | sf :: list, s => do
    let f ← s.fibs.read sf
    if f.gateway = ip then
      let s ← s.sfmcNeighWrite sf n
      neighUpdateLoop ip n list s
    else
      neighUpdateLoop ip n list s

def sfmcNeighUpdate (s : Sfmc) (ip : U32) (n : Neighbour) : Res Sfmc :=
  neighUpdateLoop ip n s.fibList s

end Sfmc

end Madcap
