import Madcap.Foundation.Heap
import Madcap.Patricia.Prefixes

/-!
# The Patricia tree

The tree the outer FIB is kept in, with the memory its nodes and prefixes live
in. Pointers are addresses, so glue nodes, parent links and the four insertion
and four removal shapes appear as the code writes them. The assertions of the
code only print a message and are left out.
-/

namespace Madcap

structure PatriciaNode where
  bit : ℕ
  pfx : Option Ref
  l : Option Ref
  r : Option Ref
  parent : Option Ref
  data : Option Ref
  deriving DecidableEq, Repr

/-- The `kmalloc` zone of a device: what is allocated, and which of its requests
the allocator grants. -/
structure Zone where
  nodes : Heap PatriciaNode
  prefixes : Heap PrefixT
  grants : ℕ → Bool
  requests : ℕ

/-- `patricia_tree_t`. -/
structure Patricia extends Zone where
  head : Option Ref
  maxbits : ℕ
  numActiveNode : ℤ

/-- The size of the search stack is `PATRICIA_MAXBITS + 1`. -/
def patriciaMaxbits : ℕ := 64

def newPatricia (zone : Zone) (maxbits : ℕ) : Patricia where
  toZone := zone
  head := none
  maxbits := maxbits
  numActiveNode := 0

namespace Patricia

/-- Ask the allocator; a refused request returns a null pointer. -/
def kmalloc (p : Patricia) : Bool × Patricia :=
  (p.grants p.requests, { p with requests := p.requests + 1 })

/-- `kmalloc` of a node and the writes that follow it, which fault on null. -/
def kmallocNode (p : Patricia) (node : PatriciaNode) : Res (Ref × Patricia) :=
  match p.kmalloc with
  | (true, p) => .ok (p.nodes.next, { p with nodes := p.nodes.alloc node })
  | (false, _) => .error .badAccess

def setNode (p : Patricia) (node : Ref) (f : PatriciaNode → PatriciaNode) : Res Patricia := do
  let nodes ← p.nodes.write node f
  return { p with nodes := nodes }

/-- `New_Prefix2` with a null last argument; null when the allocation fails. -/
def newPrefix2 (p : Patricia) (dest : U32) (bitlen : ℕ) : Option Ref × Patricia :=
  match p.kmalloc with
  | (true, p) =>
    (some p.prefixes.next,
      { p with prefixes := p.prefixes.alloc { bitlen := bitlen, refCount := 1, add := dest } })
  | (false, p) => (none, p)

/-- `Ref_Prefix`: a counted prefix is shared, a static one is copied. -/
def refPrefix (p : Patricia) (pfx : Ref) : Res (Option Ref × Patricia) := do
  let t ← p.prefixes.read pfx
  if t.refCount = 0 then
    return p.newPrefix2 t.add t.bitlen
  else
    let prefixes ← p.prefixes.write pfx fun t => { t with refCount := t.refCount + 1 }
    return (some pfx, { p with prefixes := prefixes })

def derefPrefix (p : Patricia) : Option Ref → Res Patricia
  | none => return p
  | some pfx => do
    let prefixes ← p.prefixes.write pfx fun t => { t with refCount := t.refCount - 1 }
    let t ← prefixes.read pfx
    if t.refCount ≤ 0 then
      return { p with prefixes := prefixes.free pfx }
    else
      return { p with prefixes := prefixes }

/-- The loop of `patricia_search_exact`: follow the address until its last bit. -/
def searchExactLoop (p : Patricia) (addr : U32) (bitlen : ℕ) : ℕ → Ref → Res (Option Ref)
  | 0, _ => throw .outOfFuel
  | fuel + 1, node => do
    let n ← p.nodes.read node
    if n.bit < bitlen then
      match if addrBit addr n.bit then n.r else n.l with
      | none => return none
      | some next => p.searchExactLoop addr bitlen fuel next
    else
      return some node

def patriciaSearchExact (p : Patricia) (pfx : PrefixT) : Res (Option Ref) :=
  match p.head with
  | none => return none
  | some head => do
    match ← p.searchExactLoop pfx.add pfx.bitlen (p.maxbits + 1) head with
    | none => return none
    | some node => do
      let n ← p.nodes.read node
      if n.bit > pfx.bitlen || n.pfx.isNone then
        return none
      let t ← p.prefixes.readPtr n.pfx
      if compWithMask t.add pfx.add pfx.bitlen then
        return some node
      else
        return none

/-- `if (cond) stack[cnt++] = node`. The top of the stack comes first. -/
def pushIf (cond : Bool) (stack : List Ref) (node : Ref) : Res (List Ref) :=
  if !cond then .ok stack
  else if stack.length < patriciaMaxbits + 1 then .ok (node :: stack)
  else .error .badAccess

/-- The descent of `patricia_search_best2`, stacking the nodes that carry a prefix. -/
def searchBestLoop (p : Patricia) (addr : U32) (bitlen : ℕ) :
    ℕ → Ref → List Ref → Res (Option Ref × List Ref)
  | 0, _, _ => throw .outOfFuel
  | fuel + 1, node, stack => do
    let n ← p.nodes.read node
    if n.bit < bitlen then
      let stack ← pushIf n.pfx.isSome stack node
      match if addrBit addr n.bit then n.r else n.l with
      | none => return (none, stack)
      | some next => p.searchBestLoop addr bitlen fuel next stack
    else
      return (some node, stack)

/-- The end of `patricia_search_best2`: the topmost stacked node that matches. -/
def searchBestPop (p : Patricia) (pfx : PrefixT) : List Ref → Res (Option Ref)
  | [] => return none
  | node :: stack => do
    let n ← p.nodes.read node
    let t ← p.prefixes.readPtr n.pfx
    if compWithMask t.add pfx.add t.bitlen && t.bitlen ≤ pfx.bitlen then
      return some node
    else
      p.searchBestPop pfx stack

def patriciaSearchBest2 (p : Patricia) (pfx : PrefixT) (inclusive : Bool) :
    Res (Option Ref) :=
  match p.head with
  | none => return none
  | some head => do
    let (last, stack) ← p.searchBestLoop pfx.add pfx.bitlen (p.maxbits + 1) head []
    match last with
    | none => p.searchBestPop pfx stack
    | some node => do
      let n ← p.nodes.read node
      let stack ← pushIf (inclusive && n.pfx.isSome) stack node
      p.searchBestPop pfx stack

def patriciaSearchBest (p : Patricia) (pfx : PrefixT) : Res (Option Ref) :=
  p.patriciaSearchBest2 pfx true

/-- `node->bit < maxbits && BIT_TEST (addr, node->bit)`: the side to take at a bit. -/
def takeRight (p : Patricia) (addr : U32) (bit : ℕ) : Bool :=
  bit < p.maxbits && addrBit addr bit

/-- The first loop of `patricia_lookup`: down to a node with a prefix, past it
while the searched prefix is longer, as far as there are children. -/
def lookupDescend (p : Patricia) (addr : U32) (bitlen : ℕ) : ℕ → Ref → Res Ref
  | 0, _ => throw .outOfFuel
  | fuel + 1, node => do
    let n ← p.nodes.read node
    if n.bit < bitlen || n.pfx.isNone then
      match if p.takeRight addr n.bit then n.r else n.l with
      | none => return node
      | some next => p.lookupDescend addr bitlen fuel next
    else
      return node

/-- The second loop of `patricia_lookup`: back up above the first differing bit. -/
def lookupAscend (p : Patricia) (differBit : ℕ) : ℕ → Ref → Res Ref
  | 0, _ => throw .outOfFuel
  | fuel + 1, node => do
    let n ← p.nodes.read node
    match n.parent with
    | none => return node
    | some parent => do
      let m ← p.nodes.read parent
      if m.bit ≥ differBit then p.lookupAscend differBit fuel parent else return node

/-- `new_node` of `patricia_lookup`: a leaf with the given prefix. -/
def newNode (p : Patricia) (pfx : Ref) (bitlen : ℕ) : Res (Ref × Patricia) := do
  let (node, p) ← p.kmallocNode
    { bit := bitlen, pfx := none, l := none, r := none, parent := none, data := none }
  let (q, p) ← p.refPrefix pfx
  let p ← p.setNode node fun n => { n with pfx := q }
  return (node, { p with numActiveNode := p.numActiveNode + 1 })

/-- Put `node` in the place `old` has under its parent, or at the head. -/
def replaceUnder (p : Patricia) (parent : Option Ref) (old : Ref) (node : Option Ref) :
    Res Patricia :=
  match parent with
  | none => return { p with head := node }
  | some parent =>
    p.setNode parent fun m => if m.r = some old then { m with r := node } else { m with l := node }

/-- The third shape: `newNode` becomes the parent of `node`. -/
def insertAbove (p : Patricia) (newNode node : Ref) (n : PatriciaNode) (testAddr : U32)
    (bitlen : ℕ) : Res Patricia := do
  let p ← p.setNode newNode fun m =>
    if p.takeRight testAddr bitlen then { m with r := some node, parent := n.parent }
    else { m with l := some node, parent := n.parent }
  let p ← p.replaceUnder n.parent node (some newNode)
  p.setNode node fun m => { m with parent := some newNode }

/-- The fourth shape: a glue node at the differing bit holds `newNode` and `node`. -/
def insertGlue (p : Patricia) (newNode node : Ref) (n : PatriciaNode) (addr : U32)
    (differBit : ℕ) : Res Patricia := do
  let right := p.takeRight addr differBit
  let (glue, p) ← p.kmallocNode
    { bit := differBit, pfx := none, parent := n.parent, data := none
      l := if right then some node else some newNode
      r := if right then some newNode else some node }
  let p := { p with numActiveNode := p.numActiveNode + 1 }
  let p ← p.setNode newNode fun m => { m with parent := some glue }
  let p ← p.replaceUnder n.parent node (some glue)
  p.setNode node fun m => { m with parent := some glue }

/-- The part of `patricia_lookup` after the tree was searched: `node` is the
highest node that does not test a bit before `differBit`. -/
def lookupInsert (p : Patricia) (pfx : Ref) (addr testAddr : U32) (bitlen differBit : ℕ)
    (node : Ref) : Res (Ref × Patricia) := do
  let n ← p.nodes.read node
  if differBit = bitlen && n.bit = bitlen then
    if n.pfx.isSome then
      return (node, p)
    else
      let (q, p) ← p.refPrefix pfx
      let p ← p.setNode node fun n => { n with pfx := q }
      return (node, p)
  else
    let (newNode, p) ← p.newNode pfx bitlen
    if n.bit = differBit then
      let p ← p.setNode newNode fun m => { m with parent := some node }
      let p ← p.setNode node fun m =>
        if p.takeRight addr n.bit then { m with r := some newNode }
        else { m with l := some newNode }
      return (newNode, p)
    else if bitlen = differBit then
      let p ← p.insertAbove newNode node n testAddr bitlen
      return (newNode, p)
    else
      let p ← p.insertGlue newNode node n addr differBit
      return (newNode, p)

def patriciaLookup (p : Patricia) (pfx : Ref) : Res (Ref × Patricia) := do
  let t ← p.prefixes.read pfx
  match p.head with
  | none => do
    let (node, p) ← p.newNode pfx t.bitlen
    return (node, { p with head := some node })
  | some head => do
    let node ← p.lookupDescend t.add t.bitlen (p.maxbits + 1) head
    let n ← p.nodes.read node
    let test ← p.prefixes.readPtr n.pfx
    let checkBit := if n.bit < t.bitlen then n.bit else t.bitlen
    let differBit := firstDifferBit t.add test.add checkBit
    let node ← p.lookupAscend differBit (p.maxbits + 1) node
    p.lookupInsert pfx t.add test.add t.bitlen differBit node

/-- `Delete (node)` with the count of active nodes. -/
def deleteNode (p : Patricia) (node : Ref) : Patricia :=
  { p with nodes := p.nodes.free node, numActiveNode := p.numActiveNode - 1 }

/-- Removal of a leaf, and of its parent when that is a glue node. -/
def removeLeaf (p : Patricia) (node : Ref) (n : PatriciaNode) : Res Patricia := do
  let p ← p.derefPrefix n.pfx
  let p := p.deleteNode node
  match n.parent with
  | none => return { p with head := none }
  | some parent => do
    let m ← p.nodes.read parent
    let child := if m.r = some node then m.l else m.r
    let p ← p.replaceUnder (some parent) node none
    if m.pfx.isSome then
      return p
    let p ← p.replaceUnder m.parent parent child
    match child with
    | none => throw .badAccess
    | some child => do
      let p ← p.setNode child fun c => { c with parent := m.parent }
      return p.deleteNode parent

/-- Removal of a node with one child, which takes its place. -/
def removeInner (p : Patricia) (node : Ref) (n : PatriciaNode) (child : Ref) : Res Patricia := do
  let p ← p.setNode child fun c => { c with parent := n.parent }
  let p ← p.derefPrefix n.pfx
  let p := p.deleteNode node
  p.replaceUnder n.parent node (some child)

def patriciaRemove (p : Patricia) (node : Ref) : Res Patricia := do
  let n ← p.nodes.read node
  match n.r, n.l with
  | some _, some _ => do
    let p ← p.derefPrefix n.pfx
    p.setNode node fun m => { m with pfx := none, data := none }
  | none, none => p.removeLeaf node n
  | some child, none => p.removeInner node n child
  | none, some child => p.removeInner node n child

end Patricia

end Madcap
