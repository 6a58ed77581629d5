import Madcap.Sfmc.Router

/-!
# The software device refines the overlay router

Every call on a device answers what the router answers, whatever the device keeps its
tables in. The e1000 driver is a router without a default entry. The ixgbe driver is one with
a default entry, in the runs in which no new route is better than a cached one.
-/

namespace Madcap

open LongestPrefix

/-- `sfmc_encap_packet` of one of the drivers. -/
abbrev EncapPacket := Env → Sfmc → SkBuff → Res (ℤ × SkBuff × Sfmc)

namespace World

/-- One event on the device, with what its caller gets back. -/
def call (encapPacket : EncapPacket) (env : Env) (w : World) : Event → Res (Answer × World)
  | .acquireDev vdev =>
    let (err, s) := w.sfmc.sfmcAcquireDev vdev
    return (.code err, { w with sfmc := s })
  | .releaseDev vdev =>
    let (err, s) := w.sfmc.sfmcReleaseDev vdev
    return (.code err, { w with sfmc := s })
  | .lltCfg oc =>
    let (err, s) := w.sfmc.sfmcLltCfg oc
    return (.code err, { w with sfmc := s })
  | .lltEntryAdd oe =>
    let (err, s) := w.sfmc.sfmcLltEntryAdd env oe
    return (.code err, { w with sfmc := s })
  | .lltEntryDel oe =>
    let (err, s) := w.sfmc.sfmcLltEntryDel env oe
    return (.code err, { w with sfmc := s })
  | .udpCfg ou =>
    let (err, s) := w.sfmc.sfmcUdpCfg ou
    return (.code err, { w with sfmc := s })
  | .portObjAdd phase obj created => do
    let (err, w) ← w.sfmcPortObjAdd phase obj created
    return (.code err, w)
  | .portObjDel obj => do
    let (err, w) ← w.sfmcPortObjDel obj
    return (.code err, w)
  | .llNeighWork sf created => do
    let w ← w.runWork sf created
    return (.done, w)
  | .encapPacket skb => do
    let (err, skb, s) ← encapPacket env w.sfmc skb
    return (.packet err skb, { w with sfmc := s })
  | .neighChange ip n => do
    let s ← w.sfmc.sfmcNeighUpdate ip n
    return (.done, { sfmc := s, arp := Function.update w.arp ip (some n) })
  | .neighDrop ip => return (.done, { w with arp := w.arp.drop ip })

theorem silent_call (env : Env) (w : World) (e : Event) :
    silent (call Sfmc.sfmcEncapPacket env) w e = w.step env e := by
  cases e with
  | portObjAdd phase obj created =>
    simp only [silent, call, step]
    cases w.sfmcPortObjAdd phase obj created <;> rfl
  | portObjDel obj =>
    simp only [silent, call, step]
    cases w.sfmcPortObjDel obj <;> rfl
  | llNeighWork sf created =>
    simp only [silent, call, step]
    cases w.runWork sf created <;> rfl
  | encapPacket skb =>
    simp only [silent, call, step]
    cases w.sfmc.sfmcEncapPacket env skb <;> rfl
  | neighChange ip n =>
    simp only [silent, call, step]
    cases w.sfmc.sfmcNeighUpdate ip n <;> rfl
  | _ => rfl

end World

def SfmcFib.hop (f : SfmcFib) : Hop where
  gateway := f.gateway
  connected := f.scope == RT_SCOPE_LINK
  mac := if nudValid f.nudState then some f.mac else none

namespace Sfmc

def hopOf (s : Sfmc) (sf : Ref) : Option Hop := (s.fibs.cells sf).map SfmcFib.hop

def nextHops (s : Sfmc) : PrefixMap Bool Hop := s.routes.values s.hopOf

/-- A host route that waits to be linked. -/
def hostFib (dst : U32) : SfmcFib := blankFib dst 32 dst RT_SCOPE_LINK

/-- The outer FIB and the queue stand for next hops and for work that is pending. -/
structure Forwards (s : Sfmc) (hops : PrefixMap Bool Hop) (pending : ℕ → Option U32)
    (made : ℕ) : Prop where
  inv : s.FibInv
  hops : s.nextHops = hops
  queued : ∀ sf ∈ s.wq, ∃ dst, pending sf = some dst ∧ s.fibs.cells sf = some (hostFib dst)
  idle : ∀ sf, sf ∉ s.wq → pending sf = none
  made : s.fibs.next = made

variable {s s' s₁ s₂ : Sfmc} {sf : Ref} {f : SfmcFib} {hops : PrefixMap Bool Hop}
  {pending : ℕ → Option U32} {made : ℕ}

theorem hopOf_isSome {e : Entry Ref Bool} (he : e ∈ s.routes) :
    (s.hopOf e.ref).isSome = true := by
  obtain ⟨-, f, hf, -⟩ := mem_routes.mp he
  simp [hopOf, hf]

theorem FibInv.nextHops_isSome (inv : s.FibInv) (p : List Bool) :
    (s.nextHops p).isSome = (s.routes.exact p).isSome := by
  unfold nextHops Table.values
  cases hp : s.routes.exact p with
  | none => rfl
  | some sf =>
    obtain ⟨e, he, rfl, -⟩ := (Table.exact_eq_some inv.distinct).mp hp
    exact hopOf_isSome he

theorem FibInv.best_hop (inv : s.FibInv) (d : List Bool) :
    (s.routes.best d).bind s.hopOf = s.nextHops.longest d :=
  Table.best_bind inv.distinct fun _ he => hopOf_isSome he

theorem FibInv.mem_of_exact (inv : s.FibInv) {p : List Bool} (h : s.routes.exact p = some sf) :
    sf ∈ s.fibList := by
  obtain ⟨e, he, rfl, -⟩ := (Table.exact_eq_some inv.distinct).mp h
  exact (mem_routes.mp he).1

theorem FibInv.nextHops_congr (inv : s.FibInv) (hroutes : s'.routes = s.routes)
    (hcells : ∀ q ∈ s.fibList, s'.hopOf q = s.hopOf q) : s'.nextHops = s.nextHops := by
  funext p
  unfold nextHops Table.values
  rw [hroutes]
  cases hp : s.routes.exact p with
  | none => rfl
  | some q => exact hcells q (inv.mem_of_exact hp)

theorem Forwards.congr (h : s.Forwards hops pending made) (htree : s'.fibTree = s.fibTree)
    (hlist : s'.fibList = s.fibList) (hfibs : s'.fibs = s.fibs) (hwq : s'.wq = s.wq) :
    s'.Forwards hops pending made := by
  obtain ⟨permAddr, vdev, sfmcTable, fibList, fibTree, fibs, ou, oc, wq⟩ := s'
  simp only at htree hlist hfibs hwq
  subst htree hlist hfibs hwq
  refine ⟨⟨h.inv.tree, h.inv.listed, h.inv.labelled, h.inv.nodup, h.inv.queued, h.inv.wq_nodup⟩, ?_,
    h.queued, h.idle, h.made⟩
  exact h.hops

theorem Forwards.requested (h : s.Forwards hops pending made) :
    s.requested.Forwards hops pending made :=
  ⟨h.inv.requested, h.hops, h.queued, h.idle, h.made⟩

theorem hop_unresolved (hnud : f.nudState = 0) : f.hop.mac = none := by
  simp [SfmcFib.hop, hnud, nudValid]

/-- A route that is linked becomes the next hop of its prefix, with what was found out about
its gateway, unless the prefix has a next hop. -/
theorem Forwards.linked (h : s₁.Forwards hops pending made) (hf : s₁.fibs.cells sf = some f)
    (hnl : sf ∉ s₁.fibList) (hnw : sf ∉ s₁.wq) {tmp : Option Ref}
    (hins : s₁.Inserted sf f (tmp, s₂)) {fibs : Heap SfmcFib} (hneigh : s₂.NeighOnly fibs)
    (hnext : fibs.next = s₂.fibs.next) (hother : ∀ q, q ≠ sf → fibs.cells q = s₂.fibs.cells q)
    {hop : Hop} (hself : (fibs.cells sf).map SfmcFib.hop = some hop) :
    ({ s₂ with fibs := fibs } : Sfmc).Forwards
      (Function.update hops (maskBits f.network f.len)
        ((hops (maskBits f.network f.len)).or (some hop))) pending made := by
  have hroutes : ({ s₂ with fibs := fibs } : Sfmc).routes = s₁.routes.insert (f.entry sf) :=
    (hins.inv.routes_neighOnly hneigh).trans (hins.routes hf hnl)
  have hcells : ∀ q, q ≠ sf → fibs.cells q = s₁.fibs.cells q := fun q hq =>
    (hother q hq).trans (hins.cells_of_ne hq)
  refine ⟨hins.inv.of_neighOnly hneigh, ?_, fun q hq => ?_, fun q hq => ?_, ?_⟩
  · have hold : ∀ p q, s₁.routes.exact p = some q →
        ({ s₂ with fibs := fibs } : Sfmc).hopOf q = s₁.hopOf q := by
      intro p q hq
      have hne : q ≠ sf := fun heq => hnl (heq ▸ h.inv.mem_of_exact hq)
      simp only [hopOf, hcells q hne]
    have hkeep : ∀ p, (s₁.routes.exact p).bind ({ s₂ with fibs := fibs } : Sfmc).hopOf =
        s₁.nextHops p := by
      intro p
      unfold nextHops Table.values
      cases hp : s₁.routes.exact p with
      | none => rfl
      | some q => exact hold p q hp
    rw [← h.hops]
    funext p
    change (({ s₂ with fibs := fibs } : Sfmc).routes.exact p).bind _ = _
    rw [hroutes, Table.exact_insert]
    by_cases hp : p = maskBits f.network f.len
    · subst hp
      rw [Function.update_self]
      have hsome := h.inv.nextHops_isSome (maskBits f.network f.len)
      cases hmask : s₁.routes.exact (maskBits f.network f.len) with
      | some q₀ =>
        rw [hmask] at hsome
        rw [if_neg fun hno => Option.some_ne_none q₀ hno.2, ← hmask, hkeep, Option.or_of_isSome hsome]
      | none =>
        rw [hmask] at hsome
        have hnone : s₁.nextHops (maskBits f.network f.len) = none :=
          Option.not_isSome_iff_eq_none.mp (by rw [hsome]; decide)
        rw [if_pos ⟨rfl, rfl⟩, hnone]
        exact hself
    · rw [if_neg fun hno => hp hno.1, Function.update_of_ne hp, hkeep]
  · have hwq : q ∈ s₁.wq := hins.wq ▸ hq
    obtain ⟨dst, hdst, hcell⟩ := h.queued q hwq
    have hne : q ≠ sf := fun heq => hnw (heq ▸ hwq)
    exact ⟨dst, hdst, (hcells q hne).trans hcell⟩
  · exact h.idle q fun hwq => hq (hins.wq.symm ▸ hwq)
  · exact (hnext.trans hins.next_eq).trans h.made

theorem Forwards.created (h : s.Forwards hops pending made) (f : SfmcFib) :
    (s.created f).Forwards hops pending (made + 1) := by
  obtain ⟨hinv, hfresh, hidle⟩ := h.inv.requested.alloc f
  have hcells : ∀ q, q ≠ s.fibs.next → (s.created f).fibs.cells q = s.fibs.cells q := by
    intro q hq
    simp [Sfmc.created, Heap.alloc_cells, hq]
  refine ⟨hinv, ?_, fun q hq => ?_, h.idle, congrArg (· + 1) h.made⟩
  · rw [← h.hops]
    refine h.inv.nextHops_congr (routes_congr rfl fun q hq => ?_) fun q hq => ?_
    · exact hcells q fun heq => hfresh (heq ▸ hq)
    · unfold hopOf
      rw [hcells q fun heq => hfresh (heq ▸ hq)]
  · obtain ⟨dst, hdst, hcell⟩ := h.queued q hq
    exact ⟨dst, hdst, (hcells q fun heq => hidle (heq ▸ hq)).trans hcell⟩

/-- A host route that is queued is work that is pending under its address. -/
theorem Forwards.queue (h : s.Forwards hops pending made) (dst : U32) :
    ({ s.created (hostFib dst) with wq := s.wq ++ [s.fibs.next] } : Sfmc).Forwards hops
      (Function.update pending made (some dst)) (made + 1) := by
  have hcreated := h.created (hostFib dst)
  have hidle : s.fibs.next ∉ s.wq := (h.inv.requested.alloc (hostFib dst)).2.2
  have hmade := h.made
  subst hmade
  refine ⟨h.inv.queue dst (le_refl 32) dst RT_SCOPE_LINK, hcreated.hops, fun q hq => ?_,
    fun q hq => ?_, rfl⟩
  · rcases List.mem_append.mp hq with hq | hq
    · have hne : q ≠ s.fibs.next := fun heq => hidle (heq ▸ hq)
      obtain ⟨d, hd, hcell⟩ := hcreated.queued q hq
      exact ⟨d, (Function.update_of_ne hne ..).trans hd, hcell⟩
    · obtain rfl := List.mem_singleton.mp hq
      exact ⟨dst, Function.update_self .., by simp [Sfmc.created, Heap.alloc_cells]⟩
  · rw [List.mem_append, not_or, List.mem_singleton] at hq
    rw [Function.update_of_ne hq.2]
    exact h.idle q hq.1

theorem Forwards.dequeue (h : s.Forwards hops pending made) (sf : Ref) :
    ({ s with wq := s.wq.erase sf } : Sfmc).Forwards hops (Function.update pending sf none) made := by
  refine ⟨⟨h.inv.tree, h.inv.listed, h.inv.labelled, h.inv.nodup,
    fun hq => h.inv.queued (List.mem_of_mem_erase hq), h.inv.wq_nodup.erase sf⟩, h.hops,
    fun q hq => ?_, fun q hq => ?_, h.made⟩
  · obtain ⟨hne, hq⟩ := h.inv.wq_nodup.mem_erase_iff.mp hq
    obtain ⟨dst, hdst, hcell⟩ := h.queued q hq
    exact ⟨dst, (Function.update_of_ne hne ..).trans hdst, hcell⟩
  · by_cases hne : q = sf
    · rw [hne, Function.update_self]
    · rw [Function.update_of_ne hne]
      exact h.idle q fun hq' => hq (h.inv.wq_nodup.mem_erase_iff.mpr ⟨hne, hq'⟩)

theorem map_oe_forgetFib (sf : Ref) (bucket : List SfmcTable) :
    (forgetFib sf bucket).map SfmcTable.oe = bucket.map SfmcTable.oe := by
  unfold forgetFib
  rw [List.map_map]
  refine List.map_congr_left fun st _ => ?_
  rw [Function.comp_apply]
  split_ifs <;> rfl

theorem map_oe_cacheFib (fib : Option Ref) (id : U64) (bucket : List SfmcTable) :
    (cacheFib fib id bucket).map SfmcTable.oe = bucket.map SfmcTable.oe := by
  induction bucket with
  | nil => rfl
  | cons st bucket ih =>
    unfold cacheFib
    split_ifs
    · rfl
    · rw [List.map_cons, List.map_cons, ih]

theorem Forwards.deleted (h : s.Forwards hops pending made) (hsf : sf ∈ s.fibList)
    (hf : s.fibs.cells sf = some f) (hdel : s.Deleted sf s') :
    s'.Forwards (Function.update hops (maskBits f.network f.len) none) pending made := by
  have hcells : ∀ q, q ≠ sf → s'.fibs.cells q = s.fibs.cells q := by
    intro q hq
    simp [hdel.fibs, Heap.free_cells, hq]
  refine ⟨hdel.inv, ?_, fun q hq => ?_, fun q hq => h.idle q (hdel.wq ▸ hq), ?_⟩
  · rw [← h.hops]
    funext p
    unfold nextHops Table.values
    rw [hdel.routes h.inv hsf hf, Table.exact_erase]
    by_cases hp : p = maskBits f.network f.len
    · rw [if_pos (show p = (f.entry sf).pfx from hp), hp, Function.update_self]
      rfl
    · rw [if_neg (show ¬ p = (f.entry sf).pfx from hp), Function.update_of_ne hp]
      cases hq : s.routes.exact p with
      | none => rfl
      | some q =>
        have hne : q ≠ sf := by
          rintro rfl
          obtain ⟨e, he, rfl, hpfx⟩ := (Table.exact_eq_some h.inv.distinct).mp hq
          obtain ⟨-, g, hg, hmask⟩ := mem_routes.mp he
          obtain rfl := Option.some.inj (hf.symm.trans hg)
          exact hp (hpfx.symm.trans hmask)
        simp only [Option.bind_some, hopOf, hcells q hne]
  · have hwq : q ∈ s.wq := hdel.wq ▸ hq
    obtain ⟨dst, hdst, hcell⟩ := h.queued q hwq
    have hne : q ≠ sf := fun heq => (h.inv.queued hwq).1 (heq ▸ hsf)
    exact ⟨dst, hdst, (hcells q hne).trans hcell⟩
  · rw [hdel.fibs]
    exact h.made

theorem hop_refresh (ip : U32) (n : Neighbour) (f : SfmcFib) :
    (f.refresh ip n).hop = f.hop.hear ip n := by
  unfold SfmcFib.refresh Hop.hear
  by_cases hgw : f.gateway = ip
  · rw [if_pos hgw, if_pos (show f.hop.gateway = ip from hgw)]
    rfl
  · rw [if_neg hgw, if_neg (show ¬ f.hop.gateway = ip from hgw)]

theorem Forwards.refreshed (h : s.Forwards hops pending made) {ip : U32} {n : Neighbour}
    {fibs : Heap SfmcFib} (hfibs : Refreshed ip n s.fibList s.fibs fibs)
    (hnext : fibs.next = s.fibs.next) :
    ({ s with fibs := fibs } : Sfmc).Forwards (fun p => (hops p).map (Hop.hear ip n)) pending
      made := by
  have hneigh := h.inv.neighOnly_refreshed hfibs
  refine ⟨h.inv.of_neighOnly hneigh, ?_, fun q hq => ?_, h.idle, hnext.trans h.made⟩
  · rw [← h.hops]
    funext p
    unfold nextHops Table.values
    rw [h.inv.routes_neighOnly hneigh]
    cases hq : s.routes.exact p with
    | none => rfl
    | some q =>
      have hmem := h.inv.mem_of_exact hq
      simp only [Option.bind_some, hopOf, hfibs q, if_pos hmem, Option.map_map]
      congr 1
      funext f
      exact hop_refresh ip n f
  · obtain ⟨dst, hdst, hcell⟩ := h.queued q hq
    refine ⟨dst, hdst, ?_⟩
    change fibs.cells q = _
    rw [hfibs q, if_neg (h.inv.queued hq).1, hcell]

theorem neighUpdateLoop_next {ip : U32} {n : Neighbour} {list : List Ref}
    (h : neighUpdateLoop ip n list s = .ok s') : s'.fibs.next = s.fibs.next := by
  induction list generalizing s with
  | nil =>
    obtain rfl := Except.ok.inj h
    rfl
  | cons sf list ih =>
    unfold neighUpdateLoop at h
    obtain ⟨f, hf, h⟩ := bind_eq_ok.mp h
    split_ifs at h
    · obtain ⟨s₁, hwrite, h⟩ := bind_eq_ok.mp h
      obtain ⟨fibs, hfibs, hwrite⟩ := bind_eq_ok.mp hwrite
      rw [Heap.write_eq (Heap.read_eq_ok.mp hf)] at hfibs
      obtain rfl := Except.ok.inj hfibs
      obtain rfl := Except.ok.inj hwrite
      exact (ih h).trans rfl
    · exact ih h

end Sfmc

/-- A device with the neighbours of its network stands for a router. -/
structure Represents (env : Env) (w : World) (r : Router) : Prop where
  fib : w.sfmc.Forwards r.hops r.pending r.made
  granted : w.sfmc.Granted
  table : w.sfmc.TableOk env
  locators : w.sfmc.locators env = r.locators
  held : w.sfmc.HeldBy r.holders
  address : w.sfmc.permAddr = r.address
  config : w.sfmc.oc = r.config
  udp : w.sfmc.ou = r.udp
  arp : w.arp = r.arp

/-- The device when it is initialised, with memory to be had. -/
def World.fresh (permAddr : Mac) (arp : ArpTable) : World := init permAddr (fun _ => true) arp

namespace Represents

variable {env : Env} {w w' : World} {r : Router} {s : Sfmc}

theorem init (env : Env) (permAddr : Mac) (arp : ArpTable) :
    Represents env (World.fresh permAddr arp) (Router.init permAddr arp) where
  fib := ⟨Sfmc.fibInv_init permAddr fun _ => true, rfl, fun _ h => absurd h List.not_mem_nil,
    fun _ _ => rfl, rfl⟩
  granted _ := rfl
  table := Buckets.Ok.empty
  locators := rfl
  held := World.init_heldBy permAddr (fun _ => true) arp
  address := rfl
  config := rfl
  udp := rfl
  arp := rfl

theorem of_frame (h : Represents env w r) (hframe : Sfmc.Frame w.sfmc s)
    (hentries : w.sfmc.SameEntries s) {hops : LongestPrefix.PrefixMap Bool Hop}
    {pending : ℕ → Option U32} {made : ℕ} (hfib : s.Forwards hops pending made) :
    Represents env { w with sfmc := s }
      { r with hops := hops, pending := pending, made := made } where
  fib := hfib
  granted := by
    intro n
    rw [hframe.grants]
    exact h.granted n
  table := hentries.tableOk h.table
  locators := hentries.locators.trans h.locators
  held := h.held.of_vdev_eq hframe.vdev
  address := hframe.permAddr.trans h.address
  config := hframe.oc.trans h.config
  udp := hframe.ou.trans h.udp
  arp := h.arp

theorem with_arp (h : Represents env w r) (arp : ArpTable) :
    Represents env { w with arp := arp } { r with arp := arp } :=
  ⟨h.fib, h.granted, h.table, h.locators, h.held, h.address, h.config, h.udp, rfl⟩

end Represents

namespace World

variable {w : World} {sf : Ref} {f : SfmcFib} {created : Option Neighbour}

theorem sfmcNeighResolve_missing (hf : w.sfmc.fibs.cells sf = some f)
    (hnone : (w.arp f.gateway).or created = none) : w.sfmcNeighResolve sf created = .ok w := by
  unfold sfmcNeighResolve
  simp only [Heap.read_eq hf, bind, Except.bind, hnone]
  rfl

/-- The route as it is after its gateway was found to be `n`. -/
def resolvedFibs (fibs : Heap SfmcFib) (sf : Ref) (n : Neighbour) : Heap SfmcFib :=
  if nudValid n.nudState then
    fibs.modify sf fun f => { f with mac := n.ha, nudState := n.nudState }
  else fibs

theorem sfmcNeighResolve_found (hf : w.sfmc.fibs.cells sf = some f) {n : Neighbour}
    (hn : (w.arp f.gateway).or created = some n) : w.sfmcNeighResolve sf created = .ok
      { sfmc := { w.sfmc with fibs := resolvedFibs w.sfmc.fibs sf n }
        arp := Function.update w.arp f.gateway (some n) } := by
  unfold sfmcNeighResolve resolvedFibs
  simp only [Heap.read_eq hf, bind, Except.bind, hn]
  cases hv : nudValid n.nudState with
  | true => simp only [if_true, Sfmc.sfmcNeighWrite, Heap.write_eq hf, bind, Except.bind]; rfl
  | false => rfl

end World

namespace Represents

variable {env : Env} {w w' : World} {r : Router} {s₁ s₂ : Sfmc} {sf : Ref} {f : SfmcFib}
  {tmp : Option Ref}

theorem linked (h : Represents env { w with sfmc := s₁ } r) (hf : s₁.fibs.cells sf = some f)
    (hnl : sf ∉ s₁.fibList) (hnw : sf ∉ s₁.wq) (hnud : f.nudState = 0)
    (hins : s₁.Inserted sf f (tmp, s₂)) (created : Option Neighbour) :
    ∃ w', ({ w with sfmc := s₂ } : World).sfmcNeighResolve sf created = .ok w' ∧
      Represents env w' (r.link (maskBits f.network f.len) f.gateway (f.scope == RT_SCOPE_LINK)
        created) := by
  obtain ⟨g, hcell, hgw, hscope, -, -, hgnud⟩ := hins.cells_self hf
  have hg : s₂.fibs.cells sf = some g := hcell
  have hnud' : g.nudState = 0 := hgnud.trans hnud
  have hsame : s₂.NeighOnly s₂.fibs := fun _ f hf => ⟨f.mac, f.nudState, hf, fun _ => rfl⟩
  unfold Router.link
  cases hfound : (r.arp f.gateway).or created with
  | none =>
    have hnone : (w.arp g.gateway).or created = none := by
      rw [hgw, show w.arp = r.arp from h.arp, hfound]
    refine ⟨_, World.sfmcNeighResolve_missing (w := { w with sfmc := s₂ }) hg hnone, ?_⟩
    have hself : (s₂.fibs.cells sf).map SfmcFib.hop = some
        { gateway := f.gateway, connected := f.scope == RT_SCOPE_LINK, mac := none } := by
      rw [hg, Option.map_some, ← hgw, ← hscope, ← Sfmc.hop_unresolved hnud']
      rfl
    have hfib := h.fib.linked hf hnl hnw hins hsame rfl (fun _ _ => rfl) hself
    have harp : Function.update r.arp f.gateway none = w.arp := by
      rw [← (Option.or_eq_none_iff.mp hfound).1, Function.update_eq_self]
      exact h.arp.symm
    dsimp only
    rw [harp]
    exact (h.of_frame hins.frame (fun n => by rw [hins.table]) hfib).with_arp _
  | some n =>
    have hn : (w.arp g.gateway).or created = some n := by
      rw [hgw, show w.arp = r.arp from h.arp, hfound]
    refine ⟨_, World.sfmcNeighResolve_found (w := { w with sfmc := s₂ }) hg hn, ?_⟩
    have hidle : sf ∉ s₂.wq := fun hq => hnw (hins.wq ▸ hq)
    have hneigh : s₂.NeighOnly (World.resolvedFibs s₂.fibs sf n) := by
      unfold World.resolvedFibs
      split_ifs
      · exact Sfmc.neighOnly_modify hidle
      · exact hsame
    have hnext : (World.resolvedFibs s₂.fibs sf n).next = s₂.fibs.next := by
      unfold World.resolvedFibs
      split_ifs <;> rfl
    have hother : ∀ q, q ≠ sf →
        (World.resolvedFibs s₂.fibs sf n).cells q = s₂.fibs.cells q := by
      intro q hq
      unfold World.resolvedFibs
      split_ifs
      · simp [Heap.modify_cells, hq]
      · rfl
    have hself : ((World.resolvedFibs s₂.fibs sf n).cells sf).map SfmcFib.hop = some
        { gateway := f.gateway, connected := f.scope == RT_SCOPE_LINK, mac := n.address } := by
      unfold World.resolvedFibs Neighbour.address
      rw [← hgw, ← hscope]
      split_ifs with hv
      · simp [Heap.modify_cells, hg, SfmcFib.hop, hv]
      · rw [hg, Option.map_some, ← Sfmc.hop_unresolved hnud']
        rfl
    have hfib := h.fib.linked hf hnl hnw hins hneigh hnext hother hself
    have harp : w.arp = r.arp := h.arp
    rw [hgw]
    dsimp only
    rw [harp]
    have hframe : s₁.Frame { s₂ with fibs := World.resolvedFibs s₂.fibs sf n } :=
      ⟨hins.frame.permAddr, hins.frame.vdev, hins.frame.ou, hins.frame.oc, hins.frame.grants⟩
    exact (h.of_frame hframe (fun n => by rw [← hins.table]) hfib).with_arp _

theorem addRoute (h : Represents env w r) (fib : SwitchdevIpv4Fib) (created : Option Neighbour) :
    ∃ w', w.addRoute fib created = .ok (0, w') ∧ Represents env w' (r.addRoute fib created) := by
  unfold World.addRoute Router.addRoute
  by_cases hskip : fib.gateway = 0 ∧ fib.scope ≠ RT_SCOPE_LINK
  · rw [if_pos hskip, if_pos (by simpa using hskip)]
    exact ⟨w, rfl, h⟩
  · rw [if_neg hskip, if_neg (by simpa using hskip)]
    have hlen : (fib.dstLen : ℕ) ≤ 32 := Nat.lt_succ_iff.mp fib.dstLen.isLt
    obtain ⟨⟨res, s₂⟩, hadd, hcases⟩ := (Sfmc.sfmcFibAdd_spec h.fib.inv (htonl fib.dst) hlen
      fib.gateway fib.scope).exists_ok (Sfmc.never_refuses h.granted)
    rcases hcases with ⟨-, i, hi⟩ | ⟨hres, tmp, hins⟩
    · rw [h.granted i] at hi
      cases hi
    · obtain rfl : res = some w.sfmc.fibs.next := hres
      have hready := h.fib.inv.ready_create (htonl fib.dst) hlen fib.gateway fib.scope
      have hcreated := h.of_frame hready.frame (fun _ => rfl) (h.fib.created _)
      obtain ⟨w', hres, hw'⟩ := linked hcreated hready.read
        (hready.list ▸ hready.fresh) hready.idle hready.nud hins created
      refine ⟨w', ?_, hw'⟩
      rw [hadd]
      simp only [bind, Except.bind, hres]
      rfl

theorem runWork (h : Represents env w r) (sf : Ref) (created : Option Neighbour) :
    ∃ w', w.runWork sf created = .ok w' ∧ Represents env w' (r.work sf created) := by
  unfold World.runWork Router.work
  by_cases hsf : sf ∈ w.sfmc.wq
  · obtain ⟨dst, hdst, hcell⟩ := h.fib.queued sf hsf
    obtain ⟨f, hready⟩ := h.fib.inv.ready_queued hsf
    have hf : w.sfmc.fibs.cells sf = some f := hready.read
    obtain rfl : f = Sfmc.hostFib dst := Option.some.inj (hf.symm.trans hcell)
    rw [if_pos hsf, hdst]
    obtain ⟨⟨tmp, s₂⟩, hres, hins⟩ := hready.inserts.exists_ok (Sfmc.never_refuses h.granted)
    obtain ⟨t, ht⟩ := hins.exists_route
    obtain rfl : tmp = some t := ht
    have hdequeued := h.of_frame hready.frame (fun _ => rfl) (h.fib.dequeue sf)
    obtain ⟨w', hres', hw'⟩ := linked hdequeued hready.read
      (hready.list ▸ hready.fresh) hready.idle hready.nud hins created
    refine ⟨w', ?_, hw'⟩
    unfold World.sfmcLlNeighWork
    simp only [bind, Except.bind, hres]
    exact hres'
  · rw [if_neg hsf, h.fib.idle sf hsf]
    exact ⟨w, rfl, h⟩

theorem delRoute (h : Represents env w r) (fib : SwitchdevIpv4Fib) :
    ∃ w', w.sfmcPortObjDel (.ipv4Fib fib) = .ok ((r.delRoute fib).1, w') ∧
      Represents env w' (r.delRoute fib).2 := by
  have hlen : (fib.dstLen : ℕ) ≤ 32 := Nat.lt_succ_iff.mp fib.dstLen.isLt
  obtain ⟨⟨err, s⟩, hres, hcases⟩ := Sfmc.sfmcFibDel_spec h.fib.inv (htonl fib.dst) hlen
  have hisSome := h.fib.inv.nextHops_isSome (maskBits (htonl fib.dst) fib.dstLen)
  rw [h.fib.hops] at hisSome
  have hcall : w.sfmcPortObjDel (.ipv4Fib fib) = .ok (err, { w with sfmc := s }) := by
    simp only [World.sfmcPortObjDel, hres, bind, Except.bind]
    rfl
  unfold Router.delRoute
  rcases hcases with ⟨hnone, heq⟩ | ⟨sf, f, hsome, hsf, hf, hpfx, herr, hdel⟩
  · obtain ⟨rfl, rfl⟩ := Prod.mk.inj heq
    rw [hnone] at hisSome
    simp only [hisSome]
    exact ⟨w, hcall, h⟩
  · obtain rfl : err = 0 := herr
    rw [hsome] at hisSome
    simp only [hisSome]
    have hdeleted := h.fib.deleted hsf hf hdel
    rw [show maskBits f.network f.len = maskBits (htonl fib.dst) fib.dstLen from hpfx] at hdeleted
    refine ⟨_, hcall, h.of_frame hdel.frame (fun n => ?_) hdeleted⟩
    rw [hdel.table]
    exact Sfmc.map_oe_forgetFib sf _

theorem acquire (h : Represents env w r) (vdev : NetDev) :
    (w.sfmc.sfmcAcquireDev vdev).1 = (joinHolders r.holders vdev).1 ∧
      Represents env { w with sfmc := (w.sfmc.sfmcAcquireDev vdev).2 }
        { r with holders := (joinHolders r.holders vdev).2 } := by
  obtain ⟨hcode, hheld⟩ := h.held.acquire vdev
  have hvdev : ∃ table, (w.sfmc.sfmcAcquireDev vdev).2 = { w.sfmc with vdev := table } := by
    unfold Sfmc.sfmcAcquireDev
    split
    · exact ⟨_, rfl⟩
    · split <;> exact ⟨_, rfl⟩
  refine ⟨hcode, ?_⟩
  obtain ⟨table, heq⟩ := hvdev
  rw [heq] at hheld ⊢
  exact ⟨h.fib.congr rfl rfl rfl rfl, h.granted, h.table, h.locators, hheld, h.address, h.config,
    h.udp, h.arp⟩

theorem release (h : Represents env w r) (vdev : NetDev) :
    (w.sfmc.sfmcReleaseDev vdev).1 = (leaveHolders r.holders vdev).1 ∧
      Represents env { w with sfmc := (w.sfmc.sfmcReleaseDev vdev).2 }
        { r with holders := (leaveHolders r.holders vdev).2 } := by
  obtain ⟨hcode, hheld⟩ := h.held.release vdev
  have hvdev : ∃ table, (w.sfmc.sfmcReleaseDev vdev).2 = { w.sfmc with vdev := table } := by
    unfold Sfmc.sfmcReleaseDev
    split <;> exact ⟨_, rfl⟩
  refine ⟨hcode, ?_⟩
  obtain ⟨table, heq⟩ := hvdev
  rw [heq] at hheld ⊢
  exact ⟨h.fib.congr rfl rfl rfl rfl, h.granted, h.table, h.locators, hheld, h.address, h.config,
    h.udp, h.arp⟩

/-- An operation on the locator table changes nothing but the table. -/
theorem tableStep (h : Represents env w r) (op : TableOp) :
    (w.sfmc.tableStep env op).1 = (r.locators.step op).1 ∧
      Represents env { w with sfmc := (w.sfmc.tableStep env op).2 }
        { r with locators := (r.locators.step op).2 } := by
  obtain ⟨hcode, hlocators⟩ := Sfmc.tableStep_refines h.table h.granted op
  have htable := h.table.tableStep h.granted op
  have hshape : ∃ table, (w.sfmc.tableStep env op).2 = { w.sfmc with sfmcTable := table } ∨
      (w.sfmc.tableStep env op).2 = { w.sfmc.requested with sfmcTable := table } := by
    cases op with
    | add oe =>
      rcases Sfmc.sfmcLltEntryAdd_cases h.granted env oe with ⟨-, heq⟩ | ⟨-, heq⟩
      · exact ⟨w.sfmc.sfmcTable, .inl (congrArg Prod.snd heq)⟩
      · exact ⟨(w.sfmc.requested.sfmcTableAdd env oe).sfmcTable, .inr (congrArg Prod.snd heq)⟩
    | del oe =>
      rcases w.sfmc.sfmcLltEntryDel_cases env oe with ⟨-, heq⟩ | ⟨-, heq⟩
      · exact ⟨(w.sfmc.sfmcTableDelete env oe.id).sfmcTable, .inl (congrArg Prod.snd heq)⟩
      · exact ⟨w.sfmc.sfmcTable, .inl (congrArg Prod.snd heq)⟩
    | destroy => exact ⟨_, .inl rfl⟩
  rw [h.locators] at hcode hlocators
  refine ⟨hcode, ?_⟩
  obtain ⟨table, heq | heq⟩ := hshape
  · rw [heq] at htable hlocators ⊢
    exact ⟨h.fib.congr rfl rfl rfl rfl, h.granted, htable, hlocators, h.held.of_vdev_eq rfl,
      h.address, h.config, h.udp, h.arp⟩
  · rw [heq] at htable hlocators ⊢
    exact ⟨h.fib.requested.congr rfl rfl rfl rfl, h.granted, htable, hlocators,
      h.held.of_vdev_eq rfl, h.address, h.config, h.udp, h.arp⟩

theorem lltCfg (h : Represents env w r) (oc : ObjConfig) :
    (w.sfmc.sfmcLltCfg oc).1 = 0 ∧
      Represents env { w with sfmc := (w.sfmc.sfmcLltCfg oc).2 } (r.configure oc) := by
  unfold Sfmc.sfmcLltCfg Router.configure
  rw [h.config]
  split_ifs
  · obtain ⟨-, hempty⟩ := h.tableStep .destroy
    exact ⟨rfl, hempty.fib.congr rfl rfl rfl rfl, hempty.granted, hempty.table, hempty.locators,
      h.held.of_vdev_eq rfl, h.address, rfl, h.udp, h.arp⟩
  · exact ⟨rfl, h⟩

theorem udpCfg (h : Represents env w r) (ou : ObjUdp) :
    Represents env { w with sfmc := (w.sfmc.sfmcUdpCfg ou).2 } { r with udp := ou } :=
  ⟨h.fib.congr rfl rfl rfl rfl, h.granted, h.table, h.locators, h.held.of_vdev_eq rfl, h.address,
    h.config, rfl, h.arp⟩

theorem neighChange (h : Represents env w r) (ip : U32) (n : Neighbour) :
    ∃ s, w.sfmc.sfmcNeighUpdate ip n = .ok s ∧
      Represents env { sfmc := s, arp := Function.update w.arp ip (some n) } (r.hear ip n) := by
  obtain ⟨fibs, hrun, hfibs⟩ := Sfmc.sfmcNeighUpdate_spec h.fib.inv ip n
  have hfib := h.fib.refreshed hfibs (Sfmc.neighUpdateLoop_next hrun)
  unfold Router.hear
  rw [h.arp]
  exact ⟨_, hrun, (h.of_frame (s := { w.sfmc with fibs := fibs }) ⟨rfl, rfl, rfl, rfl, rfl⟩
    (fun _ => rfl) hfib).with_arp _⟩

theorem pushHeaders_eq (h : Represents env w r) (skb : SkBuff) (dst : U32) (mac : Mac) :
    w.sfmc.pushHeaders skb dst mac = skb.push (r.headers skb.len dst mac) := by
  unfold Sfmc.pushHeaders Router.headers
  rw [h.config, h.udp, h.address]
  have hread : ∀ l : List U8, (fun i => (l[i]?).getD 0) = readByte l := fun _ => rfl
  split_ifs with hudp
  · simp only [SkBuff.push_push, SkBuff.push_len, hread, List.append_assoc]
  · simp only [SkBuff.push_push, hread, List.length_nil, Nat.zero_add, List.append_nil]

variable {oe : ObjEntry} {skb : SkBuff}

/-- The use of a route that a lookup finds is the sending of the packet. -/
theorem encapWith (h : Represents env w r)
    (hbest : w.sfmc.routes.best (maskBits oe.dst 32) = some sf) :
    ∃ err out s', w.sfmc.encapWith skb oe sf = .ok (err, out, s') ∧
      (r.send skb oe).1 = .packet err out ∧
      Represents env { w with sfmc := s' } (r.send skb oe).2 := by
  obtain ⟨e, he, rfl, -⟩ := (Table.best_eq_some h.fib.inv.distinct).mp hbest
  obtain ⟨-, f, hf, -⟩ := Sfmc.mem_routes.mp he
  have hroute : r.route oe.dst = some f.hop := by
    unfold Router.route
    rw [← h.fib.hops, ← h.fib.inv.best_hop, hbest, Option.bind_some, Sfmc.hopOf, hf,
      Option.map_some]
  unfold Sfmc.encapWith Router.send
  simp only [Heap.read_eq hf, bind, Except.bind, hroute]
  by_cases hlink : f.hop.connected = true ∧ f.hop.gateway ≠ oe.dst
  · have hlink' : (f.scope = RT_SCOPE_LINK && f.gateway ≠ oe.dst) = true := by
      simpa [SfmcFib.hop] using hlink
    rw [if_pos hlink, if_pos hlink', Sfmc.sfmcFibCreate_ok (h.granted _)]
    have hready := h.fib.inv.ready_create oe.dst (le_refl 32) oe.dst RT_SCOPE_LINK
    have hqueue := h.fib.queue oe.dst
    rw [h.fib.made] at hqueue ⊢
    have hframe : w.sfmc.Frame
        { w.sfmc.created (Sfmc.hostFib oe.dst) with wq := w.sfmc.wq ++ [r.made] } :=
      ⟨hready.frame.permAddr, hready.frame.vdev, hready.frame.ou, hready.frame.oc,
        hready.frame.grants⟩
    exact ⟨_, _, _, rfl, rfl, h.of_frame hframe (fun _ => rfl) hqueue⟩
  · have hlink' : ¬ (f.scope = RT_SCOPE_LINK && f.gateway ≠ oe.dst) = true := by
      simpa [SfmcFib.hop] using hlink
    rw [if_neg hlink, if_neg hlink']
    cases hv : nudValid f.nudState with
    | false =>
      have hmac : f.hop.mac = none := by simp [SfmcFib.hop, hv]
      simp only [hmac]
      exact ⟨_, _, _, rfl, rfl, h⟩
    | true =>
      have hmac : f.hop.mac = some f.mac := by simp [SfmcFib.hop, hv]
      simp only [hmac]
      refine ⟨_, _, _, rfl, ?_, h⟩
      rw [h.pushHeaders_eq]

/-- The gate of a driver is open for the packets of the holders. -/
theorem gate_iff (h : Represents env w r) (skb : SkBuff) :
    (env.madcapEnable && w.sfmc.acquired skb) = true ↔
      env.madcapEnable = true ∧ ∃ dev ∈ r.holders, skb.dst = some dev := by
  rw [Bool.and_eq_true, h.held.acquired_iff]

theorem e1000SfmcEncapPacket (h : Represents env w r) (skb : SkBuff) :
    ∃ err out s', w.sfmc.e1000SfmcEncapPacket env skb = .ok (err, out, s') ∧
      (r.forward env.madcapEnable false skb).1 = .packet err out ∧
      Represents env { w with sfmc := s' } (r.forward env.madcapEnable false skb).2 := by
  unfold Sfmc.e1000SfmcEncapPacket Router.forward
  by_cases hgate : env.madcapEnable = true ∧ ∃ dev ∈ r.holders, skb.dst = some dev
  · have hlocate : r.locate false (extractIdFromPacket skb r.config) =
        (w.sfmc.sfmcTableFind env (extractIdFromPacket skb w.sfmc.oc)).map SfmcTable.oe := by
      unfold Router.locate
      rw [← h.locators, ← h.config]
      simp [Sfmc.locators]
    rw [if_pos hgate, if_pos ((h.gate_iff skb).mpr hgate), hlocate]
    dsimp only
    rw [Option.or_self]
    cases w.sfmc.sfmcTableFind env (extractIdFromPacket skb w.sfmc.oc) with
    | none => exact ⟨_, _, _, rfl, rfl, h⟩
    | some st =>
      simp only [Option.map_some, Sfmc.sfmcFibFindBest_eq h.fib.inv _ (le_refl 32), bind,
        Except.bind]
      cases hbest : w.sfmc.routes.best (maskBits st.oe.dst 32) with
      | some sf => exact h.encapWith hbest
      | none =>
        have hroute : r.route st.oe.dst = none := by
          unfold Router.route
          rw [← h.fib.hops, ← h.fib.inv.best_hop, hbest, Option.bind_none]
        unfold Router.send
        rw [hroute]
        exact ⟨_, _, _, rfl, rfl, h⟩
  · rw [if_neg hgate, if_neg (mt (h.gate_iff skb).mp hgate)]
    exact ⟨_, _, _, rfl, rfl, h⟩

/-- The cached route has to be the one that a lookup finds. -/
theorem sfmcEncapPacket (h : Represents env w r) (hfresh : w.sfmc.CacheFresh) (skb : SkBuff) :
    ∃ err out s', w.sfmc.sfmcEncapPacket env skb = .ok (err, out, s') ∧
      (r.forward env.madcapEnable true skb).1 = .packet err out ∧
      Represents env { w with sfmc := s' } (r.forward env.madcapEnable true skb).2 := by
  unfold Sfmc.sfmcEncapPacket Router.forward
  by_cases hgate : env.madcapEnable = true ∧ ∃ dev ∈ r.holders, skb.dst = some dev
  · have hlocate : r.locate true (extractIdFromPacket skb r.config) =
        ((w.sfmc.sfmcTableFind env (extractIdFromPacket skb w.sfmc.oc)).or
          (w.sfmc.sfmcTableFind env 0)).map SfmcTable.oe := by
      unfold Router.locate
      rw [← h.locators, ← h.config, if_pos rfl, Option.map_or]
      rfl
    rw [if_pos hgate, if_pos ((h.gate_iff skb).mpr hgate), hlocate]
    unfold Sfmc.encapCached
    dsimp only
    cases hst : (w.sfmc.sfmcTableFind env (extractIdFromPacket skb w.sfmc.oc)).or
        (w.sfmc.sfmcTableFind env 0) with
    | none => exact ⟨_, _, _, rfl, rfl, h⟩
    | some st =>
      simp only [Option.map_some]
      cases hfib : st.fib with
      | some sf =>
        have hmem : ∃ n, st ∈ w.sfmc.sfmcTable n := by
          rcases Option.or_eq_some_iff.mp hst with hfind | ⟨-, hfind⟩
          · exact ⟨_, (Sfmc.sfmcTableFind_eq_some hfind).2⟩
          · exact ⟨_, (Sfmc.sfmcTableFind_eq_some hfind).2⟩
        obtain ⟨n, hmem⟩ := hmem
        exact h.encapWith (hfresh n st hmem sf hfib)
      | none =>
        have hcached : ∀ fib, Represents env
            { w with sfmc := w.sfmc.sfmcTableCache env st.oe.id fib } r := by
          intro fib
          refine h.of_frame (s := w.sfmc.sfmcTableCache env st.oe.id fib) ⟨rfl, rfl, rfl, rfl, rfl⟩
            (fun n => ?_) (h.fib.congr rfl rfl rfl rfl)
          unfold Sfmc.sfmcTableCache
          by_cases hn : n = env.hash64 st.oe.id
          · subst hn
            simp only [Function.update_self, Sfmc.map_oe_cacheFib]
          · simp only [Function.update_of_ne hn]
        simp only [Sfmc.sfmcFibFindBest_eq h.fib.inv _ (le_refl 32), bind, Except.bind]
        cases hbest : w.sfmc.routes.best (maskBits st.oe.dst 32) with
        | some sf => exact (hcached (some sf)).encapWith hbest
        | none =>
          have hroute : r.route st.oe.dst = none := by
            unfold Router.route
            rw [← h.fib.hops, ← h.fib.inv.best_hop, hbest, Option.bind_none]
          unfold Router.send
          rw [hroute]
          exact ⟨_, _, _, rfl, rfl, hcached none⟩
  · rw [if_neg hgate, if_neg (mt (h.gate_iff skb).mp hgate)]
    exact ⟨_, _, _, rfl, rfl, h⟩

/-- Whatever is called, if packets are treated as the router treats them then so is the call. -/
theorem call (h : Represents env w r) {encapPacket : EncapPacket} {fallback : Bool}
    (hencap : ∀ skb, ∃ err out s', encapPacket env w.sfmc skb = .ok (err, out, s') ∧
      (r.forward env.madcapEnable fallback skb).1 = .packet err out ∧
      Represents env { w with sfmc := s' } (r.forward env.madcapEnable fallback skb).2)
    (e : Event) :
    ∃ w', w.call encapPacket env e = .ok ((r.step env.madcapEnable fallback e).1, w') ∧
      Represents env w' (r.step env.madcapEnable fallback e).2 := by
  cases e with
  | acquireDev vdev =>
    obtain ⟨hcode, hw'⟩ := h.acquire vdev
    simp only [World.call, Router.step, ← hcode]
    exact ⟨_, rfl, hw'⟩
  | releaseDev vdev =>
    obtain ⟨hcode, hw'⟩ := h.release vdev
    simp only [World.call, Router.step, ← hcode]
    exact ⟨_, rfl, hw'⟩
  | lltCfg oc =>
    obtain ⟨hcode, hw'⟩ := h.lltCfg oc
    simp only [World.call, Router.step, hcode]
    exact ⟨_, rfl, hw'⟩
  | lltEntryAdd oe =>
    obtain ⟨hcode, hw'⟩ := h.tableStep (.add oe)
    simp only [World.call, Router.step, ← hcode]
    exact ⟨_, rfl, hw'⟩
  | lltEntryDel oe =>
    obtain ⟨hcode, hw'⟩ := h.tableStep (.del oe)
    simp only [World.call, Router.step, ← hcode]
    exact ⟨_, rfl, hw'⟩
  | udpCfg ou => exact ⟨_, rfl, h.udpCfg ou⟩
  | portObjAdd phase obj created =>
    cases phase with
    | none => exact ⟨w, rfl, h⟩
    | prepare => exact ⟨w, rfl, h⟩
    | abort => exact ⟨w, rfl, h⟩
    | commit =>
      cases obj with
      | other => exact ⟨w, rfl, h⟩
      | ipv4Fib fib =>
        obtain ⟨w', hrun, hw'⟩ := h.addRoute fib created
        simp only [World.call, World.sfmcPortObjAdd, hrun, bind, Except.bind]
        exact ⟨w', rfl, hw'⟩
  | portObjDel obj =>
    cases obj with
    | other => exact ⟨w, rfl, h⟩
    | ipv4Fib fib =>
      obtain ⟨w', hrun, hw'⟩ := h.delRoute fib
      simp only [World.call, hrun, bind, Except.bind]
      exact ⟨w', rfl, hw'⟩
  | llNeighWork sf created =>
    obtain ⟨w', hrun, hw'⟩ := h.runWork sf created
    simp only [World.call, hrun, bind, Except.bind]
    exact ⟨w', rfl, hw'⟩
  | encapPacket skb =>
    obtain ⟨err, out, s', hrun, hanswer, hw'⟩ := hencap skb
    simp only [World.call, Router.step, hrun, hanswer, bind, Except.bind]
    exact ⟨_, rfl, hw'⟩
  | neighChange ip n =>
    obtain ⟨s, hrun, hw'⟩ := h.neighChange ip n
    simp only [World.call, hrun, bind, Except.bind]
    exact ⟨_, rfl, hw'⟩
  | neighDrop ip =>
    simp only [World.call, Router.step, h.arp]
    exact ⟨_, rfl, h.with_arp _⟩

end Represents

end Madcap
