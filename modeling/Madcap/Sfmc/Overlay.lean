import Madcap.Sfmc.Emission
import Madcap.Sfmc.Refinement

/-!
# Drivers as overlay routers

Along every run the drivers answer as routers do. What routers have in common the drivers
have in common: what a hash function does cannot be seen, routes may be installed in any
order, and a destination on the link is reached once its work has run.
-/

namespace Madcap

open LongestPrefix

theorem e1000_answers (env : Env) {w : World} {r : Router} (h : Represents env w r)
    (es : List Event) :
    ∃ w', runAnswers (World.call Sfmc.e1000SfmcEncapPacket env) w es =
      .ok ((answers (Router.step env.madcapEnable false) r es).1, w') ∧
      Represents env w' (answers (Router.step env.madcapEnable false) r es).2 :=
  runAnswers_simulation (C := fun _ _ => True) (fun _ _ e h _ => h.call h.e1000SfmcEncapPacket e) h
    (along_trivial w es)

/-- Whatever the e1000 driver is asked to do while allocations succeed, it answers as a router
without a default entry, and its tables stand for that router's. -/
theorem e1000_refines_router (env : Env) (permAddr : Mac) (arp : ArpTable) (es : List Event) :
    ∃ w, runAnswers (World.call Sfmc.e1000SfmcEncapPacket env) (World.fresh permAddr arp) es =
      .ok ((answers (Router.step env.madcapEnable false) (Router.init permAddr arp) es).1, w) ∧
      Represents env w (answers (Router.step env.madcapEnable false) (Router.init permAddr arp) es).2 :=
  e1000_answers env (Represents.init env permAddr arp) es

/-- A device whose cached routes are the ones that a lookup finds stands for a router. -/
def RepresentsFresh (env : Env) (w : World) (r : Router) : Prop :=
  Represents env w r ∧ w.sfmc.Inv ∧ w.sfmc.CacheFresh

theorem RepresentsFresh.call {env : Env} {w : World} {r : Router} (h : RepresentsFresh env w r)
    {e : Event} (hkeep : KeepsBest w e) :
    ∃ w', w.call Sfmc.sfmcEncapPacket env e = .ok ((r.step env.madcapEnable true e).1, w') ∧
      RepresentsFresh env w' (r.step env.madcapEnable true e).2 := by
  obtain ⟨hrep, inv, hfresh⟩ := h
  obtain ⟨w', hcall, hrep'⟩ := hrep.call (hrep.sfmcEncapPacket hfresh) e
  have hstep : w.step env e = .ok w' := by
    rw [← World.silent_call, silent, hcall]
    rfl
  have hout := (World.step_outcome inv e).of_eq_ok hstep
  exact ⟨w', hcall, hrep', hout.preserves inv, hout.cacheFresh inv hfresh hkeep⟩

theorem ixgbe_answers (env : Env) (permAddr : Mac) (arp : ArpTable) {es : List Event}
    (hkeep : Along (World.step env) KeepsBest (World.fresh permAddr arp) es) :
    ∃ w, runAnswers (World.call Sfmc.sfmcEncapPacket env) (World.fresh permAddr arp) es =
      .ok ((answers (Router.step env.madcapEnable true) (Router.init permAddr arp) es).1, w) ∧
      RepresentsFresh env w
        (answers (Router.step env.madcapEnable true) (Router.init permAddr arp) es).2 := by
  have hsilent : silent (World.call Sfmc.sfmcEncapPacket env) = World.step env := by
    funext w e
    exact World.silent_call env w e
  have hinit : RepresentsFresh env (World.fresh permAddr arp)
      (Router.init permAddr arp) :=
    ⟨Represents.init env permAddr arp, World.inv_init permAddr (fun _ => true) arp,
      fun n st hst => by cases hst⟩
  exact runAnswers_simulation (fun _ _ _ h hC => h.call hC) hinit (hsilent ▸ hkeep)

/-- While allocations succeed, and along the runs in which no new route is a better match for a
cached one, the ixgbe driver answers as a router with a default entry: its cache cannot be seen. -/
theorem ixgbe_refines_router (env : Env) (permAddr : Mac) (arp : ArpTable) (es : List Event)
    (hkeep : Along (World.step env) KeepsBest (World.fresh permAddr arp) es) :
    ∃ w, runAnswers (World.call Sfmc.sfmcEncapPacket env) (World.fresh permAddr arp) es =
      .ok ((answers (Router.step env.madcapEnable true) (Router.init permAddr arp) es).1, w) ∧
      Represents env w
        (answers (Router.step env.madcapEnable true) (Router.init permAddr arp) es).2 := by
  obtain ⟨w, hrun, hrep, -⟩ := ixgbe_answers env permAddr arp hkeep
  exact ⟨w, hrun, hrep⟩

theorem KeepsBest.of_links {w : World} {e : Event} (h : e.links w = none) : KeepsBest w e := by
  intro p hp
  rw [h] at hp
  cases hp

theorem KeepsBest.of_uncached {w : World} (h : ∀ n, ∀ st ∈ w.sfmc.sfmcTable n, st.fib = none)
    (e : Event) : KeepsBest w e := by
  intro p _ _ n st hst sf f hfib
  rw [h n st hst] at hfib
  cases hfib

def onesEntry : ObjEntry where
  obj := { id := MADCAP_OBJ_ID_LLT_ENTRY, tbId := 0 }
  id := 0x010101
  dst := 0x0201000A

def onesPacket : SkBuff where
  data := List.replicate 60 1
  tail := fun _ => 0
  fragLen := 0
  headroom := 64
  dst := some 0

/-- A device with a resolved route to 10.0.1.2 sends a packet, loses the route and fails. -/
def overlayRun : List Event :=
  [.acquireDev 0,
    .lltCfg { obj := { id := MADCAP_OBJ_ID_LLT_CONFIG, tbId := 0 }, offset := 0, length := 24,
              proto := 17, src := 0x0200000A },
    .lltEntryAdd onesEntry,
    .portObjAdd .commit
      (.ipv4Fib { dst := 0x0A000102, dstLen := Fin.last 32, gateway := 0x0100000A, scope := 0 })
      (some { ha := 0x665544332202, nudState := NUD_REACHABLE }),
    .encapPacket onesPacket,
    .portObjDel (.ipv4Fib { dst := 0x0A000102, dstLen := Fin.last 32, gateway := 0, scope := 0 }),
    .encapPacket onesPacket]

theorem overlayRun_keeps :
    Along (World.step oneBucket) KeepsBest (World.fresh 0 fun _ => none) overlayRun := by
  refine along_cons (KeepsBest.of_links rfl) rfl (along_cons (KeepsBest.of_links rfl) rfl
    (along_cons (KeepsBest.of_links rfl) rfl (along_cons (KeepsBest.of_uncached ?_ _) rfl
      (along_cons (KeepsBest.of_links rfl) rfl (along_cons (KeepsBest.of_links rfl) rfl
        (along_cons (KeepsBest.of_links rfl) rfl trivial))))))
  intro n st hst
  have htable : st ∈ Function.update (fun _ => []) (Fin.last 255)
      [{ oe := onesEntry, fib := none }] n := hst
  by_cases hn : n = Fin.last 255
  · rw [hn, Function.update_self] at htable
    rw [List.mem_singleton.mp htable]
  · rw [Function.update_of_ne hn] at htable
    cases htable

/-- The packet that was sent by the cached route is refused once the route is gone. -/
theorem ixgbe_refines_router_overlay : ∃ out w,
    runAnswers (World.call Sfmc.sfmcEncapPacket oneBucket) (World.fresh 0 fun _ => none) overlayRun =
      .ok ([.code 0, .code 0, .code 0, .code 0, .packet 0 out, .code 0,
        .packet (-ENOENT) onesPacket], w) := by
  obtain ⟨w, hrun, -⟩ := ixgbe_refines_router oneBucket 0 (fun _ => none) overlayRun overlayRun_keeps
  exact ⟨_, w, hrun⟩

namespace Router

variable {r : Router} {enabled : Bool}

/-- The event adds no default entry. -/
def NoDefault : Event → Prop
  | .lltEntryAdd oe => oe.id ≠ 0
  | _ => True

theorem send_locators (skb : SkBuff) (oe : ObjEntry) :
    (r.send skb oe).2.locators = r.locators := by
  unfold send
  split
  · rfl
  · split_ifs
    · rfl
    · split <;> rfl

theorem addRoute_locators (fib : SwitchdevIpv4Fib) (created : Option Neighbour) :
    (r.addRoute fib created).locators = r.locators := by
  unfold addRoute
  split_ifs <;> rfl

theorem step_fallback (enabled : Bool) {e : Event} (h : r.locators 0 = none) (he : NoDefault e) :
    r.step enabled true e = r.step enabled false e ∧
      (r.step enabled false e).2.locators 0 = none := by
  cases e with
  | lltCfg oc =>
    refine ⟨rfl, ?_⟩
    simp only [step, configure]
    split_ifs
    · rfl
    · exact h
  | lltEntryAdd oe =>
    refine ⟨rfl, ?_⟩
    simp only [step, LocatorMap.step]
    split_ifs
    · exact h
    · exact (Function.update_of_ne (Ne.symm he) ..).trans h
  | lltEntryDel oe =>
    refine ⟨rfl, ?_⟩
    simp only [step, LocatorMap.step]
    split_ifs
    · by_cases hid : oe.id = 0
      · simp only [hid, Function.update_self]
      · exact (Function.update_of_ne (Ne.symm hid) ..).trans h
    · exact h
  | portObjAdd phase obj created =>
    cases phase with
    | commit =>
      cases obj with
      | ipv4Fib fib => exact ⟨rfl, (congrFun (addRoute_locators fib created) 0).trans h⟩
      | other => exact ⟨rfl, h⟩
    | _ => exact ⟨rfl, h⟩
  | portObjDel obj =>
    cases obj with
    | ipv4Fib fib =>
      refine ⟨rfl, ?_⟩
      simp only [step, delRoute]
      split_ifs <;> exact h
    | other => exact ⟨rfl, h⟩
  | llNeighWork n created =>
    refine ⟨rfl, ?_⟩
    simp only [step, work]
    split <;> exact h
  | encapPacket skb =>
    have hlocate : ∀ id, r.locate true id = r.locate false id := by
      intro id
      unfold locate
      rw [h]
      rfl
    simp only [step, forward, hlocate]
    refine ⟨trivial, ?_⟩
    split_ifs
    · split
      · exact h
      · exact (congrFun (send_locators skb _) 0).trans h
    · exact h
  | _ => exact ⟨rfl, h⟩

theorem answers_fallback {es : List Event} (h : r.locators 0 = none)
    (hes : ∀ e ∈ es, NoDefault e) :
    answers (step enabled true) r es = answers (step enabled false) r es := by
  induction es generalizing r with
  | nil => rfl
  | cons e es ih =>
    obtain ⟨hstep, hnone⟩ := step_fallback enabled h (hes e List.mem_cons_self)
    rw [answers, answers, hstep, ih hnone fun e he => hes e (List.mem_cons_of_mem _ he)]

/-- The commit of a route, with the neighbour that is created for its gateway if none is there. -/
def install (create : U32 → Option Neighbour) (fib : SwitchdevIpv4Fib) : Event :=
  .portObjAdd .commit (.ipv4Fib fib) (create fib.gateway)

def prefixOf (fib : SwitchdevIpv4Fib) : List Bool := maskBits (htonl fib.dst) fib.dstLen

variable {create : U32 → Option Neighbour}

/-- Links for different prefixes commute when each gateway has one neighbour to be created. -/
theorem link_comm {p q : List Bool} (hne : p ≠ q) (g g' : U32) (c c' : Bool) :
    (r.link p g c (create g)).link q g' c' (create g') =
      (r.link q g' c' (create g')).link p g c (create g) := by
  have hfound : ∀ a b : U32, (Function.update r.arp a ((r.arp a).or (create a)) b).or (create b) =
      (r.arp b).or (create b) := by
    intro a b
    by_cases hab : b = a
    · subst hab
      rw [Function.update_self, Option.or_assoc, Option.or_self]
    · rw [Function.update_of_ne hab]
  unfold link
  dsimp only
  rw [hfound g g', hfound g' g, Function.update_of_ne hne.symm, Function.update_of_ne hne,
    Function.update_comm hne]
  congr 1
  by_cases hgg : g = g'
  · subst hgg
    rfl
  · rw [Function.update_comm hgg]

theorem addRoute_comm {fib fib' : SwitchdevIpv4Fib} (hne : prefixOf fib ≠ prefixOf fib') :
    (r.addRoute fib (create fib.gateway)).addRoute fib' (create fib'.gateway) =
      (r.addRoute fib' (create fib'.gateway)).addRoute fib (create fib.gateway) := by
  unfold addRoute
  split_ifs
  · rfl
  · rfl
  · rfl
  · exact link_comm (r := { r with made := r.made + 1 + 1 }) hne _ _ _ _

/-- Routes with different prefixes, in any order, make the same router. -/
theorem installs_perm {fibs fibs' : List SwitchdevIpv4Fib} (hperm : fibs.Perm fibs')
    (hnodup : (fibs.map prefixOf).Nodup) (r : Router) :
    answers (step enabled false) r (fibs.map (install create)) =
      answers (step enabled false) r (fibs'.map (install create)) := by
  have hrun : ∀ (fibs : List SwitchdevIpv4Fib) (r : Router),
      answers (step enabled false) r (fibs.map (install create)) =
        (fibs.map fun _ => .code 0,
          fibs.foldl (fun r fib => r.addRoute fib (create fib.gateway)) r) := by
    intro fibs
    induction fibs with
    | nil => exact fun _ => rfl
    | cons fib fibs ih =>
      intro r
      rw [List.map_cons, answers, ih]
      rfl
  have hcomm : ∀ a ∈ fibs, ∀ b ∈ fibs, ∀ r : Router,
      (r.addRoute a (create a.gateway)).addRoute b (create b.gateway) =
        (r.addRoute b (create b.gateway)).addRoute a (create a.gateway) := by
    intro a ha b hb r
    by_cases hab : prefixOf a = prefixOf b
    · obtain rfl := List.inj_on_of_nodup_map hnodup ha hb hab
      rfl
    · exact addRoute_comm hab
  rw [hrun, hrun]
  refine Prod.ext ?_ (hperm.foldl_eq' (fun a ha b hb r => hcomm a ha b hb r) r)
  rw [List.map_const', List.map_const', hperm.length_eq]

section

variable {fallback : Bool} {skb : SkBuff} {oe : ObjEntry} {hop : Hop} {mac : Mac}

theorem forward_eq_send (hgate : enabled = true ∧ ∃ dev ∈ r.holders, skb.dst = some dev)
    (hlocate : r.locate fallback (extractIdFromPacket skb r.config) = some oe) :
    r.forward enabled fallback skb = r.send skb oe := by
  unfold forward
  rw [if_pos hgate, hlocate]

theorem send_queues (hroute : r.route oe.dst = some hop)
    (hlink : hop.connected = true ∧ hop.gateway ≠ oe.dst) :
    r.send skb oe = (.packet (-ENOENT) skb, r.queue oe.dst) := by
  unfold send
  rw [hroute]
  exact if_pos hlink

theorem send_carried (hroute : r.route oe.dst = some hop)
    (hlink : ¬ (hop.connected = true ∧ hop.gateway ≠ oe.dst)) (hmac : hop.mac = some mac) :
    r.send skb oe = (.packet 0 (skb.push (r.headers skb.len oe.dst mac)), r) := by
  unfold send
  rw [hroute]
  dsimp only
  rw [if_neg hlink, hmac]

end

/-- The first packet to a destination on the link leaves work behind. Once the work has run
and the destination has a usable address, a packet goes there, unless the route that was used
is itself the host route. -/
theorem connected_recovers {fallback : Bool} {skb : SkBuff} {oe : ObjEntry} {hop : Hop} {mac : Mac}
    {n : Neighbour} (hgate : enabled = true ∧ ∃ dev ∈ r.holders, skb.dst = some dev)
    (hlocate : r.locate fallback (extractIdFromPacket skb r.config) = some oe)
    (hroute : r.route oe.dst = some hop) (hlink : hop.connected = true ∧ hop.gateway ≠ oe.dst)
    (hn : n.address = some mac) (created : Option Neighbour) :
    (answers (step enabled fallback) r [.encapPacket skb, .llNeighWork r.made created,
      .neighChange oe.dst n, .encapPacket skb]).1 =
    [.packet (-ENOENT) skb, .done, .done,
      if (r.hops (maskBits oe.dst 32)).isSome then .packet (-ENOENT) skb
      else .packet 0 (skb.push (r.headers skb.len oe.dst mac))] := by
  have hfirst : r.step enabled fallback (.encapPacket skb) =
      (.packet (-ENOENT) skb, r.queue oe.dst) :=
    (forward_eq_send hgate hlocate).trans (send_queues hroute hlink)
  have hwork : (r.queue oe.dst).work r.made created = { r.queue oe.dst with
      pending := Function.update (r.queue oe.dst).pending r.made none }.link (maskBits oe.dst 32)
        oe.dst true created := by
    simp only [work, queue, Function.update_self]
  have hhop : ∃ own : Hop, own.gateway = oe.dst ∧ own.connected = true ∧
      (((r.queue oe.dst).work r.made created).hear oe.dst n).hops (maskBits oe.dst 32) =
        some (Hop.hear oe.dst n ((r.hops (maskBits oe.dst 32)).getD own)) := by
    refine ⟨⟨oe.dst, true, ((r.arp oe.dst).or created).bind Neighbour.address⟩, rfl, rfl, ?_⟩
    rw [hwork]
    simp only [hear, link, queue, Function.update_self]
    cases r.hops (maskBits oe.dst 32) <;> rfl
  obtain ⟨own, hown, hconn, hhop⟩ := hhop
  have hlast : (step enabled fallback (((r.queue oe.dst).work r.made created).hear oe.dst n)
      (.encapPacket skb)).1 = if (r.hops (maskBits oe.dst 32)).isSome then .packet (-ENOENT) skb
        else .packet 0 (skb.push (r.headers skb.len oe.dst mac)) := by
    have hkeep : (((r.queue oe.dst).work r.made created).hear oe.dst n).holders = r.holders ∧
        (((r.queue oe.dst).work r.made created).hear oe.dst n).config = r.config ∧
        (((r.queue oe.dst).work r.made created).hear oe.dst n).locators = r.locators ∧
        (((r.queue oe.dst).work r.made created).hear oe.dst n).address = r.address ∧
        (((r.queue oe.dst).work r.made created).hear oe.dst n).udp = r.udp := by
      rw [hwork]
      exact ⟨rfl, rfl, rfl, rfl, rfl⟩
    generalize ((r.queue oe.dst).work r.made created).hear oe.dst n = r' at hhop hkeep
    obtain ⟨hholders, hconfig, hlocators, haddress, hudp⟩ := hkeep
    have hlocate' : r'.locate fallback (extractIdFromPacket skb r'.config) = some oe := by
      unfold locate
      rw [hlocators, hconfig]
      exact hlocate
    have hheaders : r'.headers skb.len oe.dst mac = r.headers skb.len oe.dst mac := by
      unfold headers
      rw [hconfig, hudp, haddress]
    have hroute' : r'.route oe.dst = some (Hop.hear oe.dst n ((r.hops (maskBits oe.dst 32)).getD own)) :=
      PrefixMap.longest_self hhop
    change (r'.forward enabled fallback skb).1 = _
    rw [forward_eq_send (hholders ▸ hgate) hlocate']
    cases hhost : r.hops (maskBits oe.dst 32) with
    | some h =>
      obtain rfl : hop = h := Option.some.inj (hroute.symm.trans (PrefixMap.longest_self hhost))
      rw [hhost] at hroute'
      obtain ⟨hconn', hgw'⟩ := Hop.hear_link oe.dst n hop
      rw [send_queues hroute' ⟨hconn'.trans hlink.1, hgw' ▸ hlink.2⟩]
      rfl
    | none =>
      rw [hhost] at hroute'
      have hmac : (Hop.hear oe.dst n own).mac = some mac := by
        rw [Hop.hear_mac hown]
        exact hn
      have hgw' : (Hop.hear oe.dst n own).gateway = oe.dst := (Hop.hear_link oe.dst n own).2.trans hown
      rw [send_carried hroute' (fun hno => hno.2 hgw') hmac, hheaders]
      rfl
  rw [answers, hfirst, answers, answers, answers, answers]
  exact congrArg (fun a => [Answer.packet (-ENOENT) skb, .done, .done, a]) hlast

end Router

theorem Sfmc.FibInv.host_route_iff {s : Sfmc} {sf : Ref} {f : SfmcFib} {dst : U32} (inv : s.FibInv)
    (hbest : s.routes.best (maskBits dst 32) = some sf) (hf : s.fibs.cells sf = some f) :
    (s.routes.exact (maskBits dst 32)).isSome = true ↔ f.len = 32 := by
  obtain ⟨e, he, rfl, hcov, hmax⟩ := (Table.best_eq_some inv.distinct).mp hbest
  obtain ⟨hsf, g, hg, hpfx⟩ := Sfmc.mem_routes.mp he
  obtain rfl := Option.some.inj (hf.symm.trans hg)
  have hlen : e.pfx.length = f.len := by rw [hpfx, maskBits_length]
  constructor
  · intro h
    obtain ⟨q, hq⟩ := Option.isSome_iff_exists.mp h
    obtain ⟨e', he', -, hpfx'⟩ := (Table.exact_eq_some inv.distinct).mp hq
    have hle := hmax e' he' (hpfx' ▸ List.prefix_refl _)
    rw [hpfx', maskBits_length, hlen] at hle
    exact le_antisymm (inv.len_le hsf hf) hle
  · intro h
    have heq : e.pfx = maskBits dst 32 := hcov.eq_of_length (by rw [hlen, h, maskBits_length])
    rw [(Table.exact_eq_some inv.distinct).mpr ⟨e, he, rfl, heq⟩]
    rfl

/-- While allocations succeed the two drivers answer alike, whatever their hash functions are, along
the runs that add no default entry and in which no new route is a better match for a cached one. -/
theorem drivers_agree (env env' : Env) (henable : env'.madcapEnable = env.madcapEnable)
    (permAddr : Mac) (arp : ArpTable) (es : List Event) (hdefault : ∀ e ∈ es, Router.NoDefault e)
    (hkeep : Along (World.step env) KeepsBest (World.fresh permAddr arp) es) :
    ∃ as w w', runAnswers (World.call Sfmc.sfmcEncapPacket env) (World.fresh permAddr arp) es =
        .ok (as, w) ∧
      runAnswers (World.call Sfmc.e1000SfmcEncapPacket env') (World.fresh permAddr arp) es =
        .ok (as, w') := by
  obtain ⟨w, hrun, -⟩ := ixgbe_answers env permAddr arp hkeep
  obtain ⟨w', hrun', -⟩ := e1000_answers env' (Represents.init env' permAddr arp) es
  refine ⟨_, w, w', hrun, ?_⟩
  rw [Router.answers_fallback rfl hdefault, ← henable]
  exact hrun'

def lowBits : Env where
  madcapEnable := true
  hash64 := fun id => (id.setWidth 8).toFin

theorem drivers_agree_overlay : ∃ as w w',
    runAnswers (World.call Sfmc.sfmcEncapPacket oneBucket) (World.fresh 0 fun _ => none) overlayRun =
      .ok (as, w) ∧
    runAnswers (World.call Sfmc.e1000SfmcEncapPacket lowBits) (World.fresh 0 fun _ => none)
      overlayRun = .ok (as, w') := by
  have hadd : Router.NoDefault (.lltEntryAdd onesEntry) := by
    change onesEntry.id ≠ 0
    decide
  have hdefault : ∀ e ∈ overlayRun, Router.NoDefault e := by
    intro e he
    fin_cases he <;> first | exact hadd | trivial
  exact drivers_agree oneBucket lowBits rfl 0 (fun _ => none) overlayRun hdefault overlayRun_keeps

/-- Wherever in a run routes with different prefixes are installed, and while allocations succeed,
their order changes no answer of the e1000 driver, neither then nor later. -/
theorem routes_in_any_order (env : Env) (permAddr : Mac) (arp : ArpTable)
    (create : U32 → Option Neighbour) (es es' : List Event) (fibs fibs' : List SwitchdevIpv4Fib)
    (hperm : fibs.Perm fibs') (hnodup : (fibs.map Router.prefixOf).Nodup) :
    ∃ as w w', runAnswers (World.call Sfmc.e1000SfmcEncapPacket env) (World.fresh permAddr arp)
        (es ++ fibs.map (Router.install create) ++ es') = .ok (as, w) ∧
      runAnswers (World.call Sfmc.e1000SfmcEncapPacket env) (World.fresh permAddr arp)
        (es ++ fibs'.map (Router.install create) ++ es') = .ok (as, w') := by
  have hinit := Represents.init env permAddr arp
  obtain ⟨w, hrun, -⟩ := e1000_answers env hinit (es ++ fibs.map (Router.install create) ++ es')
  obtain ⟨w', hrun', -⟩ := e1000_answers env hinit (es ++ fibs'.map (Router.install create) ++ es')
  refine ⟨_, w, w', hrun, ?_⟩
  rw [answers_append, answers_append, Router.installs_perm hperm hnodup, ← answers_append,
    ← answers_append]
  exact hrun'

/-- Routes to 10.0.1.2 and 10.0.1.3 through different gateways. -/
def twoRoutes : List SwitchdevIpv4Fib :=
  [{ dst := 0x0A000102, dstLen := Fin.last 32, gateway := 0x0100000A, scope := 0 },
    { dst := 0x0A000103, dstLen := Fin.last 32, gateway := 0x0200000A, scope := 0 }]

theorem routes_in_any_order_two : ∃ as w w',
    runAnswers (World.call Sfmc.e1000SfmcEncapPacket oneBucket) (World.fresh 0 fun _ => none)
      ([] ++ twoRoutes.map (Router.install fun _ => none) ++ overlayRun) = .ok (as, w) ∧
    runAnswers (World.call Sfmc.e1000SfmcEncapPacket oneBucket) (World.fresh 0 fun _ => none)
      ([] ++ twoRoutes.reverse.map (Router.install fun _ => none) ++ overlayRun) = .ok (as, w') :=
  routes_in_any_order oneBucket 0 (fun _ => none) (fun _ => none) [] overlayRun twoRoutes
    twoRoutes.reverse (List.reverse_perm twoRoutes).symm (by decide)

/-- In every state that the e1000 driver comes to while allocations succeed: when a packet uses a
route that is on the link, and the route is not the destination's own, the packet leaves work
behind, and once the work has run and the destination has answered a packet goes there. By a host
route on the link no packet ever goes. -/
theorem connected_destination_recovers (env : Env) (permAddr : Mac) (arp : ArpTable)
    (es : List Event) (as : List Answer) (w : World)
    (hrun : runAnswers (World.call Sfmc.e1000SfmcEncapPacket env) (World.fresh permAddr arp) es =
      .ok (as, w)) (skb : SkBuff) (st : SfmcTable) (sf : Ref) (f : SfmcFib)
    (huse : w.sfmc.E1000Uses env skb st sf) (hf : w.sfmc.fibs.cells sf = some f)
    (hscope : f.scope = RT_SCOPE_LINK) (hgw : f.gateway ≠ st.oe.dst) (created : Option Neighbour)
    (n : Neighbour) (hn : nudValid n.nudState = true) :
    ∃ w', runAnswers (World.call Sfmc.e1000SfmcEncapPacket env) w
        [.encapPacket skb, .llNeighWork w.sfmc.fibs.next created, .neighChange st.oe.dst n,
          .encapPacket skb] =
      .ok ([.packet (-ENOENT) skb, .done, .done,
        if f.len = 32 then .packet (-ENOENT) skb
        else .packet 0 (w.sfmc.pushHeaders skb st.oe.dst n.ha)], w') := by
  obtain ⟨w₁, hrun₁, hrep⟩ := e1000_answers env (Represents.init env permAddr arp) es
  obtain ⟨-, rfl⟩ := ok_pair_inj (hrun₁.symm.trans hrun)
  generalize (answers (Router.step env.madcapEnable false) (Router.init permAddr arp) es).2 = r at hrep
  have inv := hrep.fib.inv
  have hbest : w₁.sfmc.routes.best (maskBits st.oe.dst 32) = some sf := by
    have hfind := huse.route
    rw [Sfmc.sfmcFibFindBest_eq inv _ (le_refl 32)] at hfind
    exact Except.ok.inj hfind
  have hroute : r.route st.oe.dst = some f.hop := by
    unfold Router.route
    rw [← hrep.fib.hops, ← inv.best_hop, hbest, Option.bind_some, Sfmc.hopOf, hf, Option.map_some]
  have hlocate : r.locate false (extractIdFromPacket skb r.config) = some st.oe := by
    unfold Router.locate
    rw [← hrep.locators, ← hrep.config]
    simp only [Sfmc.locators, huse.entry, Option.map_some, Option.some_or]
  have hgate := (hrep.gate_iff skb).mp (Bool.and_eq_true_iff.mpr ⟨huse.enabled, huse.acquired⟩)
  have hhost : (r.hops (maskBits st.oe.dst 32)).isSome = true ↔ f.len = 32 := by
    rw [← hrep.fib.hops, inv.nextHops_isSome]
    exact inv.host_route_iff hbest hf
  obtain ⟨w', hrun', -⟩ := e1000_answers env hrep
    [.encapPacket skb, .llNeighWork r.made created, .neighChange st.oe.dst n, .encapPacket skb]
  rw [Router.connected_recovers hgate hlocate hroute
    ⟨beq_iff_eq.mpr hscope, hgw⟩ (if_pos hn) created] at hrun'
  refine ⟨w', ?_⟩
  rw [hrep.fib.made, hrep.pushHeaders_eq, hrun']
  simp only [hhost]

/-- 10.0.1.2 answers on the link of 10.0.1.0/24. -/
theorem connected_destination_recovers_answer : ∃ w w' out,
    runAnswers (World.call Sfmc.e1000SfmcEncapPacket oneBucket) (World.fresh 0 fun _ => none)
      [connectedRoute 0x0A000100 ⟨24, by decide⟩, .acquireDev 0, .lltEntryAdd connectedEntry] =
        .ok ([.code 0, .code 0, .code 0], w) ∧
    runAnswers (World.call Sfmc.e1000SfmcEncapPacket oneBucket) w
      [.encapPacket blankPacket, .llNeighWork w.sfmc.fibs.next none,
        .neighChange connectedEntry.dst { ha := 0x665544332202, nudState := NUD_REACHABLE },
        .encapPacket blankPacket] =
      .ok ([.packet (-ENOENT) blankPacket, .done, .done, .packet 0 out], w') := by
  obtain ⟨w', hrun⟩ := connected_destination_recovers oneBucket 0 (fun _ => none)
    [connectedRoute 0x0A000100 ⟨24, by decide⟩, .acquireDev 0, .lltEntryAdd connectedEntry] _ _ rfl
    blankPacket { oe := connectedEntry, fib := none } 0 _ ⟨rfl, by decide, by rfl, by rfl⟩ rfl rfl
    (by decide) none { ha := 0x665544332202, nudState := NUD_REACHABLE } (by decide)
  exact ⟨_, w', _, rfl, hrun⟩

end Madcap
