import Madcap.Drivers.Transmit
import Madcap.Sfmc.Emission
import Madcap.Sfmc.RouteCache

/-!
# Retried packets

Both drivers encapsulate before they look for room on the ring, and nothing in a
packet says that it has been encapsulated. A packet that is handed back unchanged
is one that the attempt had nothing to add to.
-/

namespace Madcap

/-- The bytes that `sfmc_encap_packet` puts before a packet. -/
def OuterHeaders (hdr : List U8) : Prop :=
  ∃ (s : Sfmc) (skb : SkBuff) (dst : U32) (mac : Mac),
    (s.pushHeaders skb dst mac).data = hdr ++ skb.data

/-- The frame `q` is `p` behind at most one set of outer headers, with zeros at its end. -/
def Framed (p q : TxPacket) : Prop :=
  ∃ hdr n, q.bytes = hdr ++ p.bytes ++ List.replicate n 0 ∧ (hdr = [] ∨ OuterHeaders hdr)

/-- A busy packet is the one that was handed over, a placed one has one set of headers. -/
def TxVerdict.Keeps (p : TxPacket) : TxVerdict → Prop
  | .busy q => q.bytes = p.bytes
  | .freed => True
  | .placed q => Framed p q

namespace TxPacket

variable {p q : TxPacket} {grant : Grant} {n : ℕ}

theorem bytes_length (p : TxPacket) : p.bytes.length = p.skb.len := by
  simp [bytes, skb, SkBuff.len]

theorem withSkb_skb (p : TxPacket) : p.withSkb p.skb = p := rfl

theorem withSkb_bytes (p : TxPacket) (skb : SkBuff) :
    (p.withSkb skb).bytes = skb.data ++ p.frags.flatten := rfl

theorem eatFrags_flatten (n : ℕ) (frags : List (List U8)) :
    (eatFrags n frags).flatten = frags.flatten.drop n := by
  induction frags generalizing n with
  | nil => simp [eatFrags]
  | cons frag frags ih =>
    unfold eatFrags
    split_ifs with h
    · rw [ih, List.flatten_cons, List.drop_append, List.drop_of_length_le h, List.nil_append]
    · rw [List.flatten_cons, ih, List.flatten_cons, List.drop_append]
      have hzero : n - frag.length = 0 := by omega
      rw [hzero]

theorem pskbPullTail_bytes (h : p.pskbPullTail n grant = some q) : q.bytes = p.bytes := by
  obtain ⟨tail, -, rfl⟩ := Option.map_eq_some_iff.mp h
  simp only [bytes, eatFrags_flatten, List.append_assoc, List.take_append_drop]

theorem skbPutPadto_bytes (h : p.skbPutPadto n grant = some q) :
    q.bytes = p.bytes ++ List.replicate (n - p.skb.len) 0 := by
  unfold skbPutPadto at h
  split_ifs at h with hlen
  · obtain ⟨tail, -, rfl⟩ := Option.map_eq_some_iff.mp h
    simp [bytes]
  · obtain rfl := Option.some.inj h
    have hzero : n - p.skb.len = 0 := by omega
    rw [hzero, List.replicate_zero, List.append_nil]

end TxPacket

theorem E1000Adapter.tsoPull_bytes {a : E1000Adapter} {io : E1000Io} {p q : TxPacket}
    {len n : ℕ} (h : a.tsoPull io p len = some (q, n)) : q.bytes = p.bytes := by
  unfold tsoPull at h
  split_ifs at h
  · obtain ⟨r, hr, heq⟩ := Option.map_eq_some_iff.mp h
    obtain rfl := (Prod.mk.inj heq).1
    exact TxPacket.pskbPullTail_bytes hr
  · obtain rfl := (Prod.mk.inj (Option.some.inj h)).1
    rfl

/-- `e1000_xmit_frame` turns away a packet that is ready for the ring. -/
def E1000Adapter.Refuses (a : E1000Adapter) (io : E1000Io) (p : TxPacket) (len : ℕ) : Prop :=
  e1000MaybeStopTx a.txRing io.nextToClean (a.txdCount p len + 2) = true ∨
    a.macType = .e1000_82547 ∧ (a.fifoWorkaround p).1 = true

/-- There is room for a packet, unless padding it or pulling its fragments fails. -/
def E1000Adapter.Accepts (a : E1000Adapter) (io : E1000Io) (len : ℕ) (p : TxPacket) : Prop :=
  ∀ q r n, p.skbPutPadto ETH_ZLEN io.padGrant = some q → a.tsoPull io q len = some (r, n) →
    ¬ a.Refuses io r n

def IxgbeAdapter.Accepts (a : IxgbeAdapter) (io : IxgbeIo) (p : TxPacket) : Prop :=
  ∀ q, p.skbPutPadto 17 io.padGrant = some q →
    ixgbeMaybeStopTx a.txRing io.nextToClean (ixgbeTxdCount q + 3) = false

/-- There is room for the packet whenever the attempt encapsulates or pads it. -/
def Driver.Safe (env : Env) : (d : Driver) → d.Adapter → d.Io → TxPacket → Prop
  | .e1000, a, io, p =>
    (∀ out, a.sfmc.Encaps (a.sfmc.E1000Uses env p.skb) p.skb out →
      a.Accepts io p.data.length (p.withSkb out)) ∧
    ((∀ out, ¬ a.sfmc.Encaps (a.sfmc.E1000Uses env p.skb) p.skb out) →
      p.skb.len < ETH_ZLEN → a.Accepts io p.data.length p)
  | .ixgbe, a, io, p =>
    (∀ out, a.sfmc.Encaps (a.sfmc.Uses env p.skb) p.skb out → a.Accepts io (p.withSkb out)) ∧
    (¬ a.sfmc.Acquires env p.skb → p.skb.len < 17 → a.Accepts io p)

/-- What an attempt makes of the packet `p` when at least `n` bytes go on the ring. -/
def TxVerdict.Follows (Accepts : TxPacket → Prop) (n : ℕ) (p : TxPacket) : TxVerdict → Prop
  | .busy q => ¬ Accepts p ∧ q.bytes = p.bytes ++ List.replicate (n - p.skb.len) 0
  | .freed => Accepts p
  | .placed q => Accepts p ∧ q.bytes = p.bytes ++ List.replicate (n - p.skb.len) 0

section

variable {Accepts : TxPacket → Prop} {n : ℕ} {p : TxPacket} {v : TxVerdict} {s : Sfmc}
  {U : SfmcTable → Ref → Prop} {out : SkBuff}

theorem Sfmc.Encaps.bytes (h : s.Encaps U p.skb out) :
    ∃ hdr, hdr ≠ [] ∧ OuterHeaders hdr ∧ (p.withSkb out).bytes = hdr ++ p.bytes := by
  obtain ⟨st, sf, f, -, -, -, rfl⟩ := h
  obtain ⟨hdr, hne, hdata⟩ := s.pushHeaders_data p.skb st.oe.dst f.mac
  refine ⟨hdr, hne, ⟨s, p.skb, st.oe.dst, f.mac, hdata⟩, ?_⟩
  rw [TxPacket.withSkb_bytes, hdata, List.append_assoc]
  rfl

theorem TxVerdict.Follows.keeps_encaps (h : v.Follows Accepts n (p.withSkb out))
    (henc : s.Encaps U p.skb out) :
    (∀ q, v = .busy q → q.bytes = p.bytes) ↔ Accepts (p.withSkb out) := by
  obtain ⟨hdr, hne, -, hbytes⟩ := henc.bytes
  cases v with
  | busy q =>
    obtain ⟨hno, hq⟩ := h
    refine ⟨fun hkeep => ?_, fun hyes => absurd hyes hno⟩
    have hlen := congrArg List.length ((hkeep q rfl).symm.trans hq)
    rw [hbytes] at hlen
    have hpos := List.length_pos_iff.mpr hne
    simp only [List.length_append] at hlen
    omega
  | freed => exact ⟨fun _ => h, fun _ q hq => nomatch hq⟩
  | placed q => exact ⟨fun _ => h.1, fun _ q hq => nomatch hq⟩

theorem TxVerdict.Follows.keeps_plain (h : v.Follows Accepts n p) :
    (∀ q, v = .busy q → q.bytes = p.bytes) ↔ (p.skb.len < n → Accepts p) := by
  cases v with
  | busy q =>
    obtain ⟨hno, hq⟩ := h
    constructor
    · intro hkeep hlt
      have hlen := congrArg List.length ((hkeep q rfl).symm.trans hq)
      simp only [List.length_append, List.length_replicate] at hlen
      omega
    · intro hroom r hr
      have hle : n ≤ p.skb.len := by
        by_contra hlt
        exact hno (hroom (by omega))
      obtain rfl := TxVerdict.busy.inj hr
      rw [hq, Nat.sub_eq_zero_of_le hle, List.replicate_zero, List.append_nil]
  | freed => exact ⟨fun _ _ => h, fun _ q hq => nomatch hq⟩
  | placed q => exact ⟨fun _ _ => h.1, fun _ q hq => nomatch hq⟩

theorem TxVerdict.Follows.framed {hdr : List U8} (h : v.Follows Accepts n (p.withSkb out))
    (hbytes : (p.withSkb out).bytes = hdr ++ p.bytes) (hhdr : hdr = [] ∨ OuterHeaders hdr) :
    ∀ q, v = .placed q → Framed p q := by
  rintro q rfl
  exact ⟨hdr, _, by rw [h.2, hbytes], hhdr⟩

end

namespace E1000Adapter

variable {a : E1000Adapter} {io : E1000Io} {p : TxPacket} {len : ℕ}

/-- Whether the ring takes a packet does not depend on the madcap device. -/
theorem refuses_withSfmc (a : E1000Adapter) (s : Sfmc) :
    { a with sfmc := s }.Refuses io p len ↔ a.Refuses io p len := by
  have hfifo : ({ a with sfmc := s }.fifoWorkaround p).1 = (a.fifoWorkaround p).1 := by
    unfold fifoWorkaround
    dsimp only
    split_ifs <;> rfl
  unfold Refuses
  rw [hfifo]
  rfl

theorem xmitReady_of_refuses (h : a.Refuses io p len) : (a.xmitReady io p len).2 = .busy p := by
  unfold xmitReady
  by_cases hstop : e1000MaybeStopTx a.txRing io.nextToClean (a.txdCount p len + 2) = true
  · rw [if_pos hstop]
  · obtain ⟨h82547, hstall⟩ := h.resolve_left hstop
    rw [if_neg hstop, if_pos h82547]
    simp only [hstall, if_true]

theorem xmitReady_of_not_refuses (h : ¬ a.Refuses io p len) :
    (a.xmitReady io p len).2 = if io.mapped then .placed p else .freed := by
  obtain ⟨hstop, hfifo⟩ := not_or.mp h
  unfold xmitReady
  rw [if_neg hstop]
  by_cases h82547 : a.macType = .e1000_82547
  · have hstall : (a.fifoWorkaround p).1 = false := by
      simpa using fun hs => hfifo ⟨h82547, hs⟩
    rw [if_pos h82547]
    simp only [hstall]
    rfl
  · rw [if_neg h82547]
    rfl

end E1000Adapter

/-- What e1000 does with a packet once it is encapsulated. Padding or pulling fails, or the
packet that they leave is turned away, or it goes to the ring. -/
inductive E1000Ends (a : E1000Adapter) (io : E1000Io) (len : ℕ) (p : TxPacket) (v : TxVerdict) :
    Prop where
  | dropped (unready : ∀ q r n, p.skbPutPadto ETH_ZLEN io.padGrant = some q →
      a.tsoPull io q len ≠ some (r, n)) (freed : v = .freed)
  | refused (q r : TxPacket) (n : ℕ) (pad : p.skbPutPadto ETH_ZLEN io.padGrant = some q)
      (pull : a.tsoPull io q len = some (r, n)) (refuses : a.Refuses io r n) (busy : v = .busy r)
  | handed (q r : TxPacket) (n : ℕ) (pad : p.skbPutPadto ETH_ZLEN io.padGrant = some q)
      (pull : a.tsoPull io q len = some (r, n)) (accepts : ¬ a.Refuses io r n)
      (verdict : v = if io.mapped then .placed r else .freed)

section

variable {env : Env} {a a' : E1000Adapter} {io : E1000Io} {p q r : TxPacket} {v : TxVerdict}
  {len n : ℕ}

/-- After the encapsulation the e1000 driver pads, looks for room and hands over. -/
theorem e1000XmitFrame_cases (h : e1000XmitFrame env a io p = .ok (a', v)) :
    ∃ err out s, a.sfmc.e1000SfmcEncapPacket env p.skb = .ok (err, out, s) ∧
      E1000Ends a io p.data.length (p.withSkb out) v := by
  unfold e1000XmitFrame at h
  dsimp only at h
  obtain ⟨⟨err, out, s⟩, henc, hrest⟩ := bind_eq_ok.mp h
  refine ⟨err, out, s, henc, ?_⟩
  dsimp only at hrest
  cases hpad : (p.withSkb out).skbPutPadto ETH_ZLEN io.padGrant with
  | none =>
    rw [hpad] at hrest
    refine .dropped (fun q r n hq => ?_) (ok_pair_inj hrest).2.symm
    cases hpad.symm.trans hq
  | some q =>
    rw [hpad] at hrest
    dsimp only at hrest
    cases hpull : a.tsoPull io q p.data.length with
    | none =>
      have hnone : { a with sfmc := s }.tsoPull io q p.data.length = none := hpull
      rw [hnone] at hrest
      refine .dropped (fun q' r n hq hr => ?_) (ok_pair_inj hrest).2.symm
      cases hpad.symm.trans hq
      cases hpull.symm.trans hr
    | some rn =>
      obtain ⟨r, n⟩ := rn
      have hsome : { a with sfmc := s }.tsoPull io q p.data.length = some (r, n) := hpull
      rw [hsome] at hrest
      have hv := congrArg Prod.snd (Except.ok.inj hrest)
      dsimp only at hv
      by_cases href : a.Refuses io r n
      · rw [E1000Adapter.xmitReady_of_refuses ((a.refuses_withSfmc s).mpr href)] at hv
        exact .refused q r n hpad hpull href hv.symm
      · rw [E1000Adapter.xmitReady_of_not_refuses (mt (a.refuses_withSfmc s).mp href)] at hv
        exact .handed q r n hpad hpull href hv.symm

/-- Only one packet is ready for the ring. -/
theorem E1000Adapter.forall_ready_iff {P : TxPacket → ℕ → Prop}
    (hpad : p.skbPutPadto ETH_ZLEN io.padGrant = some q)
    (hpull : a.tsoPull io q len = some (r, n)) :
    (∀ q' r' n', p.skbPutPadto ETH_ZLEN io.padGrant = some q' →
      a.tsoPull io q' len = some (r', n') → P r' n') ↔ P r n := by
  refine ⟨fun h => h q r n hpad hpull, fun h q' r' n' hq hr => ?_⟩
  cases hpad.symm.trans hq
  cases hpull.symm.trans hr
  exact h

theorem e1000XmitFrame_follows (h : e1000XmitFrame env a io p = .ok (a', v)) :
    ∃ err out s, a.sfmc.e1000SfmcEncapPacket env p.skb = .ok (err, out, s) ∧
      v.Follows (a.Accepts io p.data.length) ETH_ZLEN (p.withSkb out) := by
  obtain ⟨err, out, s, henc, hends⟩ := e1000XmitFrame_cases h
  refine ⟨err, out, s, henc, ?_⟩
  have hbytes {q r : TxPacket} {n : ℕ}
      (hpad : (p.withSkb out).skbPutPadto ETH_ZLEN io.padGrant = some q)
      (hpull : a.tsoPull io q p.data.length = some (r, n)) :
      r.bytes = (p.withSkb out).bytes ++
        List.replicate (ETH_ZLEN - (p.withSkb out).skb.len) 0 :=
    (E1000Adapter.tsoPull_bytes hpull).trans (TxPacket.skbPutPadto_bytes hpad)
  cases hends with
  | dropped unready freed =>
    subst freed
    exact fun q r n hq hr => absurd hr (unready q r n hq)
  | refused q r n pad pull refuses busy =>
    subst busy
    exact ⟨fun hacc => hacc q r n pad pull refuses, hbytes pad pull⟩
  | handed q r n pad pull accepts verdict =>
    have hacc : a.Accepts io p.data.length (p.withSkb out) :=
      (E1000Adapter.forall_ready_iff pad pull).mpr accepts
    subst verdict
    split_ifs
    · exact ⟨hacc, hbytes pad pull⟩
    · exact hacc

end

theorem ixgbeXmitFrame_follows {env : Env} {a a' : IxgbeAdapter} {io : IxgbeIo} {p : TxPacket}
    {v : TxVerdict} (h : ixgbeXmitFrame env a io p = .ok (a', v)) :
    ∃ err out s, a.sfmc.sfmcEncapPacket env p.skb = .ok (err, out, s) ∧
      (err < 0 ∧ v = .freed ∨ ¬ err < 0 ∧ v.Follows (a.Accepts io) 17 (p.withSkb out)) := by
  unfold ixgbeXmitFrame at h
  obtain ⟨⟨err, out, s⟩, henc, hrest⟩ := bind_eq_ok.mp h
  refine ⟨err, out, s, henc, ?_⟩
  dsimp only at hrest
  split_ifs at hrest with herr
  · exact .inl ⟨herr, (ok_pair_inj hrest).2.symm⟩
  · refine .inr ⟨herr, ?_⟩
    cases hpad : (p.withSkb out).skbPutPadto 17 io.padGrant with
    | none =>
      rw [hpad] at hrest
      obtain rfl := (ok_pair_inj hrest).2
      intro q hq
      exact absurd (hpad.symm.trans hq) (by simp)
    | some q =>
      rw [hpad] at hrest
      have hbytes := TxPacket.skbPutPadto_bytes hpad
      have haccepts : a.Accepts io (p.withSkb out) ↔
          ixgbeMaybeStopTx a.txRing io.nextToClean (ixgbeTxdCount q + 3) = false := by
        constructor
        · exact fun hacc => hacc q hpad
        · intro hroom q' hq
          obtain rfl := Option.some.inj (hpad.symm.trans hq)
          exact hroom
      have hring := congrArg Prod.snd (Except.ok.inj hrest)
      unfold ixgbeXmitFrameRing at hring
      split_ifs at hring with hstop
      · obtain rfl := hring
        refine ⟨fun hacc => ?_, hbytes⟩
        exact absurd (hstop.symm.trans (haccepts.mp hacc)) (by simp)
      · have hacc := haccepts.mpr (by simpa using hstop)
        obtain rfl := hring
        exact ⟨hacc, hbytes⟩
      · have hacc := haccepts.mpr (by simpa using hstop)
        obtain rfl := hring
        exact hacc

namespace Driver

variable {env : Env} {d : Driver} {a a' : d.Adapter} {io : d.Io} {p : TxPacket} {v : TxVerdict}

/-- A busy driver hands a packet back unchanged exactly when the attempt was safe, and
what it places has one set of headers more than the packet at most. -/
theorem xmitFrame_spec (h : d.xmitFrame env a io p = .ok (a', v)) :
    ((∀ q, v = .busy q → q.bytes = p.bytes) ↔ d.Safe env a io p) ∧
      ∀ q, v = .placed q → Framed p q := by
  cases d with
  | e1000 =>
    obtain ⟨err, out, s, henc, hv⟩ := e1000XmitFrame_follows h
    rcases Sfmc.e1000SfmcEncapPacket_leaves henc with hout | ⟨rfl, hnone⟩
    · obtain ⟨hdr, -, houter, hbytes⟩ := hout.bytes
      refine ⟨?_, hv.framed hbytes (.inr houter)⟩
      rw [hv.keeps_encaps hout]
      constructor
      · intro hacc
        refine ⟨fun o ho => ?_, fun hno => absurd hout (hno out)⟩
        rw [ho.unique (fun _ _ _ _ => Sfmc.E1000Uses.unique) hout]
        exact hacc
      · exact fun hsafe => hsafe.1 out hout
    · refine ⟨?_, hv.framed rfl (.inl rfl)⟩
      rw [TxPacket.withSkb_skb] at hv
      rw [hv.keeps_plain]
      exact ⟨fun hroom => ⟨fun o ho => absurd ho (hnone o), fun _ => hroom⟩,
        fun hsafe => hsafe.2 hnone⟩
  | ixgbe =>
    obtain ⟨err, out, s, henc, hv⟩ := ixgbeXmitFrame_follows h
    rcases Sfmc.sfmcEncapPacket_cases henc with
      ⟨hacq, ⟨rfl, hout⟩ | ⟨hneg, hnone⟩⟩ | ⟨hacq, rfl, rfl⟩
    · replace hv := (hv.resolve_left (by simp)).2
      obtain ⟨hdr, -, houter, hbytes⟩ := hout.bytes
      refine ⟨?_, hv.framed hbytes (.inr houter)⟩
      rw [hv.keeps_encaps hout]
      constructor
      · intro hacc
        refine ⟨fun o ho => ?_, fun hno => absurd hacq hno⟩
        rw [ho.unique (fun _ _ _ _ => Sfmc.Uses.unique) hout]
        exact hacc
      · exact fun hsafe => hsafe.1 out hout
    · obtain ⟨-, rfl⟩ := hv.resolve_right fun hpos => hpos.1 hneg
      refine ⟨iff_of_true (fun q hq => nomatch hq) ⟨?_, ?_⟩, fun q hq => nomatch hq⟩
      · exact fun o ho => absurd ho (hnone o)
      · exact fun hno => absurd hacq hno
    · replace hv := (hv.resolve_left (by simp)).2
      refine ⟨?_, hv.framed rfl (.inl rfl)⟩
      rw [TxPacket.withSkb_skb] at hv
      rw [hv.keeps_plain]
      exact ⟨fun hroom => ⟨fun o ho => absurd ho.acquires hacq, fun _ => hroom⟩,
        fun hsafe => hsafe.2 hacq⟩

/-- The condition on one event of a run: an attempt on a waiting packet is safe. -/
def SafeStep (env : Env) (d : Driver) (t : d.Adapter × TxVerdict) (e : TxEvent d) : Prop :=
  ∀ io p, e = .attempt io → t.2 = .busy p → d.Safe env t.1 io p

/-- A safe step keeps what is known of the packet that was first handed over. -/
theorem txStep_keeps (t : d.Adapter × TxVerdict) (e : TxEvent d) (ht : t.2.Keeps p)
    (hsafe : d.SafeStep env t e) :
    Ensures (fun _ => True) (d.txStep env t e) fun t' => t'.2.Keeps p := by
  obtain ⟨a, v⟩ := t
  cases e with
  | meanwhile b => exact ht
  | attempt io =>
    cases v with
    | freed => trivial
    | placed q => exact ht
    | busy q =>
      unfold txStep
      dsimp only
      cases h : d.xmitFrame env a io q with
      | error e => trivial
      | ok r =>
        obtain ⟨b, w⟩ := r
        obtain ⟨hkeep, hframed⟩ := xmitFrame_spec h
        replace hkeep := hkeep.mpr (hsafe io q rfl rfl)
        have hq : q.bytes = p.bytes := ht
        cases w with
        | busy r => exact (hkeep r rfl).trans hq
        | freed => trivial
        | placed r =>
          obtain ⟨hdr, n, hr, hhdr⟩ := hframed r rfl
          exact ⟨hdr, n, hq ▸ hr, hhdr⟩

end Driver

/-- On either driver a busy attempt leaves the packet as it was exactly when the attempt was
safe, and in a run of safe attempts, whatever happens between them, a waiting packet is the
one first handed over and a placed frame has at most one set of outer headers. -/
theorem busy_keeps_packet_iff (env : Env) (d : Driver) :
    (∀ a io p a' v, d.xmitFrame env a io p = .ok (a', v) →
      ((∀ q, v = .busy q → q.bytes = p.bytes) ↔ d.Safe env a io p)) ∧
    ∀ a p es a' v, Along (d.txStep env) (d.SafeStep env) (a, .busy p) es →
      runSteps (d.txStep env) (a, .busy p) es = .ok (a', v) → v.Keeps p := by
  constructor
  · exact fun a io p a' v h => (Driver.xmitFrame_spec h).1
  · intro a p es a' v hsafe hrun
    have hkeep := ensures_runSteps (P := fun t => t.2.Keeps p)
      (fun t e ht hC => Driver.txStep_keeps t e ht hC) (rfl : p.bytes = p.bytes) hsafe
    exact hkeep.of_eq_ok hrun

/-- An acquired device, a default entry for 10.0.1.2 and a resolved route to it. -/
def retryRun : List Event :=
  [.acquireDev 0, .lltEntryAdd connectedEntry,
    .portObjAdd .commit
      (.ipv4Fib { dst := 0x0A000102, dstLen := Fin.last 32, gateway := 0x0100000A, scope := 0 })
      none,
    .neighChange 0x0100000A { ha := 0x665544332202, nudState := NUD_REACHABLE }]

def retriedPacket : TxPacket where
  data := List.replicate 59 0 ++ [1]
  tail := fun _ => 0
  frags := []
  headroom := 128
  dst := some 0
  gsoSize := 0
  csumPartial := false

/-- A device before and after `retryRun`. -/
def bareDevice : World := World.init 0 (fun _ => true) fun _ => none

def readyDevice : World := (bareDevice.run oneBucket retryRun).toOption.getD bareDevice

/-- An adapter whose ring has been cleaned up to a descriptor, as an attempt finds it. -/
def adapterAt (w : World) (nextToClean : U16) : IxgbeAdapter :=
  { sfmc := w.sfmc, txRing := { count := 256, nextToUse := 0, nextToClean := nextToClean } }

def attemptAt (nextToClean : U16) : IxgbeIo :=
  { padGrant := none, nextToClean := nextToClean, mapped := true,
    txRing := { count := 256, nextToUse := 3, nextToClean := nextToClean } }

/-- The packet meets a full ring before the device is set up and is encapsulated after. -/
theorem busy_keeps_packet_iff_late : bareDevice.run oneBucket retryRun = .ok readyDevice ∧
    ∃ a q, runSteps (Driver.txStep oneBucket .ixgbe) (adapterAt bareDevice 1, .busy retriedPacket)
      [.attempt (attemptAt 1), .meanwhile (adapterAt readyDevice 0), .attempt (attemptAt 0)]
      = .ok (a, .placed q) ∧ (TxVerdict.placed q).Keeps retriedPacket := by
  have hspec := busy_keeps_packet_iff oneBucket .ixgbe
  refine ⟨rfl, _, _, rfl, ?_⟩
  refine hspec.2 (adapterAt bareDevice 1) retriedPacket [.attempt (attemptAt 1),
    .meanwhile (adapterAt readyDevice 0), .attempt (attemptAt 0)] _ _ ?_ rfl
  refine along_cons ?_ rfl (along_cons ?_ rfl (along_cons ?_ rfl trivial))
  · rintro io p hio hp
    obtain rfl := Driver.TxEvent.attempt.inj hio
    obtain rfl := TxVerdict.busy.inj hp
    refine (hspec.1 _ _ _ _ _ rfl).mp fun q hq => ?_
    obtain rfl := TxVerdict.busy.inj hq
    rfl
  · intro io p hio
    cases hio
  · intro io p hio hp
    obtain rfl := Driver.TxEvent.attempt.inj hio
    obtain rfl := TxVerdict.busy.inj hp
    refine (hspec.1 _ _ _ _ _ rfl).mp fun q hq => ?_
    cases hq

theorem OuterHeaders.length {hdr : List U8} (h : OuterHeaders hdr) :
    hdr.length = 34 ∨ hdr.length = 42 := by
  obtain ⟨s, skb, dst, mac, hdata⟩ := h
  have hlen := congrArg List.length hdata
  unfold Sfmc.pushHeaders at hlen
  split_ifs at hlen
  · right
    simp [ethHeader, ipHeader, udpHeader] at hlen
    omega
  · left
    simp [ethHeader, ipHeader] at hlen
    omega

/-- A frame that ends in a byte other than zero carries no padding. -/
theorem Framed.length_le {p q : TxPacket} (h : Framed p q) {b : U8}
    (hb : q.bytes.getLast? = some b) (hne : b ≠ 0) : q.bytes.length ≤ p.bytes.length + 42 := by
  obtain ⟨hdr, n, hq, hhdr⟩ := h
  cases n with
  | succ n =>
    rw [hq, List.replicate_succ', ← List.append_assoc, List.getLast?_concat] at hb
    exact absurd (Option.some.inj hb).symm hne
  | zero =>
    have hlen : q.bytes.length = hdr.length + p.bytes.length := by simp [hq]
    rcases hhdr with rfl | houter
    · simp only [List.length_nil] at hlen
      omega
    · rcases houter.length with h34 | h42 <;> omega

namespace Driver

abbrev sfmc : (d : Driver) → d.Adapter → Sfmc
  | e1000, a => a.sfmc
  | ixgbe, a => a.sfmc

/-- Whatever madcap device the driver has come to, a packet that it places after any number
of attempts has at most one set of outer headers. -/
def EncapsulatesOnce (d : Driver) : Prop :=
  ∀ (env : Env) (permAddr : Mac) (grants : ℕ → Bool) (arp : ArpTable) (es : List Event)
    (w : World), (World.init permAddr grants arp).run env es = .ok w →
    ∀ (a a' : d.Adapter) (ios : List d.Io) (p q : TxPacket), d.sfmc a = w.sfmc →
      runSteps (d.txStep env) (a, .busy p) (ios.map .attempt) = .ok (a', .placed q) → Framed p q

end Driver

/-- The ring is full at the first attempt and found cleaned at the second. -/
theorem retried_packet_encapsulated_twice :
    ¬ Driver.EncapsulatesOnce .e1000 ∧ ¬ Driver.EncapsulatesOnce .ixgbe := by
  constructor
  · intro h
    have hq := h oneBucket 0 (fun _ => true) (fun _ => none) retryRun _ rfl
      { sfmc := _, macType := .other, busTypePcix := false, pcix82544 := false,
        halfDuplex := false, txRing := ⟨256, 0, 1, false⟩, txFifoSize := 0, txFifoHead := 0,
        txFifoStall := false } _
      [{ padGrant := none, pullGrant := none, hdrLen := 0, tailBit := false, nextToClean := 1,
         mapped := true, txRing := ⟨256, 3, 0, false⟩ },
       { padGrant := none, pullGrant := none, hdrLen := 0, tailBit := false, nextToClean := 0,
         mapped := true, txRing := ⟨256, 3, 0, false⟩ }] retriedPacket _ rfl rfl
    have hlen : 128 ≤ 60 + 42 := hq.length_le (b := 1) (by rfl) (by decide)
    omega
  · intro h
    have hq := h oneBucket 0 (fun _ => true) (fun _ => none) retryRun _ rfl
      { sfmc := _, txRing := ⟨256, 0, 1⟩ } _
      [{ padGrant := none, nextToClean := 1, mapped := true, txRing := ⟨256, 3, 0⟩ },
       { padGrant := none, nextToClean := 0, mapped := true, txRing := ⟨256, 3, 0⟩ }]
      retriedPacket _ rfl rfl
    have hlen : 128 ≤ 60 + 42 := hq.length_le (b := 1) (by rfl) (by decide)
    omega

end Madcap
