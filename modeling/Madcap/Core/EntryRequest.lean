import Madcap.Core.EntryDump
import Madcap.Protocol.Tunnels

/-!
# Requests for locator entries

An entry comes in one attribute, and its bytes are copied over an object on the stack of the
handler. The policy only says how long the attribute may be at most.
-/

namespace Madcap

/-- `sizeof (struct madcap_obj_entry)`. -/
def sizeofObjEntry : ℕ := 24

/-- A `struct madcap_obj_entry` as it lies in memory, with the two bytes after `tb_id`
and the four bytes after `dst` that no field uses. -/
structure EntryObject where
  fields : ObjEntry
  hole : U16
  hole' : U32
  deriving DecidableEq, Repr

def EntryObject.read (m : ℕ → U8) : EntryObject where
  fields :=
    { obj := { id := load32 m, tbId := load16 fun i => m (4 + i) }
      id := load64 fun i => m (8 + i)
      dst := load32 fun i => m (16 + i) }
  hole := load16 fun i => m (6 + i)
  hole' := load32 fun i => m (20 + i)

/-- `nla_memcpy`: the bytes of an attribute go over those of `dest`, at most `count`. -/
def nlaMemcpy (dest : ℕ → U8) (data : List U8) (count : ℕ) : ℕ → U8 :=
  fun i => if i < min count data.length then readByte data i else dest i

/-- The attributes of a request that has passed `madcap_nl_policy`. -/
structure EntryAddRequest where
  ifindex : Option U32
  entry : Option (List U8)
  policy : ∀ data, entry = some data → data.length ≤ sizeofObjEntry

/-- The code of a request, the object that went into the table of a driver, and the devices. -/
structure EntryAdded where
  code : ℤ
  stored : Option EntryObject
  devs : NetDev → MadcapDev

section

variable (env : Env) (net : MadcapNet) (devs : NetDev → MadcapDev)

/-- `madcap_llt_entry_add`. The last argument is whether raven's `kmalloc` has memory. -/
def madcapLltEntryAdd (dev : NetDev) (oe : ObjEntry) (granted : Bool) :
    Res (ℤ × (NetDev → MadcapDev)) :=
  match net.getMadcapOps dev with
  | none => return (-EOPNOTSUPP, devs)
  | some ops =>
    match ops, (devs dev).priv with
    | .raven, .raven r =>
      let (code, r) := r.ravenLltEntryAdd env oe granted
      return (code, Function.update devs dev { devs dev with priv := .raven r })
    | .sfmc, .sfmc s =>
      let (code, s) := s.sfmcLltEntryAdd env oe
      return (code, Function.update devs dev { devs dev with priv := .sfmc s })
    | _, _ => throw .badAccess

/-- `madcap_nl_cmd_llt_entry_add`, with what was on the stack. The drivers copy the whole
object into their tables. -/
def madcapNlCmdLltEntryAdd (devGetByIndex : U32 → Option NetDev) (req : EntryAddRequest)
    (stack : ℕ → U8) (granted : Bool) : Res EntryAdded :=
  match req.ifindex with
  | none => return { code := -EINVAL, stored := none, devs := devs }
  | some ifindex =>
    match devGetByIndex ifindex with
    | none => return { code := -ENODEV, stored := none, devs := devs }
    | some dev =>
      match req.entry with
      | none => return { code := -EINVAL, stored := none, devs := devs }
      | some data => do
        let objEnt := EntryObject.read (nlaMemcpy stack data sizeofObjEntry)
        let (code, devs) ← madcapLltEntryAdd env net devs dev objEnt.fields granted
        return { code := code, stored := if code = 0 then some objEnt else none, devs := devs }

end

variable {env : Env} {net : MadcapNet} {devs devs' : NetDev → MadcapDev} {dev : NetDev}
  {devGetByIndex : U32 → Option NetDev} {req : EntryAddRequest} {stack : ℕ → U8} {granted : Bool}
  {res : EntryAdded} {oe : ObjEntry}

theorem madcapLltEntryAdd_mem (h : madcapLltEntryAdd env net devs dev oe granted = .ok (0, devs')) :
    oe ∈ (devs' dev).entries := by
  unfold madcapLltEntryAdd at h
  cases hops : net.getMadcapOps dev with
  | none =>
    rw [hops] at h
    exact absurd (congrArg Prod.fst (Except.ok.inj h)) (show ¬ -EOPNOTSUPP = 0 by decide)
  | some ops =>
    rw [hops] at h
    dsimp only at h
    split at h
    · next r hpriv =>
      cases granted with
      | false => exact absurd (congrArg Prod.fst (Except.ok.inj h)) (show ¬ -ENOMEM = 0 by decide)
      | true =>
        obtain rfl := congrArg Prod.snd (Except.ok.inj h)
        have hbucket : ({ oe := oe } : RavenTable) ∈
            (r.ravenLltEntryAdd env oe true).2.ravenTable (env.hash64 oe.id) := by
          change _ ∈ Function.update r.ravenTable (env.hash64 oe.id) _ (env.hash64 oe.id)
          rw [Function.update_self]
          exact List.mem_cons_self
        dsimp only
        rw [Function.update_self]
        exact List.mem_map.mpr ⟨_, List.mem_flatMap.mpr ⟨_, List.mem_finRange _, hbucket⟩, rfl⟩
    · next s hpriv =>
      obtain ⟨hcode, hdevs⟩ := Prod.mk.inj (Except.ok.inj h)
      have hbucket : ({ oe := oe, fib := none } : SfmcTable) ∈
          (s.sfmcLltEntryAdd env oe).2.sfmcTable (env.hash64 oe.id) := by
        unfold Sfmc.sfmcLltEntryAdd at hcode ⊢
        split at hcode
        · exact absurd hcode (show ¬ -EEXIST = 0 by decide)
        · split at hcode
          · unfold Sfmc.sfmcTableAdd
            dsimp only
            rw [Function.update_self]
            exact List.mem_cons_self
          · exact absurd hcode (show ¬ -ENOMEM = 0 by decide)
      rw [← hdevs, Function.update_self]
      exact List.mem_map.mpr ⟨_, List.mem_flatMap.mpr ⟨_, List.mem_finRange _, hbucket⟩, rfl⟩
    · cases h

/-- An accepted request names a device and has an entry, and the object of the stack with
the entry over it is what the device takes. -/
theorem accepted_iff : (madcapNlCmdLltEntryAdd env net devs devGetByIndex req stack granted = .ok res ∧
      res.code = 0) ↔
    ∃ ifindex dev data devs', req.ifindex = some ifindex ∧ devGetByIndex ifindex = some dev ∧
      req.entry = some data ∧
      madcapLltEntryAdd env net devs dev
        (EntryObject.read (nlaMemcpy stack data sizeofObjEntry)).fields granted = .ok (0, devs') ∧
      res = { code := 0, stored := some (EntryObject.read (nlaMemcpy stack data sizeofObjEntry)),
              devs := devs' } := by
  unfold madcapNlCmdLltEntryAdd
  constructor
  · rintro ⟨hres, hcode⟩
    cases hifindex : req.ifindex with
    | none =>
      rw [hifindex] at hres
      obtain rfl := Except.ok.inj hres
      exact absurd hcode (show ¬ -EINVAL = 0 by decide)
    | some ifindex =>
      rw [hifindex] at hres
      dsimp only at hres
      cases hdev : devGetByIndex ifindex with
      | none =>
        rw [hdev] at hres
        obtain rfl := Except.ok.inj hres
        exact absurd hcode (show ¬ -ENODEV = 0 by decide)
      | some dev =>
        rw [hdev] at hres
        dsimp only at hres
        cases hentry : req.entry with
        | none =>
          rw [hentry] at hres
          obtain rfl := Except.ok.inj hres
          exact absurd hcode (show ¬ -EINVAL = 0 by decide)
        | some data =>
          rw [hentry] at hres
          obtain ⟨⟨code, devs'⟩, hadd, hok⟩ := bind_eq_ok.mp hres
          obtain rfl := Except.ok.inj hok
          obtain rfl : code = 0 := hcode
          exact ⟨ifindex, dev, data, devs', rfl, hdev, rfl, hadd, rfl⟩
  · rintro ⟨ifindex, dev, data, devs', hifindex, hdev, hentry, hadd, rfl⟩
    rw [hifindex]
    dsimp only
    rw [hdev]
    dsimp only
    rw [hentry]
    dsimp only
    rw [hadd]
    exact ⟨rfl, rfl⟩

theorem EntryObject.read_congr {m m' : ℕ → U8} (h : ∀ i < sizeofObjEntry, m i = m' i) :
    read m = read m' := by
  have hat {k n : ℕ} (hk : k + n ≤ sizeofObjEntry) : ∀ i < n, m (k + i) = m' (k + i) :=
    fun i hi => h (k + i) (by omega)
  unfold read
  rw [load32_congr fun i hi => h i (lt_trans hi (by decide)), load16_congr (hat (k := 4) (by decide)),
    load16_congr (hat (k := 6) (by decide)), load64_congr (hat (k := 8) (by decide)),
    load32_congr (hat (k := 16) (by decide)), load32_congr (hat (k := 20) (by decide))]

theorem EntryObject.read_last (m : ℕ → U8) (b : U8) :
    (read (Function.update m 23 b)).fields = (read m).fields ∧
      byteAt (read (Function.update m 23 b)).hole' 3 = b := by
  refine ⟨rfl, ?_⟩
  unfold read
  dsimp only
  rw [byteAt_load32 _ (by decide)]
  rfl

/-- A request that is accepted with this on the stack leaves this object in the table of its
device. -/
def Stores (env : Env) (net : MadcapNet) (devs : NetDev → MadcapDev)
    (devGetByIndex : U32 → Option NetDev) (req : EntryAddRequest) (granted : Bool) (stack : ℕ → U8)
    (obj : EntryObject) : Prop :=
  ∃ res dev, madcapNlCmdLltEntryAdd env net devs devGetByIndex req stack granted = .ok res ∧
    res.code = 0 ∧ req.ifindex.bind devGetByIndex = some dev ∧ res.stored = some obj ∧
    obj.fields ∈ (res.devs dev).entries

/-- What is stored is an entry, and the stack does not show in it. -/
structure FromRequest (env : Env) (net : MadcapNet) (devs : NetDev → MadcapDev)
    (devGetByIndex : U32 → Option NetDev) (req : EntryAddRequest) (granted : Bool) : Prop where
  tag : ∀ stack obj, Stores env net devs devGetByIndex req granted stack obj →
    obj.fields.obj.id = MADCAP_OBJ_ID_LLT_ENTRY
  alone : ∀ stack stack' obj obj', Stores env net devs devGetByIndex req granted stack obj →
    Stores env net devs devGetByIndex req granted stack' obj' → obj = obj'

/-- The attribute has a whole object with the tag of an entry. -/
def EntryAddRequest.WholeEntry (req : EntryAddRequest) : Prop :=
  ∃ data, req.entry = some data ∧ data.length = sizeofObjEntry ∧
    load32 (readByte data) = MADCAP_OBJ_ID_LLT_ENTRY

theorem stores_iff {obj : EntryObject} :
    Stores env net devs devGetByIndex req granted stack obj ↔
    ∃ ifindex dev data devs', req.ifindex = some ifindex ∧ devGetByIndex ifindex = some dev ∧
      req.entry = some data ∧ obj = EntryObject.read (nlaMemcpy stack data sizeofObjEntry) ∧
      madcapLltEntryAdd env net devs dev obj.fields granted = .ok (0, devs') := by
  constructor
  · rintro ⟨res, -, hres, hcode, -, hstored, -⟩
    obtain ⟨ifindex, dev, data, devs', hifindex, hdev, hentry, hadd, rfl⟩ :=
      accepted_iff.mp ⟨hres, hcode⟩
    obtain rfl := Option.some.inj hstored
    exact ⟨ifindex, dev, data, devs', hifindex, hdev, hentry, rfl, hadd⟩
  · rintro ⟨ifindex, dev, data, devs', hifindex, hdev, hentry, rfl, hadd⟩
    obtain ⟨hres, hcode⟩ := accepted_iff.mpr ⟨ifindex, dev, data, devs', hifindex, hdev, hentry, hadd, rfl⟩
    refine ⟨_, dev, hres, hcode, ?_, rfl, madcapLltEntryAdd_mem hadd⟩
    rw [hifindex]
    exact hdev

/-- A short attribute leaves the last byte as it was on the stack. -/
theorem nlaMemcpy_update {data : List U8} (hshort : data.length < sizeofObjEntry) (b : U8) :
    nlaMemcpy (Function.update stack 23 b) data sizeofObjEntry =
      Function.update (nlaMemcpy stack data sizeofObjEntry) 23 b := by
  unfold sizeofObjEntry at hshort ⊢
  funext i
  by_cases hi : i = 23
  · subst hi
    unfold nlaMemcpy
    rw [if_neg (by omega), Function.update_self, Function.update_self]
  · unfold nlaMemcpy
    rw [Function.update_of_ne hi, Function.update_of_ne hi]

theorem read_whole {data : List U8} (hwhole : data.length = sizeofObjEntry) :
    EntryObject.read (nlaMemcpy stack data sizeofObjEntry) = EntryObject.read (readByte data) := by
  apply EntryObject.read_congr
  intro i hi
  unfold nlaMemcpy
  rw [hwhole, Nat.min_self, if_pos hi]

/-- For every request that a driver accepts, the entry that is stored is an entry and comes
from the request alone exactly when the attribute has a whole object with that tag. -/
theorem entry_from_request_iff (env : Env) (net : MadcapNet) (devs : NetDev → MadcapDev)
    (devGetByIndex : U32 → Option NetDev) (req : EntryAddRequest) (granted : Bool)
    (stack : ℕ → U8) (res : EntryAdded)
    (hres : madcapNlCmdLltEntryAdd env net devs devGetByIndex req stack granted = .ok res)
    (hcode : res.code = 0) :
    FromRequest env net devs devGetByIndex req granted ↔ req.WholeEntry := by
  obtain ⟨ifindex, dev, data, devs', hifindex, hdev, hentry, hadd, -⟩ :=
    accepted_iff.mp ⟨hres, hcode⟩
  constructor
  · rintro ⟨htag, halone⟩
    have hstored : Stores env net devs devGetByIndex req granted stack
        (EntryObject.read (nlaMemcpy stack data sizeofObjEntry)) :=
      stores_iff.mpr ⟨ifindex, dev, data, devs', hifindex, hdev, hentry, rfl, hadd⟩
    have hwhole : data.length = sizeofObjEntry := by
      by_contra hne
      have hshort : data.length < sizeofObjEntry := lt_of_le_of_ne (req.policy data hentry) hne
      have hother (b : U8) : Stores env net devs devGetByIndex req granted (Function.update stack 23 b)
          (EntryObject.read (Function.update (nlaMemcpy stack data sizeofObjEntry) 23 b)) := by
        refine stores_iff.mpr ⟨ifindex, dev, data, devs', hifindex, hdev, hentry, ?_, ?_⟩
        · rw [nlaMemcpy_update hshort]
        · rw [(EntryObject.read_last _ b).1]
          exact hadd
      have hsame := congrArg (fun obj => byteAt obj.hole' 3) (halone _ _ _ _ (hother 0) (hother 1))
      simp only [EntryObject.read_last] at hsame
      exact absurd hsame (by decide)
    refine ⟨data, hentry, hwhole, ?_⟩
    have hid := htag _ _ hstored
    rw [read_whole hwhole] at hid
    exact hid
  · rintro ⟨data', hdata', hwhole, hid⟩
    obtain rfl := Option.some.inj (hentry.symm.trans hdata')
    have hread : ∀ stack obj, Stores env net devs devGetByIndex req granted stack obj →
        obj = EntryObject.read (readByte data) := by
      intro stack' obj hobj
      obtain ⟨-, -, data', -, -, -, hdata', rfl, -⟩ := stores_iff.mp hobj
      obtain rfl := Option.some.inj (hentry.symm.trans hdata')
      exact read_whole hwhole
    constructor
    · intro stack' obj hobj
      rw [hread stack' obj hobj]
      exact hid
    · intro stack' stack'' obj obj' hobj hobj'
      rw [hread stack' obj hobj, hread stack'' obj' hobj']

def taggedRequest (tag : U8) : EntryAddRequest where
  ifindex := some 2
  entry := some (tag :: List.replicate 23 0)
  policy data h := by
    obtain rfl := Option.some.inj h
    exact Nat.le_refl 24

def softwareNet : MadcapNet := MadcapNet.run (fun _ => freshSfmc) [.register 0]

/-- An object that is tagged as an entry is stored as it came. -/
theorem entry_from_request_tagged :
    FromRequest oneBucket softwareNet (fun _ => freshSfmc) (fun _ => some 0) (taggedRequest 2) true :=
  (entry_from_request_iff oneBucket softwareNet (fun _ => freshSfmc) (fun _ => some 0)
    (taggedRequest 2) true (fun _ => 0) _ rfl rfl).mpr ⟨_, rfl, rfl, by decide⟩

/-- An object with another tag is stored with that tag. -/
theorem entry_with_other_tag : ¬ ∀ (env : Env) (net : MadcapNet) (devs : NetDev → MadcapDev)
    (devGetByIndex : U32 → Option NetDev) (req : EntryAddRequest) (granted : Bool)
    (stack : ℕ → U8) (res : EntryAdded),
    madcapNlCmdLltEntryAdd env net devs devGetByIndex req stack granted = .ok res → res.code = 0 →
      FromRequest env net devs devGetByIndex req granted := by
  intro h
  have hfrom := h oneBucket softwareNet (fun _ => freshSfmc) (fun _ => some 0) (taggedRequest 3) true
    (fun _ => 0) _ rfl rfl
  have hid := hfrom.tag (fun _ => 0) _ (stores_iff.mpr ⟨2, 0, _, _, rfl, rfl, rfl, rfl, rfl⟩)
  exact absurd hid (by decide)

end Madcap
