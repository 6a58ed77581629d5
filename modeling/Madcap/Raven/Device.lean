import Madcap.Sfmc.State

/-!
# The raven device

The dummy driver's madcap operations. The driver compares a whole configuration
object byte by byte, so the object appears as it lies in memory.
-/

namespace Madcap

/-- A `struct madcap_obj_config` as it lies in memory, with the two bytes after `tb_id`
and the three bytes after `proto` that no field uses. -/
structure ConfigObject where
  fields : ObjConfig
  hole : U16
  hole' : BitVec 24
  deriving DecidableEq, Repr

def ConfigObject.bytes (c : ConfigObject) : List U8 :=
  bytesOf 4 c.fields.obj.id ++ bytesOf 2 c.fields.obj.tbId ++ bytesOf 2 c.hole ++
    bytesOf 2 c.fields.offset ++ bytesOf 2 c.fields.length ++ bytesOf 1 c.fields.proto ++
    bytesOf 3 c.hole' ++ bytesOf 4 c.fields.src

abbrev ravenHashSize : ℕ := 256

/-- `struct raven_table`. -/
structure RavenTable where
  oe : ObjEntry
  deriving DecidableEq, Repr

/-- `struct raven_dev`. -/
structure RavenDev where
  vdev : Option NetDev
  ravenTable : Fin ravenHashSize → List RavenTable
  ou : ObjUdp
  oc : ConfigObject

/-- The state `raven_setup` leaves. -/
def ravenSetup : RavenDev where
  vdev := none
  ravenTable := fun _ => []
  ou := { obj := { id := MADCAP_OBJ_ID_UDP, tbId := 0 }, encapEnable := 0, srcHashEnable := 0,
          dstPort := 0, srcPort := 0 }
  oc := { fields := { obj := { id := MADCAP_OBJ_ID_LLT_CONFIG, tbId := 0 }, offset := 0,
                      length := 0, proto := 0, src := 0 }, hole := 0, hole' := 0 }

namespace RavenDev

/-- `raven_table_add`; null when the allocation is refused. -/
def ravenTableAdd (env : Env) (r : RavenDev) (oe : ObjEntry) (granted : Bool) :
    Option RavenTable × RavenDev :=
  if granted then
    let head := env.hash64 oe.id
    let rt : RavenTable := { oe := oe }
    (some rt, { r with ravenTable := Function.update r.ravenTable head (rt :: r.ravenTable head) })
  else
    (none, r)

/-- `raven_table_find`: the first entry with the id in the id's bucket. -/
def ravenTableFind (env : Env) (r : RavenDev) (id : U64) : Option RavenTable :=
  (r.ravenTable (env.hash64 id)).find? fun rt => id == rt.oe.id

/-- `raven_table_delete` of the entry that `raven_table_find` returns. -/
def ravenTableDelete (env : Env) (r : RavenDev) (id : U64) : RavenDev :=
  let head := env.hash64 id
  { r with ravenTable :=
      Function.update r.ravenTable head ((r.ravenTable head).eraseP fun rt => id == rt.oe.id) }

/-- The inner loop of `raven_table_destroy`. -/
def destroyBucket : List RavenTable → List RavenTable
  | [] => []
  | _ :: bucket => destroyBucket bucket

def ravenTableDestroy (r : RavenDev) : RavenDev :=
  { r with ravenTable := fun n => destroyBucket (r.ravenTable n) }

def ravenAcquireDev (r : RavenDev) (vdev : NetDev) : ℤ × RavenDev :=
  match r.vdev with
  | some _ => (-EINVAL, r)
  | none => (0, { r with vdev := some vdev })

def ravenReleaseDev (r : RavenDev) (vdev : NetDev) : ℤ × RavenDev :=
  if r.vdev ≠ some vdev then (-EINVAL, r) else (0, { r with vdev := none })

/-- `raven_llt_cfg`. The assignment copies the whole object. -/
def ravenLltCfg (r : RavenDev) (oc : ConfigObject) : ℤ × RavenDev :=
  if oc.bytes ≠ r.oc.bytes then (0, { r.ravenTableDestroy with oc := oc }) else (0, r)

def ravenLltConfigGet (r : RavenDev) : ConfigObject := r.oc

def ravenLltEntryAdd (env : Env) (r : RavenDev) (oe : ObjEntry) (granted : Bool) :
    ℤ × RavenDev :=
  match r.ravenTableAdd env oe granted with
  | (none, r) => (-ENOMEM, r)
  | (some _, r) => (0, r)

def ravenLltEntryDel (env : Env) (r : RavenDev) (oe : ObjEntry) : ℤ × RavenDev :=
  match r.ravenTableFind env oe.id with
  | none => (-ENOENT, r)
  | some _ => (0, r.ravenTableDelete env oe.id)

def ravenUdpCfg (r : RavenDev) (ou : ObjUdp) : ℤ × RavenDev := (0, { r with ou := ou })

end RavenDev

/-- The requests a raven device gets. -/
inductive RavenEvent where
  | acquireDev (vdev : NetDev)
  | releaseDev (vdev : NetDev)
  | lltCfg (oc : ConfigObject)
  | lltEntryAdd (oe : ObjEntry) (granted : Bool)
  | lltEntryDel (oe : ObjEntry)
  | udpCfg (ou : ObjUdp)

namespace RavenDev

def step (env : Env) (r : RavenDev) : RavenEvent → RavenDev
  | .acquireDev vdev => (r.ravenAcquireDev vdev).2
  | .releaseDev vdev => (r.ravenReleaseDev vdev).2
  | .lltCfg oc => (r.ravenLltCfg oc).2
  | .lltEntryAdd oe granted => (r.ravenLltEntryAdd env oe granted).2
  | .lltEntryDel oe => (r.ravenLltEntryDel env oe).2
  | .udpCfg ou => (r.ravenUdpCfg ou).2

def run (env : Env) (r : RavenDev) (es : List RavenEvent) : RavenDev := es.foldl (step env) r

end RavenDev

end Madcap
