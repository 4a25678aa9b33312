import NvmeVirt.Device.Timing

/-!
# Zones of a zoned namespace

The parameters, the descriptors, the resource counters and the buffers of one
zoned namespace, with the conversions between zones, logical blocks and pages.
The conversions return `uint32_t` products and quotients, so they are written
with their wrap.  A descriptor is read and written through its zone number, and
a number past the array is a fault.
-/

namespace NvmeVirt.Zones

open NvmeVirt.Kernel
open NvmeVirt.Layout
open NvmeVirt.Timing
open NvmeVirt.Transition

/-- The constants of the build that `zns_init_params` reads. -/
structure ZnsConfig where
  zoneSize : ℕ
  diesPerZone : ℕ
  maxZrwaZones : ℕ
  zoneWbSize : ℕ
  zrwaSize : ℕ
  zrwafgSize : ℕ
  zrwaBufferSize : ℕ

/-- `struct znsparams`. -/
structure ZnsParams where
  nrZones : ℕ
  nrActiveZones : ℕ
  nrOpenZones : ℕ
  diesPerZone : ℕ
  zoneSize : ℕ
  zoneWbSize : ℕ
  nrZrwaZones : ℕ
  zrwafgSize : ℕ
  zrwaSize : ℕ
  zrwaBufferSize : ℕ
  lbasPerZrwafg : ℕ
  lbasPerZrwa : ℕ

/-- The assignments of `zns_init_params`. -/
def znsParamsOf (config : ZnsConfig) (spp : SsdParams) (capacity : ℕ) :
    ZnsParams where
  nrZones := u32 (capacity / config.zoneSize)
  nrActiveZones := u32 (capacity / config.zoneSize)
  nrOpenZones := u32 (capacity / config.zoneSize)
  diesPerZone := u32 config.diesPerZone
  zoneSize := u32 config.zoneSize
  zoneWbSize := u32 config.zoneWbSize
  nrZrwaZones := u32 config.maxZrwaZones
  zrwafgSize := u32 config.zrwafgSize
  zrwaSize := u32 config.zrwaSize
  zrwaBufferSize := u32 config.zrwaBufferSize
  lbasPerZrwafg := u32 config.zrwafgSize / spp.secsz
  lbasPerZrwa := u32 config.zrwaSize / spp.secsz

/-- `zns_init_params`. -/
def znsInitParams (config : ZnsConfig) (spp : SsdParams) (capacity : ℕ) :
    Except Fault ZnsParams := do
  if config.zoneSize = 0 ∨ u32 config.zoneSize = 0 then throw .divideByZero
  let zpp := znsParamsOf config spp capacity
  nvmevAssert (capacity % zpp.zoneSize = 0)
  nvmevAssert (zpp.zoneSize % spp.pgsz = 0)
  return zpp

theorem znsInitParams_of {config : ZnsConfig} {spp : SsdParams}
    {capacity : ℕ} (hpos : u32 config.zoneSize ≠ 0)
    (hcapacity : capacity % u32 config.zoneSize = 0)
    (hpgsz : u32 config.zoneSize % spp.pgsz = 0) :
    znsInitParams config spp capacity =
      .ok (znsParamsOf config spp capacity) := by
  have hzero : ¬ (config.zoneSize = 0 ∨ u32 config.zoneSize = 0) := by
    rintro (heq | heq)
    · exact hpos (by rw [heq]; rfl)
    · exact hpos heq
  have hcap : nvmevAssert
      (capacity % (znsParamsOf config spp capacity).zoneSize = 0) = .ok () :=
    nvmevAssert_of hcapacity
  have hpg : nvmevAssert
      ((znsParamsOf config spp capacity).zoneSize % spp.pgsz = 0) = .ok () :=
    nvmevAssert_of hpgsz
  rw [znsInitParams, if_neg hzero]
  dsimp only
  rw [hcap, hpg]
  rfl

/-- A device with the zone parameters `zns_init_params` computes for it. -/
structure ZnsNamespace extends Geometry where
  config : ZnsConfig
  capacity : ℕ
  zp : ZnsParams
  zp_eq : znsInitParams config toSsdParams capacity = .ok zp
  diesPerZone_pos : 0 < zp.diesPerZone
  writeUnitSize_pos : 0 < writeUnitSize

/-- What `zns_init_params` computes where its assertions hold. -/
theorem of_znsInitParams {config : ZnsConfig} {spp : SsdParams}
    {capacity : ℕ} {zp : ZnsParams}
    (h : znsInitParams config spp capacity = .ok zp) :
    0 < zp.zoneSize ∧ spp.pgsz ∣ zp.zoneSize ∧ zp.zoneSize < 2 ^ 32 ∧
      zp.nrZones < 2 ^ 32 ∧ zp.nrActiveZones = zp.nrZones ∧
      zp.nrOpenZones = zp.nrZones ∧
      zp.lbasPerZrwa = zp.zrwaSize / spp.secsz ∧ zp.zrwaSize < 2 ^ 32 ∧
      zp.lbasPerZrwafg = zp.zrwafgSize / spp.secsz ∧
      zp.zrwafgSize < 2 ^ 32 ∧ zp.nrZrwaZones < 2 ^ 32 := by
  rw [znsInitParams] at h
  split_ifs at h with hzero
  · cases h
  · dsimp only at h
    obtain ⟨_, _, h⟩ := bind_eq_ok h
    obtain ⟨_, hpgsz, h⟩ := bind_eq_ok h
    cases h
    have hdvd := of_nvmevAssert hpgsz
    rw [not_or] at hzero
    exact ⟨Nat.pos_of_ne_zero hzero.2, Nat.dvd_of_mod_eq_zero hdvd,
      u32_lt _, u32_lt _, rfl, rfl, rfl, u32_lt _, rfl, u32_lt _, u32_lt _⟩

/-- Two zones of two pages each, with a random write area of two pages and
flush units of one page. -/
def twoZoneConfig (maxZrwaZones : ℕ) : ZnsConfig where
  zoneSize := 8192
  diesPerZone := 1
  maxZrwaZones := maxZrwaZones
  zoneWbSize := 16384
  zrwaSize := 8192
  zrwafgSize := 4096
  zrwaBufferSize := 16384

/-- The device below both zones. -/
def twoZoneDie : Geometry := oneDie ⟨2, two_lt_bits⟩ ⟨1, one_lt_bits⟩

theorem twoZoneConfig_init (maxZrwaZones : ℕ) :
    znsInitParams (twoZoneConfig maxZrwaZones) twoZoneDie.toSsdParams 16384 =
      .ok (znsParamsOf (twoZoneConfig maxZrwaZones) twoZoneDie.toSsdParams
        16384) := by
  have hcapacity : 16384 % u32 8192 = 0 := by decide
  have hpgsz : u32 8192 % 4096 = 0 := by decide
  exact znsInitParams_of (Nat.succ_ne_zero 8191) hcapacity hpgsz

theorem twoZoneConfig_dies : 0 < u32 1 := by decide

theorem twoZoneDie_unit : 0 < twoZoneDie.writeUnitSize := by decide

def twoZones (maxZrwaZones : ℕ) : ZnsNamespace where
  toGeometry := twoZoneDie
  config := twoZoneConfig maxZrwaZones
  capacity := 16384
  zp := znsParamsOf (twoZoneConfig maxZrwaZones) twoZoneDie.toSsdParams 16384
  zp_eq := twoZoneConfig_init maxZrwaZones
  diesPerZone_pos := twoZoneConfig_dies
  writeUnitSize_pos := twoZoneDie_unit

/-- Zones of two gigabytes, with a random write area of the whole zone. -/
def gigaZoneConfig : ZnsConfig where
  zoneSize := 2 ^ 31
  diesPerZone := 1
  maxZrwaZones := 2
  zoneWbSize := 2 ^ 31
  zrwaSize := 2 ^ 31
  zrwafgSize := 4096
  zrwaBufferSize := 2 ^ 31

theorem gigaZoneConfig_pos : u32 (2 ^ 31) ≠ 0 := by decide +kernel

theorem lastBlock_lt : 65535 < 2 ^ 16 := by decide

/-- A device with as many blocks as an address can name. -/
def gigaDie (lastPg : Fin (2 ^ pageBits)) : Geometry :=
  oneDie ⟨65535, lastBlock_lt⟩ lastPg

section

variable (ns : ZnsNamespace)

theorem zoneSize_pos : 0 < ns.zp.zoneSize := (of_znsInitParams ns.zp_eq).1

theorem pgsz_dvd_zoneSize : ns.pgsz ∣ ns.zp.zoneSize :=
  (of_znsInitParams ns.zp_eq).2.1

theorem zoneSize_lt : ns.zp.zoneSize < 2 ^ 32 :=
  (of_znsInitParams ns.zp_eq).2.2.1

theorem nrZones_lt : ns.zp.nrZones < 2 ^ 32 :=
  (of_znsInitParams ns.zp_eq).2.2.2.1

theorem nrZrwaZones_lt : ns.zp.nrZrwaZones < 2 ^ 32 :=
  (of_znsInitParams ns.zp_eq).2.2.2.2.2.2.2.2.2.2

end

/-- `enum zone_state`. -/
inductive ZoneState
  | empty
  | openedImpl
  | openedExpl
  | closed
  | readOnly
  | full
  | offline
  deriving DecidableEq, Repr

/-- `struct zone_descriptor`. -/
structure ZoneDescriptor where
  state : ZoneState
  zrwav : Bool
  zoneCapacity : ℕ
  zslba : ℕ
  wp : ℕ
  deriving DecidableEq, Repr

/-- `enum zone_resource_type`. -/
inductive ZoneResourceType
  | activeZone
  | openZone
  | zrwaZone
  deriving DecidableEq, Repr

/-- `struct zone_resource_info`. -/
structure ZoneResourceInfo where
  acquiredCnt : ℕ
  totalCnt : ℕ
  deriving DecidableEq, Repr

/-- Which buffer a write takes its bytes from: the device's, the write buffer
of a zone, or the ZRWA buffer of a zone. -/
inductive BufferId
  | ssd
  | zone (zid : ℕ)
  | zrwa (zid : ℕ)
  deriving DecidableEq, Repr

/-- `struct zns_ftl`, with the bytes of the storage area. -/
structure ZnsFtl where
  ssd : Ssd
  resInfos : ZoneResourceType → ZoneResourceInfo
  zoneDescs : ℕ → ZoneDescriptor
  zoneWriteBuffer : ℕ → Buffer
  zwraBuffer : ℕ → Buffer
  storage : ℕ → ℕ

/-! ## Status codes -/

/-- `NVME_SC_SUCCESS` and `NVME_SC_INVALID_FIELD`. -/
def scSuccess : ℕ := 0
def scInvalidField : ℕ := 0x2

/-- The command specific status codes, in the order of their declaration. -/
def scZnsInvalidZoneOperation : ℕ := 0x1B6
def scZnsZrwaRsrcUnavail : ℕ := 0x1B7
def scZnsErrBoundary : ℕ := 0x1B8
def scZnsErrFull : ℕ := 0x1B9
def scZnsErrReadOnly : ℕ := 0x1BA
def scZnsErrOffline : ℕ := 0x1BB
def scZnsInvalidWrite : ℕ := 0x1BC
def scZnsNoActiveZone : ℕ := 0x1BD
def scZnsNoOpenZone : ℕ := 0x1BE
def scZnsInvalidTransition : ℕ := 0x1BF

section

variable (ns : ZnsNamespace)

/-! ## Addresses -/

/-- Logical blocks and pages of a zone. -/
def lbasPerZone : ℕ := ns.zp.zoneSize / ns.secsz
def pgsPerZone : ℕ := ns.zp.zoneSize / ns.pgsz

/-- `lba_to_zone` and `lpn_to_zone`. -/
def lbaToZone (lba : ℕ) : ℕ := u32 (lba / lbasPerZone ns)
def lpnToZone (lpn : ℕ) : ℕ := u32 (lpn / pgsPerZone ns)

/-- `zone_to_slba` and `zone_to_slpn`. -/
def zoneToSlba (zid : ℕ) : ℕ := u32 (u32 zid * lbasPerZone ns)
def zoneToSlpn (zid : ℕ) : ℕ := u32 (u32 zid * pgsPerZone ns)

/-- `zone_to_elba`. -/
def zoneToElba (zid : ℕ) : ℕ := sub64 (zoneToSlba ns (zid + 1)) 1

/-- `zone_to_elpn`. -/
def zoneToElpn (zid : ℕ) : ℕ := zoneToElba ns zid / ns.secsPerPg

/-- `lba_to_lpn`. -/
def lbaToLpn (lba : ℕ) : ℕ := lba / ns.secsPerPg

/-- `die_to_channel` and `die_to_lun`. -/
def dieToChannel (die : ℕ) : ℕ := die % ns.nchs
def dieToLun (die : ℕ) : ℕ := die / ns.nchs

/-- The last logical block of `nrLba` blocks from `slba` on. -/
def lastLba (slba nrLba : ℕ) : ℕ := sub64 (slba + nrLba) 1

variable {ns}

theorem pgsPerZone_pos (ns : ZnsNamespace) : 0 < pgsPerZone ns := by
  apply Nat.div_pos
  · exact Nat.le_of_dvd (zoneSize_pos ns) (pgsz_dvd_zoneSize ns)
  · rw [pgsz_eq_4096]
    decide

/-- A zone is a number of pages, and a page has eight blocks. -/
theorem lbasPerZone_eq : lbasPerZone ns = 8 * pgsPerZone ns := by
  obtain ⟨pages, hpages⟩ := pgsz_dvd_zoneSize ns
  rw [lbasPerZone, pgsPerZone, hpages, pgsz_eq_4096, ns.secsz_eq]
  omega

/-- Blocks and pages are counted to the same zone. -/
theorem lpnToZone_lbaToLpn (lba : ℕ) :
    lpnToZone ns (lbaToLpn ns lba) = lbaToZone ns lba := by
  rw [lpnToZone, lbaToZone, lbaToLpn, lbasPerZone_eq, ns.secsPerPg_eq,
    Nat.div_div_eq_div_mul]

variable (ns)

/-! ## Descriptors, resources and buffers -/

/-- `zone_descs[zid]`. -/
def zoneDesc (s : ZnsFtl) (zid : ℕ) : Except Fault ZoneDescriptor :=
  if zid < ns.zp.nrZones then .ok (s.zoneDescs zid) else .error .outOfBounds

end

def setZoneDesc (s : ZnsFtl) (zid : ℕ) (desc : ZoneDescriptor) : ZnsFtl :=
  { s with zoneDescs := Function.update s.zoneDescs zid desc }

/-- `change_zone_state`. -/
def changeZoneState (s : ZnsFtl) (zid : ℕ) (state : ZoneState) : ZnsFtl :=
  setZoneDesc s zid { s.zoneDescs zid with state := state }

def setWp (s : ZnsFtl) (zid wp : ℕ) : ZnsFtl :=
  setZoneDesc s zid { s.zoneDescs zid with wp := wp }

def setZrwav (s : ZnsFtl) (zid : ℕ) (zrwav : Bool) : ZnsFtl :=
  setZoneDesc s zid { s.zoneDescs zid with zrwav := zrwav }

/-- `is_zone_resource_avail`. -/
def isZoneResourceAvail (s : ZnsFtl) (type : ZoneResourceType) : Bool :=
  (s.resInfos type).acquiredCnt < (s.resInfos type).totalCnt

/-- `is_zone_resource_full`. -/
def isZoneResourceFull (s : ZnsFtl) (type : ZoneResourceType) : Bool :=
  (s.resInfos type).acquiredCnt = (s.resInfos type).totalCnt

def setAcquiredCnt (s : ZnsFtl) (type : ZoneResourceType) (count : ℕ) :
    ZnsFtl :=
  { s with
    resInfos := Function.update s.resInfos type
      { s.resInfos type with acquiredCnt := count } }

/-- `acquire_zone_resource`. -/
def acquireZoneResource (s : ZnsFtl) (type : ZoneResourceType) :
    Bool × ZnsFtl :=
  if isZoneResourceAvail s type then
    (true, setAcquiredCnt s type (u32 ((s.resInfos type).acquiredCnt + 1)))
  else (false, s)

/-- `release_zone_resource`; its `ASSERT` expands to nothing. -/
def releaseZoneResource (s : ZnsFtl) (type : ZoneResourceType) : ZnsFtl :=
  setAcquiredCnt s type (sub32 (s.resInfos type).acquiredCnt 1)

def ZnsFtl.buffer (s : ZnsFtl) : BufferId → Buffer
  | .ssd => s.ssd.writeBuffer
  | .zone zid => s.zoneWriteBuffer zid
  | .zrwa zid => s.zwraBuffer zid

def ZnsFtl.setBuffer (s : ZnsFtl) (id : BufferId) (buf : Buffer) : ZnsFtl :=
  match id with
  | .ssd => { s with ssd := { s.ssd with writeBuffer := buf } }
  | .zone zid =>
      { s with zoneWriteBuffer := Function.update s.zoneWriteBuffer zid buf }
  | .zrwa zid => { s with zwraBuffer := Function.update s.zwraBuffer zid buf }

/-- `&zns_ftl->zwra_buffer[zid]`; the array is allocated only where ZRWA
buffers have a size. -/
def zwraBufferAt (ns : ZnsNamespace) (s : ZnsFtl) (zid : ℕ) :
    Except Fault Buffer :=
  if ns.zp.zrwaBufferSize = 0 then .error .nullPointer
  else .ok (s.zwraBuffer zid)

/-! ### What the updates leave alone -/

section

variable (s : ZnsFtl) (zid : ℕ) (type : ZoneResourceType)

@[simp]
theorem setZoneDesc_zoneDescs (desc : ZoneDescriptor) :
    (setZoneDesc s zid desc).zoneDescs =
      Function.update s.zoneDescs zid desc := rfl

@[simp]
theorem setZoneDesc_resInfos (desc : ZoneDescriptor) :
    (setZoneDesc s zid desc).resInfos = s.resInfos := rfl

@[simp]
theorem changeZoneState_zoneDescs (state : ZoneState) :
    (changeZoneState s zid state).zoneDescs =
      Function.update s.zoneDescs zid
        { s.zoneDescs zid with state := state } := rfl

@[simp]
theorem changeZoneState_resInfos (state : ZoneState) :
    (changeZoneState s zid state).resInfos = s.resInfos := rfl

@[simp]
theorem setWp_zoneDescs (wp : ℕ) :
    (setWp s zid wp).zoneDescs =
      Function.update s.zoneDescs zid { s.zoneDescs zid with wp := wp } := rfl

@[simp]
theorem setWp_resInfos (wp : ℕ) : (setWp s zid wp).resInfos = s.resInfos := rfl

@[simp]
theorem setZrwav_zoneDescs (zrwav : Bool) :
    (setZrwav s zid zrwav).zoneDescs =
      Function.update s.zoneDescs zid
        { s.zoneDescs zid with zrwav := zrwav } := rfl

@[simp]
theorem setZrwav_resInfos (zrwav : Bool) :
    (setZrwav s zid zrwav).resInfos = s.resInfos := rfl

@[simp]
theorem setBuffer_zoneDescs (id : BufferId) (buf : Buffer) :
    (s.setBuffer id buf).zoneDescs = s.zoneDescs := by
  cases id <;> rfl

@[simp]
theorem setBuffer_resInfos (id : BufferId) (buf : Buffer) :
    (s.setBuffer id buf).resInfos = s.resInfos := by
  cases id <;> rfl

theorem setBuffer_self (id : BufferId) : s.setBuffer id (s.buffer id) = s := by
  cases id <;> simp [ZnsFtl.setBuffer, ZnsFtl.buffer]

@[simp]
theorem releaseZoneResource_zoneDescs :
    (releaseZoneResource s type).zoneDescs = s.zoneDescs := rfl

@[simp]
theorem releaseZoneResource_resInfos :
    (releaseZoneResource s type).resInfos =
      Function.update s.resInfos type
        { s.resInfos type with
          acquiredCnt := sub32 (s.resInfos type).acquiredCnt 1 } := rfl

@[simp]
theorem acquireZoneResource_zoneDescs :
    (acquireZoneResource s type).2.zoneDescs = s.zoneDescs := by
  rw [acquireZoneResource]
  split_ifs <;> rfl

end

@[simp]
theorem acquireZoneResource_buffer (s : ZnsFtl) (type : ZoneResourceType) :
    (acquireZoneResource s type).2.buffer = s.buffer := by
  rw [acquireZoneResource]
  split_ifs <;> rfl

theorem setBuffer_buffer {s : ZnsFtl} (id other : BufferId) (buf : Buffer) :
    (s.setBuffer id buf).buffer other =
      if other = id then buf else s.buffer other := by
  cases id <;> cases other <;>
    simp [ZnsFtl.setBuffer, ZnsFtl.buffer, Function.update_apply]

theorem acquireZoneResource_of_lt {s : ZnsFtl} {type : ZoneResourceType}
    (h : (s.resInfos type).acquiredCnt < (s.resInfos type).totalCnt) :
    acquireZoneResource s type =
      (true,
        setAcquiredCnt s type (u32 ((s.resInfos type).acquiredCnt + 1))) :=
  if_pos (decide_eq_true h)

theorem acquireZoneResource_of_not_lt {s : ZnsFtl} {type : ZoneResourceType}
    (h : ¬ (s.resInfos type).acquiredCnt < (s.resInfos type).totalCnt) :
    acquireZoneResource s type = (false, s) := by
  rw [acquireZoneResource, isZoneResourceAvail, decide_eq_false h]
  rfl

section

variable (ns : ZnsNamespace)

/-- A zone as `__init_descriptor` sets it up. -/
def initDescriptor (zid : ℕ) : ZoneDescriptor where
  state := .empty
  zrwav := false
  zoneCapacity := byteToLba ns.zp.zoneSize
  zslba := zid * byteToLba ns.zp.zoneSize
  wp := zid * byteToLba ns.zp.zoneSize

/-- `zns_init_ftl`: `__init_descriptor` and `__init_resource`. -/
def znsInitFtl (ssd : Ssd) (storage : ℕ → ℕ) : ZnsFtl where
  ssd := ssd
  resInfos _ := { acquiredCnt := 0, totalCnt := ns.zp.nrZones }
  zoneDescs := initDescriptor ns
  zoneWriteBuffer _ := bufferInit ns.zp.zoneWbSize
  zwraBuffer _ := bufferInit ns.zp.zrwaBufferSize
  storage := storage

/-- The fields `__nvmev_admin_identify_zns_namespace` fills in. -/
structure IdZnsNs where
  ozcs : ℕ
  mar : ℕ
  mor : ℕ
  numzrwa : ℕ
  zrwafg : ℕ
  zrwasz : ℕ
  zrwacap : ℕ
  zsze : ℕ
  deriving DecidableEq, Repr

/-- `OZCS_ZRWA` and `ZRWACAP_EXPFLUSHSUP`. -/
def ozcsZrwa : ℕ := 2
def zrwacapExpflushsup : ℕ := 1

/-- `__nvmev_admin_identify_zns_namespace`; the counts are zero-based. -/
def identifyZnsNamespace : IdZnsNs :=
  let zrwa := 0 < ns.zp.nrZrwaZones
  { ozcs := if zrwa then ozcsZrwa else 0
    mar := sub32 ns.zp.nrActiveZones 1
    mor := sub32 ns.zp.nrOpenZones 1
    numzrwa := if zrwa then sub32 ns.zp.nrZrwaZones 1 else 0
    zrwafg := if zrwa then ns.zp.zrwafgSize % 2 ^ 16 else 0
    zrwasz := if zrwa then ns.zp.zrwaSize % 2 ^ 16 else 0
    zrwacap := if zrwa then zrwacapExpflushsup else 0
    zsze := byteToLba ns.zp.zoneSize }

end

end NvmeVirt.Zones
