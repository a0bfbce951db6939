import AcpiTables.Fadt

/-!
# The FADT by its layout

The fields of a FADT of revision 3, in the order in which they follow one another
behind the header; `readField` finds a field by adding up the sizes in front of
it. All fields are where the layout has them but one: the boot architecture flags
are written one byte too far.

So no FADT reads back as it was meant, whatever the configuration
(`fadt_readsBack_never`): the flags are read as their low byte in the high place.
That everything else does is `readField_eq`, and the blocks of registers that are
described twice are described alike (`agrees_of_fields`).
-/

namespace AcpiTables

open MachineInt

/-- The fields of the FADT, in the order of the specification. -/
inductive FadtField where
  | firmwareCtrl | dsdt | intModel | preferredPmProfile | sciInt | smiCmd | acpiEnable
  | acpiDisable | s4BiosReq | pstateCnt | pm1aEvtBlk | pm1bEvtBlk | pm1aCntBlk | pm1bCntBlk
  | pm2CntBlk | pmTmrBlk | gpe0Blk | gpe1Blk | pm1EvtLen | pm1CntLen | pm2CntLen | pmTmrLen
  | gpe0BlkLen | gpe1BlkLen | gpe1Base | cstCnt | pLvl2Lat | pLvl3Lat | flushSize | flushStride
  | dutyOffset | dutyWidth | dayAlrm | monAlrm | century | iapcBootArch | reserved | flags
  | resetReg | resetValue | reservedTail | xFirmwareCtrl | xDsdt | xPm1aEvtBlk | xPm1bEvtBlk
  | xPm1aCntBlk | xPm1bCntBlk | xPm2CntBlk | xPmTmrBlk | xGpe0Blk | xGpe1Blk
  deriving DecidableEq

namespace FadtField

/-- The fields and their sizes, in order. -/
def layout : List (FadtField × ℕ) :=
  [(firmwareCtrl, 4), (dsdt, 4), (intModel, 1), (preferredPmProfile, 1), (sciInt, 2), (smiCmd, 4),
    (acpiEnable, 1), (acpiDisable, 1), (s4BiosReq, 1), (pstateCnt, 1), (pm1aEvtBlk, 4),
    (pm1bEvtBlk, 4), (pm1aCntBlk, 4), (pm1bCntBlk, 4), (pm2CntBlk, 4), (pmTmrBlk, 4), (gpe0Blk, 4),
    (gpe1Blk, 4), (pm1EvtLen, 1), (pm1CntLen, 1), (pm2CntLen, 1), (pmTmrLen, 1), (gpe0BlkLen, 1),
    (gpe1BlkLen, 1), (gpe1Base, 1), (cstCnt, 1), (pLvl2Lat, 2), (pLvl3Lat, 2), (flushSize, 2),
    (flushStride, 2), (dutyOffset, 1), (dutyWidth, 1), (dayAlrm, 1), (monAlrm, 1), (century, 1),
    (iapcBootArch, 2), (reserved, 1), (flags, 4), (resetReg, 12), (resetValue, 1),
    (reservedTail, 3), (xFirmwareCtrl, 8), (xDsdt, 8), (xPm1aEvtBlk, 12), (xPm1bEvtBlk, 12),
    (xPm1aCntBlk, 12), (xPm1bCntBlk, 12), (xPm2CntBlk, 12), (xPmTmrBlk, 12), (xGpe0Blk, 12),
    (xGpe1Blk, 12)]

/-- Where a field starts in the body, and its size. -/
def rangeIn (start : ℕ) (f : FadtField) : List (FadtField × ℕ) → ℕ × ℕ
  | [] => (start, 0)
  | (g, size) :: rest => if g = f then (start, size) else rangeIn (start + size) f rest

/-- Where a field lies, and how many bytes it has. -/
def range (f : FadtField) : ℕ × ℕ := rangeIn 0 f layout

example : (range century, range iapcBootArch, range flags) = ((72, 1), (73, 2), (76, 4)) := by
  decide

end FadtField

/-- Read a field of a table. -/
def readField (fadt : Bytes) (f : FadtField) : Bytes := slice fadt (36 + f.range.1) f.range.2

/-- A register in the ports: a generic address. -/
def ioGas (bitWidth address : ℕ) : Bytes := [1, UInt8.ofNat bitWidth, 0, 0] ++ leBytes 8 address

/-- What each field is meant to hold. -/
def expectedField (config : PlatformConfig) (facsAddress dsdtAddress : UInt64) :
    FadtField → Bytes
  | .firmwareCtrl => leBytes 4 facsAddress.toNat
  | .dsdt => leBytes 4 dsdtAddress.toNat
  | .sciInt => toLeBytes config.sciIrq
  | .pm1aEvtBlk => leBytes 4 config.pmIoBase.toNat
  | .pm1aCntBlk => leBytes 4 (config.pmIoBase.toNat + 4)
  | .pmTmrBlk => leBytes 4 (config.pmIoBase.toNat + 8)
  | .gpe0Blk => leBytes 4 config.gpe0Base.toNat
  | .pm1EvtLen => [4]
  | .pm1CntLen => [2]
  | .pmTmrLen => [4]
  | .gpe0BlkLen => [config.gpe0Len]
  | .pLvl2Lat => leBytes 2 0xfff
  | .pLvl3Lat => leBytes 2 0xfff
  | .century => [0x32]
  | .iapcBootArch => toLeBytes iapcBootArch8042
  | .flags => toLeBytes (fadtFlags config)
  | .resetReg => ioGas 8 config.resetIoBase.toNat
  | .resetValue => [config.resetValue]
  | .xDsdt => leBytes 8 dsdtAddress.toNat
  | .xPm1aEvtBlk => ioGas 32 config.pmIoBase.toNat
  | .xPm1aCntBlk => ioGas 16 (config.pmIoBase.toNat + 4)
  | .xPmTmrBlk => ioGas 32 (config.pmIoBase.toNat + 8)
  | .xGpe0Blk => ioGas (8 * config.gpe0Len.toNat) config.gpe0Base.toNat
  | f => List.replicate f.range.2 0

/-- A block of registers: its address, its length, and its generic address. -/
structure FadtBlock where
  address : FadtField
  length : FadtField
  gas : FadtField

/-- The blocks of registers that are described twice. -/
def fadtBlocks : List FadtBlock :=
  [⟨.pm1aEvtBlk, .pm1EvtLen, .xPm1aEvtBlk⟩, ⟨.pm1aCntBlk, .pm1CntLen, .xPm1aCntBlk⟩,
    ⟨.pmTmrBlk, .pmTmrLen, .xPmTmrBlk⟩, ⟨.gpe0Blk, .gpe0BlkLen, .xGpe0Blk⟩]

/-- The two descriptions of a block agree. -/
def FadtBlock.Agrees (fadt : Bytes) (b : FadtBlock) : Prop :=
  leValue (slice (readField fadt b.gas) 4 8) = leValue (readField fadt b.address) ∧
    leValue (slice (readField fadt b.gas) 1 1) = 8 * leValue (readField fadt b.length)

/-- A table reads back as it was meant. -/
structure FadtReadsBack (config : PlatformConfig) (facsAddress dsdtAddress : UInt64)
    (fadt : Bytes) : Prop where
  fields : ∀ f, readField fadt f = expectedField config facsAddress dsdtAddress f
  blocks : ∀ b ∈ fadtBlocks, b.Agrees fadt

/-! ## Reading -/

section

variable (config : PlatformConfig) (facsAddress dsdtAddress : UInt64) (pm1aCnt pmTmr : UInt16)

/-- A field that was written where the layout has it. -/
theorem readField_written (i : ℕ) {f : FadtField} {bytes : Bytes}
    (h : (fadtFields config facsAddress dsdtAddress pm1aCnt pmTmr)[i]? = some (f.range.1, bytes))
    (hlength : bytes.length = f.range.2) :
    readField (finalizeTable (config.header (bstr "FACP") 3)
      (fadtBody config facsAddress dsdtAddress pm1aCnt pmTmr)) f = bytes := by
  rw [readField, slice_finalizeTable, ← hlength]
  exact slice_fadtBody config facsAddress dsdtAddress pm1aCnt pmTmr (List.mem_of_getElem? h)

/-- Where nothing was written, there are zeros. -/
theorem slice_fadtBody_gap {off len : ℕ}
    (h : ∀ r ∈ fadtRanges, off + len ≤ r.1 ∨ r.1 + r.2 ≤ off) (hin : off + len ≤ fadtBodyLen) :
    slice (fadtBody config facsAddress dsdtAddress pm1aCnt pmTmr) off len =
      List.replicate len 0 := by
  rw [← ranges_fadtFields config facsAddress dsdtAddress pm1aCnt pmTmr] at h
  have hwrites := (disjointWrites_fadtFields config facsAddress dsdtAddress pm1aCnt pmTmr).1
  rw [fadtBody, slice_patchAll_of_disjoint (by rw [List.length_replicate]; exact hwrites)
    (List.forall_mem_map.mp h), slice, List.drop_replicate, List.take_replicate]
  congr 1
  omega

/-- A field that nothing was written to. -/
theorem readField_gap {f : FadtField}
    (h : ∀ r ∈ fadtRanges, f.range.1 + f.range.2 ≤ r.1 ∨ r.1 + r.2 ≤ f.range.1)
    (hin : f.range.1 + f.range.2 ≤ fadtBodyLen) :
    readField (finalizeTable (config.header (bstr "FACP") 3)
      (fadtBody config facsAddress dsdtAddress pm1aCnt pmTmr)) f = List.replicate f.range.2 0 := by
  rw [readField, slice_finalizeTable, slice_fadtBody_gap _ _ _ _ _ h hin]

/-- Where the boot architecture flags come to lie. -/
theorem slice_bootArch :
    slice (fadtBody config facsAddress dsdtAddress pm1aCnt pmTmr) 74 2 = [2, 0] := by
  have hmem : (fadtFields config facsAddress dsdtAddress pm1aCnt pmTmr)[14]? =
      some (74, [2, 0]) := rfl
  have hslice := slice_fadtBody config facsAddress dsdtAddress pm1aCnt pmTmr
    (List.mem_of_getElem? hmem)
  exact hslice

/-- What is read at their place. -/
theorem readField_bootArch :
    readField (finalizeTable (config.header (bstr "FACP") 3)
      (fadtBody config facsAddress dsdtAddress pm1aCnt pmTmr)) .iapcBootArch = [0, 2] := by
  have hgap := @slice_fadtBody_gap config facsAddress dsdtAddress pm1aCnt pmTmr 73 1 (by decide)
    (by decide)
  have hpart := @slice_slice (fadtBody config facsAddress dsdtAddress pm1aCnt pmTmr) 74 2 0 1
    (by decide)
  rw [slice_bootArch config facsAddress dsdtAddress pm1aCnt pmTmr] at hpart
  have hboth := slice_add (fadtBody config facsAddress dsdtAddress pm1aCnt pmTmr) 73 1 1
  rw [hgap] at hboth
  rw [readField, slice_finalizeTable]
  exact hboth.trans (congrArg (List.replicate 1 0 ++ ·) hpart.symm)

/-- The generic address of a port block. -/
theorem encode_io (bitWidth : ℕ) (address : UInt16) :
    (Gas.io (UInt8.ofNat bitWidth) address).encode [] = ioGas bitWidth address.toNat := by
  have haddress : toLeBytes address.toUInt64 = leBytes 8 address.toNat :=
    congrArg (leBytes 8) (UInt16.toNat_toUInt64 address)
  rw [Gas.encode, Gas.io, haddress]
  rfl

/-- A 16-bit value in a field of 32 bits. -/
theorem toLeBytes_u16_toUInt32 (x : UInt16) : toLeBytes x.toUInt32 = leBytes 4 x.toNat :=
  congrArg (leBytes 4) (UInt16.toNat_toUInt32 x)

/-- The width of the last block: eight bits for each byte. -/
theorem gpe0Width {len : UInt8} (h : 1 ≤ len.toNat) (h' : len.toNat ≤ 31) :
    max (saturatingMul len 8) 8 = UInt8.ofNat (8 * len.toNat) := by
  have hall : ∀ n ∈ List.range 32, 1 ≤ n →
      max (saturatingMul (UInt8.ofNat n) 8) 8 = UInt8.ofNat (8 * n) := by decide
  have hlen := hall len.toNat (List.mem_range.mpr (by omega)) h
  rwa [UInt8.ofNat_toNat] at hlen

variable {config facsAddress dsdtAddress pm1aCnt pmTmr}

/-- **Every field but one** is where it belongs. -/
theorem readField_eq (hfacs : facsAddress.toNat < 4294967296)
    (hdsdt : dsdtAddress.toNat < 4294967296) (hcnt : pm1aCnt.toNat = config.pmIoBase.toNat + 4)
    (htmr : pmTmr.toNat = config.pmIoBase.toNat + 8) (hgpe : 1 ≤ config.gpe0Len.toNat)
    (hgpe' : config.gpe0Len.toNat ≤ 31) {f : FadtField} (hf : f ≠ .iapcBootArch) :
    readField (finalizeTable (config.header (bstr "FACP") 3)
      (fadtBody config facsAddress dsdtAddress pm1aCnt pmTmr)) f =
      expectedField config facsAddress dsdtAddress f := by
  have written := fun i {f} {bytes} => @readField_written config facsAddress dsdtAddress pm1aCnt
    pmTmr i f bytes
  cases f with
  | iapcBootArch => exact absurd rfl hf
  | firmwareCtrl => exact (written 0 rfl rfl).trans (toLeBytes_toUInt32 hfacs)
  | dsdt => exact (written 1 rfl rfl).trans (toLeBytes_toUInt32 hdsdt)
  | sciInt => exact written 2 rfl rfl
  | pm1aEvtBlk => exact (written 3 rfl rfl).trans (toLeBytes_u16_toUInt32 _)
  -- the control block and the timer are at an offset from the event block
  | pm1aCntBlk =>
    refine (written 4 rfl rfl).trans ?_
    rw [toLeBytes_u16_toUInt32, hcnt]
    rfl
  | pmTmrBlk =>
    refine (written 5 rfl rfl).trans ?_
    rw [toLeBytes_u16_toUInt32, htmr]
    rfl
  | gpe0Blk => exact (written 6 rfl rfl).trans (toLeBytes_u16_toUInt32 _)
  | pm1EvtLen => exact written 7 rfl rfl
  | pm1CntLen => exact written 8 rfl rfl
  | pmTmrLen => exact written 9 rfl rfl
  | gpe0BlkLen => exact written 10 rfl rfl
  | pLvl2Lat => exact written 11 rfl rfl
  | pLvl3Lat => exact written 12 rfl rfl
  | century => exact written 13 rfl rfl
  | flags => exact written 15 rfl rfl
  | resetReg => exact (written 16 rfl rfl).trans (encode_io 8 _)
  | resetValue => exact written 17 rfl rfl
  | xFirmwareCtrl => exact written 18 rfl rfl
  | xDsdt => exact written 19 rfl rfl
  | xPm1aEvtBlk => exact (written 20 rfl rfl).trans (encode_io 32 _)
  | xPm1aCntBlk =>
    refine (written 21 rfl rfl).trans ?_
    have hgas : (Gas.io 16 pm1aCnt).encode [] = ioGas 16 pm1aCnt.toNat := encode_io 16 pm1aCnt
    rw [hgas, hcnt]
    rfl
  | xPmTmrBlk =>
    refine (written 22 rfl rfl).trans ?_
    have hgas : (Gas.io 32 pmTmr).encode [] = ioGas 32 pmTmr.toNat := encode_io 32 pmTmr
    rw [hgas, htmr]
    rfl
  | xGpe0Blk =>
    refine (written 23 rfl rfl).trans ?_
    rw [gpe0Width hgpe hgpe', encode_io]
    rfl
  | reserved =>
    -- the end of the misplaced flags, which is zero
    have hflags := slice_bootArch config facsAddress dsdtAddress pm1aCnt pmTmr
    have hpart := @slice_slice (fadtBody config facsAddress dsdtAddress pm1aCnt pmTmr) 74 2 1 1
      (by decide)
    rw [hflags] at hpart
    rw [readField, slice_finalizeTable]
    exact hpart.symm
  | _ => exact readField_gap config facsAddress dsdtAddress pm1aCnt pmTmr (by decide) (by decide)

end

/-- A generic address of a port is read back. -/
theorem ioGas_reads {bitWidth address : ℕ} (hwidth : bitWidth < 256)
    (haddress : address < 18446744073709551616) :
    leValue (slice (ioGas bitWidth address) 4 8) = address ∧
      leValue (slice (ioGas bitWidth address) 1 1) = bitWidth := by
  constructor
  · have hslice : slice (ioGas bitWidth address) 4 8 = leBytes 8 address := rfl
    rw [hslice, leValue_leBytes_of_lt haddress]
  · have hslice : slice (ioGas bitWidth address) 1 1 = [UInt8.ofNat bitWidth] := rfl
    rw [hslice, leValue_cons, leValue_nil, UInt8.toNat_ofNat_of_lt' hwidth, Nat.mul_zero,
      Nat.add_zero]

/-- A block whose fields are as they were meant is described twice alike. -/
theorem agrees_of_fields {fadt : Bytes} {b : FadtBlock} {address length : ℕ}
    (haddress : readField fadt b.address = leBytes 4 address) (hlt : address < 4294967296)
    (hlength : leValue (readField fadt b.length) = length) (hlt' : 8 * length < 256)
    (hgas : readField fadt b.gas = ioGas (8 * length) address) : b.Agrees fadt := by
  obtain ⟨hgasAddress, hgasWidth⟩ := ioGas_reads hlt' (Nat.lt_trans hlt (by decide))
  rw [FadtBlock.Agrees, hgas, haddress, hlength, hgasAddress, hgasWidth,
    leValue_leBytes_of_lt hlt]
  exact ⟨rfl, rfl⟩

/-- **No FADT reads back as it was meant**: the boot architecture flags do not.
Everything else does. -/
theorem fadt_readsBack_never {config : PlatformConfig} {facsAddress dsdtAddress : UInt64}
    (hfacs : facsAddress.toNat < 4294967296) (hdsdt : dsdtAddress.toNat < 4294967296)
    (hio : config.pmIoBase.toNat ≤ 0xfff7) (hgpe : 1 ≤ config.gpe0Len.toNat)
    (hgpe' : config.gpe0Len.toNat ≤ 31) :
    ∃ fadt, buildFadtWithFacs config facsAddress dsdtAddress = .ok fadt ∧
      ¬FadtReadsBack config facsAddress dsdtAddress fadt ∧
      leValue (readField fadt .iapcBootArch) = 0x0200 ∧
      (∀ f, f ≠ .iapcBootArch →
        readField fadt f = expectedField config facsAddress dsdtAddress f) ∧
      ∀ b ∈ fadtBlocks, b.Agrees fadt := by
  have hbase : toNat config.pmIoBase = config.pmIoBase.toNat := rfl
  obtain ⟨pm1aCnt, hcnt, hcntValue⟩ := checkedAdd_isOk (x := config.pmIoBase) (y := (0x04 : UInt16))
    (by rw [width_u16, hbase]; exact Nat.lt_of_le_of_lt (Nat.add_le_add_right hio 4) (by decide))
  obtain ⟨pmTmr, htmr, htmrValue⟩ := checkedAdd_isOk (x := config.pmIoBase) (y := (0x08 : UInt16))
    (by rw [width_u16, hbase]; exact Nat.lt_of_le_of_lt (Nat.add_le_add_right hio 8) (by decide))
  have hfields := fun f => @readField_eq config facsAddress dsdtAddress pm1aCnt pmTmr hfacs hdsdt
    hcntValue htmrValue hgpe hgpe' f
  have hboot := readField_bootArch config facsAddress dsdtAddress pm1aCnt pmTmr
  refine ⟨_, buildFadtWithFacs_eq hcnt htmr, fun h => ?_, ?_, hfields, ?_⟩
  · have hmeant : ([0, 2] : Bytes) = [2, 0] := hboot.symm.trans (h.fields .iapcBootArch)
    exact absurd hmeant (by decide)
  · rw [hboot]
    rfl
  · have hgpeBase := config.gpe0Base.toNat_lt
    intro b hb
    rw [fadtBlocks] at hb
    simp only [List.mem_cons, List.not_mem_nil, or_false] at hb
    rcases hb with rfl | rfl | rfl | rfl
    · exact agrees_of_fields (hfields .pm1aEvtBlk (by decide)) (by omega)
        ((congrArg leValue (hfields .pm1EvtLen (by decide))).trans (rfl : _ = 4)) (by decide)
        (hfields .xPm1aEvtBlk (by decide))
    · exact agrees_of_fields (hfields .pm1aCntBlk (by decide)) (by omega)
        ((congrArg leValue (hfields .pm1CntLen (by decide))).trans (rfl : _ = 2)) (by decide)
        (hfields .xPm1aCntBlk (by decide))
    · exact agrees_of_fields (hfields .pmTmrBlk (by decide)) (by omega)
        ((congrArg leValue (hfields .pmTmrLen (by decide))).trans (rfl : _ = 4)) (by decide)
        (hfields .xPmTmrBlk (by decide))
    · have hlen : leValue [config.gpe0Len] = config.gpe0Len.toNat := rfl
      exact agrees_of_fields (hfields .gpe0Blk (by decide)) (by omega)
        ((congrArg leValue (hfields .gpe0BlkLen (by decide))).trans hlen) (by omega)
        (hfields .xGpe0Blk (by decide))

theorem fadt_readsBack_never_q35 :
    ∃ fadt, buildFadtWithFacs (.intelTdxQ35 1) 0 64 = .ok fadt ∧
      ¬FadtReadsBack (.intelTdxQ35 1) 0 64 fadt ∧
      readField fadt .dsdt = [64, 0, 0, 0] := by
  obtain ⟨fadt, hfadt, hnot, -, hfields, -⟩ :=
    @fadt_readsBack_never (.intelTdxQ35 1) 0 64 (by decide) (by decide) (by decide) (by decide)
      (by decide)
  exact ⟨fadt, hfadt, hnot, hfields .dsdt (by decide)⟩

/-- The boot architecture flags of the standard configuration read as `0x0200`. -/
theorem bootArch_misplaced :
    ∃ fadt, buildFadtWithFacs (.intelTdxQ35 1) 0 64 = .ok fadt ∧
      leValue (readField fadt .iapcBootArch) = 0x0200 ∧
      leValue (expectedField (.intelTdxQ35 1) 0 64 .iapcBootArch) = 0x0002 ∧
      ¬FadtReadsBack (.intelTdxQ35 1) 0 64 fadt := by
  have hcnt : checkedAdd (PlatformConfig.intelTdxQ35 1).pmIoBase 0x04 = .ok 0x1804 := by decide
  have htmr : checkedAdd (PlatformConfig.intelTdxQ35 1).pmIoBase 0x08 = .ok 0x1808 := by decide
  have hboot := readField_bootArch (.intelTdxQ35 1) 0 64 0x1804 0x1808
  refine ⟨_, buildFadtWithFacs_eq hcnt htmr, by rw [hboot]; rfl, rfl, fun h => ?_⟩
  have hmeant : ([0, 2] : Bytes) = [2, 0] := hboot.symm.trans (h.fields .iapcBootArch)
  exact absurd hmeant (by decide)

end AcpiTables
