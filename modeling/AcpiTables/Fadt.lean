import AcpiTables.Header

/-!
# The FADT

The body is a buffer of 208 zeros that is filled in place, field by field. No
field is written twice and none overlaps another, so every field reads back what
was written to it; the ones that other tables are found by are `FIRMWARE_CTRL`,
`DSDT` and `X_DSDT` (`pointers_of_buildFadt`).

The body of the builder is one run of writes, `Patches`: each of its statements puts
one field in front of a list (`Patches.u16`, `Patches.gas` and so on), and the list
that comes out is `fadtFields`. What is true of all the fields is then said once of
this list, that they are apart (`disjointWrites_fadtFields`) and that they read back
(`slice_fadtBody`), and not of thirty writes in a row.
-/

namespace AcpiTables

open MachineInt

/-- A register by address space, width and address. -/
structure Gas where
  spaceId : UInt8
  bitWidth : UInt8
  bitOffset : UInt8
  accessSize : UInt8
  address : UInt64

namespace Gas

/-- `Gas::io`: a register in the space of ports, as wide as the source says, with
byte access. -/
def io (bitWidth : UInt8) (address : UInt16) : Gas where
  spaceId := 1
  bitWidth := bitWidth
  bitOffset := 0
  accessSize := 0
  address := address.toUInt64

/-- `Gas::encode`: the twelve bytes of a generic address, appended to what is
there. -/
def encode (gas : Gas) (out : Bytes) : Bytes :=
  out ++ [gas.spaceId] ++ [gas.bitWidth] ++ [gas.bitOffset] ++ [gas.accessSize] ++
    toLeBytes gas.address

/-- A generic address has twelve bytes, whatever its fields. -/
theorem length_encode (gas : Gas) : (gas.encode []).length = 12 := by
  simp [encode]

end Gas

/-! ## The body -/

def fadtFlagWbinvd : UInt32 := (1 : UInt32) <<< 0
def fadtFlagProcC1 : UInt32 := (1 : UInt32) <<< 2
def fadtFlagSlpButton : UInt32 := (1 : UInt32) <<< 5
def fadtFlagRtcS4 : UInt32 := (1 : UInt32) <<< 7
def fadtFlagResetRegSup : UInt32 := (1 : UInt32) <<< 10
def fadtFlagUsePlatformClock : UInt32 := (1 : UInt32) <<< 15
def fadtFlagForceApicClusterModel : UInt32 := (1 : UInt32) <<< 18
def iapcBootArch8042 : UInt16 := (1 : UInt16) <<< 1

abbrev fadtBodyLen : ℕ := 208
abbrev fadtOffsetFirmwareCtrl : ℕ := 0
abbrev fadtOffsetDsdt : ℕ := 4
abbrev fadtOffsetSciInt : ℕ := 10
abbrev fadtOffsetPm1aEvtBlk : ℕ := 20
abbrev fadtOffsetPm1aCntBlk : ℕ := 28
abbrev fadtOffsetPmTmrBlk : ℕ := 40
abbrev fadtOffsetGpe0Blk : ℕ := 44
abbrev fadtOffsetPm1EvtLen : ℕ := 52
abbrev fadtOffsetPm1CntLen : ℕ := 53
abbrev fadtOffsetPmTmrLen : ℕ := 55
abbrev fadtOffsetGpe0BlkLen : ℕ := 56
abbrev fadtOffsetPLvl2Lat : ℕ := 60
abbrev fadtOffsetPLvl3Lat : ℕ := 62
abbrev fadtOffsetCentury : ℕ := 72
abbrev fadtOffsetIapcBootArch : ℕ := 74
abbrev fadtOffsetFlags : ℕ := 76
abbrev fadtOffsetResetReg : ℕ := 80
abbrev fadtOffsetResetValue : ℕ := 92
abbrev fadtOffsetXFirmwareCtrl : ℕ := 96
abbrev fadtOffsetXDsdt : ℕ := 104
abbrev fadtOffsetXPm1aEvtBlk : ℕ := 112
abbrev fadtOffsetXPm1aCntBlk : ℕ := 136
abbrev fadtOffsetXPmTmrBlk : ℕ := 172
abbrev fadtOffsetXGpe0Blk : ℕ := 184

/-- `patch_u16`: overwrite two bytes, which panics when they lie past the end. -/
def patchU16 (body : Bytes) (offset : ℕ) (value : UInt16) : Checked Bytes :=
  copyFromSlice body offset (offset + 2) (toLeBytes value)

/-- `patch_u32`: overwrite four bytes. -/
def patchU32 (body : Bytes) (offset : ℕ) (value : UInt32) : Checked Bytes :=
  copyFromSlice body offset (offset + 4) (toLeBytes value)

/-- `patch_u64`: overwrite eight bytes. -/
def patchU64 (body : Bytes) (offset : ℕ) (value : UInt64) : Checked Bytes :=
  copyFromSlice body offset (offset + 8) (toLeBytes value)

/-- `patch_gas`: overwrite the twelve bytes of a generic address. -/
def patchGas (body : Bytes) (offset : ℕ) (gas : Gas) : Checked Bytes :=
  copyFromSlice body offset (offset + 12) (gas.encode [])

/-- `saturating_mul`. -/
def saturatingMul (x y : UInt8) : UInt8 := UInt8.ofNat (min (x.toNat * y.toNat) 255)

/-- The feature flags: with more than eight CPUs the APICs are in clusters. -/
def fadtFlags (config : PlatformConfig) : UInt32 :=
  fadtFlagWbinvd ||| fadtFlagProcC1 ||| fadtFlagSlpButton ||| fadtFlagRtcS4 |||
    fadtFlagResetRegSup ||| fadtFlagUsePlatformClock |||
    if config.cpuApicIds.length > 8 then fadtFlagForceApicClusterModel else 0

/-- `build_fadt_with_facs`: the body of zeros, patched field by field in the order
of the source, under its header. -/
def buildFadtWithFacs (config : PlatformConfig) (facsAddress dsdtAddress : UInt64) :
    Checked Bytes := do
  let header := config.header (bstr "FACP") 3
  let body : Bytes := List.replicate fadtBodyLen 0
  let body ← patchU32 body fadtOffsetFirmwareCtrl facsAddress.toUInt32
  let body ← patchU32 body fadtOffsetDsdt dsdtAddress.toUInt32
  let body ← patchU16 body fadtOffsetSciInt config.sciIrq
  let body ← patchU32 body fadtOffsetPm1aEvtBlk config.pmIoBase.toUInt32
  let body ← patchU32 body fadtOffsetPm1aCntBlk (← checkedAdd config.pmIoBase 0x04).toUInt32
  let body ← patchU32 body fadtOffsetPmTmrBlk (← checkedAdd config.pmIoBase 0x08).toUInt32
  let body ← patchU32 body fadtOffsetGpe0Blk config.gpe0Base.toUInt32
  let body ← setByte body fadtOffsetPm1EvtLen 4
  let body ← setByte body fadtOffsetPm1CntLen 2
  let body ← setByte body fadtOffsetPmTmrLen 4
  let body ← setByte body fadtOffsetGpe0BlkLen config.gpe0Len
  let body ← patchU16 body fadtOffsetPLvl2Lat 0x0fff
  let body ← patchU16 body fadtOffsetPLvl3Lat 0x0fff
  let body ← setByte body fadtOffsetCentury 0x32
  let body ← patchU16 body fadtOffsetIapcBootArch iapcBootArch8042
  let body ← patchU32 body fadtOffsetFlags (fadtFlags config)
  let body ← patchGas body fadtOffsetResetReg (.io 8 config.resetIoBase)
  let body ← setByte body fadtOffsetResetValue config.resetValue
  let body ← patchU64 body fadtOffsetXFirmwareCtrl 0
  let body ← patchU64 body fadtOffsetXDsdt dsdtAddress
  let body ← patchGas body fadtOffsetXPm1aEvtBlk (.io 32 config.pmIoBase)
  let body ← patchGas body fadtOffsetXPm1aCntBlk (.io 16 (← checkedAdd config.pmIoBase 0x04))
  let body ← patchGas body fadtOffsetXPmTmrBlk (.io 32 (← checkedAdd config.pmIoBase 0x08))
  let body ← patchGas body fadtOffsetXGpe0Blk
    (.io (max (saturatingMul config.gpe0Len 8) 8) config.gpe0Base)
  return finalizeTable header body

/-! ## Runs of writes -/

/-- On buffers of `n` bytes, `m` makes the writes and goes on with `k`. -/
def Patches {β : Type} (n : ℕ) (ws : List (ℕ × Bytes)) (m k : Bytes → Checked β) : Prop :=
  ∀ buf : Bytes, buf.length = n → m buf = k (patchAll buf ws)

namespace Patches

variable {β : Type} {n start stop : ℕ} {src : Bytes} {ws : List (ℕ × Bytes)}
  {m k : Bytes → Checked β}

/-- No statement is left: the list of fields is empty. -/
theorem done : Patches n [] k k := fun _ _ => rfl

/-- One `copy_from_slice` puts its bytes in front of the list, when it has the
length of its place and ends inside the body. -/
theorem copy (hlen : start + src.length = stop) (hstop : stop ≤ n) (h : Patches n ws m k) :
    Patches n ((start, src) :: ws) (fun buf => copyFromSlice buf start stop src >>= m) k := by
  intro buf hbuf
  have hin : stop ≤ buf.length := hbuf ▸ hstop
  have hpatched : (patch buf start src).length = n := by
    rw [length_patch (hlen ▸ hin), hbuf]
  change copyFromSlice buf start stop src >>= m = _
  rw [copyFromSlice_of_le hlen hin]
  exact h _ hpatched

/-- One assignment to a byte does the same with a single byte. -/
theorem byte {index : ℕ} {b : UInt8} (hindex : index < n) (h : Patches n ws m k) :
    Patches n ((index, [b]) :: ws) (fun buf => setByte buf index b >>= m) k := by
  intro buf hbuf
  have hin : index < buf.length := hbuf ▸ hindex
  have hpatched : (patch buf index [b]).length = n := by
    rw [length_patch hin, hbuf]
  change setByte buf index b >>= m = _
  rw [setByte_of_lt hin]
  exact h _ hpatched

/-- A field of 16 bits. -/
theorem u16 {value : UInt16} (hstop : start + 2 ≤ n) (h : Patches n ws m k) :
    Patches n ((start, toLeBytes value) :: ws) (fun buf => patchU16 buf start value >>= m) k :=
  copy (by simp) hstop h

/-- A field of 32 bits. -/
theorem u32 {value : UInt32} (hstop : start + 4 ≤ n) (h : Patches n ws m k) :
    Patches n ((start, toLeBytes value) :: ws) (fun buf => patchU32 buf start value >>= m) k :=
  copy (by simp) hstop h

/-- A field of 64 bits. -/
theorem u64 {value : UInt64} (hstop : start + 8 ≤ n) (h : Patches n ws m k) :
    Patches n ((start, toLeBytes value) :: ws) (fun buf => patchU64 buf start value >>= m) k :=
  copy (by simp) hstop h

/-- A generic address, which takes twelve bytes. -/
theorem gas {value : Gas} (hstop : start + 12 ≤ n) (h : Patches n ws m k) :
    Patches n ((start, value.encode []) :: ws) (fun buf => patchGas buf start value >>= m) k :=
  copy (by rw [Gas.length_encode]) hstop h

end Patches

/-- The fields of the body. -/
def fadtFields (config : PlatformConfig) (facsAddress dsdtAddress : UInt64)
    (pm1aCnt pmTmr : UInt16) : List (ℕ × Bytes) :=
  [(fadtOffsetFirmwareCtrl, toLeBytes facsAddress.toUInt32),
    (fadtOffsetDsdt, toLeBytes dsdtAddress.toUInt32),
    (fadtOffsetSciInt, toLeBytes config.sciIrq),
    (fadtOffsetPm1aEvtBlk, toLeBytes config.pmIoBase.toUInt32),
    (fadtOffsetPm1aCntBlk, toLeBytes pm1aCnt.toUInt32),
    (fadtOffsetPmTmrBlk, toLeBytes pmTmr.toUInt32),
    (fadtOffsetGpe0Blk, toLeBytes config.gpe0Base.toUInt32),
    (fadtOffsetPm1EvtLen, [4]),
    (fadtOffsetPm1CntLen, [2]),
    (fadtOffsetPmTmrLen, [4]),
    (fadtOffsetGpe0BlkLen, [config.gpe0Len]),
    (fadtOffsetPLvl2Lat, toLeBytes (0x0fff : UInt16)),
    (fadtOffsetPLvl3Lat, toLeBytes (0x0fff : UInt16)),
    (fadtOffsetCentury, [0x32]),
    (fadtOffsetIapcBootArch, toLeBytes iapcBootArch8042),
    (fadtOffsetFlags, toLeBytes (fadtFlags config)),
    (fadtOffsetResetReg, (Gas.io 8 config.resetIoBase).encode []),
    (fadtOffsetResetValue, [config.resetValue]),
    (fadtOffsetXFirmwareCtrl, toLeBytes (0 : UInt64)),
    (fadtOffsetXDsdt, toLeBytes dsdtAddress),
    (fadtOffsetXPm1aEvtBlk, (Gas.io 32 config.pmIoBase).encode []),
    (fadtOffsetXPm1aCntBlk, (Gas.io 16 pm1aCnt).encode []),
    (fadtOffsetXPmTmrBlk, (Gas.io 32 pmTmr).encode []),
    (fadtOffsetXGpe0Blk,
      (Gas.io (max (saturatingMul config.gpe0Len 8) 8) config.gpe0Base).encode [])]

/-- The body when all fields have been written. Two of the ports are those that
`checkedAdd` has given. -/
def fadtBody (config : PlatformConfig) (facsAddress dsdtAddress : UInt64)
    (pm1aCnt pmTmr : UInt16) : Bytes :=
  patchAll (List.replicate fadtBodyLen 0) (fadtFields config facsAddress dsdtAddress pm1aCnt pmTmr)

section

variable {config : PlatformConfig} {facsAddress dsdtAddress : UInt64} {pm1aCnt pmTmr : UInt16}

/-- The FADT, when the port numbers of its blocks can be computed. -/
theorem buildFadtWithFacs_eq (hcnt : checkedAdd config.pmIoBase 0x04 = .ok pm1aCnt)
    (htmr : checkedAdd config.pmIoBase 0x08 = .ok pmTmr) :
    buildFadtWithFacs config facsAddress dsdtAddress =
      .ok (finalizeTable (config.header (bstr "FACP") 3)
        (fadtBody config facsAddress dsdtAddress pm1aCnt pmTmr)) := by
  have hrun : Patches fadtBodyLen (fadtFields config facsAddress dsdtAddress pm1aCnt pmTmr) _
      (fun body => .ok (finalizeTable (config.header (bstr "FACP") 3) body)) :=
    .u32 (by decide) <| .u32 (by decide) <| .u16 (by decide) <| .u32 (by decide) <|
    .u32 (by decide) <| .u32 (by decide) <| .u32 (by decide) <| .byte (by decide) <|
    .byte (by decide) <| .byte (by decide) <| .byte (by decide) <| .u16 (by decide) <|
    .u16 (by decide) <| .byte (by decide) <| .u16 (by decide) <| .u32 (by decide) <|
    .gas (by decide) <| .byte (by decide) <| .u64 (by decide) <| .u64 (by decide) <|
    .gas (by decide) <| .gas (by decide) <| .gas (by decide) <| .gas (by decide) .done
  rw [buildFadtWithFacs, hcnt, htmr]
  exact hrun _ List.length_replicate

/-- What a FADT that was built is made of. -/
theorem buildFadtWithFacs_eq_ok {fadt : Bytes}
    (h : buildFadtWithFacs config facsAddress dsdtAddress = .ok fadt) :
    ∃ pm1aCnt pmTmr, fadt = finalizeTable (config.header (bstr "FACP") 3)
      (fadtBody config facsAddress dsdtAddress pm1aCnt pmTmr) := by
  cases hcnt : checkedAdd config.pmIoBase (0x04 : UInt16) with
  | error e =>
    have hrun : Patches fadtBodyLen ((fadtFields config facsAddress dsdtAddress 0 0).take 4) _
        fun _ => (.error e : Checked Bytes) :=
      .u32 (by decide) <| .u32 (by decide) <| .u16 (by decide) <| .u32 (by decide) .done
    rw [buildFadtWithFacs, hcnt] at h
    cases (hrun _ List.length_replicate).symm.trans h
  | ok pm1aCnt =>
    cases htmr : checkedAdd config.pmIoBase (0x08 : UInt16) with
    | error e =>
      have hrun : Patches fadtBodyLen
          ((fadtFields config facsAddress dsdtAddress pm1aCnt 0).take 5) _
          fun _ => (.error e : Checked Bytes) :=
        .u32 (by decide) <| .u32 (by decide) <| .u16 (by decide) <| .u32 (by decide) <|
        .u32 (by decide) .done
      rw [buildFadtWithFacs, hcnt, htmr] at h
      cases (hrun _ List.length_replicate).symm.trans h
    | ok pmTmr =>
      rw [buildFadtWithFacs_eq hcnt htmr] at h
      exact ⟨pm1aCnt, pmTmr, (Except.ok.inj h).symm⟩

/-- The FADT is built when the last block of ports has a number. -/
theorem buildFadtWithFacs_isOk (h : config.pmIoBase.toNat + 8 < 65536) :
    ∃ fadt, buildFadtWithFacs config facsAddress dsdtAddress = .ok fadt := by
  have h4 : toNat (0x04 : UInt16) = 4 := rfl
  have h8 : toNat (0x08 : UInt16) = 8 := rfl
  have hbase : toNat config.pmIoBase = config.pmIoBase.toNat := rfl
  obtain ⟨pm1aCnt, hcnt, -⟩ := checkedAdd_isOk (x := config.pmIoBase) (y := (0x04 : UInt16))
    (by simp only [width_u16, h4, hbase]; omega)
  obtain ⟨pmTmr, htmr, -⟩ := checkedAdd_isOk (x := config.pmIoBase) (y := (0x08 : UInt16))
    (by simp only [width_u16, h8, hbase]; omega)
  exact ⟨_, buildFadtWithFacs_eq hcnt htmr⟩

end

/-! ## The fields read back -/

/-- The starts and the sizes of the fields. -/
def fadtRanges : List (ℕ × ℕ) :=
  [(0, 4), (4, 4), (10, 2), (20, 4), (28, 4), (40, 4), (44, 4), (52, 1), (53, 1), (55, 1), (56, 1),
    (60, 2), (62, 2), (72, 1), (74, 2), (76, 4), (80, 12), (92, 1), (96, 8), (104, 8), (112, 12),
    (136, 12), (172, 12), (184, 12)]

section

variable (config : PlatformConfig) (facsAddress dsdtAddress : UInt64) (pm1aCnt pmTmr : UInt16)

/-- Where the fields lie does not depend on what is in them. -/
theorem ranges_fadtFields :
    (fadtFields config facsAddress dsdtAddress pm1aCnt pmTmr).map (fun w => (w.1, w.2.length)) =
      fadtRanges := rfl

/-- No field overwrites another one, so each can be read back by itself. -/
theorem disjointWrites_fadtFields :
    DisjointWrites fadtBodyLen (fadtFields config facsAddress dsdtAddress pm1aCnt pmTmr) := by
  have hranges := ranges_fadtFields config facsAddress dsdtAddress pm1aCnt pmTmr
  refine ⟨?_, ?_⟩
  · have hin : ∀ r ∈ (fadtFields config facsAddress dsdtAddress pm1aCnt pmTmr).map
        (fun w => (w.1, w.2.length)), r.1 + r.2 ≤ fadtBodyLen := by
      rw [hranges]
      decide
    exact List.forall_mem_map.mp hin
  · have hpair : ((fadtFields config facsAddress dsdtAddress pm1aCnt pmTmr).map
        fun w => (w.1, w.2.length)).Pairwise fun u w => u.1 + u.2 ≤ w.1 ∨ w.1 + w.2 ≤ u.1 := by
      rw [hranges]
      decide
    exact List.pairwise_map.mp hpair

/-- Patching does not change the length of the body. -/
theorem length_fadtBody :
    (fadtBody config facsAddress dsdtAddress pm1aCnt pmTmr).length = fadtBodyLen := by
  rw [fadtBody, length_patchAll]
  · exact List.length_replicate
  · rw [List.length_replicate]
    exact (disjointWrites_fadtFields config facsAddress dsdtAddress pm1aCnt pmTmr).1

/-- Every field of the body reads back. -/
theorem slice_fadtBody {w : ℕ × Bytes}
    (h : w ∈ fadtFields config facsAddress dsdtAddress pm1aCnt pmTmr) :
    slice (fadtBody config facsAddress dsdtAddress pm1aCnt pmTmr) w.1 w.2.length = w.2 := by
  refine slice_patchAll_of_mem ?_ h
  rw [List.length_replicate]
  exact disjointWrites_fadtFields config facsAddress dsdtAddress pm1aCnt pmTmr

end

/-- **The pointers of the FADT**, and its length. -/
theorem pointers_of_buildFadt {config : PlatformConfig} {facsAddress dsdtAddress : UInt64}
    {fadt : Bytes} (h : buildFadtWithFacs config facsAddress dsdtAddress = .ok fadt) :
    fadt.length = 244 ∧
      slice fadt 36 4 = toLeBytes facsAddress.toUInt32 ∧
      slice fadt 40 4 = toLeBytes dsdtAddress.toUInt32 ∧
      slice fadt 140 8 = toLeBytes dsdtAddress := by
  obtain ⟨pm1aCnt, pmTmr, htable⟩ := buildFadtWithFacs_eq_ok h
  have hread : ∀ w ∈ fadtFields config facsAddress dsdtAddress pm1aCnt pmTmr,
      slice (finalizeTable (config.header (bstr "FACP") 3)
        (fadtBody config facsAddress dsdtAddress pm1aCnt pmTmr)) (36 + w.1) w.2.length = w.2 := by
    intro w hw
    rw [slice_finalizeTable, slice_fadtBody _ _ _ _ _ hw]
  have hfacs :=
    hread (fadtOffsetFirmwareCtrl, toLeBytes facsAddress.toUInt32) (by simp [fadtFields])
  have hdsdt := hread (fadtOffsetDsdt, toLeBytes dsdtAddress.toUInt32) (by simp [fadtFields])
  have hxDsdt := hread (fadtOffsetXDsdt, toLeBytes dsdtAddress) (by simp [fadtFields])
  rw [length_toLeBytes] at hfacs hdsdt hxDsdt
  refine ⟨?_, ?_, ?_, ?_⟩
  · rw [htable, length_finalizeTable, length_fadtBody, fadtBodyLen]
  · rw [htable]
    exact hfacs
  · rw [htable]
    exact hdsdt
  · rw [htable]
    exact hxDsdt

end AcpiTables
