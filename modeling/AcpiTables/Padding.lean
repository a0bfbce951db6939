import AcpiTables.DsdtTree
import AcpiTables.Lexical

/-!
# The padding search

A body with more padding is longer, and by more than the padding alone: the
buffer around it takes bytes as well. So a length may be skipped. The bisection
either finds a body of the length asked for, or brackets the gap; then one more
step beyond the gap ends the search (`growPadding_eq`), and its fuel is never
spent.

In every case the body is one that `encodeDsdtBody` gives for some padding
(`encodeDsdtWithPadding_eq`).
-/

namespace AcpiTables

open MachineInt

/-! ## The search over growing bodies -/

section Search

variable {encode : ℕ → Checked Bytes} {body : ℕ → Bytes} {targetBodyLen bound : ℕ}

/-- Where the bisection stands: all sizes below `low` are too small, the size
after `high` is too large, and `best` is the last body that was too short. -/
structure Brackets (body : ℕ → Bytes) (targetBodyLen low high : ℕ) (best : Option Bytes) :
    Prop where
  le : low ≤ high + 1
  above : targetBodyLen < (body (high + 1)).length
  best_eq : low = 0 ∧ best = none ∨
    ∃ p, low = p + 1 ∧ best = some (body p) ∧ (body p).length < targetBodyLen

/-- What the bisection finds: the size asked for, or the two around it. -/
def SearchResult (body : ℕ → Bytes) (targetBodyLen high : ℕ) (result : Checked PadSearch) : Prop :=
  (∃ p ≤ high, result = .ok (.found (body p)) ∧ (body p).length = targetBodyLen) ∨
    ∃ p ≤ high, result = .ok (.missed p (some (body p))) ∧ (body p).length < targetBodyLen ∧
      targetBodyLen < (body (p + 1)).length

variable (hencode : ∀ p, encode p = .ok (body p))
include hencode

/-- One turn of the search: the body with the padding in the middle is compared
with the target. -/
theorem searchPadding_step {low high : ℕ} (best : Option Bytes) (h : low ≤ high) :
    searchPadding encode targetBodyLen low high best =
      match compare (body ((low + high) / 2)).length targetBodyLen with
      | .eq => .ok (.found (body ((low + high) / 2)))
      | .lt => searchPadding encode targetBodyLen ((low + high) / 2 + 1) high
          (some (body ((low + high) / 2)))
      | .gt =>
        if (low + high) / 2 = 0 then .ok (.missed high best)
        else searchPadding encode targetBodyLen low ((low + high) / 2 - 1) best := by
  rw [searchPadding, dif_pos h]
  dsimp only
  rw [hencode, Checked.ok_bind]
  cases compare (body ((low + high) / 2)).length targetBodyLen with
  | lt => rfl
  | eq => rfl
  | gt =>
    dsimp only
    split_ifs with hmid
    · rfl
    · split
      · next hhigh => rw [(usizeSub_eq_ok hhigh).2]
      · next hhigh =>
        rw [usizeSub_of_le (Nat.one_le_iff_ne_zero.mpr hmid)] at hhigh
        cases hhigh

/-- The search ends with the padding that was asked for, or with the last body that
is too short. -/
theorem searchPadding_result (hzero : (body 0).length < targetBodyLen) {low high : ℕ}
    {best : Option Bytes} (h : Brackets body targetBodyLen low high best) :
    SearchResult body targetBodyLen high (searchPadding encode targetBodyLen low high best) := by
  -- induction on the sizes left
  induction hleft : high + 1 - low using Nat.strong_induction_on generalizing low high best with
  | _ left ih =>
    rcases Nat.lt_or_ge high low with hlt | hle
    · -- the bracket is closed: `best` is the body just below the gap
      have hend : searchPadding encode targetBodyLen low high best = .ok (.missed high best) := by
        rw [searchPadding, dif_neg (by omega)]
        rfl
      have hle := h.le
      rcases h.best_eq with ⟨hlow, -⟩ | ⟨p, hlow, hbest, hshort⟩
      · omega
      · obtain rfl : p = high := by omega
        exact .inr ⟨p, le_rfl, by rw [hend, hbest], hshort, h.above⟩
    · set mid := (low + high) / 2 with hmid
      have hlo : low ≤ mid := by omega
      have hhi : mid ≤ high := by omega
      rw [searchPadding_step hencode best hle, ← hmid]
      cases hcmp : compare (body mid).length targetBodyLen with
      | eq => exact .inl ⟨mid, hhi, rfl, Nat.compare_eq_eq.mp hcmp⟩
      | lt =>
        have hshort : (body mid).length < targetBodyLen := Nat.compare_eq_lt.mp hcmp
        exact ih _ (by omega) ⟨by omega, h.above, .inr ⟨mid, rfl, rfl, hshort⟩⟩ rfl
      | gt =>
        have hlong : targetBodyLen < (body mid).length := Nat.compare_eq_gt.mp hcmp
        have hpos : mid ≠ 0 := by
          intro h0
          rw [h0] at hlong
          omega
        dsimp only
        rw [if_neg hpos]
        have hprev : mid - 1 + 1 = mid := by omega
        have hnext : Brackets body targetBodyLen low (mid - 1) best :=
          ⟨by omega, by rwa [hprev], h.best_eq⟩
        rcases ih _ (by omega) hnext rfl with ⟨p, hp, hfound⟩ | ⟨p, hp, hmissed⟩
        · exact .inl ⟨p, by omega, hfound⟩
        · exact .inr ⟨p, by omega, hmissed⟩

/-- Beyond the gap one step is enough. -/
theorem growPadding_eq (hmono : ∀ p q, p < q → q < bound → (body p).length < (body q).length)
    {high fuel : ℕ} (hshort : (body high).length < targetBodyLen)
    (hlong : targetBodyLen < (body (high + 1)).length) (hbound : high + targetBodyLen < bound)
    (hfuel : 0 < fuel) :
    growPadding encode targetBodyLen high fuel (body high) =
      .ok (body (high + (targetBodyLen - (body high).length))) := by
  obtain ⟨fuel, rfl⟩ := Nat.exists_eq_succ_of_ne_zero hfuel.ne'
  set missing := targetBodyLen - (body high).length with hmissing
  have hover : targetBodyLen < (body (high + missing)).length := by
    rcases Nat.lt_or_eq_of_le (show 1 ≤ missing by omega) with h | h
    · exact hlong.trans (hmono _ _ (by omega) (by omega))
    · rwa [← h]
  rw [growPadding, if_pos hshort, usizeSub_of_le hshort.le, Checked.ok_bind]
  rw [← hmissing, hencode, Checked.ok_bind, if_pos hover]
  rfl

end Search

/-! ## The body of the DSDT -/

/-- The body with a given padding. -/
def dsdtBody (config : PlatformConfig) (padLen : ℕ) : Bytes :=
  (bodyTrees config padLen).flatMap AmlTree.encode

/-- The body with a padding is the body without it and the buffer behind it. -/
theorem dsdtBody_succ (config : PlatformConfig) (padLen : ℕ) :
    dsdtBody config (padLen + 1) = dsdtBody config 0 ++ (padTree (padLen + 1)).encode := by
  simp [dsdtBody, bodyTrees]

/-- The length of the padding buffer, with its name. -/
theorem length_padTree {padLen : ℕ} (h : padLen < 18446744073709551616) :
    (padTree padLen).encode.length =
      let content := (encodeInt padLen).length + padLen
      6 + pkgWidth content + content := by
  have hmod : padLen % 18446744073709551616 = padLen := Nat.mod_eq_of_lt h
  have hpath : (Path.seg "QPAD").encode.length = 4 := by decide
  simp only [padTree, AmlTree.encode, frame, sizedContent, List.length_cons, List.length_append,
    List.length_replicate, List.length_nil, length_createPkgLength_eq, hmod, hpath]
  omega

/-- More padding, longer body. -/
theorem length_dsdtBody_lt (config : PlatformConfig) {p q : ℕ} (hpq : p < q)
    (hq : q < 18446744073709551616) :
    (dsdtBody config p).length < (dsdtBody config q).length := by
  obtain ⟨q, rfl⟩ := Nat.exists_eq_succ_of_ne_zero (Nat.ne_of_gt (Nat.zero_lt_of_lt hpq))
  rw [Nat.succ_eq_add_one] at hpq hq ⊢
  rw [dsdtBody_succ, List.length_append, length_padTree hq]
  cases p with
  | zero => simp only; omega
  | succ p =>
    have hint := length_encodeInt_mono hpq.le
    have hcontent := add_pkgWidth_lt (Nat.add_lt_add_of_le_of_lt hint hpq)
    rw [dsdtBody_succ, List.length_append, length_padTree (by omega)]
    simp only
    omega

/-- A padding makes the body longer by at least its own bytes. -/
theorem length_dsdtBody_add_le (config : PlatformConfig) {padLen : ℕ}
    (h : padLen < 18446744073709551616) :
    (dsdtBody config 0).length + padLen ≤ (dsdtBody config padLen).length := by
  cases padLen with
  | zero => omega
  | succ padLen =>
    rw [dsdtBody_succ, List.length_append, length_padTree h]
    simp only
    omega

/-- **The body that is built is one with some padding**, and building it never
runs out of fuel. -/
theorem encodeDsdtWithPadding_eq {config : PlatformConfig} (hcpus : config.cpuApicIds.length ≤ 1000)
    {target : Option UInt32} (htarget : config.targetDsdtLen = .ok target) :
    ∃ padLen ≤ 2 * target.elim 0 UInt32.toNat,
      encodeDsdtWithPadding config = .ok (dsdtBody config padLen) := by
  have hencode : ∀ p, encodeDsdtBody config p = .ok (dsdtBody config p) := encodeDsdtBody_eq hcpus
  rw [encodeDsdtWithPadding, hencode, Checked.ok_bind, htarget, Checked.ok_bind]
  cases target with
  | none => exact ⟨0, Nat.zero_le _, rfl⟩
  | some total =>
    have htotal := total.toNat_lt
    dsimp only
    rw [Option.elim_some]
    split_ifs with hle
    · exact ⟨0, Nat.zero_le _, rfl⟩
    · set targetBodyLen := total.toNat - 36 with htargetBodyLen
      have hzero : (dsdtBody config 0).length < targetBodyLen := Nat.lt_of_not_le hle
      set high := targetBodyLen - (dsdtBody config 0).length with hhigh
      have habove : targetBodyLen < (dsdtBody config (high + 1)).length := by
        have := length_dsdtBody_add_le config (show high + 1 < 18446744073709551616 by omega)
        omega
      rw [usizeSub_of_le hzero.le, Checked.ok_bind]
      rcases searchPadding_result hencode hzero ⟨Nat.zero_le _, habove, .inl ⟨rfl, rfl⟩⟩ with
        ⟨p, hp, hfound, -⟩ | ⟨p, hp, hmissed, hshort, hlong⟩
      · exact ⟨p, by omega, by rw [hfound]; rfl⟩
      · refine ⟨p + (targetBodyLen - (dsdtBody config p).length), by omega, ?_⟩
        rw [hmissed, Checked.ok_bind]
        have hmono : ∀ p q, p < q → q < 18446744073709551616 →
            (dsdtBody config p).length < (dsdtBody config q).length :=
          fun p q => length_dsdtBody_lt config
        exact growPadding_eq hencode hmono hshort hlong (by omega) (by omega)

/-! ## The table -/

/-- The length asked for can be computed unless there are very many devices. -/
theorem targetDsdtLen_isOk {config : PlatformConfig} (hcpus : config.cpuApicIds.length ≤ 1000)
    (hdevices : config.pciDevices.length < 134217728) :
    ∃ target, config.targetDsdtLen = .ok target ∧ target.elim 0 UInt32.toNat ≤
      8173 + 86 * config.cpuApicIds.length + 17 * config.pciDevices.length := by
  cases hcompat : config.compatLengths with
  | false => exact ⟨none, by simp [PlatformConfig.targetDsdtLen, hcompat], Nat.zero_le _⟩
  | true =>
    set cpus := UInt32.ofNat config.cpuApicIds.length with hcpus'
    set hpetDelta : UInt32 := if config.hasHpet then 142 else 0 with hhpet
    have hcpusNat : toNat cpus = config.cpuApicIds.length := toNat_ofNat_u32 (by omega)
    have hdevicesNat :
        toNat (UInt32.ofNat config.pciDevices.length) = config.pciDevices.length :=
      toNat_ofNat_u32 (by omega)
    have hbase : toNat (PlatformConfig.dsdtBaseLen cpus) ≤ 8031 := by
      unfold PlatformConfig.dsdtBaseLen
      split_ifs <;> decide
    have hhpetNat : toNat hpetDelta ≤ 142 := by
      rw [hhpet]
      split_ifs <;> decide
    have h17 : toNat (17 : UInt32) = 17 := rfl
    have h86 : toNat (86 : UInt32) = 86 := rfl
    -- the checked steps in the order of the source, none of which overflows
    obtain ⟨pciDelta, hpci, hpciNat⟩ := checkedMul_isOk (x := (17 : UInt32))
      (y := UInt32.ofNat config.pciDevices.length) (by simp only [width_u32, h17]; omega)
    obtain ⟨cpuDelta, hcpu, hcpuNat⟩ := checkedMul_isOk (x := (86 : UInt32)) (y := cpus)
      (by simp only [width_u32, h86]; omega)
    rw [h17] at hpciNat
    rw [h86] at hcpuNat
    obtain ⟨len, hlen, hlenNat⟩ := checkedAdd_isOk (x := PlatformConfig.dsdtBaseLen cpus)
      (y := cpuDelta) (by simp only [width_u32]; omega)
    obtain ⟨len', hlen', hlenNat'⟩ := checkedAdd_isOk (x := len) (y := hpetDelta)
      (by simp only [width_u32]; omega)
    obtain ⟨len'', hlen'', hlenNat''⟩ := checkedAdd_isOk (x := len') (y := pciDelta)
      (by simp only [width_u32]; omega)
    refine ⟨some len'', ?_, ?_⟩
    swap
    · change toNat len'' ≤ _
      omega
    rw [PlatformConfig.targetDsdtLen, hcompat]
    dsimp only
    rw [← hcpus', ← hhpet, hpci, hcpu, Checked.ok_bind, Checked.ok_bind, hlen, Checked.ok_bind,
      hlen', Checked.ok_bind, hlen'']
    rfl

/-- What a DSDT that was built is made of. -/
theorem buildDsdt_eq_ok {config : PlatformConfig} {dsdt : Bytes} (h : buildDsdt config = .ok dsdt) :
    config.cpuApicIds.length ≤ 1000 ∧
      ∃ padLen, dsdt = finalizeTable (config.header (bstr "DSDT") 1) (dsdtBody config padLen) := by
  obtain ⟨body, hbody, htable⟩ := Checked.bind_eq_ok.mp h
  have hcpus : config.cpuApicIds.length ≤ 1000 := by
    by_contra hlt
    rw [encodeDsdtWithPadding, encodeDsdtBody_of_lt (Nat.lt_of_not_le hlt)] at hbody
    cases hbody
  obtain ⟨target, htarget⟩ : ∃ target, config.targetDsdtLen = .ok target := by
    rw [encodeDsdtWithPadding, encodeDsdtBody_eq hcpus, Checked.ok_bind] at hbody
    obtain ⟨target, htarget, -⟩ := Checked.bind_eq_ok.mp hbody
    exact ⟨target, htarget⟩
  obtain ⟨padLen, -, hpadded⟩ := encodeDsdtWithPadding_eq hcpus htarget
  rw [hpadded] at hbody
  obtain rfl := Except.ok.inj hbody
  exact ⟨hcpus, padLen, (Except.ok.inj htable).symm⟩

end AcpiTables
