import AcpiTables.Padding

/-!
# The lengths that padding reaches

`qpadLength` is what a padding adds to the body. It grows with the padding, by
more than one wherever the size of the buffer or its package length takes
another byte; the lengths skipped there, and the first few, are the
`paddingGaps`. The search ends on every other length (`paddingSearch_correct`,
`length_buildDsdt_iff`). On a gap the body that is built is too long, by less than
17 bytes (`ChosenPad.lt`).

`exists_qpadLength_eq_iff` has the gaps from the closed form of the lengths: below a
gap and above it there are two paddings that follow each other, and every other
length is found by subtracting what stands around the padding at its size.
`ChosenPad` then says which padding is chosen, whether the length is a gap or not,
and this is all that is used of the search (`encodeDsdtWithPadding_chosen`).
-/

namespace AcpiTables

/-! ## What a padding adds -/

/-- The bytes that a padding takes, with the buffer and the name around it. -/
def qpadLength (padLen : ℕ) : ℕ :=
  if padLen = 0 then 0
  else
    let content := (encodeInt padLen).length + padLen
    6 + pkgWidth content + content

@[simp] theorem qpadLength_zero : qpadLength 0 = 0 := rfl

/-- A padding takes its bytes, their number and the bytes of the name around them. -/
theorem qpadLength_of_pos {padLen : ℕ} (h : 0 < padLen) :
    qpadLength padLen =
      6 + pkgWidth ((encodeInt padLen).length + padLen) + ((encodeInt padLen).length + padLen) :=
  if_neg h.ne'

/-- The body with a padding is the body without it and the bytes of the padding. -/
theorem length_dsdtBody_eq (config : PlatformConfig) {padLen : ℕ}
    (h : padLen < 18446744073709551616) :
    (dsdtBody config padLen).length = (dsdtBody config 0).length + qpadLength padLen := by
  cases padLen with
  | zero => rw [qpadLength_zero, Nat.add_zero]
  | succ padLen =>
    rw [dsdtBody_succ, List.length_append, length_padTree h, qpadLength_of_pos (Nat.succ_pos _)]

/-- More padding takes more bytes. -/
theorem qpadLength_lt {p q : ℕ} (h : p < q) : qpadLength p < qpadLength q := by
  rw [qpadLength_of_pos (Nat.zero_lt_of_lt h)]
  rcases Nat.eq_zero_or_pos p with rfl | hp
  · rw [qpadLength_zero]
    omega
  · rw [qpadLength_of_pos hp]
    have hint := length_encodeInt_mono h.le
    have hcontent := add_pkgWidth_lt (Nat.add_lt_add_of_le_of_lt hint h)
    omega

/-- Each byte of padding takes at least one byte. -/
theorem qpadLength_add_le (p n : ℕ) : qpadLength p + n ≤ qpadLength (p + n) := by
  induction n with
  | zero => exact le_rfl
  | succ n ih =>
    have := qpadLength_lt (Nat.lt_succ_self (p + n))
    rw [Nat.succ_eq_add_one, Nat.add_assoc] at this
    omega

/-- A padding takes at least its own bytes. -/
theorem le_qpadLength (p : ℕ) : p ≤ qpadLength p := by
  have := qpadLength_add_le 0 p
  rwa [qpadLength_zero, Nat.zero_add] at this

/-- The bytes around a padding, by the sizes that need one more byte. -/
theorem qpadLength_eq {p : ℕ} (h : p < 4294967296) :
    (p = 1 → qpadLength p = 9) ∧
    (2 ≤ p → p ≤ 60 → qpadLength p = p + 9) ∧
    (61 ≤ p → p ≤ 255 → qpadLength p = p + 10) ∧
    (256 ≤ p → p ≤ 4090 → qpadLength p = p + 11) ∧
    (4091 ≤ p → p ≤ 65535 → qpadLength p = p + 12) ∧
    (65536 ≤ p → p ≤ 1048567 → qpadLength p = p + 14) ∧
    (1048568 ≤ p → qpadLength p = p + 15) := by
  rcases Nat.eq_zero_or_pos p with rfl | hpos
  · omega
  · rw [qpadLength_of_pos hpos, length_encodeInt, intLength, pkgWidth]
    split_ifs <;> omega

/-! ## The gaps -/

/-- The lengths that no padding adds. -/
def paddingGaps : List ℕ := [1, 2, 3, 4, 5, 6, 7, 8, 10, 70, 266, 4102, 65548, 65549, 1048582]

/-- A gap lies between two paddings that follow each other. -/
theorem exists_between_of_mem_gaps {d : ℕ} (h : d ∈ paddingGaps) :
    ∃ q, qpadLength q < d ∧ d < qpadLength (q + 1) := by
  have hbelow : ∀ d ∈ paddingGaps,
      ∃ q ∈ [0, 1, 60, 255, 4090, 65535, 1048567], qpadLength q < d ∧ d < qpadLength (q + 1) := by
    decide
  obtain ⟨q, -, hq⟩ := hbelow d h
  exact ⟨q, hq⟩

/-- No padding adds what lies between two that follow each other. -/
theorem qpadLength_ne_of_between {d q : ℕ} (hlow : qpadLength q < d)
    (hhigh : d < qpadLength (q + 1)) (p : ℕ) : qpadLength p ≠ d := by
  intro hp
  rcases Nat.lt_or_ge q p with h | h
  · have := qpadLength_add_le (q + 1) (p - (q + 1))
    rw [Nat.add_sub_cancel' h] at this
    omega
  · have := qpadLength_add_le p (q - p)
    rw [Nat.add_sub_cancel' h] at this
    omega

/-- **The gaps are exactly the lengths that are skipped.** -/
theorem exists_qpadLength_eq_iff {d : ℕ} (hd : d < 4294967296) :
    (∃ p, qpadLength p = d) ↔ d ∉ paddingGaps := by
  constructor
  · rintro ⟨p, hp⟩ hgap
    obtain ⟨q, hlow, hhigh⟩ := exists_between_of_mem_gaps hgap
    exact qpadLength_ne_of_between hlow hhigh p hp
  · intro h
    simp only [paddingGaps, List.mem_cons, List.not_mem_nil, or_false, not_or] at h
    rcases Nat.eq_zero_or_pos d with rfl | hpos
    · exact ⟨0, rfl⟩
    -- between two gaps the bytes around the padding stay the same
    have hlt : ∀ n, d - n < 4294967296 := fun n => by omega
    rcases Nat.lt_or_ge d 11 with h₁ | h₁
    · exact ⟨1, by rw [(qpadLength_eq (by omega)).1 rfl]; omega⟩
    rcases Nat.lt_or_ge d 70 with h₂ | h₂
    · exact ⟨d - 9, by rw [(qpadLength_eq (hlt 9)).2.1 (by omega) (by omega)]; omega⟩
    rcases Nat.lt_or_ge d 266 with h₃ | h₃
    · exact ⟨d - 10, by rw [(qpadLength_eq (hlt 10)).2.2.1 (by omega) (by omega)]; omega⟩
    rcases Nat.lt_or_ge d 4102 with h₄ | h₄
    · exact ⟨d - 11, by rw [(qpadLength_eq (hlt 11)).2.2.2.1 (by omega) (by omega)]; omega⟩
    rcases Nat.lt_or_ge d 65548 with h₅ | h₅
    · exact ⟨d - 12, by rw [(qpadLength_eq (hlt 12)).2.2.2.2.1 (by omega) (by omega)]; omega⟩
    rcases Nat.lt_or_ge d 1048582 with h₆ | h₆
    · exact ⟨d - 14, by rw [(qpadLength_eq (hlt 14)).2.2.2.2.2.1 (by omega) (by omega)]; omega⟩
    · exact ⟨d - 15, by rw [(qpadLength_eq (hlt 15)).2.2.2.2.2.2 (by omega)]; omega⟩

/-! ## The padding that is chosen -/

/-- The padding for `d` missing bytes: the one that adds them, or, in a gap, the
last one that adds too little and as much more as is still missing. -/
def ChosenPad (d p : ℕ) : Prop :=
  qpadLength p = d ∨
    ∃ q, qpadLength q < d ∧ d < qpadLength (q + 1) ∧ p = q + (d - qpadLength q)

namespace ChosenPad

variable {d p : ℕ}

/-- The padding that is chosen reaches the target. -/
theorem le (h : ChosenPad d p) : d ≤ qpadLength p := by
  rcases h with rfl | ⟨q, hshort, -, rfl⟩
  · exact le_rfl
  · have := qpadLength_add_le q (d - qpadLength q)
    omega

/-- Nothing is added where nothing is missing. -/
theorem eq_zero (h : ChosenPad 0 p) : qpadLength p = 0 := by
  rcases h with hzero | ⟨q, hshort, -, -⟩
  · exact hzero
  · omega

/-- A gap is overshot by less than 17 bytes. -/
theorem lt (h : ChosenPad d p) : qpadLength p < d + 17 := by
  rcases h with rfl | ⟨q, hshort, hlong, rfl⟩
  · omega
  rcases Nat.eq_zero_or_pos q with rfl | hpos
  · -- the first gap ends at nine bytes
    have hone : qpadLength (0 + 1) = 9 := by decide
    rw [hone] at hlong
    have := qpadLength_eq (show d < 4294967296 by omega)
    rw [qpadLength_zero, Nat.sub_zero, Nat.zero_add]
    omega
  · have hwidth := pkgWidth_le ((encodeInt (q + (d - qpadLength q))).length +
      (q + (d - qpadLength q)))
    have hint := length_encodeInt_le (q + (d - qpadLength q))
    have hint' : 1 ≤ (encodeInt q).length := by
      rw [length_encodeInt, intLength]
      split_ifs <;> omega
    have hwidth' := pkgWidth_pos ((encodeInt q).length + q)
    have hq := qpadLength_of_pos hpos
    rw [qpadLength_of_pos (by omega)]
    omega

/-- The length is met when some padding meets it. -/
theorem eq_iff (h : ChosenPad d p) : qpadLength p = d ↔ ∃ q, qpadLength q = d := by
  constructor
  · exact fun hp => ⟨p, hp⟩
  · rintro ⟨r, hr⟩
    rcases h with hp | ⟨q, hshort, hlong, -⟩
    · exact hp
    · exact absurd hr (qpadLength_ne_of_between hshort hlong r)

end ChosenPad

/-- **The body that is built, by its padding.** -/
theorem encodeDsdtWithPadding_chosen {config : PlatformConfig}
    (hcpus : config.cpuApicIds.length ≤ 1000) {target : UInt32}
    (htarget : config.targetDsdtLen = .ok (some target))
    (hshort : (dsdtBody config 0).length < target.toNat - 36) :
    ∃ padLen < 18446744073709551616,
      encodeDsdtWithPadding config = .ok (dsdtBody config padLen) ∧
        ChosenPad (target.toNat - 36 - (dsdtBody config 0).length) padLen := by
  have hencode : ∀ p, encodeDsdtBody config p = .ok (dsdtBody config p) := encodeDsdtBody_eq hcpus
  have htotal := target.toNat_lt
  rw [encodeDsdtWithPadding, hencode, Checked.ok_bind, htarget, Checked.ok_bind]
  dsimp only
  rw [if_neg (Nat.not_le.mpr hshort), usizeSub_of_le hshort.le, Checked.ok_bind]
  set targetBodyLen := target.toNat - 36 with htargetBodyLen
  set high := targetBodyLen - (dsdtBody config 0).length with hhigh
  have hlength : ∀ p, p < 18446744073709551616 →
      (dsdtBody config p).length = (dsdtBody config 0).length + qpadLength p :=
    fun p => length_dsdtBody_eq config
  -- one byte more than is missing overshoots, which bounds the search
  have habove : targetBodyLen < (dsdtBody config (high + 1)).length := by
    have := le_qpadLength (high + 1)
    rw [hlength _ (by omega)]
    omega
  rcases searchPadding_result hencode hshort ⟨Nat.zero_le _, habove, .inl ⟨rfl, rfl⟩⟩ with
    ⟨p, hp, hfound, heq⟩ | ⟨p, hp, hmissed, hlow, hlong⟩
  · rw [hlength _ (by omega)] at heq
    exact ⟨p, by omega, by rw [hfound]; rfl, .inl (by omega)⟩
  -- no padding was right: the loop makes up for the difference
  · have hmono : ∀ p q, p < q → q < 18446744073709551616 →
        (dsdtBody config p).length < (dsdtBody config q).length :=
      fun p q => length_dsdtBody_lt config
    have hgrown :=
      growPadding_eq hencode hmono hlow hlong (by omega) (show 0 < targetBodyLen by omega)
    have hp0 := hlength p (by omega)
    have hp1 := hlength (p + 1) (by omega)
    refine ⟨p + (targetBodyLen - (dsdtBody config p).length), by omega, ?_, .inr ⟨p, ?_, ?_, ?_⟩⟩
    · rw [hmissed, Checked.ok_bind]
      exact hgrown
    · omega
    · omega
    · omega

/-! ## What is built -/

/-- What the builder computes before it searches: the body without padding, and
the length to reach. -/
structure Accepted (config : PlatformConfig) : Prop where
  unpadded : ∃ body, encodeDsdtBody config 0 = .ok body
  target : ∃ target, config.targetDsdtLen = .ok target

namespace Accepted

variable {config : PlatformConfig}

/-- A configuration that is accepted has at most a thousand CPUs. -/
theorem cpus_le (h : Accepted config) : config.cpuApicIds.length ≤ 1000 := by
  obtain ⟨body, hbody⟩ := h.unpadded
  by_contra hlt
  rw [encodeDsdtBody_of_lt (Nat.lt_of_not_le hlt)] at hbody
  cases hbody

/-- With every padding the body of an accepted configuration is encoded. -/
theorem encode_eq (h : Accepted config) (padLen : ℕ) :
    encodeDsdtBody config padLen = .ok (dsdtBody config padLen) :=
  encodeDsdtBody_eq h.cpus_le padLen

/-- The table of an accepted configuration is built, with some padding. -/
theorem build (h : Accepted config) : ∃ padLen,
    encodeDsdtWithPadding config = .ok (dsdtBody config padLen) ∧
      buildDsdt config =
        .ok (finalizeTable (config.header (bstr "DSDT") 1) (dsdtBody config padLen)) := by
  obtain ⟨target, htarget⟩ := h.target
  obtain ⟨padLen, -, hbody⟩ := encodeDsdtWithPadding_eq h.cpus_le htarget
  refine ⟨padLen, hbody, ?_⟩
  rw [buildDsdt, hbody]
  rfl

/-- With compatible lengths there is a length to reach. -/
theorem exists_target (h : Accepted config) (hcompat : config.compatLengths = true) :
    ∃ target, config.targetDsdtLen = .ok (some target) := by
  obtain ⟨target, htarget⟩ := h.target
  cases target with
  | some target => exact ⟨target, htarget⟩
  | none =>
    rw [PlatformConfig.targetDsdtLen, hcompat] at htarget
    obtain ⟨pciDelta, -, hrest⟩ := Checked.bind_eq_ok.mp htarget
    obtain ⟨cpuDelta, -, hrest⟩ := Checked.bind_eq_ok.mp hrest
    obtain ⟨len, -, hrest⟩ := Checked.bind_eq_ok.mp hrest
    obtain ⟨len', -, hrest⟩ := Checked.bind_eq_ok.mp hrest
    obtain ⟨len'', -, hrest⟩ := Checked.bind_eq_ok.mp hrest
    cases hrest

/-- Only what is accepted is built. -/
theorem of_build {dsdt : Bytes} (h : buildDsdt config = .ok dsdt) : Accepted config := by
  obtain ⟨body, hbody, -⟩ := Checked.bind_eq_ok.mp h
  obtain ⟨unpadded, hunpadded, hrest⟩ := Checked.bind_eq_ok.mp hbody
  obtain ⟨target, htarget, -⟩ := Checked.bind_eq_ok.mp hrest
  exact ⟨⟨unpadded, hunpadded⟩, ⟨target, htarget⟩⟩

end Accepted

/-- **The padding search.** The body grows with the padding; the search and the
loop after it end without a panic; and they end on the length asked for if any
padding up to the missing bytes has it. -/
theorem paddingSearch_correct {config : PlatformConfig} (h : Accepted config) :
    (∀ p q, p < q → q < 18446744073709551616 →
      ∃ shorter longer, encodeDsdtBody config p = .ok shorter ∧
        encodeDsdtBody config q = .ok longer ∧ shorter.length < longer.length) ∧
    ∃ body, encodeDsdtWithPadding config = .ok body ∧
      ∀ target unpadded, config.targetDsdtLen = .ok (some target) →
        encodeDsdtBody config 0 = .ok unpadded → unpadded.length < target.toNat - 36 →
          (body.length = target.toNat - 36 ↔
            ∃ p ≤ target.toNat - 36 - unpadded.length,
              ∃ candidate, encodeDsdtBody config p = .ok candidate ∧
                candidate.length = target.toNat - 36) := by
  constructor
  · intro p q hpq hq
    exact ⟨_, _, h.encode_eq p, h.encode_eq q, length_dsdtBody_lt config hpq hq⟩
  · obtain ⟨padLen, hbody, -⟩ := h.build
    refine ⟨_, hbody, ?_⟩
    intro target unpadded htarget hunpadded hshort
    obtain rfl : dsdtBody config 0 = unpadded :=
      Except.ok.inj ((h.encode_eq 0).symm.trans hunpadded)
    have htotal := target.toNat_lt
    obtain ⟨p, hp, hchosen, hpad⟩ := encodeDsdtWithPadding_chosen h.cpus_le htarget hshort
    have hsame : dsdtBody config padLen = dsdtBody config p :=
      Except.ok.inj (hbody.symm.trans hchosen)
    have hlength : ∀ {q}, q < 18446744073709551616 →
        (dsdtBody config q).length = (dsdtBody config 0).length + qpadLength q :=
      length_dsdtBody_eq config
    rw [hsame, hlength hp]
    constructor
    · intro hexact
      have := le_qpadLength p
      exact ⟨p, by omega, _, h.encode_eq p, by rw [hlength hp, hexact]⟩
    · rintro ⟨q, hq, candidate, hcandidate, hexact⟩
      obtain rfl : dsdtBody config q = candidate :=
        Except.ok.inj ((h.encode_eq q).symm.trans hcandidate)
      rw [hlength (by omega)] at hexact
      rw [hpad.eq_iff.mpr ⟨q, by omega⟩]
      omega

/-- The two disks are accepted. -/
theorem accepted_twoDisks : Accepted PlatformConfig.twoDisks :=
  ⟨⟨_, encodeDsdtBody_eq (by decide) 0⟩, ⟨_, rfl⟩⟩

theorem paddingSearch_twoDisks :
    (∀ p q, p < q → q < 18446744073709551616 →
      ∃ shorter longer, encodeDsdtBody .twoDisks p = .ok shorter ∧
        encodeDsdtBody .twoDisks q = .ok longer ∧ shorter.length < longer.length) ∧
    ∃ body, encodeDsdtWithPadding .twoDisks = .ok body ∧
      ∀ target unpadded, PlatformConfig.twoDisks.targetDsdtLen = .ok (some target) →
        encodeDsdtBody .twoDisks 0 = .ok unpadded → unpadded.length < target.toNat - 36 →
          (body.length = target.toNat - 36 ↔
            ∃ p ≤ target.toNat - 36 - unpadded.length,
              ∃ candidate, encodeDsdtBody .twoDisks p = .ok candidate ∧
                candidate.length = target.toNat - 36) :=
  paddingSearch_correct accepted_twoDisks

/-! ## The length of the table -/

/-- The table that is built, by the padding that is chosen for the bytes that
are missing. -/
theorem buildDsdt_chosen {config : PlatformConfig} {target : UInt32} {dsdt : Bytes}
    (h : buildDsdt config = .ok dsdt) (htarget : config.targetDsdtLen = .ok (some target)) :
    ∃ p < 18446744073709551616,
      dsdt = finalizeTable (config.header (bstr "DSDT") 1) (dsdtBody config p) ∧
        ChosenPad (target.toNat - 36 - (dsdtBody config 0).length) p := by
  have haccepted := Accepted.of_build h
  obtain ⟨body, hbody, hdsdt⟩ := Checked.bind_eq_ok.mp h
  obtain rfl := Except.ok.inj hdsdt
  rcases Nat.lt_or_ge (dsdtBody config 0).length (target.toNat - 36) with hshort | hlong
  · obtain ⟨p, hp, hchosen, hpad⟩ := encodeDsdtWithPadding_chosen haccepted.cpus_le htarget hshort
    obtain rfl := Except.ok.inj (hbody.symm.trans hchosen)
    exact ⟨p, hp, rfl, hpad⟩
  · -- nothing is missing
    rw [encodeDsdtWithPadding, haccepted.encode_eq, Checked.ok_bind, htarget, Checked.ok_bind]
      at hbody
    dsimp only at hbody
    rw [if_pos hlong] at hbody
    obtain rfl := Except.ok.inj hbody
    exact ⟨0, by omega, rfl, .inl (by rw [Nat.sub_eq_zero_of_le hlong, qpadLength_zero])⟩

/-- **The length of the DSDT** is the one asked for, unless what is missing is a
gap, for every configuration whose table without padding is not longer than that.
A gap is a number of bytes that no padding object has, as where its length field
grows by a byte. -/
theorem length_buildDsdt_iff {config : PlatformConfig} {dsdt unpadded : Bytes} {target : UInt32}
    (h : buildDsdt config = .ok dsdt) (htarget : config.targetDsdtLen = .ok (some target))
    (hunpadded : encodeDsdtBody config 0 = .ok unpadded)
    (hle : unpadded.length + 36 ≤ target.toNat) :
    dsdt.length = target.toNat ↔ target.toNat - (unpadded.length + 36) ∉ paddingGaps := by
  obtain rfl : dsdtBody config 0 = unpadded :=
    Except.ok.inj (((Accepted.of_build h).encode_eq 0).symm.trans hunpadded)
  have htotal := target.toNat_lt
  obtain ⟨p, hp, htable, hpad⟩ := buildDsdt_chosen h htarget
  rw [Nat.sub_sub, Nat.add_comm 36] at hpad
  rw [htable, length_finalizeTable, length_dsdtBody_eq config hp,
    ← exists_qpadLength_eq_iff (by omega),
    ← hpad.eq_iff]
  constructor <;> intro <;> omega

/-- What follows the first scope is the same for every configuration. -/
theorem length_dsdtBody_zero (config : PlatformConfig) :
    (dsdtBody config 0).length = (rootScopeTree config).encode.length + 5292 := by
  have hrouting : (routingTrees.flatMap AmlTree.encode).length = 5259 := by decide +kernel
  have hsleep : sleepTree.encode.length = 12 := by decide
  have hgpe : gpeTree.encode.length = 21 := by decide
  simp only [dsdtBody, bodyTrees, Nat.lt_irrefl, if_false, List.append_nil, List.cons_append,
    List.flatMap_cons, List.flatMap_append, List.flatMap_nil, List.length_append, hrouting, hsleep,
    hgpe]

/-- The length that a test of the generator expects. -/
theorem length_buildDsdt_oneCpu :
    ∃ dsdt, buildDsdt (.intelTdxQ35 1) = .ok dsdt ∧ dsdt.length = 8117 := by
  have haccepted : Accepted (.intelTdxQ35 1) := ⟨⟨_, encodeDsdtBody_eq (by decide) 0⟩, ⟨_, rfl⟩⟩
  have hlength : (dsdtBody (.intelTdxQ35 1) 0).length = 5402 := by
    rw [length_dsdtBody_zero]
    decide +kernel
  have htarget : PlatformConfig.targetDsdtLen (.intelTdxQ35 1) = .ok (some 8117) := rfl
  obtain ⟨padLen, -, hdsdt⟩ := haccepted.build
  refine ⟨_, hdsdt, (length_buildDsdt_iff hdsdt htarget (haccepted.encode_eq 0) ?_).mpr ?_⟩
  · rw [hlength]
    decide
  · rw [hlength]
    decide

/-- 59 CPUs and one device. -/
def gapConfig : PlatformConfig :=
  { PlatformConfig.intelTdxQ35 59 with pciDevices := [⟨"edu", some "a", none, 0x08⟩] }

/-- 4102 bytes are missing, and no padding adds as many. -/
theorem length_buildDsdt_gapConfig :
    ∃ dsdt unpadded, buildDsdt gapConfig = .ok dsdt ∧ gapConfig.compatLengths = true ∧
      encodeDsdtBody gapConfig 0 = .ok unpadded ∧ unpadded.length + 36 = 9020 ∧
      gapConfig.targetDsdtLen = .ok (some 13122) ∧ 13122 < dsdt.length := by
  have haccepted : Accepted gapConfig := ⟨⟨_, encodeDsdtBody_eq (by decide) 0⟩, ⟨_, rfl⟩⟩
  have hlength : (dsdtBody gapConfig 0).length = 8984 := by
    rw [length_dsdtBody_zero]
    decide +kernel
  have htarget : gapConfig.targetDsdtLen = .ok (some 13122) := rfl
  obtain ⟨padLen, -, hdsdt⟩ := haccepted.build
  refine ⟨_, _, hdsdt, rfl, haccepted.encode_eq 0, by rw [hlength], htarget, ?_⟩
  obtain ⟨p, hp, htable, hpad⟩ := buildDsdt_chosen hdsdt htarget
  rw [hlength, show (13122 : UInt32).toNat - 36 - 8984 = 4102 from rfl] at hpad
  have hle := hpad.le
  have hne := qpadLength_ne_of_between (show qpadLength 4090 < 4102 by decide)
    (show 4102 < qpadLength (4090 + 1) by decide) p
  rw [htable, length_finalizeTable, length_dsdtBody_eq _ hp, hlength]
  omega

end AcpiTables
