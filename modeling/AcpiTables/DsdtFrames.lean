import AcpiTables.DsdtTerms
import AcpiTables.PaddingGaps

/-!
# The frames of the body

Two frames of the body have a size that depends on the configuration: the first
scope, with the host bridge, the CPUs and all devices in it, and the buffer of
the padding. Nothing checks that a package length can count them, and 28 bits
are all it has. `PlatformConfig.PackagesFit` is the condition that it can: a bound on what
the first scope contains, and a bound on how far the length asked for is above
that of the body without padding.

A configuration that meets it has a body of which every frame is read to its
end, so the body parses into the trees it was written from
(`decodeTermList_dsdtBody`). Inside the two frames nothing else is to be
checked: what they contain is shorter than they are.
-/

namespace AcpiTables

open Reader
open AmlTree (seg toTerm RegularHere)

/-- What stands in the frame of the first scope. -/
def PlatformConfig.rootScopeContent (config : PlatformConfig) : Bytes :=
  sbPath.encode ++ (rootScopeTree config).children.flatMap AmlTree.encode

/-- Every frame of the body can be counted by a package length. -/
structure PlatformConfig.PackagesFit (config : PlatformConfig) : Prop where
  /-- the scope that contains the devices, with its package length -/
  rootScope : config.rootScopeContent.length + pkgWidth config.rootScopeContent.length < 268435456
  /-- the bytes that are missing without padding; six of them are outside the buffer -/
  padding : ∀ target, config.targetDsdtLen = .ok (some target) →
    target.toNat - 36 - (dsdtBody config 0).length < 268435462

variable {config : PlatformConfig}

/-- The first scope is its content in a frame. -/
theorem encode_rootScope (config : PlatformConfig) :
    (rootScopeTree config).encode = frame [scopeOp] config.rootScopeContent := by
  rw [PlatformConfig.rootScopeContent, rootScopeTree, AmlTree.encode, AmlTree.encodeAll_eq]
  rfl

/-! ## The padding -/

/-- **The padding that is chosen can be counted.** Only its last six bytes more
than a package length are allowed, and the gaps, where the padding is longer
than what is missing, are far below. -/
theorem qpadLength_lt_of_fit (hfit : config.PackagesFit) {target : UInt32} {p : ℕ}
    (htarget : config.targetDsdtLen = .ok (some target))
    (hpad : ChosenPad (target.toNat - 36 - (dsdtBody config 0).length) p) :
    qpadLength p < 268435462 := by
  have hmissing := hfit.padding target htarget
  have hover := hpad.lt
  rcases hpad with heq | ⟨q, hlow, hhigh, -⟩
  · omega
  have hgap : target.toNat - 36 - (dsdtBody config 0).length ∈ paddingGaps := by
    by_contra hnot
    obtain ⟨r, hr⟩ := (exists_qpadLength_eq_iff (by omega)).mpr hnot
    exact qpadLength_ne_of_between hlow hhigh r hr
  have hsmall : ∀ d ∈ paddingGaps, d < 1048583 := by decide
  have := hsmall _ hgap
  omega

/-- What was built, by a padding that can be counted. -/
theorem buildDsdt_padding (hfit : config.PackagesFit) {dsdt : Bytes}
    (h : buildDsdt config = .ok dsdt) :
    ∃ p < 18446744073709551616,
      dsdt = finalizeTable (config.header (bstr "DSDT") 1) (dsdtBody config p) ∧
        qpadLength p < 268435462 := by
  have haccepted := Accepted.of_build h
  obtain ⟨target, htarget⟩ := haccepted.target
  cases target with
  | none =>
    obtain ⟨p, hp, hbody⟩ := encodeDsdtWithPadding_eq haccepted.cpus_le htarget
    obtain rfl := Nat.le_zero.mp hp
    rw [buildDsdt, hbody] at h
    exact ⟨0, by omega, (Except.ok.inj h).symm, by decide⟩
  | some target =>
    obtain ⟨p, hp, htable, hpad⟩ := buildDsdt_chosen h htarget
    exact ⟨p, hp, htable, qpadLength_lt_of_fit hfit htarget hpad⟩

/-- A body below `2 ^ 28` bytes has frames that can be counted. -/
theorem packagesFit_of_length {dsdt : Bytes} (h : buildDsdt config = .ok dsdt)
    (hlen : (dsdt.drop 36).length < 268435456) : config.PackagesFit := by
  have hroot : ∀ p, (rootScopeTree config).encode.length ≤ (dsdtBody config p).length := fun p =>
    AmlTree.length_le_length_flatMap (f := AmlTree.encode)
      (List.mem_cons_self .. : rootScopeTree config ∈ bodyTrees config p)
  obtain ⟨-, p, htable⟩ := buildDsdt_eq_ok h
  rw [htable, drop_finalizeTable] at hlen
  refine ⟨@add_pkgWidth_lt_of_frame [scopeOp] _ ?_, fun target htarget => ?_⟩
  · have := hroot p
    rw [← encode_rootScope]
    omega
  · obtain ⟨q, hq, htable', hpad⟩ := buildDsdt_chosen h htarget
    have hsame := congrArg (List.drop 36) (htable.symm.trans htable')
    rw [drop_finalizeTable, drop_finalizeTable] at hsame
    rw [hsame, length_dsdtBody_eq config hq] at hlen
    have := hpad.le
    omega

/-! ## The trees are read -/

variable {fuel : ℕ}

/-- The first scope is read when it fits. -/
theorem settles_rootScope (hcpus : config.cpuApicIds.length ≤ 1000)
    (hids : ∀ device ∈ config.rootBusDevices, device.NulFreeId) (hfit : config.PackagesFit)
    (hfuel : (rootScopeTree config).encode.length ≤ fuel) :
    Settles (term fuel) (rootScopeTree config).encode (rootScopeTree config).toTerm True := by
  have hchildren := (AmlTree.everywhere_iff.mp (rootScope_regular hcpus hids)).2
  have hterm : (rootScopeTree config).toTerm =
      .node .scope [.ref sbPath.nameString] ((rootScopeTree config).children.map toTerm) := by
    rw [rootScopeTree, AmlTree.toTerm, AmlTree.toTerms_eq]
    rfl
  have hlen := length_frame [scopeOp] config.rootScopeContent
  rw [← encode_rootScope, List.length_singleton] at hlen
  obtain ⟨k, rfl⟩ : ∃ k, fuel = k + 1 := ⟨fuel - 1, by omega⟩
  rw [hterm, encode_rootScope]
  exact AmlTree.settles_namedFrame .scope rfl rfl rfl (by decide) hchildren hfit.rootScope
    (by change config.rootScopeContent.length ≤ k; omega)

/-- The trees behind the first scope are short. -/
theorem length_routing_lt :
    ∀ t ∈ routingTrees ++ [sleepTree, gpeTree], t.encode.length < 268435456 := by
  have hrouting := length_routing_le
  have hlast : ∀ t ∈ [sleepTree, gpeTree], t.encode.length < 800 := by decide
  intro t ht
  rcases List.mem_append.mp ht with ht | ht
  · have := AmlTree.length_le_length_flatMap (f := AmlTree.encode) ht
    rw [totalLength] at hrouting
    omega
  · have := hlast t ht
    omega

/-- A padding is read when its buffer fits. -/
theorem settles_padTree {p : ℕ} (hpos : 0 < p) (hp : p < 18446744073709551616)
    (hfit : qpadLength p < 268435462) (hfuel : (padTree p).encode.length ≤ fuel) :
    Settles (term fuel) (padTree p).encode (padTree p).toTerm True := by
  have hlength := length_padTree hp
  have hqpad := qpadLength_of_pos hpos
  have hcontent : (sizedContent (List.replicate p 0)).length = (encodeInt p).length + p := by
    rw [sizedContent, List.length_append, List.length_replicate, Nat.mod_eq_of_lt hp]
  dsimp only at hlength
  obtain ⟨k, rfl⟩ : ∃ k, fuel = k + 2 := ⟨fuel - 2, by omega⟩
  let buffer : Piece := ⟨.termArg, (AmlTree.bufferData (List.replicate p 0)).encode,
    (AmlTree.bufferData (List.replicate p 0)).toTerm, True⟩
  have hbuffer : buffer.Holds (term (k + 1)) := by
    refine settles_buffer (by rw [hcontent]; omega) ?_ Iff.rfl
    rw [frame, List.length_append, List.length_append, length_createPkgLength_eq, hcontent,
      List.length_singleton]
    omega
  have hvalid : (Path.seg "QPAD").Valid := Path.valid_seg (by decide)
  have hname := Path.holds_piece (p := term (k + 1)) hvalid
  have hpieces : ∀ x ∈ [(Path.seg "QPAD").piece, buffer], x.Holds (term (k + 1)) :=
    List.forall_mem_cons.mpr ⟨hname, List.forall_mem_singleton.mpr hbuffer⟩
  exact settles_plain .name [(Path.seg "QPAD").piece, buffer] rfl rfl rfl hpieces
    (by simp [Production.rule, padTree, seg, AmlTree.encode, buffer]) (by simp [buffer])

/-- **The body parses** into the trees that it was written from, when every frame
of it can be counted. -/
theorem decodeTermList_dsdtBody (hids : ∀ device ∈ config.rootBusDevices, device.NulFreeId)
    (hfit : config.PackagesFit) {dsdt : Bytes} (h : buildDsdt config = .ok dsdt) :
    ∃ padLen, decodeTermList (dsdt.drop 36) = some ((bodyTrees config padLen).map toTerm) := by
  have hcpus := (buildDsdt_eq_ok h).1
  obtain ⟨p, hp, htable, hqpad⟩ := buildDsdt_padding hfit h
  have hregular := bodyTrees_regular hcpus hids p
  refine ⟨p, ?_⟩
  rw [htable, drop_finalizeTable, dsdtBody]
  refine AmlTree.decodeTermList_of_settles fun t ht => ⟨?_, ?_⟩
  · have hfuel := AmlTree.length_le_length_flatMap (f := AmlTree.encode) ht
    rw [bodyTrees, List.cons_append, List.cons_append] at ht
    rcases List.mem_cons.mp ht with rfl | ht
    · exact settles_rootScope hcpus hids hfit hfuel
    rcases List.mem_append.mp ht with ht | ht
    · exact (AmlTree.settles_regular (routing_regular t ht) hfuel (length_routing_lt t ht)).1
    · split at ht
      · next hpos =>
        obtain rfl := List.mem_singleton.mp ht
        exact settles_padTree hpos hp hqpad hfuel
      · cases ht
  · exact AmlTree.encode_ne_nil (AmlTree.everywhere_iff.mp (hregular t ht)).1.1

end AcpiTables
