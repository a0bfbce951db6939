import AcpiTables.InterruptRouting

/-!
# Every method can be called

The machine stops on what it does not know, on names that are not there and on
stores into anything but a number. No method of the DSDT meets any of this: in
every state that a history of calls reaches, each method returns for as many
arguments as it takes (`methods_return`). Most methods do nothing or return a
constant or an argument (`plainBody`); the others are followed one by one.

Which methods there are is known from the trees of the body (`isPlain_bodyTrees`),
and in which states they are called from `Loaded.runs`.
-/

namespace AcpiTables

open AmlTree (seg toTerm)

/-! ## Plain methods -/

/-- A body that returns at once, for `n` arguments. -/
def plainBody (n : ℕ) : List Term → Bool
  | [] => true
  | [.node .return_ [.int _] []] => true
  | [.node .return_ [.arg i] []] => i < n
  | _ => false

/-- The methods that look names up. -/
def lookingMethods : List AbsPath :=
  picPath :: prtPath :: linkDevices.map fun x => sbScope ++ [asBytes x.1] ++ [asBytes "_CRS"]

/-- A method that is declared is plain, or one of the few that are not. -/
def Event.isPlain : Event → Bool
  | .declares path (.node .method [_, .int flags] body) =>
    lookingMethods.contains path || plainBody (flags % 8) body
  | _ => true

/-- A plain body returns, in any namespace. -/
theorem exec_plainBody {n : ℕ} {body : List Term} (h : plainBody n body = true) (space : Space)
    (path : AbsPath) {args : List Value} (hargs : args.length = n) :
    ∃ r, exec dsdtWidth 2 space ⟨path, args⟩ body = some r := by
  unfold plainBody at h
  split at h
  · exact ⟨_, rfl⟩
  · exact ⟨_, rfl⟩
  · next i =>
    have hi : i < args.length := hargs ▸ of_decide_eq_true h
    refine ⟨(space, some args[i]), ?_⟩
    change Option.map _ (Option.map _ args[i]?) = _
    rw [List.getElem?_eq_getElem hi]
    rfl
  · cases h

/-! ## The methods of the body -/

/-- A term without methods declares only plain objects. -/
theorem isPlain_of_avoids {t : Term} (h : t.avoids .method = true) {scope : AbsPath} {event : Event}
    (hevent : event ∈ t.events scope) : event.isPlain = true := by
  cases event with
  | opens path => rfl
  | declares path u =>
    have havoids := avoids_of_events h hevent
    unfold Event.isPlain
    split
    · next heq =>
      obtain ⟨rfl, rfl⟩ := Event.declares.inj heq
      exact absurd rfl (avoids_node.mp havoids).1
    · rfl

/-- Trees without methods declare only plain objects. -/
theorem isPlain_trees {ts : List AmlTree} (h : ∀ t ∈ ts, t.toTerm.avoids .method = true)
    {scope : AbsPath} {event : Event} (hevent : event ∈ treeEvents scope ts) :
    event.isPlain = true := by
  obtain ⟨t, ht, hevent⟩ := List.mem_flatMap.mp hevent
  exact isPlain_of_avoids (h t ht) hevent

/-- A PCI device has no method. -/
theorem noMethod_pciDevice (device : PciDeviceConfig) :
    (pciDeviceTree device).toTerm.avoids .method = true := by
  rw [pciDeviceTree]
  cases device.id <;> cases pciDeviceDescription device.driver <;>
    cases pciDeviceClass device.driver <;> rfl

/-- Of the methods of the host bridge all are plain. -/
theorem isPlain_pci0 (config : PlatformConfig) {event : Event}
    (h : event ∈ (pci0Tree config).toTerm.events sbScope) : event.isPlain = true := by
  rw [pci0Tree, events_deviceTree sbScope (by decide)] at h
  rcases List.mem_cons.mp h with rfl | h
  · rfl
  rw [treeEvents_append] at h
  rcases List.mem_append.mp h with h | h
  · have hown : (treeEvents (sbScope ++ [asBytes "PCI0"])
        [seg "_HID" (.eisaName ⟨0x080ad041⟩), seg "_CID" (.eisaName ⟨0x030ad041⟩),
          seg "_UID" (.qword config.pciRootUid.toUInt64),
          .method (.seg "_OSC") 4 false [.onObject .return_ (.arg ⟨3⟩)]]).all
        Event.isPlain = true := rfl
    exact List.all_eq_true.mp hown event h
  · refine isPlain_trees (fun t ht => ?_) h
    obtain ⟨device, -, rfl⟩ := List.mem_map.mp ht
    exact noMethod_pciDevice device

/-- **The methods of the body**: all are plain but those that look names up. -/
theorem isPlain_bodyTrees {config : PlatformConfig} {padLen : ℕ} {event : Event}
    (h : event ∈ treeEvents [] (bodyTrees config padLen)) : event.isPlain = true := by
  have hfixed :
      (treeEvents [] (routingTrees ++ [sleepTree, gpeTree])).all Event.isPlain = true := by
    decide +kernel
  rw [bodyTrees, List.cons_append, List.cons_append, treeEvents_cons, treeEvents_append] at h
  rcases List.mem_append.mp h with h | h
  · rw [rootScopeTree, events_scopeTree] at h
    rcases List.mem_cons.mp h with rfl | h
    · rfl
    change event ∈ treeEvents sbScope _ at h
    rw [List.cons_append, treeEvents_cons, treeEvents_append] at h
    rcases List.mem_append.mp h with h | h
    · exact isPlain_pci0 config h
    rcases List.mem_append.mp h with h | h
    · refine isPlain_trees (fun t ht => ?_) h
      obtain ⟨⟨apicId, uid⟩, -, rfl⟩ := List.mem_map.mp ht
      rfl
    · refine isPlain_trees (fun t ht => ?_) h
      split at ht
      · obtain rfl := List.mem_singleton.mp ht
        rfl
      · cases ht
  rcases List.mem_append.mp h with h | h
  · exact List.all_eq_true.mp hfixed event h
  · refine isPlain_trees (fun t ht => ?_) h
    split at ht
    · obtain rfl := List.mem_singleton.mp ht
      rfl
    · cases ht

/-! ## Every call returns -/

/-- What is evaluated has been called. -/
theorem calls_of_evaluate {fuel : ℕ} {space : Space} {path : AbsPath} {body : List Term} {v : Value}
    (hmethod : space path = some (.method 0 body)) (hv : evaluate fuel space path = some v) :
    ∃ r, Calls dsdtWidth space path [] r := by
  simp only [evaluate, hmethod] at hv
  obtain ⟨r, hr, -⟩ := Option.bind_eq_some_iff.mp hv
  exact ⟨r, fuel, hr⟩

section

variable {config : PlatformConfig} {padLen : ℕ} {space : Space} (h : Loaded config padLen space)
include h

/-- A method of the body is plain or looks names up. -/
theorem Loaded.method_cases {mode n : ℕ} {path : AbsPath} {body : List Term}
    (hpath : inMode space mode path = some (.method n body)) :
    path ∈ lookingMethods ∨ plainBody n body = true := by
  obtain ⟨name, flags, hevent, rfl⟩ := h.declared_method hpath
  have hplain := isPlain_bodyTrees hevent
  rwa [Event.isPlain, Bool.or_eq_true, List.contains_iff_mem] at hplain

/-- In every mode, every method returns. `_PIC` takes a number. -/
theorem Loaded.call_returns (hcpus : config.cpuApicIds.length ≤ 1000) {mode : ℕ} {path : AbsPath}
    {args : List Value} {body : List Term}
    (hpath : inMode space mode path = some (.method args.length body))
    (hpic : path = picPath → ∃ n, args = [.integer n]) :
    ∃ r, Calls dsdtWidth (inMode space mode) path args r := by
  have hempty {v : Value} {fuel : ℕ} (hzero : inMode space mode path = some (.method 0 body))
      (hv : evaluate fuel (inMode space mode) path = some v) :
      ∃ r, Calls dsdtWidth (inMode space mode) path args r := by
    have hargs := (Object.method.inj (Option.some.inj (hpath.symm.trans hzero))).1
    obtain rfl := List.length_eq_zero_iff.mp hargs
    exact calls_of_evaluate hzero hv
  rcases h.method_cases hpath with hlooks | hplain
  · rcases List.mem_cons.mp hlooks with rfl | hlooks
    · obtain ⟨n, rfl⟩ := hpic rfl
      exact ⟨(inMode space n, none), 4, by
        rw [h.invoke_pic hcpus mode (.integer n) 0, assign_inMode]
        rfl⟩
    rcases List.mem_cons.mp hlooks with rfl | hlooks
    · have hprt : inMode space mode prtPath = some (.method 0 prtBody) :=
        (inMode_of_ne (by decide)).trans h.prt
      obtain ⟨-, rfl⟩ := Object.method.inj (Option.some.inj (hprt.symm.trans hpath))
      exact hempty hprt (h.evaluate_prt hcpus mode 0)
    · obtain ⟨x, hx, rfl⟩ := List.mem_map.mp hlooks
      have hcrs := (inMode_of_ne (m := mode) (by simp [sbScope, picfPath])).trans
        (h.link hx).2.2
      obtain ⟨-, rfl⟩ := Object.method.inj (Option.some.inj (hcrs.symm.trans hpath))
      exact hempty hcrs (h.evaluate_link hcpus mode 0 hx)
  · obtain ⟨r, hr⟩ := exec_plainBody hplain (inMode space mode) path rfl
    exact ⟨r, 3, by rw [invoke_method dsdtWidth hpath rfl, hr]⟩

end

/-- **No method gets stuck**: after any history of calls, each method of a built
DSDT returns when it is called with as many arguments as it takes, `_PIC` with a
number. -/
theorem methods_return {config : PlatformConfig}
    (hids : ∀ device ∈ config.rootBusDevices, device.NulFreeId)
    (hdevfns : (config.rootBusDevices.map PciDeviceConfig.devfn).Nodup)
    (hfit : config.PackagesFit) {dsdt : Bytes} (hdsdt : buildDsdt config = .ok dsdt) :
    ∃ terms space, decodeTermList (dsdt.drop 36) = some terms ∧ loadBlock terms = some space ∧
      ∀ calls reached, Runs dsdtWidth space calls reached →
        ∀ path args body, reached path = some (.method args.length body) →
          (path = picPath → ∃ n, args = [.integer n]) →
            ∃ r, Calls dsdtWidth reached path args r := by
  have hcpus := (buildDsdt_eq_ok hdsdt).1
  obtain ⟨padLen, space, hparse, hload, hspace⟩ := loaded_of_buildDsdt hids hdevfns hfit hdsdt
  refine ⟨_, space, hparse, hload, fun calls reached hruns path args body hpath hpic => ?_⟩
  rw [hspace.runs hcpus hruns] at hpath ⊢
  exact hspace.call_returns hcpus hpath hpic

theorem methods_return_twoDisks :
    ∃ dsdt terms space, buildDsdt .twoDisks = .ok dsdt ∧
      decodeTermList (dsdt.drop 36) = some terms ∧ loadBlock terms = some space ∧
      ∃ r, Calls dsdtWidth space picPath [.integer 1] r := by
  obtain ⟨dsdt, hdsdt, hbody⟩ := buildDsdt_twoDisks
  have hfit := packagesFit_of_length hdsdt hbody
  obtain ⟨padLen, space, hparse, hload, hspace⟩ :=
    loaded_of_buildDsdt twoDisks_nulFreeIds (by decide) hfit hdsdt
  obtain ⟨terms, space', hterms, hspace', hreturns⟩ :=
    @methods_return .twoDisks twoDisks_nulFreeIds (by decide) hfit dsdt hdsdt
  obtain rfl := Option.some.inj (hterms.symm.trans hparse)
  obtain rfl := Option.some.inj (hspace'.symm.trans hload)
  exact ⟨dsdt, _, space', hdsdt, hparse, hload,
    hreturns [] space' (.nil _) picPath _ _ hspace.pic fun _ => ⟨1, rfl⟩⟩

end AcpiTables
