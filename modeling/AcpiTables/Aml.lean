import AcpiTables.Checked

/-!
# AML objects and their emission

The object layer of the generator, type by type. Two traits carry it:

* `AmlSink` — what receives bytecode. `Vec<u8>` and `PackageBuilder` implement
  it; `word`, `dword` and `qword` are derived from `vec`.
* `Aml` — what can be written. `toAmlBytes` appends an object's bytecode to a
  sink, or panics. A `&dyn Aml` is `DynAml`: the object, reduced to the one
  thing that can be asked of it.

An object that frames its children (`Package`, `Device`, `Scope`, …) writes them
to a buffer of its own first, computes the `PkgLength` of that buffer with
`createPkgLength` and then writes operator, length and buffer to the sink.
Objects that share a macro in the generator (`compare_op!`, `object_op!`,
`binary_op!`, `convert_op!`) share a type here, indexed by the operator.
-/

namespace AcpiTables

universe u

/-! ## Sinks and objects -/

/-- A receiver of bytecode. -/
class AmlSink (S : Type) where
  /-- receive one byte -/
  byte : S → UInt8 → S
  /-- receive a run of bytes -/
  vec : S → Bytes → S := fun sink v => v.foldl byte sink

namespace AmlSink

variable {S : Type} [AmlSink S]

/-- `word`: two bytes, the lower one first. -/
def word (sink : S) (w : UInt16) : S := vec sink (MachineInt.toLeBytes w)

def dword (sink : S) (d : UInt32) : S := vec sink (MachineInt.toLeBytes d)

def qword (sink : S) (q : UInt64) : S := vec sink (MachineInt.toLeBytes q)

end AmlSink

instance : AmlSink Bytes where
  byte sink b := sink ++ [b]
  vec sink v := sink ++ v

/-- An object that can be written as AML. -/
class Aml (α : Type u) where
  /-- append the object's bytecode to a sink -/
  toAmlBytes : {S : Type} → [AmlSink S] → α → S → Checked S

export Aml (toAmlBytes)

/-- `&dyn Aml`. -/
structure DynAml : Type 1 where
  /-- the emission of the object behind the reference -/
  emit : {S : Type} → [AmlSink S] → S → Checked S

instance : Aml DynAml where
  toAmlBytes x sink := x.emit sink

/-- A reference to an object. -/
def dyn {α : Type u} [Aml α] (x : α) : DynAml := ⟨toAmlBytes x⟩

/-- `for child in children { child.to_aml_bytes(sink) }`. -/
def emitAll {S : Type} [AmlSink S] (children : List DynAml) (sink : S) : Checked S :=
  children.foldlM (fun sink child => toAmlBytes child sink) sink

/-! ## Byte stream defines -/

abbrev zeroOp : UInt8 := 0x00
abbrev oneOp : UInt8 := 0x01
abbrev nameOp : UInt8 := 0x08
abbrev bytePrefix : UInt8 := 0x0a
abbrev wordPrefix : UInt8 := 0x0b
abbrev dwordPrefix : UInt8 := 0x0c
abbrev stringOp : UInt8 := 0x0d
abbrev qwordPrefix : UInt8 := 0x0e
abbrev scopeOp : UInt8 := 0x10
abbrev bufferOp : UInt8 := 0x11
abbrev packageOp : UInt8 := 0x12
abbrev varPackageOp : UInt8 := 0x13
abbrev methodOp : UInt8 := 0x14
abbrev dualNamePrefix : UInt8 := 0x2e
abbrev multiNamePrefix : UInt8 := 0x2f
abbrev nameCharBase : UInt8 := 0x40

abbrev extOpPrefix : UInt8 := 0x5b
abbrev mutexOp : UInt8 := 0x01
abbrev createFieldOp : UInt8 := 0x13
abbrev acquireOp : UInt8 := 0x23
abbrev releaseOp : UInt8 := 0x27
abbrev opRegionOp : UInt8 := 0x80
abbrev fieldOp : UInt8 := 0x81
abbrev deviceOp : UInt8 := 0x82
abbrev powerResourceOp : UInt8 := 0x84

abbrev local0Op : UInt8 := 0x60
abbrev arg0Op : UInt8 := 0x68
abbrev storeOp : UInt8 := 0x70
abbrev addOp : UInt8 := 0x72
abbrev concatOp : UInt8 := 0x73
abbrev subtractOp : UInt8 := 0x74
abbrev multiplyOp : UInt8 := 0x77
abbrev shiftLeftOp : UInt8 := 0x79
abbrev shiftRightOp : UInt8 := 0x7a
abbrev andOp : UInt8 := 0x7b
abbrev nandOp : UInt8 := 0x7c
abbrev orOp : UInt8 := 0x7d
abbrev norOp : UInt8 := 0x7e
abbrev xorOp : UInt8 := 0x7f
abbrev derefOfOp : UInt8 := 0x83
abbrev concatResOp : UInt8 := 0x84
abbrev modOp : UInt8 := 0x85
abbrev notifyOp : UInt8 := 0x86
abbrev sizeOfOp : UInt8 := 0x87
abbrev indexOp : UInt8 := 0x88
abbrev createDWFieldOp : UInt8 := 0x8a
abbrev objectTypeOp : UInt8 := 0x8e
abbrev createQWFieldOp : UInt8 := 0x8f
abbrev lnotOp : UInt8 := 0x92
abbrev lequalOp : UInt8 := 0x93
abbrev lgreaterOp : UInt8 := 0x94
abbrev llessOp : UInt8 := 0x95
abbrev toBufferOp : UInt8 := 0x96
abbrev toIntegerOp : UInt8 := 0x99
abbrev toStringOp : UInt8 := 0x9c
abbrev midOp : UInt8 := 0x9e
abbrev ifOp : UInt8 := 0xa0
abbrev elseOp : UInt8 := 0xa1
abbrev whileOp : UInt8 := 0xa2
abbrev returnOp : UInt8 := 0xa4
abbrev onesOp : UInt8 := 0xff

abbrev ioPortDesc : UInt8 := 0x47
abbrev endTag : UInt8 := 0x79
abbrev regDesc : UInt8 := 0x82
abbrev memory32FixedDesc : UInt8 := 0x86
abbrev dwordAddrSpaceDesc : UInt8 := 0x87
abbrev wordAddrSpaceDesc : UInt8 := 0x88
abbrev extIrqDesc : UInt8 := 0x89
abbrev qwordAddrSpaceDesc : UInt8 := 0x8a

/-! ## Constants, names and integers -/

/-- `Zero`, the constant `ZERO`. -/
inductive ZeroObject where | zero

/-- `One`, the constant `ONE`. -/
inductive OneObject where | one

/-- `Ones`, the constant `ONES`. -/
inductive OnesObject where | ones

instance : Aml ZeroObject where
  toAmlBytes _ sink := return AmlSink.byte sink zeroOp

instance : Aml OneObject where
  toAmlBytes _ sink := return AmlSink.byte sink oneOp

instance : Aml OnesObject where
  toAmlBytes _ sink := return AmlSink.byte sink onesOp

/-- A namestring: an optional root prefix and four-byte segments. -/
structure Path where
  root : Bool
  nameParts : List (Vector UInt8 4)
  deriving DecidableEq

namespace Path

/-- One segment, which must have four bytes. -/
def namePart (part : List Char) : Checked (Vector UInt8 4) :=
  if h : (part.flatMap String.utf8EncodeChar).length = 4 then
    .ok ⟨(part.flatMap String.utf8EncodeChar).toArray, by simpa using h⟩
  else .error .assertion

/-- Split the name at its dots after an optional leading backslash. -/
def new (name : String) : Checked Path := do
  let root := name.toList.head? == some '\\'
  let offset := if root then 1 else 0
  let nameParts ← ((name.toList.drop offset).splitOn '.').mapM namePart
  return { root, nameParts }

/-- `Path::to_aml_bytes`. A path without segments has no single segment to write,
and panics. -/
def toAmlBytes {S : Type} [AmlSink S] (path : Path) (sink : S) : Checked S := do
  let sink := if path.root then AmlSink.byte sink 0x5c else sink
  let sink ← match path.nameParts.length with
    | 0 => throw (.explicit "Name cannot be empty")
    | 1 => pure sink
    | 2 => pure (AmlSink.byte sink dualNamePrefix)
    | n => pure (AmlSink.byte (AmlSink.byte sink multiNamePrefix) (UInt8.ofNat n))
  return path.nameParts.foldl (fun sink part => AmlSink.vec sink part.toList) sink

end Path

instance : Aml Path where
  toAmlBytes path sink := path.toAmlBytes sink

/-- `Byte`. -/
instance : Aml UInt8 where
  toAmlBytes v sink :=
    if v = 0 then toAmlBytes ZeroObject.zero sink
    else if v = 1 then toAmlBytes OneObject.one sink
    else return AmlSink.byte (AmlSink.byte sink bytePrefix) v

/-- `Word`. -/
instance : Aml UInt16 where
  toAmlBytes v sink :=
    if v ≤ 0xff then toAmlBytes v.toUInt8 sink
    else return AmlSink.word (AmlSink.byte sink wordPrefix) v

/-- `DWord`. -/
instance : Aml UInt32 where
  toAmlBytes v sink :=
    if v ≤ 0xffff then toAmlBytes v.toUInt16 sink
    else return AmlSink.dword (AmlSink.byte sink dwordPrefix) v

/-- `QWord`. -/
instance : Aml UInt64 where
  toAmlBytes v sink :=
    if v ≤ 0xffffffff then toAmlBytes v.toUInt32 sink
    else return AmlSink.qword (AmlSink.byte sink qwordPrefix) v

/-- `Usize` on a 64-bit target: a length, written as a `QWord`. -/
def usizeToAmlBytes {S : Type} [AmlSink S] (n : ℕ) (sink : S) : Checked S :=
  toAmlBytes (UInt64.ofNat n) sink

/-- `Name`: the bytecode of a name definition, built when the object is. -/
structure Name where
  bytes : Bytes

namespace Name

/-- `Name::new`: the name and the object are written at once, so a failure shows
here. -/
def new (path : Path) (inner : DynAml) : Checked Name := do
  let bytes : Bytes := [nameOp]
  let bytes ← toAmlBytes path bytes
  let bytes ← toAmlBytes inner bytes
  return { bytes }

end Name

instance : Aml Name where
  toAmlBytes name sink := return AmlSink.vec sink name.bytes

/-! ## Package length and packages -/

/-- The `PkgLength` encoding of `len`. With `includeSelf` the bytes of the
encoding count towards the value encoded. -/
def createPkgLength (len : ℕ) (includeSelf : Bool) : Bytes :=
  let lengthLength :=
    if len < 2 ^ 6 - 1 then 1
    else if len < 2 ^ 12 - 2 then 2
    else if len < 2 ^ 20 - 3 then 3
    else 4
  let length := len + if includeSelf then lengthLength else 0
  match lengthLength with
  | 1 => [UInt8.ofNat length]
  | 2 => [((1 : UInt8) <<< 6) ||| UInt8.ofNat (length &&& 0xf), UInt8.ofNat (length >>> 4)]
  | 3 => [((2 : UInt8) <<< 6) ||| UInt8.ofNat (length &&& 0xf), UInt8.ofNat (length >>> 4),
      UInt8.ofNat (length >>> 12)]
  | _ => [((3 : UInt8) <<< 6) ||| UInt8.ofNat (length &&& 0xf), UInt8.ofNat (length >>> 4),
      UInt8.ofNat (length >>> 12), UInt8.ofNat (length >>> 20)]

/-- The common end of every framing object: operator, length of the buffer,
buffer. -/
def emitFramed {S : Type} [AmlSink S] (op : Bytes) (bytes : Bytes) (sink : S) : S :=
  let pkgLength := createPkgLength bytes.length true
  let sink := op.foldl AmlSink.byte sink
  AmlSink.vec (AmlSink.vec sink pkgLength) bytes

/-- `Package`: the elements are counted when it is written, and the count is cut to
a byte. -/
structure Package where
  children : List DynAml

instance : Aml Package where
  toAmlBytes package sink := do
    let bytes : Bytes := [UInt8.ofNat package.children.length]
    let bytes ← emitAll package.children bytes
    return emitFramed [packageOp] bytes sink

/-- A package that is filled element by element: itself a sink for the element
being added. -/
structure PackageBuilder where
  data : Bytes
  elements : ℕ

/-- What is written to a builder goes to its bytes. -/
instance : AmlSink PackageBuilder where
  byte builder b := { builder with data := builder.data ++ [b] }
  vec builder v := { builder with data := builder.data ++ v }

namespace PackageBuilder

def new : PackageBuilder := { data := [], elements := 0 }

/-- `PackageBuilder::add_element`: one more element. The count is a byte, and wraps. -/
def addElement (builder : PackageBuilder) (aml : DynAml) : Checked PackageBuilder := do
  let builder ← toAmlBytes aml builder
  return { builder with elements := builder.elements + 1 }

end PackageBuilder

instance : Aml PackageBuilder where
  toAmlBytes builder sink := do
    let pkgLength := createPkgLength (builder.data.length + 1) true
    let sink := AmlSink.byte sink packageOp
    let sink := AmlSink.vec sink pkgLength
    let sink := AmlSink.byte sink (UInt8.ofNat builder.elements)
    return AmlSink.vec sink builder.data

/-- `VarPackageTerm`: a package of as many elements as the term says. -/
structure VarPackageTerm where
  data : DynAml

instance : Aml VarPackageTerm where
  toAmlBytes package sink := do
    let bytes ← toAmlBytes package.data ([] : Bytes)
    return emitFramed [varPackageOp] bytes sink

/-! ## Identifiers and strings -/

/-- `to_digit(16)`. -/
def toDigit16 (c : Char) : Option ℕ :=
  if '0' ≤ c ∧ c ≤ '9' then some (c.toNat - '0'.toNat)
  else if 'a' ≤ c ∧ c ≤ 'f' then some (c.toNat - 'a'.toNat + 10)
  else if 'A' ≤ c ∧ c ≤ 'F' then some (c.toNat - 'A'.toNat + 10)
  else none

/-- `unwrap`. -/
def unwrap {α : Type u} (x : Option α) : Checked α :=
  match x with
  | some a => .ok a
  | none => .error .unwrapNone

/-- `swap_bytes`. -/
def swapBytes (v : UInt32) : UInt32 :=
  UInt32.ofNat (leValue (MachineInt.toLeBytes v).reverse)

/-- `EISAName`: the number that the seven characters were packed to. -/
structure EISAName where
  value : UInt32
  deriving DecidableEq

namespace EISAName

/-- `data[i].checked_sub(NAMECHARBASE).unwrap()`, widened. -/
def letter (data : Bytes) (i : ℕ) : Checked UInt32 := do
  match data[i]? with
  | none => throw .outOfRange
  | some b => if nameCharBase ≤ b then pure (b - nameCharBase).toUInt32 else throw .unwrapNone

/-- `name.chars().nth(i).unwrap().to_digit(16).unwrap()`. -/
def digit (name : String) (i : ℕ) : Checked UInt32 := do
  let c ← unwrap name.toList[i]?
  let d ← unwrap (toDigit16 c)
  return UInt32.ofNat d

/-- `EISAName::new`: seven characters, three letters and four hexadecimal digits.
The number is stored with its bytes exchanged. -/
def new (name : String) : Checked EISAName := do
  let data := asBytes name
  ensure (data.length = 7) .assertion
  let value :=
    ((← letter data 0) <<< 26) ||| ((← letter data 1) <<< 21) ||| ((← letter data 2) <<< 16) |||
    ((← digit name 3) <<< 12) ||| ((← digit name 4) <<< 8) ||| ((← digit name 5) <<< 4) |||
    (← digit name 6)
  return { value := swapBytes value }

end EISAName

instance : Aml EISAName where
  toAmlBytes name sink := toAmlBytes name.value sink

/-- `create_aml_string`: the bytes of the text and a zero, behind the operator. -/
def createAmlString {S : Type} [AmlSink S] (v : String) (sink : S) : S :=
  AmlSink.byte (AmlSink.vec (AmlSink.byte sink stringOp) (asBytes v)) 0x0

/-- `AmlStr` and `AmlString`. -/
instance : Aml String where
  toAmlBytes v sink := return createAmlString v sink

/-! ## Resource descriptors -/

/-- `ResourceTemplate`: its descriptors. The size and the end tag are made when it
is written. -/
structure ResourceTemplate where
  children : List DynAml

instance : Aml ResourceTemplate where
  toAmlBytes template sink := do
    let bytes ← emitAll template.children ([] : Bytes)
    let bytes := bytes ++ [endTag]
    let bytes := bytes ++ [0]
    let bufferLength ← usizeToAmlBytes bytes.length ([] : Bytes)
    let pkgLength := createPkgLength (bytes.length + bufferLength.length) true
    let sink := AmlSink.byte sink bufferOp
    let sink := AmlSink.vec sink pkgLength
    let sink := AmlSink.vec sink bufferLength
    return AmlSink.vec sink bytes

/-- `Memory32Fixed`: a range of memory below 4 GiB. -/
structure Memory32Fixed where
  readWrite : Bool
  base : UInt32
  length : UInt32

instance : Aml Memory32Fixed where
  toAmlBytes m sink := do
    let sink := AmlSink.byte sink memory32FixedDesc
    let sink := (MachineInt.toLeBytes (9 : UInt16)).foldl AmlSink.byte sink
    let sink := AmlSink.byte sink m.readWrite.toUInt8
    return AmlSink.dword (AmlSink.dword sink m.base) m.length

/-- `AddressSpaceType`. -/
inductive AddressSpaceType where
  | memory | io | busNumber
  deriving DecidableEq

def AddressSpaceType.toByte : AddressSpaceType → UInt8
  | memory => 0
  | io => 1
  | busNumber => 2

/-- `AddressSpaceCacheable`. -/
inductive AddressSpaceCacheable where
  | notCacheable | cacheable | writeCombining | preFetchable
  deriving DecidableEq

def AddressSpaceCacheable.toByte : AddressSpaceCacheable → UInt8
  | notCacheable => 0
  | cacheable => 1
  | writeCombining => 2
  | preFetchable => 3

/-- `AddressSpace`: a range of memory, ports or bus numbers, both ends included. -/
structure AddressSpace (T : Type) where
  type_ : AddressSpaceType
  min : T
  max : T
  typeFlags : UInt8
  translation : Option T

namespace AddressSpace

variable {T : Type}

/-- `AddressSpace::new_memory`: the flags hold whether it can be written and how it
is cached. -/
def newMemory (caching : AddressSpaceCacheable) (readWrite : Bool) (min max : T)
    (translation : Option T) : AddressSpace T :=
  { type_ := .memory, min, max,
    typeFlags := (caching.toByte <<< 1) ||| readWrite.toUInt8, translation }

/-- `AddressSpace::new_io`: the flags say that all ports are meant. -/
def newIo (min max : T) (translation : Option T) : AddressSpace T :=
  { type_ := .io, min, max, typeFlags := 3, translation }

def newBusNumber (min max : T) : AddressSpace T :=
  { type_ := .busNumber, min, max, typeFlags := 0, translation := none }

/-- `push_header`: the tag, the length, the kind and the flags; both bounds are
fixed. -/
def pushHeader {S : Type} [AmlSink S] (space : AddressSpace T) (sink : S) (descriptor : UInt8)
    (length : ℕ) : S :=
  let sink := AmlSink.byte sink descriptor
  let sink := (MachineInt.toLeBytes (UInt16.ofNat length)).foldl AmlSink.byte sink
  let sink := AmlSink.byte sink space.type_.toByte
  let genericFlags := ((1 : UInt8) <<< 2) ||| ((1 : UInt8) <<< 3)
  AmlSink.byte (AmlSink.byte sink genericFlags) space.typeFlags

/-- The three `Aml` instances differ in the integer type and the descriptor
byte alone. -/
def emit {S : Type} [AmlSink S] [MachineInt T] (descriptor : UInt8) (space : AddressSpace T)
    (sink : S) : Checked S := do
  let put (sink : S) (v : T) : S := AmlSink.vec sink (MachineInt.toLeBytes v)
  let sink := space.pushHeader sink descriptor (3 + 5 * MachineInt.width T)
  let sink := put sink (MachineInt.ofNat 0)
  let sink := put sink space.min
  let sink := put sink space.max
  let sink := put sink (space.translation.getD (MachineInt.ofNat 0))
  let len ← MachineInt.checkedSub space.max space.min
  let len ← MachineInt.checkedAdd len (MachineInt.ofNat 1)
  return put sink len

end AddressSpace

instance : Aml (AddressSpace UInt16) where
  toAmlBytes space sink := space.emit wordAddrSpaceDesc sink

instance : Aml (AddressSpace UInt32) where
  toAmlBytes space sink := space.emit dwordAddrSpaceDesc sink

instance : Aml (AddressSpace UInt64) where
  toAmlBytes space sink := space.emit qwordAddrSpaceDesc sink

/-- `IO`, a port range. -/
structure IOPort where
  min : UInt16
  max : UInt16
  alignment : UInt8
  length : UInt8

instance : Aml IOPort where
  toAmlBytes io sink := do
    let sink := AmlSink.byte (AmlSink.byte sink ioPortDesc) 1
    let sink := AmlSink.word (AmlSink.word sink io.min) io.max
    return AmlSink.byte (AmlSink.byte sink io.alignment) io.length

/-- `Interrupt`: one interrupt, with the four properties of its line. -/
structure Interrupt where
  consumer : Bool
  edgeTriggered : Bool
  activeLow : Bool
  shared : Bool
  number : UInt32

def Interrupt.new (consumer edgeTriggered activeLow shared : Bool) (number : UInt32) : Interrupt :=
  { consumer, edgeTriggered, activeLow, shared, number }

instance : Aml Interrupt where
  toAmlBytes irq sink := do
    let sink := AmlSink.word (AmlSink.byte sink extIrqDesc) 6
    let flags := (irq.shared.toUInt8 <<< 3) ||| (irq.activeLow.toUInt8 <<< 2) |||
      (irq.edgeTriggered.toUInt8 <<< 1) ||| irq.consumer.toUInt8
    let sink := AmlSink.byte (AmlSink.byte sink flags) 1
    return AmlSink.dword sink irq.number

/-- `gas::AddressSpace`. -/
inductive GasSpace where
  | systemMemory | systemIo | pciConfigSpace | embeddedController | smbus | systemCmos
  | pciBarTarget | ipmi | generalPurposeIo | genericSerialBus | platformCommunicationsChannel
  | platformRuntimeMechanism | functionalFixedHardware
  deriving DecidableEq

def GasSpace.toByte : GasSpace → UInt8
  | systemMemory => 0x0
  | systemIo => 0x1
  | pciConfigSpace => 0x2
  | embeddedController => 0x3
  | smbus => 0x4
  | systemCmos => 0x5
  | pciBarTarget => 0x6
  | ipmi => 0x7
  | generalPurposeIo => 0x8
  | genericSerialBus => 0x9
  | platformCommunicationsChannel => 0xa
  | platformRuntimeMechanism => 0xb
  | functionalFixedHardware => 0x7f

/-- `gas::AccessSize`. -/
inductive AccessSize where
  | undefined | byteAccess | wordAccess | dwordAccess | qwordAccess
  deriving DecidableEq

def AccessSize.toByte : AccessSize → UInt8
  | undefined => 0
  | byteAccess => 1
  | wordAccess => 2
  | dwordAccess => 3
  | qwordAccess => 4

/-- `GAS`: a generic address. -/
structure GAS where
  addressSpaceId : GasSpace
  registerBitWidth : UInt8
  registerBitOffset : UInt8
  accessSize : AccessSize
  address : UInt64

instance : Aml GAS where
  toAmlBytes gas sink := do
    let sink := AmlSink.byte sink gas.addressSpaceId.toByte
    let sink := AmlSink.byte sink gas.registerBitWidth
    let sink := AmlSink.byte sink gas.registerBitOffset
    let sink := AmlSink.byte sink gas.accessSize.toByte
    return AmlSink.qword sink gas.address

/-- `Register`: a generic address as a descriptor. The length in its head is that
of the source. -/
structure Register where
  reg : GAS

instance : Aml Register where
  toAmlBytes register sink := do
    let sink := AmlSink.word (AmlSink.byte sink regDesc) 0x12
    toAmlBytes register.reg sink

/-! ## Named containers -/

/-- `Device`. -/
structure Device where
  path : Path
  children : List DynAml

instance : Aml Device where
  toAmlBytes device sink := do
    let bytes ← toAmlBytes device.path ([] : Bytes)
    let bytes ← emitAll device.children bytes
    return emitFramed [extOpPrefix, deviceOp] bytes sink

/-- A device from its children in raw bytes. -/
def Device.raw (path : Path) (children : Bytes) : Checked Bytes := do
  let body ← toAmlBytes path ([] : Bytes)
  let body := body ++ children
  let bytes : Bytes := [extOpPrefix]
  let bytes := bytes ++ [deviceOp]
  let bytes := bytes ++ createPkgLength body.length true
  return bytes ++ body

/-- `Scope`. -/
structure Scope where
  path : Path
  children : List DynAml

instance : Aml Scope where
  toAmlBytes scope sink := do
    let bytes ← toAmlBytes scope.path ([] : Bytes)
    let bytes ← emitAll scope.children bytes
    return emitFramed [scopeOp] bytes sink

/-- `copy_within(start..stop, dest)`. -/
def copyWithin (buf : Bytes) (start stop dest : ℕ) : Checked Bytes :=
  copyFromSlice buf dest (dest + (stop - start)) (slice buf start (stop - start))

/-- A scope from its children in raw bytes: the bytes after the operator are
moved over in place and the length is copied in. -/
def Scope.raw (path : Path) (children : Bytes) : Checked Bytes := do
  let bytes : Bytes := [scopeOp]
  let bytes ← toAmlBytes path bytes
  let bytes := bytes ++ children
  let n := bytes.length
  let pkgLength := createPkgLength (n - 1) true
  let m := pkgLength.length
  let bytes := bytes ++ List.replicate m 0xff
  let bytes ← copyWithin bytes 1 n (m + 1)
  copyFromSlice bytes 1 (m + 1) pkgLength

/-- `Method`: up to seven arguments are meant, for the flags have three bits for
their number. -/
structure Method where
  path : Path
  children : List DynAml
  args : UInt8
  serialized : Bool

namespace Method

def new (path : Path) (args : UInt8) (serialized : Bool) (children : List DynAml) : Method :=
  { path, children, args, serialized }

/-- The flags of a method: the number of arguments, cut to three bits, and the
serialization. -/
def flags (method : Method) : UInt8 :=
  (method.args &&& (0x7 : UInt8)) ||| (method.serialized.toUInt8 <<< 3)

end Method

instance : Aml Method where
  toAmlBytes method sink := do
    let bytes ← toAmlBytes method.path ([] : Bytes)
    let bytes := bytes ++ [method.flags]
    let bytes ← emitAll method.children bytes
    return emitFramed [methodOp] bytes sink

/-- `FieldAccessType`. -/
inductive FieldAccessType where
  | any | byte | word | dword | qword | buffer
  deriving DecidableEq

def FieldAccessType.toByte : FieldAccessType → UInt8
  | any => 0
  | byte => 1
  | word => 2
  | dword => 3
  | qword => 4
  | buffer => 5

/-- `FieldLockRule`. -/
inductive FieldLockRule where
  | noLock | lock
  deriving DecidableEq

def FieldLockRule.toByte : FieldLockRule → UInt8
  | noLock => 0
  | lock => 1

/-- `FieldUpdateRule`. -/
inductive FieldUpdateRule where
  | preserve | writeAsOnes | writeAsZeroes
  deriving DecidableEq

def FieldUpdateRule.toByte : FieldUpdateRule → UInt8
  | preserve => 0
  | writeAsOnes => 1
  | writeAsZeroes => 2

/-- `FieldEntry`: a named run of bits, or one that is reserved. -/
inductive FieldEntry where
  | named (name : Vector UInt8 4) (length : ℕ)
  | reserved (length : ℕ)
  deriving DecidableEq

/-- The bytes of an entry: its name or a zero, and its number of bits, which is
written like a package length. -/
def FieldEntry.bytes : FieldEntry → Bytes
  | named name length => name.toList ++ createPkgLength length false
  | reserved length => [0x0] ++ createPkgLength length false

/-- `Field`. -/
structure FieldObject where
  path : Path
  fields : List FieldEntry
  accessType : FieldAccessType
  lockRule : FieldLockRule
  updateRule : FieldUpdateRule

/-- The flags of a field: access, lock and update rule. -/
def FieldObject.flags (field : FieldObject) : UInt8 :=
  field.accessType.toByte ||| (field.lockRule.toByte <<< 4) ||| (field.updateRule.toByte <<< 5)

instance : Aml FieldObject where
  toAmlBytes field sink := do
    let bytes ← toAmlBytes field.path ([] : Bytes)
    let bytes := bytes ++ [field.flags]
    let bytes := field.fields.foldl (fun bytes entry => bytes ++ entry.bytes) bytes
    return emitFramed [extOpPrefix, fieldOp] bytes sink

/-- `OpRegionSpace`. -/
inductive OpRegionSpace where
  | systemMemory | systemIO | pciConfig | embeddedControl | smBus | systemCMOS | pciBarTarget
  | ipmi | generalPurposeIO | genericSerialBus
  deriving DecidableEq

def OpRegionSpace.toByte : OpRegionSpace → UInt8
  | systemMemory => 0
  | systemIO => 1
  | pciConfig => 2
  | embeddedControl => 3
  | smBus => 4
  | systemCMOS => 5
  | pciBarTarget => 6
  | ipmi => 7
  | generalPurposeIO => 8
  | genericSerialBus => 9

/-- `OpRegion`: the offset and the length are terms. -/
structure OpRegion where
  path : Path
  space : OpRegionSpace
  offset : DynAml
  length : DynAml

instance : Aml OpRegion where
  toAmlBytes region sink := do
    let sink := AmlSink.byte (AmlSink.byte sink extOpPrefix) opRegionOp
    let sink ← toAmlBytes region.path sink
    let sink := AmlSink.byte sink region.space.toByte
    let sink ← toAmlBytes region.offset sink
    toAmlBytes region.length sink

/-- `PowerResource`. -/
structure PowerResource where
  name : Path
  level : UInt8
  order : UInt16
  children : List DynAml

instance : Aml PowerResource where
  toAmlBytes power sink := do
    let bytes ← toAmlBytes power.name ([] : Bytes)
    let bytes := bytes ++ [power.level]
    let bytes := bytes ++ MachineInt.toLeBytes power.order
    let bytes ← emitAll power.children bytes
    -- the operator is written before its prefix
    return emitFramed [powerResourceOp, extOpPrefix] bytes sink

/-! ## Statements and expressions -/

/-- `If`. -/
structure If where
  predicate : DynAml
  ifChildren : List DynAml

instance : Aml If where
  toAmlBytes x sink := do
    let bytes ← toAmlBytes x.predicate ([] : Bytes)
    let bytes ← emitAll x.ifChildren bytes
    return emitFramed [ifOp] bytes sink

/-- `Else`. -/
structure Else where
  body : List DynAml

instance : Aml Else where
  toAmlBytes x sink := do
    let bytes ← emitAll x.body ([] : Bytes)
    return emitFramed [elseOp] bytes sink

/-- `While`. -/
structure While where
  predicate : DynAml
  whileChildren : List DynAml

instance : Aml While where
  toAmlBytes x sink := do
    let bytes ← toAmlBytes x.predicate ([] : Bytes)
    let bytes ← emitAll x.whileChildren bytes
    return emitFramed [whileOp] bytes sink

/-- The types made by `compare_op!`. -/
inductive CompareOp where
  | equal | lessThan | greaterThan | notEqual | greaterEqual | lessEqual
  deriving DecidableEq

def CompareOp.opcode : CompareOp → UInt8
  | equal => lequalOp
  | lessThan => llessOp
  | greaterThan => lgreaterOp
  | notEqual => lequalOp
  | greaterEqual => llessOp
  | lessEqual => lgreaterOp

def CompareOp.invert : CompareOp → Bool
  | equal | lessThan | greaterThan => false
  | notEqual | greaterEqual | lessEqual => true

/-- A comparison of two terms. -/
structure Compare (op : CompareOp) where
  left : DynAml
  right : DynAml

instance (op : CompareOp) : Aml (Compare op) where
  toAmlBytes x sink := do
    let sink := if op.invert then AmlSink.byte sink lnotOp else sink
    let sink := AmlSink.byte sink op.opcode
    let sink ← toAmlBytes x.left sink
    toAmlBytes x.right sink

/-- The types made by `object_op!`. -/
inductive ObjectOp where
  | objectType | sizeOf | return_ | deRefOf
  deriving DecidableEq

def ObjectOp.opcode : ObjectOp → UInt8
  | objectType => objectTypeOp
  | sizeOf => sizeOfOp
  | return_ => returnOp
  | deRefOf => derefOfOp

/-- An operator on one object. -/
structure OnObject (op : ObjectOp) where
  a : DynAml

instance (op : ObjectOp) : Aml (OnObject op) where
  toAmlBytes x sink := toAmlBytes x.a (AmlSink.byte sink op.opcode)

/-- The types made by `binary_op!`. -/
inductive BinaryOp where
  | add | concat | subtract | multiply | shiftLeft | shiftRight | and | nand | or | nor | xor
  | concatRes | mod | index | toString | createDWordField | createQWordField
  deriving DecidableEq

def BinaryOp.opcode : BinaryOp → UInt8
  | add => addOp
  | concat => concatOp
  | subtract => subtractOp
  | multiply => multiplyOp
  | shiftLeft => shiftLeftOp
  | shiftRight => shiftRightOp
  | and => andOp
  | nand => nandOp
  | or => orOp
  | nor => norOp
  | xor => xorOp
  | concatRes => concatResOp
  | mod => modOp
  | index => indexOp
  | toString => toStringOp
  | createDWordField => createDWFieldOp
  | createQWordField => createQWFieldOp

/-- A binary operator: its target is written last. -/
structure Binary (op : BinaryOp) where
  target : DynAml
  a : DynAml
  b : DynAml

instance (op : BinaryOp) : Aml (Binary op) where
  toAmlBytes x sink := do
    let sink := AmlSink.byte sink op.opcode
    let sink ← toAmlBytes x.a sink
    let sink ← toAmlBytes x.b sink
    toAmlBytes x.target sink

/-- The types made by `convert_op!`. -/
inductive ConvertOp where
  | toBuffer | toInteger
  deriving DecidableEq

def ConvertOp.opcode : ConvertOp → UInt8
  | toBuffer => toBufferOp
  | toInteger => toIntegerOp

/-- A conversion with a target. -/
structure Convert (op : ConvertOp) where
  target : DynAml
  a : DynAml

instance (op : ConvertOp) : Aml (Convert op) where
  toAmlBytes x sink := do
    let sink := AmlSink.byte sink op.opcode
    let sink ← toAmlBytes x.a sink
    toAmlBytes x.target sink

/-- `Arg`: an index above six panics when it is written. -/
structure Arg where
  index : UInt8

instance : Aml Arg where
  toAmlBytes x sink := do
    ensure (x.index ≤ 6) .assertion
    return AmlSink.byte sink (arg0Op + x.index)

/-- `Local`: an index above seven panics when it is written. -/
structure Local where
  index : UInt8

instance : Aml Local where
  toAmlBytes x sink := do
    ensure (x.index ≤ 7) .assertion
    return AmlSink.byte sink (local0Op + x.index)

/-- `Store`: the value is written in front of the name. -/
structure Store where
  name : DynAml
  value : DynAml

instance : Aml Store where
  toAmlBytes x sink := do
    let sink := AmlSink.byte sink storeOp
    let sink ← toAmlBytes x.value sink
    toAmlBytes x.name sink

/-- `Mutex`. -/
structure Mutex where
  path : Path
  syncLevel : UInt8

instance : Aml Mutex where
  toAmlBytes x sink := do
    let sink := AmlSink.byte (AmlSink.byte sink extOpPrefix) mutexOp
    let sink ← toAmlBytes x.path sink
    return AmlSink.byte sink x.syncLevel

/-- `Acquire`. -/
structure Acquire where
  mutex : Path
  timeout : UInt16

instance : Aml Acquire where
  toAmlBytes x sink := do
    let sink := AmlSink.byte (AmlSink.byte sink extOpPrefix) acquireOp
    let sink ← toAmlBytes x.mutex sink
    return AmlSink.word sink x.timeout

/-- `Release`. -/
structure Release where
  mutex : Path

instance : Aml Release where
  toAmlBytes x sink := do
    let sink := AmlSink.byte (AmlSink.byte sink extOpPrefix) releaseOp
    toAmlBytes x.mutex sink

/-- `Notify`. -/
structure Notify where
  object : DynAml
  value : DynAml

instance : Aml Notify where
  toAmlBytes x sink := do
    let sink := AmlSink.byte sink notifyOp
    let sink ← toAmlBytes x.object sink
    toAmlBytes x.value sink

/-- `CreateField`: the name is written last. -/
structure CreateField where
  nameString : DynAml
  source : DynAml
  bitIndex : DynAml
  bitNum : DynAml

instance : Aml CreateField where
  toAmlBytes x sink := do
    let sink := AmlSink.byte (AmlSink.byte sink extOpPrefix) createFieldOp
    let sink ← toAmlBytes x.source sink
    let sink ← toAmlBytes x.bitIndex sink
    let sink ← toAmlBytes x.bitNum sink
    toAmlBytes x.nameString sink

/-- `Mid`. -/
structure Mid where
  source : DynAml
  index : DynAml
  length : DynAml
  result : DynAml

instance : Aml Mid where
  toAmlBytes x sink := do
    let sink := AmlSink.byte sink midOp
    let sink ← toAmlBytes x.source sink
    let sink ← toAmlBytes x.index sink
    let sink ← toAmlBytes x.length sink
    toAmlBytes x.result sink

/-- `MethodCall`: the name of a method and its arguments. No length tells where
they end. -/
structure MethodCall where
  name : Path
  args : List DynAml

instance : Aml MethodCall where
  toAmlBytes x sink := do
    let sink ← toAmlBytes x.name sink
    emitAll x.args sink

/-! ## Buffers -/

/-- `BufferTerm`: a buffer of so many bytes. -/
structure BufferTerm where
  data : DynAml

instance : Aml BufferTerm where
  toAmlBytes x sink := do
    let bytes ← toAmlBytes x.data ([] : Bytes)
    return emitFramed [bufferOp] bytes sink

/-- `BufferData`: a buffer of these bytes. -/
structure BufferData where
  data : Bytes
  deriving DecidableEq

instance : Aml BufferData where
  toAmlBytes x sink := do
    let bytes ← usizeToAmlBytes x.data.length ([] : Bytes)
    let bytes := bytes ++ x.data
    return emitFramed [bufferOp] bytes sink

/-- `Uuid`: the sixteen bytes as a buffer. -/
structure Uuid where
  name : BufferData
  deriving DecidableEq

/-- `hex2byte`: two hexadecimal digits; another character panics. -/
def hex2byte (v1 v2 : Char) : Checked UInt8 := do
  let hi := UInt8.ofNat (← unwrap (toDigit16 v1))
  ensure (hi ≤ 15) .assertion
  let lo := UInt8.ofNat (← unwrap (toDigit16 v2))
  ensure (lo ≤ 15) .assertion
  return (hi <<< 4) ||| lo

namespace Uuid

/-- The positions of the two digits of each byte, in the order the bytes are
pushed: the first three groups are little-endian. -/
def digitPositions : List (ℕ × ℕ) :=
  [(6, 7), (4, 5), (2, 3), (0, 1), (11, 12), (9, 10), (16, 17), (14, 15),
    (19, 20), (21, 22), (24, 25), (26, 27), (28, 29), (30, 31), (32, 33), (34, 35)]

/-- `name_vec[i]`. -/
def charAt (name : List Char) (i : ℕ) : Checked Char :=
  match name[i]? with
  | some c => .ok c
  | none => .error .outOfRange

/-- `Uuid::new`: 36 characters with dashes in their places. The bytes of the first
three groups are stored in reverse. -/
def new (name : String) : Checked Uuid := do
  let nameVec := name.toList
  ensure (nameVec.length = 36) .assertion
  for i in [8, 13, 18, 23] do
    ensure ((← charAt nameVec i) = '-') .assertion
  let data ← digitPositions.mapM fun (i, j) => do
    hex2byte (← charAt nameVec i) (← charAt nameVec j)
  return { name := { data } }

end Uuid

instance : Aml Uuid where
  toAmlBytes x sink := toAmlBytes x.name sink

end AcpiTables
