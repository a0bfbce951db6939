import AcpiTables.AmlBuild

/-!
# The constructors of the reference

The `aml_*` functions of `aml-build.c` whose terms the generator can build as
well. Each allocates an object and appends to it; `amlAppend` adds the operator
or the frame when the object is handed on. An enumeration of the reference is
the number that it is written as, an optional destination (`NULL` or an object)
an `Option`.
-/

namespace AcpiTables.AmlBuild

/-- `aml_opcode`: an operator that is closed without a length. -/
def amlOpcode (op : UInt8) : Aml := amlBundle op .opcode

/-- A name behind what an object has already. -/
def appendNamestring (var : Aml) (name : Bytes) : Checked Aml := do
  return { var with buf := ← buildAppendNamestringv var.buf name }

/-- The destination, or the null name. -/
def appendTarget (var : Aml) : Option Aml → Aml
  | some dst => amlAppend var dst
  | none => { var with buf := var.buf ++ [0x00] }

/-! ## Named objects -/

/-- `aml_name_decl`: a name for a value. -/
def amlNameDecl (name : Bytes) (val : Aml) : Checked Aml := do
  let var ← appendNamestring (amlOpcode 0x08) name
  return amlAppend var val

/-- `aml_method`: the flags hold the number of arguments in three bits and the
serialization in the fourth. -/
def amlMethod (name : Bytes) (argCount : ℕ) (sflag : ℕ) : Checked Aml := do
  let var := amlBundle 0x14 .package
  ensure (argCount < 8) .assertion
  let methodflags := argCount ||| (sflag <<< 3)
  let var ← appendNamestring var name
  return { var with buf := var.buf ++ [UInt8.ofNat methodflags] }

/-- `aml_operation_region`: the length is a number here, the offset a term. -/
def amlOperationRegion (name : Bytes) (rs : UInt8) (offset : Aml) (len : UInt32) :
    Checked Aml := do
  let var := amlAlloc
  let var := { var with buf := var.buf ++ [0x5b, 0x80] }
  let var ← appendNamestring var name
  let var := { var with buf := var.buf ++ [rs] }
  let var := amlAppend var offset
  return { var with buf := buildAppendInt var.buf len.toUInt64 }

/-- `build_append_pkg_length`. -/
def buildAppendPkgLength (array : Bytes) (length : UInt32) (inclSelf : Bool) : Bytes :=
  array ++ buildPrependPackageLength [] length inclSelf

/-- `aml_named_field`: an entry with a name of four characters. -/
def amlNamedField (name : Bytes) (length : UInt32) : Checked Aml := do
  let var := amlAlloc
  let buf ← buildAppendNameseg var.buf name
  return { var with buf := buildAppendPkgLength buf length false }

/-- `aml_reserved_field`: an entry without a name. -/
def amlReservedField (length : UInt32) : Aml :=
  let var := amlAlloc
  { var with buf := buildAppendPkgLength (var.buf ++ [0x00]) length false }

/-- `aml_field`: the flags hold the type of access, the lock and the rule. -/
def amlField (name : Bytes) (type_ lock rule : UInt8) : Checked Aml := do
  let var := amlBundle 0x81 .extPackage
  let flags := (rule <<< 5) ||| type_
  let flags := flags ||| (lock <<< 4)
  let var ← appendNamestring var name
  return { var with buf := var.buf ++ [flags] }

/-- `create_field_common`. -/
def createFieldCommon (opcode : UInt8) (srcbuf index : Aml) (name : Bytes) : Checked Aml :=
  let var := amlOpcode opcode
  let var := amlAppend var srcbuf
  let var := amlAppend var index
  appendNamestring var name

/-- `aml_create_dword_field`. -/
def amlCreateDwordField (srcbuf index : Aml) (name : Bytes) : Checked Aml :=
  createFieldCommon 0x8a srcbuf index name

/-- `aml_create_qword_field`. -/
def amlCreateQwordField (srcbuf index : Aml) (name : Bytes) : Checked Aml :=
  createFieldCommon 0x8f srcbuf index name

/-- `aml_create_field`: a field of so many bits. -/
def amlCreateField (srcbuf bitIndex numBits : Aml) (name : Bytes) : Checked Aml :=
  let var := amlAlloc
  let var := { var with buf := var.buf ++ [0x5b, 0x13] }
  let var := amlAppend var srcbuf
  let var := amlAppend var bitIndex
  let var := amlAppend var numBits
  appendNamestring var name

/-- `aml_mutex`: the level has four bits, which is asserted. -/
def amlMutex (name : Bytes) (syncLevel : UInt8) : Checked Aml := do
  let var := amlAlloc
  let var := { var with buf := var.buf ++ [0x5b, 0x01] }
  let var ← appendNamestring var name
  ensure (syncLevel &&& 0xf0 = 0) .assertion
  return { var with buf := var.buf ++ [syncLevel] }

/-- `aml_acquire`. -/
def amlAcquire (mutex : Aml) (timeout : UInt16) : Aml :=
  let var := amlAlloc
  let var := { var with buf := var.buf ++ [0x5b, 0x23] }
  let var := amlAppend var mutex
  { var with buf := buildAppendIntNoprefix var.buf timeout.toUInt64 2 }

/-- `aml_release`. -/
def amlRelease (mutex : Aml) : Aml :=
  let var := amlAlloc
  let var := { var with buf := var.buf ++ [0x5b, 0x27] }
  amlAppend var mutex

/-! ## Data -/

/-- `aml_string`: the bytes of a C string and the byte that ends it. -/
def amlString (s : Bytes) : Aml :=
  let var := amlOpcode 0x0d
  { var with buf := var.buf ++ (s ++ [0]) }

/-- `aml_varpackage`: the number of elements is written as an integer. -/
def amlVarpackage (numElements : UInt32) : Aml :=
  let var := amlBundle 0x13 .package
  { var with buf := buildAppendInt var.buf numElements.toUInt64 }

/-- `Hex2Byte`. A digit is unsigned, so the assertions on its sign say nothing. -/
def hex2Byte (src0 src1 : UInt8) : Checked UInt8 := do
  let hi := hex2Digit src0
  ensure (hi ≤ 15) .assertion
  let lo := hex2Digit src1
  ensure (lo ≤ 15) .assertion
  return (hi <<< 4) ||| lo

/-- The offsets of the bytes of a UUID in its text, in the order of the buffer. -/
def touuidOffsets : List ℕ := [6, 4, 2, 0, 11, 9, 16, 14, 19, 21, 24, 26, 28, 30, 32, 34]

/-- `aml_touuid`: 36 characters with dashes in their places; the first three groups
are stored with the lowest byte first. -/
def amlTouuid (uuid : Bytes) : Checked Aml := do
  let var := amlBundle 0x11 .buffer
  ensure (uuid.length = 36) .assertion
  for i in [8, 13, 18, 23] do
    ensure (uuid[i]? = some 0x2d) .assertion
  let bytes ← touuidOffsets.mapM fun i => hex2Byte (uuid.getD i 0) (uuid.getD (i + 1) 0)
  return { var with buf := var.buf ++ bytes }

/-! ## Statements and expressions -/

/-- `aml_arg`: the position of an argument is asserted. -/
def amlArg (pos : ℕ) : Checked Aml := do
  let op := UInt8.ofNat (0x68 + pos)
  ensure (pos ≤ 6) .assertion
  return amlOpcode op

/-- `aml_local`: so is the number of a local. -/
def amlLocal (num : ℕ) : Checked Aml := do
  let op := UInt8.ofNat (0x60 + num)
  ensure (num ≤ 7) .assertion
  return amlOpcode op

/-- The functions that append one operand to an operator: `aml_return`,
`aml_derefof`, `aml_sizeof`, `aml_object_type`, `aml_lnot`. -/
def opcode1arg (op : UInt8) (arg : Aml) : Aml := amlAppend (amlOpcode op) arg

/-- `aml_return`. -/
def amlReturn (val : Aml) : Aml := opcode1arg 0xa4 val

def amlDerefof (arg : Aml) : Aml := opcode1arg 0x83 arg

def amlSizeof (arg : Aml) : Aml := opcode1arg 0x87 arg

def amlObjectType (object : Aml) : Aml := opcode1arg 0x8e object

def amlLnot (arg : Aml) : Aml := opcode1arg 0x92 arg

/-- The functions that append two: `aml_store`, `aml_notify` and the
comparisons. -/
def opcode2arg (op : UInt8) (arg1 arg2 : Aml) : Aml := amlAppend (opcode1arg op arg1) arg2

/-- `aml_store`. -/
def amlStore (val target : Aml) : Aml := opcode2arg 0x70 val target

def amlNotify (arg1 arg2 : Aml) : Aml := opcode2arg 0x86 arg1 arg2

def amlEqual (arg1 arg2 : Aml) : Aml := opcode2arg 0x93 arg1 arg2

def amlLgreater (arg1 arg2 : Aml) : Aml := opcode2arg 0x94 arg1 arg2

def amlLless (arg1 arg2 : Aml) : Aml := opcode2arg 0x95 arg1 arg2

/-- `aml_lgreater_equal`: the negation of less, so it has two operators. -/
def amlLgreaterEqual (arg1 arg2 : Aml) : Aml :=
  let var := amlOpcode 0x92
  let var := { var with buf := var.buf ++ [0x95] }
  amlAppend (amlAppend var arg1) arg2

/-- `build_opcode_2arg_dst`. -/
def buildOpcode2argDst (op : UInt8) (arg1 arg2 : Aml) (dst : Option Aml) : Aml :=
  appendTarget (opcode2arg op arg1 arg2) dst

/-- `aml_add`. The operators with a target write the null name when there is none. -/
def amlAdd (arg1 arg2 : Aml) (dst : Option Aml) : Aml := buildOpcode2argDst 0x72 arg1 arg2 dst

def amlConcatenate (source1 source2 : Aml) (target : Option Aml) : Aml :=
  buildOpcode2argDst 0x73 source1 source2 target

def amlSubtract (arg1 arg2 : Aml) (dst : Option Aml) : Aml := buildOpcode2argDst 0x74 arg1 arg2 dst

def amlShiftleft (arg1 count : Aml) : Aml := buildOpcode2argDst 0x79 arg1 count none

def amlShiftright (arg1 count : Aml) (dst : Option Aml) : Aml :=
  buildOpcode2argDst 0x7a arg1 count dst

def amlAnd (arg1 arg2 : Aml) (dst : Option Aml) : Aml := buildOpcode2argDst 0x7b arg1 arg2 dst

def amlOr (arg1 arg2 : Aml) (dst : Option Aml) : Aml := buildOpcode2argDst 0x7d arg1 arg2 dst

def amlIndex (arg1 idx : Aml) : Aml := buildOpcode2argDst 0x88 arg1 idx none

def amlToBuffer (src : Aml) (dst : Option Aml) : Aml := appendTarget (opcode1arg 0x96 src) dst

def amlToInteger (arg : Aml) : Aml := appendTarget (opcode1arg 0x99 arg) none

/-- `aml_if`: the predicate is the first thing inside. -/
def amlIf (predicate : Aml) : Aml := amlAppend (amlBundle 0xa0 .package) predicate

/-- `aml_else`. -/
def amlElse : Aml := amlBundle 0xa1 .package

/-- `aml_while`. -/
def amlWhile (predicate : Aml) : Aml := amlAppend (amlBundle 0xa2 .package) predicate

/-! ## Resource descriptors -/

/-- `aml_memory32_fixed`. -/
def amlMemory32Fixed (addr size : UInt32) (readAndWrite : UInt8) : Aml :=
  let var := amlAlloc
  let extract (v : UInt32) (start : UInt32) : UInt8 := (v >>> start).toUInt8
  { var with
    buf := var.buf ++ [0x86, 9, 0, readAndWrite,
      extract addr 0, extract addr 8, extract addr 16, extract addr 24,
      extract size 0, extract size 8, extract size 16, extract size 24] }

/-- The interrupts are a list here, of which the caller gives the length in a
byte; the loop takes so many. -/
def amlInterrupt (conAndPro levelAndEdge highAndLow shared : UInt8) (irqList : List UInt32) :
    Checked Aml := do
  let var := amlAlloc
  let irqFlags := conAndPro ||| (levelAndEdge <<< 1) ||| (highAndLow <<< 2) ||| (shared <<< 3)
  let irqCount := UInt8.ofNat irqList.length
  let len : UInt16 := 2 + irqCount.toUInt16 * 4
  ensure (0 < irqCount) .assertion
  let buf := var.buf ++
    [0x89, (len &&& 0xff).toUInt8, (len >>> 8).toUInt8, irqFlags, irqCount]
  return { var with
    buf := (irqList.take irqCount.toNat).foldl
      (fun buf irq => buildAppendIntNoprefix buf irq.toUInt64 4) buf }

/-- `aml_io`. -/
def amlIo (dec : UInt8) (minBase maxBase : UInt16) (aln len : UInt8) : Aml :=
  let var := amlAlloc
  { var with
    buf := var.buf ++ [0x47, dec,
      (minBase &&& 0xff).toUInt8, ((minBase >>> 8) &&& 0xff).toUInt8,
      (maxBase &&& 0xff).toUInt8, ((maxBase >>> 8) &&& 0xff).toUInt8, aln, len] }

/-- `aml_as_desc_header`: the kind of the space, the flags of its bounds, and the
flags of the kind. -/
def amlAsDescHeader (type_ minFixed maxFixed dec typeFlags : UInt8) : Aml :=
  let flags := maxFixed ||| minFixed ||| dec
  let var := amlAlloc
  { var with buf := var.buf ++ [type_, flags, typeFlags] }

/-- `aml_word_as_desc`, `aml_dword_as_desc` and `aml_qword_as_desc`: the tag, the
length that is written and the size of a field are what differs. -/
def amlAsDesc (tag descLen : UInt8) (size : ℕ) (type_ minFixed maxFixed dec : UInt8)
    (addrGran addrMin addrMax addrTrans len : UInt64) (typeFlags : UInt8) : Aml :=
  let var := amlAlloc
  let var := { var with buf := var.buf ++ [tag, descLen, 0x0] }
  let var := amlAppend var (amlAsDescHeader type_ minFixed maxFixed dec typeFlags)
  let buf := buildAppendIntNoprefix var.buf addrGran size
  let buf := buildAppendIntNoprefix buf addrMin size
  let buf := buildAppendIntNoprefix buf addrMax size
  let buf := buildAppendIntNoprefix buf addrTrans size
  { var with buf := buildAppendIntNoprefix buf len size }

/-- `aml_word_as_desc`: fields of 16 bits. -/
def amlWordAsDesc (type_ minFixed maxFixed dec : UInt8)
    (addrGran addrMin addrMax addrTrans len : UInt16) (typeFlags : UInt8) : Aml :=
  amlAsDesc 0x88 0x0d 2 type_ minFixed maxFixed dec addrGran.toUInt64 addrMin.toUInt64
    addrMax.toUInt64 addrTrans.toUInt64 len.toUInt64 typeFlags

/-- `aml_dword_as_desc`: fields of 32 bits. -/
def amlDwordAsDesc (type_ minFixed maxFixed dec : UInt8)
    (addrGran addrMin addrMax addrTrans len : UInt32) (typeFlags : UInt8) : Aml :=
  amlAsDesc 0x87 23 4 type_ minFixed maxFixed dec addrGran.toUInt64 addrMin.toUInt64
    addrMax.toUInt64 addrTrans.toUInt64 len.toUInt64 typeFlags

/-- `aml_qword_as_desc`: fields of 64 bits. -/
def amlQwordAsDesc (type_ minFixed maxFixed dec : UInt8)
    (addrGran addrMin addrMax addrTrans len : UInt64) (typeFlags : UInt8) : Aml :=
  amlAsDesc 0x8a 0x2b 8 type_ minFixed maxFixed dec addrGran addrMin addrMax addrTrans len
    typeFlags

end AcpiTables.AmlBuild
