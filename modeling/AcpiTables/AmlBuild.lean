import AcpiTables.Checked

/-!
# The reference encoder

The bytecode primitives of `aml-build.c`, which the generator's own are compared
with. An array is the list of its bytes; the package length is prepended byte by
byte, from a length that is masked on the way. A string is its bytes without the
terminator, as it is after formatting. A failed `assert` is an error, as in the
model of the generator.
-/

namespace AcpiTables.AmlBuild

/-- `ACPI_NAMESEG_LEN`. -/
def acpiNamesegLen : ℕ := 4

/-! ## Names -/

/-- At most four bytes, padded with underscores. -/
def buildAppendNameseg (array seg : Bytes) : Checked Bytes := do
  let len := seg.length
  ensure (len ≤ acpiNamesegLen) .assertion
  let array := array ++ seg
  return array ++ List.replicate (acpiNamesegLen - len) 0x5f

/-- `g_strsplit(s, ".", 0)`: the empty string has no segment. -/
def gStrsplit (s : Bytes) : List Bytes := if s = [] then [] else s.splitOn 0x2e

/-- The loop over `\` and `^` in front of the first segment: what is appended,
and what is left of the segment. -/
def appendRootOrPrefixPath (array : Bytes) : Bytes → Bytes × Bytes
  | [] => (array, [])
  | c :: s =>
    if c = 0x5c ∨ c = 0x5e then appendRootOrPrefixPath (array ++ [c]) s else (array, c :: s)

/-- `build_append_namestringv`: the root or prefix path, the prefix for the number
of segments, and the segments, which are what `g_strsplit` finds between the dots. -/
def buildAppendNamestringv (array s : Bytes) : Checked Bytes := do
  let segs := gStrsplit s
  let segCount := segs.length
  ensure (0 < segCount ∧ segCount ≤ 255) .assertion
  match segs with
  | [] => return array
  | first :: rest =>
    let (array, s) := appendRootOrPrefixPath array first
    match rest with
    | [] =>
      if s = [] then return array ++ [0x00]
      buildAppendNameseg array s
    | [second] =>
      let array := array ++ [0x2e]
      let array ← buildAppendNameseg array s
      buildAppendNameseg array second
    | rest =>
      let array := array ++ [0x2f]
      let array := array ++ [UInt8.ofNat segCount]
      let array ← buildAppendNameseg array s
      rest.foldlM buildAppendNameseg array

/-! ## Package lengths -/

/-- The shifts of `build_prepend_package_length`, one for each number of bytes. -/
def packageLength1byteShift : UInt32 := 6
def packageLength2byteShift : UInt32 := 4
def packageLength3byteShift : UInt32 := 12
def packageLength4byteShift : UInt32 := 20

/-- Prepend the bits from `shift` on and mask them off the length. -/
def prependLengthByte (shift : UInt32) (state : Bytes × UInt32) : Bytes × UInt32 :=
  let (package, length) := state
  ((length >>> shift).toUInt8 :: package, length &&& ((1 <<< shift) - 1))

/-- `build_prepend_package_length`: the length in front of the content, with its
own bytes counted in when it is to include itself. -/
def buildPrependPackageLength (package : Bytes) (length : UInt32) (inclSelf : Bool) : Bytes :=
  let lengthBytes : UInt32 :=
    if length + 1 < (1 : UInt32) <<< packageLength1byteShift then 1
    else if length + 2 < (1 : UInt32) <<< packageLength3byteShift then 2
    else if length + 3 < (1 : UInt32) <<< packageLength4byteShift then 3
    else 4
  let length := if inclSelf then length + lengthBytes else length
  if lengthBytes = 1 then length.toUInt8 :: package
  else
    -- the cases of the switch fall through
    let state := (package, length)
    let state := if lengthBytes = 4 then prependLengthByte packageLength4byteShift state else state
    let state := if 3 ≤ lengthBytes then prependLengthByte packageLength3byteShift state else state
    let (package, length) := prependLengthByte packageLength2byteShift state
    (((lengthBytes - 1) <<< packageLength1byteShift) ||| length).toUInt8 :: package

/-- `build_package`: the operator in front of the package length. -/
def buildPackage (package : Bytes) (op : UInt8) : Bytes :=
  op :: buildPrependPackageLength package (UInt32.ofNat package.length) true

/-- `build_extop_package`: the same with the prefix of the extended operators. -/
def buildExtopPackage (package : Bytes) (op : UInt8) : Bytes :=
  0x5b :: buildPackage package op

/-! ## Integers -/

/-- `build_append_int_noprefix`: so many bytes of a number, the lowest first. -/
def buildAppendIntNoprefix (table : Bytes) (value : UInt64) : ℕ → Bytes
  | 0 => table
  | size + 1 => buildAppendIntNoprefix (table ++ [(value &&& 0xff).toUInt8]) (value >>> 8) size

/-- `build_append_int`: a number with the prefix of the smallest width that holds
it. -/
def buildAppendInt (table : Bytes) (value : UInt64) : Bytes :=
  if value = 0x00 then table ++ [0x00]
  else if value = 0x01 then table ++ [0x01]
  else if value ≤ 0xff then buildAppendIntNoprefix (table ++ [0x0a]) value 1
  else if value ≤ 0xffff then buildAppendIntNoprefix (table ++ [0x0b]) value 2
  else if value ≤ 0xffffffff then buildAppendIntNoprefix (table ++ [0x0c]) value 4
  else buildAppendIntNoprefix (table ++ [0x0e]) value 8

/-! ## Objects -/

/-- `AmlBlockFlags`. -/
inductive AmlBlockFlags where
  | noOpcode | opcode | package | extPackage | buffer | resTemplate
  deriving DecidableEq

/-- `Aml`: an object under construction. -/
structure Aml where
  buf : Bytes
  op : UInt8
  blockFlags : AmlBlockFlags
  deriving DecidableEq

/-- `aml_alloc`: a term without bytes. -/
def amlAlloc : Aml := ⟨[], 0, .noOpcode⟩

/-- `aml_bundle`: a term with an operator, closed when it is appended. -/
def amlBundle (op : UInt8) (flags : AmlBlockFlags) : Aml :=
  { amlAlloc with op := op, blockFlags := flags }

/-- Pack data as a buffer. -/
def buildBuffer (array : Bytes) (op : UInt8) : Bytes :=
  let data := buildAppendInt [] (UInt32.ofNat array.length).toUInt64
  buildPackage (data ++ array) op

/-- `aml_append`: close the child by its flags, and put its bytes behind those of
the parent. The child itself is not used again. -/
def amlAppend (parentCtx child : Aml) : Aml :=
  match child.blockFlags with
  | .opcode => { parentCtx with buf := parentCtx.buf ++ [child.op] ++ child.buf }
  | .extPackage => { parentCtx with buf := parentCtx.buf ++ buildExtopPackage child.buf child.op }
  | .package => { parentCtx with buf := parentCtx.buf ++ buildPackage child.buf child.op }
  | .resTemplate =>
    { parentCtx with buf := parentCtx.buf ++ buildBuffer (child.buf ++ [0x79] ++ [0]) child.op }
  | .buffer => { parentCtx with buf := parentCtx.buf ++ buildBuffer child.buf child.op }
  | .noOpcode => { parentCtx with buf := parentCtx.buf ++ child.buf }

/-- `aml_int`. -/
def amlInt (val : UInt64) : Aml := { amlAlloc with buf := buildAppendInt amlAlloc.buf val }

/-- `aml_name`: a reference to a name. -/
def amlName (name : Bytes) : Checked Aml := do
  return { amlAlloc with buf := ← buildAppendNamestringv amlAlloc.buf name }

/-- `aml_package`: the number of elements is given by the caller. -/
def amlPackage (numElements : UInt8) : Aml :=
  let var := amlBundle 0x12 .package
  { var with buf := var.buf ++ [numElements] }

/-- `aml_scope`. -/
def amlScope (name : Bytes) : Checked Aml := do
  let var := amlBundle 0x10 .package
  return { var with buf := ← buildAppendNamestringv var.buf name }

/-- `aml_device`. -/
def amlDevice (name : Bytes) : Checked Aml := do
  let var := amlBundle 0x82 .extPackage
  return { var with buf := ← buildAppendNamestringv var.buf name }

/-- `aml_buffer`: the size is written when the buffer is closed. -/
def amlBuffer (byteList : Bytes) : Aml :=
  let var := amlBundle 0x11 .buffer
  { var with buf := var.buf ++ byteList }

/-- `aml_resource_template`: the end tag is added when the template is closed. -/
def amlResourceTemplate : Aml := amlBundle 0x11 .resTemplate

/-! ## EISA identifiers -/

/-- A `char` as an `int`: the type is signed. -/
def charToInt (c : UInt8) : UInt32 := if c < 0x80 then c.toUInt32 else c.toUInt32 - 0x100

/-- `Hex2Digit`. Only the digits and the uppercase letters have their value. -/
def hex2Digit (c : UInt8) : UInt8 :=
  if 0x41 ≤ c ∧ c < 0x80 then c - 0x41 + 10 else c - 0x30

/-- `bswap32`. -/
def bswap32 (v : UInt32) : UInt32 := UInt32.ofNat (leValue (MachineInt.toLeBytes v).reverse)

/-- `aml_eisaid`: seven characters are asserted, three letters and four digits are
taken without a test. -/
def amlEisaid (str : Bytes) : Checked Aml :=
  let var := amlAlloc
  match str with
  | [c0, c1, c2, c3, c4, c5, c6] =>
    let id := ((charToInt c0 - 0x40) <<< 26) ||| ((charToInt c1 - 0x40) <<< 21) |||
      ((charToInt c2 - 0x40) <<< 16) ||| ((hex2Digit c3).toUInt32 <<< 12) |||
      ((hex2Digit c4).toUInt32 <<< 8) ||| ((hex2Digit c5).toUInt32 <<< 4) |||
      (hex2Digit c6).toUInt32
    let buf := var.buf ++ [0x0c]
    .ok { var with buf := buildAppendIntNoprefix buf (bswap32 id).toUInt64 4 }
  | _ => .error .assertion

end AcpiTables.AmlBuild
