import AcpiTables.Header
import AcpiTables.Placement

/-!
# The blob of tables

Tables are appended to one buffer and a reference to each is kept: signature,
offset, length. Offsets and lengths are 32-bit casts, addresses are 64-bit sums.

`laid base front chunks` is the builder after a run of appends, in terms of what
was appended. Each operation of the builder is an equation on `laid`, so a
sequence of them comes down to a list of chunks in their places
(`appendTable_laid`, `appendPlaceholderTable_laid`, `addressOf_laid`). As long as
the data stays below 4 GiB the references are where the chunks are
(`toNat_offset_ofPlaced`).
-/

namespace AcpiTables

open MachineInt

/-- A table of the blob: its signature and where it lies. -/
structure TableRef where
  signature : Vector UInt8 4
  offset : UInt32
  length : UInt32
  deriving DecidableEq

/-- The blob that is handed out, with the tables in it. -/
structure AcpiBlob where
  data : Bytes
  tables : List TableRef

/-- The blob while it is filled, and the address that it will have. -/
structure AcpiBlobBuilder where
  data : Bytes
  tables : List TableRef
  baseAddress : UInt64

namespace AcpiBlobBuilder

/-- A blob without tables. -/
def new (baseAddress : UInt64) : AcpiBlobBuilder where
  data := []
  tables := []
  baseAddress := baseAddress

/-- Padding in front is made of ones. -/
def reserveFront (self : AcpiBlobBuilder) (len : ℕ) : AcpiBlobBuilder :=
  if self.data.length < len then
    { self with data := self.data ++ List.replicate (len - self.data.length) 1 }
  else self

/-- Fill up with zeros to a multiple of the alignment. -/
def align (self : AcpiBlobBuilder) (alignment : ℕ) : Checked AcpiBlobBuilder := do
  ensure (alignment ≠ 0) (.explicit "attempt to calculate the remainder with a divisor of zero")
  let remainder := self.data.length % alignment
  if remainder ≠ 0 then
    return { self with data := self.data ++ List.replicate (alignment - remainder) 0 }
  else
    return self

/-- A table is appended and noted. Its offset and its length keep 32 bits. -/
def appendTable (self : AcpiBlobBuilder) (signature : Vector UInt8 4) (bytes : Bytes) :
    UInt32 × AcpiBlobBuilder :=
  let offset := UInt32.ofNat self.data.length
  let length := UInt32.ofNat bytes.length
  (offset, { self with
    data := self.data ++ bytes
    tables := self.tables ++ [⟨signature, offset, length⟩] })

/-- A table that is only reserved is filled with zeros. -/
def appendPlaceholderTable (self : AcpiBlobBuilder) (signature : Vector UInt8 4)
    (length : UInt32) : UInt32 × AcpiBlobBuilder :=
  let offset := UInt32.ofNat self.data.length
  (offset, { self with
    data := self.data ++ List.replicate length.toNat 0
    tables := self.tables ++ [⟨signature, offset, length⟩] })

/-- The address of an offset. The addition may overflow. -/
def addressOf (self : AcpiBlobBuilder) (offset : UInt32) : Checked UInt64 :=
  checkedAdd self.baseAddress offset.toUInt64

/-- The blob is finished: its address is dropped. -/
def finish (self : AcpiBlobBuilder) : AcpiBlob where
  data := self.data
  tables := self.tables

end AcpiBlobBuilder

/-! ## Builders as chunks in their places -/

/-- A table with its signature. -/
abbrev Chunk : Type := Vector UInt8 4 × Bytes

/-- The reference that is kept for a placed table. -/
def TableRef.ofPlaced (p : Placed (Vector UInt8 4)) : TableRef where
  signature := p.key
  offset := UInt32.ofNat p.offset
  length := UInt32.ofNat p.length

/-- The offset of a table below 4 GiB is the place it was laid at. -/
theorem toNat_offset_ofPlaced {p : Placed (Vector UInt8 4)} (h : p.offset < 4294967296) :
    (TableRef.ofPlaced p).offset.toNat = p.offset :=
  UInt32.toNat_ofNat_of_lt' h

/-- The length of a table below 4 GiB is that of its bytes. -/
theorem toNat_length_ofPlaced {p : Placed (Vector UInt8 4)} (h : p.length < 4294967296) :
    (TableRef.ofPlaced p).length.toNat = p.length :=
  UInt32.toNat_ofNat_of_lt' h

/-- The references of chunks that are laid from an offset on. -/
def tableRefs (start : ℕ) (chunks : List Chunk) : List TableRef :=
  (place start chunks).map TableRef.ofPlaced

/-- The tables of two runs of chunks, the second behind the first. -/
theorem tableRefs_append (start : ℕ) (cs ds : List Chunk) :
    tableRefs start (cs ++ ds) =
      tableRefs start cs ++ tableRefs (start + (layChunks cs).length) ds := by
  rw [tableRefs, place_append, List.map_append]
  rfl

/-- A builder to which chunks were appended behind a front of padding. -/
def laid (base : UInt64) (front : Bytes) (chunks : List Chunk) : AcpiBlobBuilder where
  data := front ++ layChunks chunks
  tables := tableRefs front.length chunks
  baseAddress := base

section

variable (base : UInt64) (front : Bytes) (chunks : List Chunk)

/-- Padding in front of an empty blob is a blob with these bytes. -/
theorem reserveFront_new {len : ℕ} (h : 0 < len) :
    (AcpiBlobBuilder.new base).reserveFront len = laid base (List.replicate len 1) [] := by
  have hempty : (AcpiBlobBuilder.new base).data.length < len := h
  rw [AcpiBlobBuilder.reserveFront, if_pos hempty]
  simp [AcpiBlobBuilder.new, laid, tableRefs]

/-- One more chunk. -/
theorem laid_concat (c : Chunk) :
    laid base front (chunks ++ [c]) =
      { laid base front chunks with
        data := (laid base front chunks).data ++ c.2
        tables := (laid base front chunks).tables ++
          [.ofPlaced ⟨c.1, (laid base front chunks).data.length, c.2.length⟩] } := by
  rw [laid, tableRefs_append, layChunks_append, layChunks_cons, layChunks_nil, List.append_nil,
    ← List.append_assoc, ← List.length_append]
  rfl

/-- Appending a table lays out one chunk more. -/
theorem appendTable_laid (signature : Vector UInt8 4) (bytes : Bytes) :
    (laid base front chunks).appendTable signature bytes =
      (UInt32.ofNat (front.length + (layChunks chunks).length),
        laid base front (chunks ++ [(signature, bytes)])) := by
  rw [laid_concat, ← List.length_append]
  rfl

/-- Appending a placeholder lays out a chunk of zeros. -/
theorem appendPlaceholderTable_laid (signature : Vector UInt8 4) (length : UInt32) :
    (laid base front chunks).appendPlaceholderTable signature length =
      (UInt32.ofNat (front.length + (layChunks chunks).length),
        laid base front (chunks ++ [(signature, List.replicate length.toNat 0)])) := by
  have hlength : UInt32.ofNat (List.replicate length.toNat (0 : UInt8)).length = length := by
    rw [List.length_replicate, UInt32.ofNat_toNat]
  rw [laid_concat, ← List.length_append, TableRef.ofPlaced, hlength]
  rfl

/-- The address of an offset does not depend on what was laid out. -/
theorem addressOf_laid (offset : UInt32) :
    (laid base front chunks).addressOf offset = checkedAdd base offset.toUInt64 := rfl

end

end AcpiTables
