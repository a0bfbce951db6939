import AcpiTables.Aml
import AcpiTables.AmlBuild
import AcpiTables.AmlBuildTerms
import AcpiTables.AmlMachine
import AcpiTables.AmlReference
import AcpiTables.AmlTree
import AcpiTables.Blob
import AcpiTables.BlobRuns
import AcpiTables.Build
import AcpiTables.BuildChunks
import AcpiTables.BuildGraph
import AcpiTables.BuildParts
import AcpiTables.BuildTables
import AcpiTables.ByteSeq
import AcpiTables.Checked
import AcpiTables.ClosedRanges
import AcpiTables.Config
import AcpiTables.ContainerTree
import AcpiTables.Cpus
import AcpiTables.CrsRanges
import AcpiTables.Descriptors
import AcpiTables.DeviceIds
import AcpiTables.Dsdt
import AcpiTables.DsdtFrames
import AcpiTables.DsdtLength
import AcpiTables.DsdtMachine
import AcpiTables.DsdtParse
import AcpiTables.DsdtPaths
import AcpiTables.DsdtReference
import AcpiTables.DsdtTerms
import AcpiTables.DsdtTree
import AcpiTables.EisaId
import AcpiTables.Encoding
import AcpiTables.Fadt
import AcpiTables.FadtLayout
import AcpiTables.FrameFields
import AcpiTables.Grammar
import AcpiTables.Header
import AcpiTables.HostBridges
import AcpiTables.InterruptRouting
import AcpiTables.Ivrs
import AcpiTables.IvrsEntries
import AcpiTables.IvrsTopology
import AcpiTables.Lexical
import AcpiTables.Madt
import AcpiTables.MadtFraming
import AcpiTables.MethodCalls
import AcpiTables.NameStrings
import AcpiTables.Namespace
import AcpiTables.Objects
import AcpiTables.Overlong
import AcpiTables.PackedFields
import AcpiTables.Padding
import AcpiTables.PaddingGaps
import AcpiTables.PciHost
import AcpiTables.PciWindows
import AcpiTables.Placement
import AcpiTables.Pptt
import AcpiTables.PpttOrder
import AcpiTables.PpttTopology
import AcpiTables.PpttTree
import AcpiTables.Q35Reference
import AcpiTables.Q35Routing
import AcpiTables.QemuAddr
import AcpiTables.QemuOptions
import AcpiTables.RawBuilders
import AcpiTables.Reader
import AcpiTables.ReferenceTables
import AcpiTables.ReferenceWords
import AcpiTables.RootBridge
import AcpiTables.RootBus
import AcpiTables.RoundTrip
import AcpiTables.SeparatedFields
import AcpiTables.Srat
import AcpiTables.SratMap
import AcpiTables.SratMemory
import AcpiTables.SratRecords
import AcpiTables.Switches
import AcpiTables.TableCodec
import AcpiTables.Tables
import AcpiTables.TreeReference
import AcpiTables.Vm
import AcpiTables.VmAgreement
import AcpiTables.VmBuild
import AcpiTables.VmDevices
import AcpiTables.VmOrder
import AcpiTables.Walk
