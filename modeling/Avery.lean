import Avery.Library.Words
import Avery.Library.Transition
import Avery.Library.Bitmap
import Avery.Kernel.Types
import Avery.Kernel.PhysicalInvariant
import Avery.Kernel.PhysicalInit
import Avery.Kernel.PhysicalRuns
import Avery.Kernel.PhysicalFill
import Avery.Kernel.PhysicalCalls
import Avery.Kernel.PhysicalSearch
import Avery.Kernel.PageTables
import Avery.Kernel.PageMap
import Avery.Kernel.HardwareWalk
import Avery.Kernel.AccessRights
import Avery.Library.ByteMemory
import Avery.Library.LinkedList
import Avery.Kernel.Heap
import Avery.Kernel.HeapHeaders
import Avery.Kernel.HeapBlocks
import Avery.Kernel.HeapInvariant
import Avery.Kernel.HeapOperations
import Avery.Kernel.HeapCalls
import Avery.Kernel.HeapRuns
import Avery.Kernel.HeapPages
import Avery.Kernel.HeapGrowth
import Avery.Fs.Paths
import Avery.Fs.Volume
import Avery.Fs.Directories
import Avery.Kernel.HeapAccounting
import Avery.Fs.Geometry
import Avery.Library.Chains
import Avery.Fs.Slots
import Avery.Fs.Requests
import Avery.Fs.Walks
import Avery.Fs.Allocation
import Avery.Drivers.Binding
import Avery.Drivers.Keyboard
import Avery.Drivers.States
import Avery.Fs.Lookup
import Avery.Fs.MountPaths
import Avery.Fs.MountTable
import Avery.Fs.Rewrites
import Avery.Kernel.PageRanges
import Avery.Kernel.RangeOutcomes
import Avery.Library.Leases
import Avery.Kernel.HeapLimits
import Avery.Kernel.HeapOverflow
import Avery.Kernel.HeapShortage
import Avery.Kernel.HeapRoundTrip
import Avery.Kernel.HeapPayloads
import Avery.Kernel.HeapCalloc
import Avery.Kernel.Mmio
import Avery.Fs.Contents
import Avery.Fs.Creation
import Avery.Fs.Files
import Avery.Fs.Removal
import Avery.Fs.FileContents
import Avery.Fs.Changes
import Avery.Fs.FileChanges
import Avery.Fs.FreeChains
import Avery.Fs.FailedGrowth
import Avery.Fs.StoredSizes
import Avery.Fs.GrownBytes
import Avery.Fs.DirectoryLayout
import Avery.Fs.ShortNames
import Avery.Fs.PathSpelling
import Avery.Fs.NameSets
import Avery.Fs.WideNames
import Avery.Fs.ParentLinks
import Avery.Library.Moves
import Avery.Graphics.Font
import Avery.Graphics.Framebuffer
import Avery.Graphics.Pixels
import Avery.Graphics.CopyRect
import Avery.Graphics.Console
import Avery.Graphics.Scrolling
import Avery.Graphics.TextGrid
import Avery.Graphics.Cursor
import Avery.Graphics.CursorRuns
import Avery.Graphics.AlikeConsoles
import Avery.Graphics.LineEditing
import Avery.Drivers.Ata
import Avery.Drivers.Pci
import Avery.Drivers.PciBars
import Avery.Drivers.ShiftKeys
import Avery.Fs.ChainGrowth
import Avery.Fs.PathScanners
import Avery.Io.Numbers
import Avery.Library.Cells
import Avery.Library.Owners
import Avery.Utils.LinkedLists
import Avery.Utils.Strings
import Avery.Utils.Vectors
import Avery.Library.Simulation
import Avery.Interrupts.Hardware
import Avery.Interrupts.Controller
import Avery.Interrupts.Masks
import Avery.Interrupts.Irq
import Avery.Interrupts.Delivery
import Avery.Library.Stack
import Avery.Interrupts.Stubs
import Avery.Interrupts.Descriptors
import Avery.Drivers.PciEnumeration
import Avery.Drivers.AtaTransfers
import Avery.Library.ByteFile
import Avery.Fs.FileSessions
import Avery.Fs.Frames
import Avery.Fs.HandleFrames
import Avery.Fs.NewNames
import Avery.Library.FileStore
import Avery.Fs.PathFrames
import Avery.Fs.Volumes
import Avery.Fs.VolumeCalls
import Avery.Fs.VolumePaths
import Avery.Fs.VolumeRuns
import Avery.Kernel.RootSlots
import Avery.Kernel.Windows
