import MissyKernel.ByteMemory
import MissyKernel.WordBitmap
import MissyKernel.Runs
import MissyKernel.Kmemlow
import MissyKernel.KmemlowInit
import MissyKernel.MemoryMap
import MissyKernel.Balloc
import MissyKernel.FrameOwnership
import MissyKernel.UsedCounter
import MissyKernel.FrameAllocators
import MissyKernel.TwoLevelPaging
import MissyKernel.BootPaging
import MissyKernel.BootTables
import MissyKernel.Pagemngr
import MissyKernel.PageLocality
import MissyKernel.TableFrames
import MissyKernel.KernelHeap
import MissyKernel.HeapBreak
import MissyKernel.HeapFailure
import MissyKernel.CircularList
import MissyKernel.Multiboot
import MissyKernel.MultibootInit
import MissyKernel.TagSearch
import MissyKernel.MmapCalls
import MissyKernel.MmapEnumeration
import MissyKernel.Relocation
import MissyKernel.MapSurvival
import MissyKernel.RangePartition
import MissyKernel.Malloc
import MissyKernel.MallocHeap
import MissyKernel.MallocSpec
import MissyKernel.FreeMerges
import MissyKernel.MallocRuns
import MissyKernel.MallocGrowth
import MissyKernel.RequestSizes
import MissyKernel.HeaderAlignment
import MissyKernel.Calloc
import MissyKernel.VideoMemory
import MissyKernel.Display
import MissyKernel.Kterm
import MissyKernel.TextLayout
import MissyKernel.TerminalText
import MissyKernel.Pic
import MissyKernel.Cpu
import MissyKernel.PicLines
import MissyKernel.PicEoi
import MissyKernel.Chrdev
import MissyKernel.MemoryObject
import MissyKernel.Numerals
import MissyKernel.Vprintf
import MissyKernel.VprintfText
import MissyKernel.VprintfCount
import MissyKernel.KiPrintf
import MissyKernel.KiPrintfScan
import MissyKernel.NumeralBuffers
import MissyKernel.EarlyInit
import MissyKernel.SignedNumerals
import MissyKernel.LineEditing
import MissyKernel.HarmlessFrees
import MissyKernel.StringCompare
import MissyKernel.StringCopy
import MissyKernel.FreeSearch
import MissyKernel.Assembly
import MissyKernel.Exceptions
import MissyKernel.ConsoleText
import MissyKernel.ExceptionScreens
import MissyKernel.Simulation
import MissyKernel.InterruptRuns
import MissyKernel.Uart
import MissyKernel.Serial
import MissyKernel.Timer
import MissyKernel.KernelMain
import MissyKernel.FlatMemory
import MissyKernel.HeapMemory
import MissyKernel.BootHeap
