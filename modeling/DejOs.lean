import DejOs.Lib.Interleaving
import DejOs.Lib.RadixTable
import DejOs.Lib.Loop
import DejOs.Lib.ByteMemory
import DejOs.Lib.RealMode
import DejOs.Lib.RealModeString
import DejOs.Lib.WriteOnce
import DejOs.Allocator
import DejOs.MemoryInit
import DejOs.AllocatorSmp
import DejOs.AllocatorAlone
import DejOs.AllocatorRelease
import DejOs.LockNesting
import DejOs.ApEntry
import DejOs.PageTable
import DejOs.MapPage
import DejOs.MapSequence
import DejOs.AddressMap
import DejOs.VirtualMemory
import DejOs.Mmio
import DejOs.UserSpace
import DejOs.AddressSpaces
import DejOs.Keyboard
import DejOs.Idt
import DejOs.Ecam
import DejOs.BringUp
import DejOs.BringUpPages
import DejOs.CpuIdentity
import DejOs.Tss
import DejOs.Ipi
import DejOs.Watchdog
import DejOs.Pcie
import DejOs.Fat
import DejOs.FatChains
import DejOs.FatTool
import DejOs.MachineCheck
import DejOs.Nmi
import DejOs.WatchdogAnger
import DejOs.WatchdogSmp
import DejOs.PcieBars
import DejOs.CString
import DejOs.Acpi
import DejOs.KeyboardHeld
import DejOs.Serial
import DejOs.Log
import DejOs.LogFormat
import DejOs.LogLines
import DejOs.PageList
import DejOs.InterruptFrame
import DejOs.TssStack
import DejOs.TssDescriptor
import DejOs.UserEntry
import DejOs.MmioBars
import DejOs.AcpiParse
import DejOs.Sil
import DejOs.StringCopy
import DejOs.StringCompare
import DejOs.KeyboardInit
import DejOs.Framebuffer
import DejOs.Panic
import DejOs.BootMemory
import DejOs.Chs
import DejOs.DiskRead
import DejOs.LoadStage2
import DejOs.BootStage1
import DejOs.LogSmp
import DejOs.BootRecovery
