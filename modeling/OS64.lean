import OS64.MemoryInit
import OS64.HeapGrow
import OS64.FatFrameLaw
import OS64.ExfatUnlink
import OS64.VfsBalance
import OS64.VfsUnmount
import OS64.SchedTables
import OS64.SchedLock
import OS64.PageTeardown
import OS64.PartCreate
import OS64.Ide
import OS64.Ahci
import OS64.Checksum
import OS64.DhcpLaw
import OS64.DhcpOptions
import OS64.FileioLaw
import OS64.Calendar
import OS64.PciCap
import OS64.XhciCommand
import OS64.AmlLength
import OS64.Keyboard
import OS64.MemMove
import OS64.Strtok
import OS64.Ioapic
import OS64.UsbCore
import OS64.LineEditor
import OS64.HashLaw
import OS64.HeapData
import OS64.FatAlloc
