import Lumie.Base.ByteMemory
import Lumie.Base.FirstIndex
import Lumie.Base.FoldRun
import Lumie.Base.Layers
import Lumie.Base.MachineInt
import Lumie.Base.Polling
import Lumie.Base.Positional
import Lumie.Base.SlotTable
import Lumie.Base.StoreTrace
import Lumie.Base.TextGrid
import Lumie.Base.WhileLoop
import Lumie.Base.WordStack
import Lumie.Lib.Strings
import Lumie.Lib.StrcmpOrder
import Lumie.Lib.Input
import Lumie.Lib.InputEcho
import Lumie.Lib.InputLine
import Lumie.Lib.InputTyped
import Lumie.Lib.StringCopy
import Lumie.Lib.UintToString
import Lumie.Drivers.Ata
import Lumie.Drivers.AtaDrive
import Lumie.Drivers.AtaStatus
import Lumie.Drivers.Fat
import Lumie.Drivers.FatAddress
import Lumie.Drivers.FatCluster
import Lumie.Drivers.FatLookup
import Lumie.Drivers.FatName
import Lumie.Drivers.FatRoot
import Lumie.Drivers.Keyboard
import Lumie.Drivers.KeyboardExchange
import Lumie.Drivers.KeyboardInit
import Lumie.Drivers.KeyboardModifiers
import Lumie.Drivers.KeyboardShift
import Lumie.Drivers.KeyboardSlot
import Lumie.Drivers.Power
import Lumie.Drivers.Screen
import Lumie.Drivers.ScreenAt
import Lumie.Drivers.ScreenClear
import Lumie.Drivers.ScreenCursor
import Lumie.Drivers.ScreenBounds
import Lumie.Drivers.ScreenCells
import Lumie.Drivers.ScreenGrid
import Lumie.Drivers.ScreenHex
import Lumie.Drivers.ScreenLayers
import Lumie.Drivers.ScreenRect
import Lumie.Drivers.ScreenStray
import Lumie.Drivers.Tar
import Lumie.Drivers.TarArchive
import Lumie.Drivers.TarFields
import Lumie.Drivers.TarList
import Lumie.Drivers.TarWalk
import Lumie.Drivers.Timer
import Lumie.Arch.Gdt
import Lumie.Arch.Idt
import Lumie.Arch.Pic
import Lumie.Arch.Interrupts
import Lumie.Arch.Rsod
import Lumie.Arch.Stubs
import Lumie.Arch.Typing
import Lumie.Arch.Uptime
import Lumie.Shell.Cat
import Lumie.Shell.CatDisk
import Lumie.Shell.CatFile
import Lumie.Shell.Dispatch
import Lumie.Shell.Interleaving
import Lumie.Shell.RootDirectory
import Lumie.Boot
import Lumie.Kmain
import Lumie.Running
