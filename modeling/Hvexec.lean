import Hvexec.Lib.ByteMemory
import Hvexec.Lib.IntervalList
import Hvexec.Lib.RadixTable
import Hvexec.Lib.BitField
import Hvexec.Lib.Interposition
import Hvexec.Lib.BlockWrites
import Hvexec.Lib.Service
import Hvexec.Lib.Windows
import Hvexec.Lib.Descriptor
import Hvexec.VmMem
import Hvexec.RegionList
import Hvexec.MemRun
import Hvexec.GuestMemory
import Hvexec.PhysMemory
import Hvexec.PageTables
import Hvexec.AddressMap
import Hvexec.HostSupply
import Hvexec.Loader
import Hvexec.SetUpStates
import Hvexec.Vcpu
import Hvexec.Emu
import Hvexec.BufferCheck
import Hvexec.EmuSyscall
import Hvexec.VcpuRun
import Hvexec.SyscallExits
import Hvexec.Confinement
import Hvexec.Arguments
import Hvexec.MainRun
import Hvexec.BootHandoff
import Hvexec.ArgvLayout
import Hvexec.FirstFit
import Hvexec.Transfers
import Hvexec.LowRegions
import Hvexec.AfterInit
import Hvexec.KernelLoad
import Hvexec.ImageLoad
import Hvexec.MachoParser
import Hvexec.MapFailure
import Hvexec.StaleMemory
import Hvexec.OpenPath
import Hvexec.HandlerLaws
import Hvexec.MachoFile
import Hvexec.MachoSoundness
import Hvexec.GuestWalk
import Hvexec.MapTwice
import Hvexec.TableTree
import Hvexec.HostCalls
import Hvexec.AddressSpace
import Hvexec.Application
import Hvexec.Plugin
import Hvexec.BootAsm
import Hvexec.BootRules
import Hvexec.BootSequence
import Hvexec.BootSegments
import Hvexec.BootTransfer
import Hvexec.MemDump
import Hvexec.MachoDump
import Hvexec.MainStatus
import Hvexec.GuestEcho
import Hvexec.GuestCat
import Hvexec.GuestStdlib
import Hvexec.GuestTestSyscall
import Hvexec.GuestRun
