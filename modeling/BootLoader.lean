import BootLoader.Lib.Memory
import BootLoader.Lib.Loop
import BootLoader.Lib.Words
import BootLoader.Lib.Run
import BootLoader.Lib.RadixTables
import BootLoader.Lib.Paging
import BootLoader.Lib.Stack
import BootLoader.Lib.Pic8259
import BootLoader.Cpu.Long
import BootLoader.Cpu.Stack
import BootLoader.Cpu.Machine
import BootLoader.Cpu.Interrupt
import BootLoader.ThirdStage.Layout
import BootLoader.ThirdStage.Video
import BootLoader.ThirdStage.MemRegions
import BootLoader.ThirdStage.BigPageTable
import BootLoader.ThirdStage.Allocator
import BootLoader.ThirdStage.Proofs.VideoFrame
import BootLoader.ThirdStage.Proofs.MemRegions
import BootLoader.ThirdStage.Proofs.RegionCheck
import BootLoader.ThirdStage.Proofs.Allocator
import BootLoader.ThirdStage.Proofs.ClearPage
import BootLoader.ThirdStage.Proofs.Invariant
import BootLoader.ThirdStage.Proofs.Refinement
import BootLoader.ThirdStage.Proofs.Progress
import BootLoader.ThirdStage.Proofs.Termination
import BootLoader.ThirdStage.Proofs.SoftwareTables
import BootLoader.ThirdStage.Proofs.HardwareWalk
import BootLoader.ThirdStage.Proofs.IdentityMap
import BootLoader.ThirdStage.Tester
import BootLoader.ThirdStage.Proofs.Tester
import BootLoader.ThirdStage.Proofs.DoubleAllocation
import BootLoader.ThirdStage.Pic
import BootLoader.ThirdStage.Idt
import BootLoader.ThirdStage.Proofs.Pic
import BootLoader.ThirdStage.Proofs.Stubs
import BootLoader.ThirdStage.Proofs.InService
import BootLoader.ThirdStage.Proofs.IdtTables
import BootLoader.ThirdStage.Proofs.Dispatch
import BootLoader.ThirdStage.Proofs.SlaveLines
import BootLoader.ThirdStage.Proofs.Screen
import BootLoader.ThirdStage.Proofs.VideoCells
import BootLoader.ThirdStage.Proofs.VideoCursor
import BootLoader.ThirdStage.Proofs.VideoScroll
import BootLoader.ThirdStage.Proofs.VideoHexa
import BootLoader.ThirdStage.Pci
import BootLoader.ThirdStage.Proofs.Pci
import BootLoader.ThirdStage.Proofs.PciHeader
import BootLoader.ThirdStage.Nic
import BootLoader.ThirdStage.Proofs.NicCells
import BootLoader.ThirdStage.Proofs.NicRings
import BootLoader.ThirdStage.Proofs.NicInit
import BootLoader.ThirdStage.Proofs.NicRuns
import BootLoader.Lib.Ring
import BootLoader.Lib.Terminal
import BootLoader.ThirdStage.NicService
import BootLoader.ThirdStage.Proofs.NicReceive
import BootLoader.ThirdStage.Proofs.NicStarvation
import BootLoader.ThirdStage.Proofs.NicHandler
import BootLoader.ThirdStage.NicAccess
import BootLoader.ThirdStage.Proofs.NicPorts
import BootLoader.ThirdStage.Proofs.NicInterruption
import BootLoader.ThirdStage.Proofs.NicInterleaving
import BootLoader.ThirdStage.Proofs.NicReadAccess
import BootLoader.ThirdStage.Proofs.NicDelivery
import BootLoader.ThirdStage.Proofs.NicDispatch
import BootLoader.ThirdStage.NicTransmit
import BootLoader.ThirdStage.Proofs.NicTransmit
import BootLoader.ThirdStage.Proofs.FrameChoice
import BootLoader.ThirdStage.Proofs.Rewalk
import BootLoader.Lib.Segment
import BootLoader.Cpu.RealMode
import BootLoader.Cpu.RealCalls
import BootLoader.FirstStage.BiosPrint
import BootLoader.FirstStage.Proofs.BiosPrint
import BootLoader.FirstStage.Proofs.BiosPrintHexa
import BootLoader.Lib.Geometry
import BootLoader.FirstStage.Disk
import BootLoader.FirstStage.Proofs.Geometry
import BootLoader.FirstStage.Proofs.ReadSectors
import BootLoader.FirstStage.Boot
import BootLoader.FirstStage.Proofs.Boot
import BootLoader.SecondStage.A20Gate
import BootLoader.SecondStage.Proofs.A20Gate
import BootLoader.SecondStage.MemoryScanner
import BootLoader.SecondStage.Proofs.MemoryScanner
import BootLoader.SecondStage.Proofs.MemoryMap
import BootLoader.SecondStage.LongModeCheck
import BootLoader.SecondStage.Proofs.LongModeCheck
import BootLoader.SecondStage.PageTable
import BootLoader.SecondStage.Proofs.PageTable
import BootLoader.Lib.ModeSwitch
import BootLoader.SecondStage.LongMode
import BootLoader.SecondStage.Main
import BootLoader.SecondStage.Proofs.LongMode
import BootLoader.SecondStage.Proofs.Main
import BootLoader.SecondStage.Proofs.Chain
import BootLoader.ThirdStage.Proofs.Handover
import BootLoader.ThirdStage.NicSetup
import BootLoader.ThirdStage.Proofs.NicDetection
import BootLoader.ThirdStage.Proofs.NicBringUp
import BootLoader.ThirdStage.Ata
import BootLoader.ThirdStage.Proofs.VideoTexts
import BootLoader.ThirdStage.Proofs.AtaPolling
import BootLoader.ThirdStage.Proofs.AtaTransfer
import BootLoader.ThirdStage.Proofs.AtaStatus
import BootLoader.ThirdStage.Proofs.AtaSlots
import BootLoader.Lib.Areas
import BootLoader.ThirdStage.Proofs.NicAreas
import BootLoader.Lib.Fields
import BootLoader.ThirdStage.Proofs.ArpReply
