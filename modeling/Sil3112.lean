import Sil3112.Lib.Transition
import Sil3112.Lib.Threads
import Sil3112.Lib.Extent
import Sil3112.Ghd.Queue
import Sil3112.Ghd.Waitq
import Sil3112.Ghd.Doneq
import Sil3112.Ghd.Ccc
import Sil3112.Ghd.System
import Sil3112.Ghd.Places
import Sil3112.Ghd.NoLoss
import Sil3112.Ghd.Accounting
import Sil3112.Ghd.NoStrand
import Sil3112.Disk.Bbh
import Sil3112.Disk.BbhIndex
import Sil3112.Disk.BbhRes
import Sil3112.Disk.Dadk
import Sil3112.Ata.CtlrFsm
import Sil3112.Ghd.Dma
import Sil3112.Ata.Dma
import Sil3112.Ata.Iosetup
import Sil3112.Ata.Passthru
import Sil3112.Ata.InitPkt
import Sil3112.Ata.Complete
import Sil3112.Disk.Open
import Sil3112.Disk.Strategy
import Sil3112.Ata.Resources
import Sil3112.Ata.PioBlock
import Sil3112.Ata.Setup
import Sil3112.Ata.AtapiFsm
import Sil3112.Ata.Hardware
import Sil3112.Ata.ByteOrder
import Sil3112.Ata.TaskFile
import Sil3112.Ata.Resid
import Sil3112.Ata.PrdTable
import Sil3112.Ata.Engine
import Sil3112.Ata.InStep
import Sil3112.Ghd.StartOrder
import Sil3112.Ghd.DoneOrder
import Sil3112.Disk.Qsort
import Sil3112.Pciide.Attach
import Sil3112.Ata.Capacity
import Sil3112.Ata.Busy
import Sil3112.Ata.AtapiPio
import Sil3112.Ghd.Cookies
import Sil3112.Ghd.Bind
import Sil3112.Disk.Chunks
import Sil3112.Ata.PioBuffer
import Sil3112.Ata.Fallback
import Sil3112.Ata.Dump
import Sil3112.Ghd.Timer
import Sil3112.Lib.Loop
import Sil3112.Ata.Geometry
import Sil3112.Ata.InitDrive
import Sil3112.Ata.Wait
import Sil3112.Disk.CmdkStrategy
import Sil3112.Disk.BbhBounds
import Sil3112.Disk.Devid
import Sil3112.Ata.Identify
import Sil3112.Lib.Rings
import Sil3112.Ghd.L2
import Sil3112.Ghd.L1
import Sil3112.Ghd.Target
import Sil3112.Ghd.ResetNotify
import Sil3112.Ghd.Scsi
import Sil3112.Disk.Bsearch
import Sil3112.Ata.Blacklist
import Sil3112.Pciide.BusMap
import Sil3112.Lib.Descents
import Sil3112.Disk.Qmerge
import Sil3112.Disk.QmergeAdd
import Sil3112.Disk.QmergeDel
import Sil3112.Disk.QmergeMerge
import Sil3112.Disk.QmergeRun
import Sil3112.Disk.QmergeIodone
import Sil3112.Disk.FcKstat
import Sil3112.Disk.Duplx
import Sil3112.Disk.QsortFlow
import Sil3112.Ghd.Callout
import Sil3112.Ghd.Recovery
import Sil3112.Ata.Instance
import Sil3112.Ata.UnderGhd
import Sil3112.Lib.Store
import Sil3112.Disk.Media
import Sil3112.Disk.Retry
import Sil3112.Lib.Holdings
import Sil3112.Ata.Attach
import Sil3112.Ata.AttachHoldings
