/- Module: EmergenceOS
   digest: All modules. -/

import EmergenceOS.Lib.ByteFile
import EmergenceOS.Lib.Keystream
import EmergenceOS.Lib.Walk
import EmergenceOS.Lib.RingBuffer
import EmergenceOS.Boot.Handlers
import EmergenceOS.Boot.HypercubeFrame
import EmergenceOS.Boot.MultibootTags
import EmergenceOS.Boot.Paging
import EmergenceOS.Boot.Shell
import EmergenceOS.Boot.TimerHandler
import EmergenceOS.Crypto.Argon2Hardener
import EmergenceOS.Crypto.ConsensusKeygen
import EmergenceOS.Crypto.Sha256Stream
import EmergenceOS.Hal.Ahci
import EmergenceOS.Hal.Graphics
import EmergenceOS.Hal.LineEditor
import EmergenceOS.Hal.Modifiers
import EmergenceOS.Hal.NeumannControlPanel
import EmergenceOS.Hal.Pci
import EmergenceOS.Mm.AllocatorFailure
import EmergenceOS.Vdev.BmtTamper
import EmergenceOS.Vdev.BmtDirty
import EmergenceOS.Vdev.BmtLists
import EmergenceOS.Vdev.BmtParity
import EmergenceOS.Vdev.BmtReadBounds
import EmergenceOS.Vdev.BmtValue
import EmergenceOS.Vdev.ContextLossless
import EmergenceOS.Vdev.EvaporateBounds
import EmergenceOS.Vdev.PhaseFoldBounds
import EmergenceOS.Vdev.ProbeRow
import EmergenceOS.Vdev.BmtLens
import EmergenceOS.Vdev.KeyDerivation
import EmergenceOS.Vdev.SubstrateRuns
import EmergenceOS.Vdev.SubstrateRefusal
import EmergenceOS.Vdev.CorrectionRecords
import EmergenceOS.Vdev.ResidueTamper
import EmergenceOS.Vdev.TopologyVictim
import EmergenceOS.Vdev.AuditLog
import EmergenceOS.Core.LogicTransducer
import EmergenceOS.Core.HookTable
import EmergenceOS.Core.PredictiveEngine
import EmergenceOS.Core.StateEngineAtoms
import EmergenceOS.Vdev.TopologyFlat
import EmergenceOS.Vdev.VirtioBlk
import EmergenceOS.Vdev.SubstrateJournal
import EmergenceOS.Vdev.SubstrateHorizon
import EmergenceOS.Vdev.BmtStore
import EmergenceOS.Core.TopologicalVM
import EmergenceOS.Core.SpatialResolve
import EmergenceOS.Core.VmxController
import EmergenceOS.Crypto.MasterSeed
import EmergenceOS.Vdev.JournalDriver
import EmergenceOS.Vdev.SlotViews
import EmergenceOS.Boot.MemoryMap
import EmergenceOS.Boot.Interrupts
import EmergenceOS.Hal.InterruptTable
import EmergenceOS.Boot.Login
