import ShapeQuake.Library.Bytes
import ShapeQuake.Library.Links
import ShapeQuake.Library.Ownership
import ShapeQuake.Library.Runs
import ShapeQuake.Library.Spans
import ShapeQuake.Library.Waiting
import ShapeQuake.Status
import ShapeQuake.Heap
import ShapeQuake.HeapTrackerProofs
import ShapeQuake.HeapLock
import ShapeQuake.Allocator
import ShapeQuake.AllocatorInvariants
import ShapeQuake.RegionProofs
import ShapeQuake.ArenaContents
import ShapeQuake.ArenaCalls
import ShapeQuake.ArenaExhaustion
import ShapeQuake.ArenaIds
import ShapeQuake.ArenaCapacity
import ShapeQuake.ArenaRounds
import ShapeQuake.LinkedBlocks
import ShapeQuake.ArenaShape
import ShapeQuake.ArenaDestruction
import ShapeQuake.Vma
import ShapeQuake.AllocationSums
import ShapeQuake.VmaProcesses
import ShapeQuake.VmaZones
import ShapeQuake.SharedData
import ShapeQuake.Reactor
import ShapeQuake.ReactorSlots
import ShapeQuake.ReactorPasses
import ShapeQuake.EnqueueBounds
import ShapeQuake.ReactorRaces
import ShapeQuake.ReactorRacesProofs
import ShapeQuake.ReactorRefinement
import ShapeQuake.ReactorHistory
import ShapeQuake.ReactorSerial
import ShapeQuake.Shutdown
import ShapeQuake.ShutdownProofs
import ShapeQuake.Pools
import ShapeQuake.PoolConstruction
import ShapeQuake.PoolTeardown
import ShapeQuake.PoolZones
import ShapeQuake.Tokenizer
import ShapeQuake.TokenizerProofs
import ShapeQuake.ShellCore
import ShapeQuake.Terminals
import ShapeQuake.Executer
import ShapeQuake.ExecuterInvariants
import ShapeQuake.LineEditorProofs
import ShapeQuake.LineBuffer
import ShapeQuake.ReadThreadProofs
import ShapeQuake.DescriptorProofs
import ShapeQuake.ContextProofs
import ShapeQuake.ServerNet
import ShapeQuake.ServerNetProofs
import ShapeQuake.PayloadScans
import ShapeQuake.ReceiveTermination
import ShapeQuake.HeaderExchange
import ShapeQuake.PayloadOwnership
import ShapeQuake.ServerContexts
import ShapeQuake.DatabaseClosing
import ShapeQuake.ServerTeardown
import ShapeQuake.ServerLoop
import ShapeQuake.ArenaMemory
import ShapeQuake.ArenaStore
import ShapeQuake.Storage
import ShapeQuake.StorageProofs
import ShapeQuake.CommandLog
import ShapeQuake.TerminalUi
import ShapeQuake.Parser
import ShapeQuake.CommandBuffer
import ShapeQuake.Heredoc
import ShapeQuake.HeredocProofs
import ShapeQuake.Pipeline
import ShapeQuake.PipelineProofs
import ShapeQuake.Redirect
import ShapeQuake.RedirectProofs
import ShapeQuake.RedirectedFiles
import ShapeQuake.CommandLines
import ShapeQuake.TokenMemory
import ShapeQuake.CommandPath
import ShapeQuake.PipelineCommands
import ShapeQuake.PipelineData
import ShapeQuake.PipelineFlow
import ShapeQuake.ShellSession
import ShapeQuake.ShellScreen
import ShapeQuake.EmptyCommands
import ShapeQuake.HeredocDelimiter
import ShapeQuake.HeapCounters
import ShapeQuake.HeapFreeAll
import ShapeQuake.PacketStream
import ShapeQuake.ServerSessions
import ShapeQuake.TerminalEmulator
import ShapeQuake.TerminalRelay
