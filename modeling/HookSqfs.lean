import HookSqfs.Interaction.Program
import HookSqfs.Tables.KeyedList
import HookSqfs.Manager.DataModel
import HookSqfs.Manager.World
import HookSqfs.Lexical.Components
import HookSqfs.Lexical.Rendering
import HookSqfs.Paths.LexicalFunctions
import HookSqfs.Paths.Normalization
import HookSqfs.Paths.Containment
import HookSqfs.Manager.Logging
import HookSqfs.Manager.Lookup
import HookSqfs.Hooks.DirHooks
import HookSqfs.Hooks.FileHooks
import HookSqfs.Hooks.PathHooks
import HookSqfs.Manager.LookupOutcome
import HookSqfs.Hooks.PathOutcomes
import HookSqfs.Hooks.OpenOutcomes
import HookSqfs.Hooks.DirOutcomes
import HookSqfs.Manager.BackingOutcome
import HookSqfs.Hooks.SeekOutcomes
import HookSqfs.Hooks.FileSize
import HookSqfs.Hooks.ReadOnlyLayer
import HookSqfs.Hooks.PassThrough
import HookSqfs.Hooks.DirStreams
import HookSqfs.Hooks.MergedListing
import HookSqfs.Hooks.UpperLayer
import HookSqfs.Interaction.Interleaving
import HookSqfs.Manager.RequestKinds
import HookSqfs.Hooks.ReadOutcomes
import HookSqfs.Hooks.FdOutlines
import HookSqfs.Hooks.OpenCloseOutlines
import HookSqfs.Hooks.StaleDescriptors
import HookSqfs.Tables.Cursors
import HookSqfs.Hooks.CursorRefinement
import HookSqfs.Hooks.SeekArithmetic
import HookSqfs.Hooks.EndOfFile
import HookSqfs.Paths.CanonicalForm
import HookSqfs.Hooks.EntryNames
import HookSqfs.Interaction.Tracking
import HookSqfs.Manager.Ledger
import HookSqfs.Hooks.EnumerationLedger
import HookSqfs.Paths.EntryPaths
import HookSqfs.Hooks.StatAgreement
import HookSqfs.Install.HookTable
import HookSqfs.Install.HookedOnce
import HookSqfs.Manager.Image
import HookSqfs.Manager.ImageLoading
import HookSqfs.Hooks.LockDiscipline
import HookSqfs.Interaction.Mutex
import HookSqfs.Hooks.ThreadPool
import HookSqfs.Hooks.Definedness
import HookSqfs.Interaction.Discipline
import HookSqfs.Hooks.Requests
import HookSqfs.Hooks.DirSystem
import HookSqfs.Hooks.DirGhost
import HookSqfs.Hooks.DirCalls
import HookSqfs.Hooks.DirOwnership
import HookSqfs.Hooks.DirDiscipline
import HookSqfs.Hooks.AtomicOpendir
import HookSqfs.Hooks.UnionListing
import HookSqfs.Interaction.Twins
import HookSqfs.Manager.LogTwins
import HookSqfs.Hooks.LogTwins
import HookSqfs.Hooks.Noninterference
import HookSqfs.Paths.Rerooting
import HookSqfs.Paths.NormalForm
import HookSqfs.Memory.Regions
import HookSqfs.Paths.NormalizerArrays
import HookSqfs.Manager.LogFilter
import HookSqfs.Manager.LogText
import HookSqfs.Tables.Queues
import HookSqfs.Hooks.StreamDelivery
import HookSqfs.Interaction.Serializability
import HookSqfs.Hooks.Serialization
import HookSqfs.Interaction.Contracts
import HookSqfs.Hooks.LoadedImage
import HookSqfs.Clients.ConcurrentTest
import HookSqfs.Clients.DescriptorContract
import HookSqfs.Clients.HookContracts
import HookSqfs.Clients.TestOutcomes
import HookSqfs.Clients.SharedReaders
import HookSqfs.Clients.ConcurrentRuns
import HookSqfs.Hooks.LiveObjects
import HookSqfs.Hooks.FileHandling
import HookSqfs.Hooks.DirHandling
import HookSqfs.Hooks.MemorySafety
import HookSqfs.Interaction.Elision
import HookSqfs.Hooks.Reentry
import HookSqfs.Hooks.ImageDescriptors
import HookSqfs.Hooks.ReentrantThreads
import HookSqfs.Install.Lifecycle
