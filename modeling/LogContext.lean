import LogContext.ContextProgram
import LogContext.Demonstration
import LogContext.LoggerProgram
import LogContext.Provider
import LogContext.SessionProgram
import LogContext.StackProgram
import LogContext.StreamProgram
import LogContext.Proofs.SnapshotStack
import LogContext.Proofs.HookReplay
import LogContext.Proofs.StoreMirror
import LogContext.Proofs.ProjectionRun
import LogContext.Proofs.ContextEntries
import LogContext.Proofs.WorldStore
import LogContext.Proofs.RecordAttributes
import LogContext.Proofs.SectionScope
import LogContext.Proofs.LexicalScope
import LogContext.Proofs.HookDepth
import LogContext.Proofs.SectionListings
import LogContext.Proofs.FrameBalance
import LogContext.Proofs.OpenedSection
import LogContext.Proofs.SectionBracket
import LogContext.Proofs.FetchedSection
import LogContext.Proofs.ActiveKeys
import LogContext.Proofs.StoreCalls
import LogContext.Proofs.DisjointKeys
import LogContext.Proofs.SharedStore
import LogContext.Proofs.SectionedItems
import LogContext.Proofs.ContextTables
import LogContext.Proofs.ContextSteps
import LogContext.Proofs.ContextIsolation
import LogContext.Proofs.LineBreaks
import LogContext.Proofs.JsonRoundTrip
import LogContext.Proofs.LoggedRuns
import LogContext.Proofs.ExchangedStores
import LogContext.Proofs.FailedPush
import LogContext.Proofs.PushedMappings
import LogContext.Proofs.ValueChanges
import LogContext.Proofs.StoreRepair
import LogContext.Proofs.DerivedExecutions
import LogContext.Proofs.DerivedLoggers
import LogContext.Proofs.ToldChanges
import LogContext.Proofs.CanonicalFrames
import LogContext.Proofs.RealWrites
import LogContext.Proofs.ReadValues
import LogContext.Proofs.FailedReading
import LogContext.Proofs.JsonLines
import LogContext.Proofs.QuotedBodies
import LogContext.Proofs.TextContext
import LogContext.Proofs.ExportedBatches
import LogContext.Proofs.ConfigSources
