import TelnetDebug.Library.Buffer
import TelnetDebug.Library.Guarded
import TelnetDebug.Library.Traced
import TelnetDebug.Library.LineZipper
import TelnetDebug.Library.CommandHistory
import TelnetDebug.Library.Strtol
import TelnetDebug.Library.Terminal
import TelnetDebug.Library.Screen
import TelnetDebug.Library.Descriptors
import TelnetDebug.Library.Runs
import TelnetDebug.Library.Strtok
import TelnetDebug.Library.Numeral
import TelnetDebug.Library.Printf
import TelnetDebug.Library.Calls
import TelnetDebug.Library.Refusals
import TelnetDebug.Library.Linked
import TelnetDebug.Library.Stdio
import TelnetDebug.Library.RecordRing
import TelnetDebug.Symbols.SymbolTable
import TelnetDebug.Symbols.Resolution
import TelnetDebug.Symbols.RunTimeAddress
import TelnetDebug.Symbols.ElfFormat
import TelnetDebug.Symbols.Loader
import TelnetDebug.Symbols.TablePair
import TelnetDebug.Symbols.LoaderSteps
import TelnetDebug.Symbols.SectionHeaders
import TelnetDebug.Symbols.SectionScan
import TelnetDebug.Symbols.LoaderOutcomes
import TelnetDebug.Symbols.TableOutcomes
import TelnetDebug.Symbols.TableLoop
import TelnetDebug.Symbols.TableBounds
import TelnetDebug.Symbols.FileInside
import TelnetDebug.Symbols.LoaderBounds
import TelnetDebug.Symbols.LoadedFiles
import TelnetDebug.Symbols.SingleTable
import TelnetDebug.Symbols.Identify
import TelnetDebug.Symbols.Accumulation
import TelnetDebug.Symbols.LinkedTables
import TelnetDebug.Symbols.FailedLoad
import TelnetDebug.Symbols.Maps
import TelnetDebug.Symbols.MapsFields
import TelnetDebug.Symbols.MapsRoundTrip
import TelnetDebug.Symbols.LoadedObjects
import TelnetDebug.Symbols.FileTables
import TelnetDebug.Symbols.ProcessLookup
import TelnetDebug.Session.State
import TelnetDebug.Command.Parse
import TelnetDebug.Command.RoundTrip
import TelnetDebug.Command.CallSyntax
import TelnetDebug.Command.ScannerAccesses
import TelnetDebug.Command.PassedValues
import TelnetDebug.Session.Iac
import TelnetDebug.Session.Decode
import TelnetDebug.Session.Subnegotiation
import TelnetDebug.Session.FilterAccesses
import TelnetDebug.Session.Handlers
import TelnetDebug.Session.Shell
import TelnetDebug.Session.Editing
import TelnetDebug.Session.History
import TelnetDebug.Session.Step
import TelnetDebug.Session.FilteredLength
import TelnetDebug.Session.Cursor
import TelnetDebug.Session.LineBound
import TelnetDebug.Session.EndOfInput
import TelnetDebug.Session.Printable
import TelnetDebug.Session.LineEditor
import TelnetDebug.Session.Echo
import TelnetDebug.Session.HistoryKeys
import TelnetDebug.Session.HistoryStore
import TelnetDebug.Session.HistoryIndex
import TelnetDebug.Session.HistoryRedraw
import TelnetDebug.Session.LatestCommand
import TelnetDebug.Session.HistoryContents
import TelnetDebug.Session.Sent
import TelnetDebug.Session.Leaving
import TelnetDebug.Session.Screen
import TelnetDebug.Session.Segmentation
import TelnetDebug.Session.WriteLoop
import TelnetDebug.Lists.SllLinkList
import TelnetDebug.Lists.Refinement
import TelnetDebug.Lists.ListRun
import TelnetDebug.Lists.TailPointer
import TelnetDebug.Lists.IndexedInsertion
import TelnetDebug.Lists.Draining
import TelnetDebug.Log.Registry
import TelnetDebug.Log.Registration
import TelnetDebug.Log.Enumeration
import TelnetDebug.Log.WriteLog
import TelnetDebug.Log.CallOutcomes
import TelnetDebug.Log.Rotation
import TelnetDebug.Log.FileContents
import TelnetDebug.Log.StartUp
import TelnetDebug.Log.RecordBounds
import TelnetDebug.Log.ClosedStreams
import TelnetDebug.Redirect.RedirectIo
import TelnetDebug.Redirect.Leak
import TelnetDebug.Redirect.Interleaving
import TelnetDebug.Redirect.Console
import TelnetDebug.Redirect.Exhaustion
import TelnetDebug.Server.TelnetSer
import TelnetDebug.Server.Isolation
import TelnetDebug.Server.RefusedConnection
import TelnetDebug.Server.Ledger
import TelnetDebug.Server.Draining
import TelnetDebug.Symbols.LookupLeak
import TelnetDebug.Command.Process
import TelnetDebug.Command.TypedCall
import TelnetDebug.Command.ProcessCall
