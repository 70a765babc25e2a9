import Dnf.Foundation.Transition
import Dnf.Foundation.PyInt
import Dnf.Lock.Process
import Dnf.Lock.Invariant
import Dnf.Lock.Exclusion
import Dnf.Gpg.FailClosed
import Dnf.History.Removable
import Dnf.Groups.Contradiction
import Dnf.Replay.Malformed
import Dnf.Replay.Undo
import Dnf.Replay.Erasures
import Dnf.Conf.Releasever
import Dnf.Transaction.Conservation
import Dnf.Transaction.Record
import Dnf.Shell.LastResolve
import Dnf.Shell.Reset
import Dnf.Persist.ExpiredRepos
import Dnf.Persist.Tempfiles
import Dnf.Repoquery.Recursive
import Dnf.Lock.Enter
import Dnf.Download.Totals
import Dnf.Cli.Progress
import Dnf.Cli.AlteredMarks
import Dnf.Cli.TransactionSpecs
import Dnf.Lock.Nested
import Dnf.Cli.Aliases
import Dnf.Cli.HistoryBlocks
import Dnf.Listing.Concatenation
import Dnf.Listing.Highlighting
import Dnf.Logging.FullLogs
import Dnf.Sack.Excludes
import Dnf.Transaction.Counterpart
import Dnf.Transaction.Sync
import Dnf.Transaction.WholeRun
import Dnf.Cli.GatedRun
import Dnf.Gpg.Verdict
import Dnf.Gpg.ImportedKeys
import Dnf.Gpg.SameKey
import Dnf.Cli.HistoryOutcomes
import Dnf.Cli.Confirmation
import Dnf.Cli.ReasonChanges
import Dnf.Persist.Makecache
import Dnf.Shell.KeptBack
import Dnf.Groups.Excluding
import Dnf.Groups.ExpandGroups
import Dnf.Cli.GroupLists
import Dnf.Cli.Search
import Dnf.Cli.RepoSelection
import Dnf.Plugins.Loading
import Dnf.Plugins.Unloading
import Dnf.Modules.ModuleDict
import Dnf.Modules.Enabling
import Dnf.Modules.Removing
import Dnf.Cli.Columns
import Dnf.Cli.ColumnWidths
import Dnf.Cli.FmtColumns
import Dnf.Cli.AlignedRows
import Dnf.Repoquery.Tree
import Dnf.Repoquery.TreeComplete
import Dnf.Repoquery.QueryFormat
import Dnf.Repoquery.FaithfulFormat
import Dnf.I18n.ChopStr
import Dnf.Cli.PtoCallback
import Dnf.Foundation.Strip
import Dnf.Foundation.PosixPath
import Dnf.Conf.SplitPath
import Dnf.Modules.BriefDescription
import Dnf.Listing.NestedDicts
import Dnf.Cli.UpdateInfo
import Dnf.Foundation.Words
import Dnf.I18n.TextwrapFill
import Dnf.I18n.WrappedWords
import Dnf.I18n.ListItems
import Dnf.Cli.CheckCommand
import Dnf.Cli.ReportedPairs
import Dnf.Foundation.Segments
import Dnf.Cli.TermSub
import Dnf.Cli.InsertedMarkers
import Dnf.Lock.Recover
import Dnf.Automatic.Realised
import Dnf.Automatic.Command
import Dnf.Repos.RepoReader
import Dnf.Repos.SubRepos
import Dnf.Groups.Planned
import Dnf.Modules.Installing
import Dnf.Marking.Marked
import Dnf.Cli.ExitStatus
import Dnf.Cli.Clean
import Dnf.Cli.Cleaned
import Dnf.Groups.EnvGroupInstall
