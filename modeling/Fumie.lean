import Fumie.AgentHost.Client.Drain
import Fumie.AgentHost.Server.SubscriberRuns
import Fumie.AgentHost.State.ToolCalls
import Fumie.AgentHost.Subscription.Convergence
import Fumie.AgentHost.Subscription.Rejection
import Fumie.AgentHost.Server.SessionReplica
import Fumie.AgentHost.Server.ActiveTurns
import Fumie.AgentHost.Server.InputNeeded
import Fumie.AgentHost.Server.ChatTimes
import Fumie.AgentHost.Server.SummaryRuns
import Fumie.AgentHost.Approval.Soundness
import Fumie.AgentHost.Lifecycle.DeleteMarkers
import Fumie.AgentHost.Tasks.TaskEventFold
import Fumie.AgentHost.Diffs.Incremental
import Fumie.AgentHost.State.ChatUri
import Fumie.Base.IpcRoundTrip
import Fumie.Editor.Model.ChunkedLoading
import Fumie.AgentHost.Sharing.PairingRevocation
import Fumie.AgentHost.Sharing.SharingStop
import Fumie.Editor.Model.SimultaneousEdits
import Fumie.Base.ReliableDelivery
import Fumie.Editor.Edits.Rebase
import Fumie.Editor.Edits.PositionMapping
import Fumie.Editor.Edits.LineEditOfText
import Fumie.UndoRedo.StackRuns
import Fumie.Keybinding.Selection
import Fumie.AgentHost.Attribution.GapAccounting
import Fumie.Base.TernaryRuns
import Fumie.AgentHost.Chats.SideChats
import Fumie.AgentHost.Claude.ClaudePromptQueue
import Fumie.AgentHost.Requests.PendingRequestRegistry
import Fumie.AgentHost.State.ChatQueue
import Fumie.AgentHost.Terminal.Osc633Text
import Fumie.AgentHost.WebPubSub.ChunkBounds
import Fumie.Base.BinaryIndexOf
import Fumie.Editor.Edits.Normalize
import Fumie.Editor.Edits.TextInverse
import Fumie.Editor.Model.PrefixSumComputer
import Fumie.UserDataSync.GlobalStateMerge
import Fumie.Base.UriTemplate
import Fumie.Base.Base64Canonical
import Fumie.AgentHost.Diffs.ChangesetStateCache
import Fumie.AgentHost.Lifecycle.WorktreeDiskBudget
import Fumie.AgentHost.Customization.CanonicalStore
import Fumie.AgentHost.Client.HostKeyTrust
import Fumie.UserDataSync.SnippetsMerge
