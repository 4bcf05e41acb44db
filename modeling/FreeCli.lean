import FreeCli.Core.IpcRoundTrip
import FreeCli.Core.IpcThreads
import FreeCli.Core.IpcReceive
import FreeCli.Library.Slots
import FreeCli.Library.FileTree
import FreeCli.Library.PathWalk
import FreeCli.Library.WalkChanges
import FreeCli.Workers.FsResolve
import FreeCli.Ui.Session
import FreeCli.Ui.InFlight
import FreeCli.Core.Messages
import FreeCli.Ui.Commands
import FreeCli.Ui.Main
import FreeCli.Workers.FsWorker
import FreeCli.Workers.ResolveExact
import FreeCli.Workers.ReadFile
import FreeCli.Workers.WriteFile
import FreeCli.System.Step
import FreeCli.System.SubQueries
import FreeCli.System.Accounting
import FreeCli.System.Replies
import FreeCli.System.Chats
import FreeCli.System.Placeholder
import FreeCli.System.Awaited
import FreeCli.Ui.KeyOutcome
import FreeCli.Workers.WorkerMove
import FreeCli.System.Move
import FreeCli.Ui.CheckOutcome
import FreeCli.System.Requests
import FreeCli.System.Approval
import FreeCli.System.Sandbox
import FreeCli.System.SandboxRoot
import FreeCli.System.CreateFile
import FreeCli.System.Prompt
import FreeCli.System.Origins
import FreeCli.Library.Lists
import FreeCli.Library.Guarded
import FreeCli.Library.Json
import FreeCli.Library.JsonPrefix
import FreeCli.Library.WordWrap
import FreeCli.Core.Utf8
import FreeCli.Core.Wrapping
import FreeCli.Core.Letters
import FreeCli.Core.WrapRows
import FreeCli.Core.WrapSafe
import FreeCli.Core.Chat
import FreeCli.Core.ChatRows
import FreeCli.Ui.DetectChoices
import FreeCli.Ui.ChoiceScan
import FreeCli.Ui.ChoiceBullets
import FreeCli.Ui.ChoiceLists
import FreeCli.Core.IpcBounds
import FreeCli.Ui.Received
import FreeCli.Ui.Carried
import FreeCli.Backend.Grammar
import FreeCli.Backend.Agent
import FreeCli.Backend.AgentHistory
import FreeCli.Backend.AgentSteps
import FreeCli.Workers.ApprovalCalls
import FreeCli.Workers.ApprovalExclusion
import FreeCli.Workers.ApprovalDeadline
import FreeCli.Workers.Answers
import FreeCli.System.Answers
import FreeCli.System.Entries
import FreeCli.System.Outstanding
import FreeCli.Ui.Persist
import FreeCli.Ui.SaveLoad
import FreeCli.Ui.Shutdown
import FreeCli.Ui.Store
import FreeCli.Ui.SessionTable
import FreeCli.Ui.SessionRuns
import FreeCli.Ui.Picker
import FreeCli.Ui.Durable
import FreeCli.Ui.LoadedIds
import FreeCli.Ui.CutSave
import FreeCli.Library.CharArray
import FreeCli.Library.Fields
import FreeCli.Core.IpcReqSend
import FreeCli.Core.IpcLeaks
import FreeCli.Core.RenderRows
import FreeCli.Ui.Input
import FreeCli.Ui.InputEditor
import FreeCli.Ui.InputHistory
import FreeCli.Ui.Submitting
import FreeCli.Ui.FsCommand
import FreeCli.Ui.ChoiceNumerals
import FreeCli.Ui.ChoiceLines
import FreeCli.Ui.VendoredJson
import FreeCli.Library.Justified
import FreeCli.Core.JsonGrammar
import FreeCli.System.Wire
import FreeCli.Backend.ProviderReplies
import FreeCli.Backend.IamToken
import FreeCli.Backend.ProviderInit
import FreeCli.System.Questions
import FreeCli.Ui.Overlay
import FreeCli.Workers.ListDir
import FreeCli.Backend.RequestThreads
