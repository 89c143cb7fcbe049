import AcademicAgent.Agent.QueueConservation
import AcademicAgent.AgentHost.AgentSession.QueueMirror
import AcademicAgent.AgentHost.AgentSession.RetryAccounting
import AcademicAgent.AgentHost.AuthStorageRuns
import AcademicAgent.AgentHost.Compaction.BranchBudget
import AcademicAgent.AgentHost.Compaction.BranchEntries
import AcademicAgent.AgentHost.Compaction.CumulativeFiles
import AcademicAgent.AgentHost.Compaction.SplitTurn
import AcademicAgent.AgentHost.ExtensionCommands
import AcademicAgent.AgentHost.GitInstall
import AcademicAgent.AgentHost.PromptTemplates
import AcademicAgent.AgentHost.ResourcePrecedence
import AcademicAgent.AgentHost.Session.IndexAgreement
import AcademicAgent.AgentHost.Session.Migration
import AcademicAgent.AgentHost.SettingsOverrides
import AcademicAgent.AgentHost.SettingsWrites
import AcademicAgent.AgentHost.TailTruncation
import AcademicAgent.Ai.Providers.AnthropicBlocks
import AcademicAgent.Ai.Providers.AnthropicTruncated
import AcademicAgent.Ai.Providers.CodexContinuation
import AcademicAgent.Ai.Providers.CodexEnd
import AcademicAgent.Ai.Providers.CodexRetry
import AcademicAgent.Ai.Providers.CodexSocketEvents
import AcademicAgent.Ai.Providers.CompletionsCalls
import AcademicAgent.Ai.Providers.CompletionsGrammar
import AcademicAgent.Ai.Providers.ResponsesPairing
import AcademicAgent.Ai.Providers.StreamedArguments
import AcademicAgent.Ai.Providers.ThinkingBudget
import AcademicAgent.Ai.Utils.EventStream
import AcademicAgent.Ai.Utils.RepairJson
import AcademicAgent.Ai.Utils.Validation
import AcademicAgent.CodingAgent.AnsiToHtml
import AcademicAgent.CodingAgent.ModelReferences
import AcademicAgent.CodingAgent.Tools.DiffString
import AcademicAgent.CodingAgent.Tools.EditTogether
import AcademicAgent.CodingAgent.Tools.FileMutationSerial
import AcademicAgent.CodingAgent.Tools.OutputAgreement
import AcademicAgent.CodingAgent.Tools.ReadPages
import AcademicAgent.LeadAgent.Abort
import AcademicAgent.LeadAgent.AcceptedWorkflows
import AcademicAgent.LeadAgent.Confinement
import AcademicAgent.LeadAgent.ContractSchemas
import AcademicAgent.LeadAgent.Deduplication
import AcademicAgent.LeadAgent.LiteratureCache
import AcademicAgent.LeadAgent.RecordedOutcome
import AcademicAgent.LeadAgent.Serialization
import AcademicAgent.LeadAgent.StoreEquivalence
import AcademicAgent.LeadAgent.ToolPolicies
import AcademicAgent.Tui.DoRenderScreen
import AcademicAgent.Tui.EditorLayout
import AcademicAgent.Tui.InputLine
import AcademicAgent.Tui.OverlayFocus
import AcademicAgent.Tui.StdinChunks
import AcademicAgent.Tui.WordWrapPartition
import AcademicAgent.Tui.WrapWidth
