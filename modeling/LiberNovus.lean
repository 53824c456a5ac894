import LiberNovus.Admin.Console
import LiberNovus.Admin.PromptVersions
import LiberNovus.Admin.TimelineRuns
import LiberNovus.Analysis.Attachment
import LiberNovus.Analysis.Continuation
import LiberNovus.Analysis.History
import LiberNovus.Analysis.LiveThreads
import LiberNovus.Analysis.Presentation
import LiberNovus.Analysis.ThreadHistory
import LiberNovus.Analysis.ThreadService
import LiberNovus.Auth.Authentication
import LiberNovus.Config.Safety
import LiberNovus.Dialogue.DisplayName
import LiberNovus.Dialogue.Routing
import LiberNovus.Dialogue.Turn
import LiberNovus.Journal.Isolation
import LiberNovus.Memory.Completion
import LiberNovus.Memory.Markers
import LiberNovus.Migrations.Sessions
import LiberNovus.Migrations.Threads
import LiberNovus.Notifications.AtMostOnce
import LiberNovus.Notifications.Durability
import LiberNovus.Notifications.Webhook
import LiberNovus.Players.Service
import LiberNovus.Prompts.Acceptance
import LiberNovus.Prompts.Compiler
import LiberNovus.Prompts.EntryOrder
import LiberNovus.Prompts.Forgery
import LiberNovus.Prompts.Totality
import LiberNovus.Prompts.Verdict
import LiberNovus.Reflection.Completeness
import LiberNovus.Responses.RoundTrip
import LiberNovus.Responses.Usable
import LiberNovus.Runtime.Acquisition
import LiberNovus.Runtime.Atomicity
import LiberNovus.Runtime.Binding
import LiberNovus.Runtime.Drain
import LiberNovus.Runtime.Exclusion
import LiberNovus.Runtime.Fairness
import LiberNovus.Runtime.Lifecycle
import LiberNovus.Runtime.Queue
import LiberNovus.Runtime.Retries
import LiberNovus.Runtime.RunForever
import LiberNovus.Runtime.Settlement
import LiberNovus.Session.ActiveSessions
import LiberNovus.Session.Coherence
import LiberNovus.Session.Conversation
import LiberNovus.Session.Ingress
import LiberNovus.Session.OwnHistory
import LiberNovus.Session.Ranking
