import Charybdis.Audit.AuditDestination
import Charybdis.Audit.ContactedHost
import Charybdis.Client.BackoffSchedule
import Charybdis.Client.BreakerRecovery
import Charybdis.Client.ConcurrentCallers
import Charybdis.Client.GateLanguage
import Charybdis.Client.IntRange
import Charybdis.Client.OpenWindow
import Charybdis.Client.RecoveryTimeout
import Charybdis.Client.ReplyReading
import Charybdis.Client.RetryEnvelope
import Charybdis.Client.Transparency
import Charybdis.Client.UrlGrammar
import Charybdis.Client.WaitUntil
import Charybdis.Client.WildcardConfinement
import Charybdis.EndToEnd.FixtureRun
import Charybdis.EndToEnd.KillTest
import Charybdis.EndToEnd.QueueStarveGate
import Charybdis.EndToEnd.RetriedCall
import Charybdis.Policy.DirectoryGrowth
import Charybdis.Policy.FailOpenEdits
import Charybdis.Policy.JobInventory
import Charybdis.Policy.RunBlock
import Charybdis.Policy.SteadyScript
import Charybdis.Policy.TriggerContract
import Charybdis.Scripts.Changelog
import Charybdis.Scripts.DevEnv
import Charybdis.Scripts.InstallPrefix
import Charybdis.Scripts.OrTrueGate
import Charybdis.Scripts.PinRule
import Charybdis.Scripts.Symlinks
import Charybdis.Stub.Isolation
import Charybdis.Stub.Liveness
import Charybdis.Stub.PostAnswers
import Charybdis.Stub.TaskHistory
