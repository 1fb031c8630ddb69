import Quorum.BaseDict
import Quorum.BaseIsoTime
import Quorum.CostTokens
import Quorum.CostTokenHistory
import Quorum.BaseTransaction
import Quorum.SessionStore
import Quorum.SessionCutoff
import Quorum.SessionWorld
import Quorum.CostComponents
import Quorum.BaseApportion
import Quorum.CostLines
import Quorum.CostBreakdown
import Quorum.CostPartition
import Quorum.CostBound
import Quorum.RunTypes
import Quorum.RunRepository
import Quorum.RunActive
import Quorum.RunFinality
import Quorum.BaseHoare
import Quorum.RunPipeline
import Quorum.RunTransitions
import Quorum.BaseTally
import Quorum.LedgerStore
import Quorum.LedgerSpend
import Quorum.LedgerRuns
import Quorum.LedgerRails
import Quorum.LedgerWipe
import Quorum.LedgerRing
import Quorum.RunStart
import Quorum.BaseScan
import Quorum.FenceLetters
import Quorum.FenceForgery
import Quorum.SynthesisLength
import Quorum.SynthesisSections
import Quorum.BaseJson
import Quorum.DebatePeer
import Quorum.ConsensusStrength
import Quorum.PanelMajority
import Quorum.PanelEvidence
import Quorum.PanelLoss
import Quorum.PanelVerdict
import Quorum.PanelRaised
import Quorum.BaseLines
import Quorum.BaseUtf8
import Quorum.StreamFrames
import Quorum.StreamLines
import Quorum.StreamFold
import Quorum.ProviderExtract
import Quorum.ProviderReply
import Quorum.StreamReading
import Quorum.StreamAnswer
import Quorum.BaseLru
import Quorum.BaseFlight
import Quorum.JudgeService
import Quorum.JudgeReads
import Quorum.JudgeSections
import Quorum.JudgePaid
import Quorum.JudgeTrail
import Quorum.SignInStates
import Quorum.LedgerReconnect
import Quorum.LedgerMetering
import Quorum.LedgerRounds
import Quorum.LedgerRecovery
import Quorum.LedgerAvailability
import Quorum.SessionReads
import Quorum.SessionRepository
import Quorum.SessionLookup
import Quorum.AccountWorld
import Quorum.AccountMarks
import Quorum.AccountRows
import Quorum.AccountOnward
import Quorum.AccountOwners
import Quorum.AccountMeters
import Quorum.AccountDeletions
import Quorum.AccountAllowance
import Quorum.EndSessions
import Quorum.LedgerKeys
import Quorum.AccountLives
import Quorum.AccountEnvelope
import Quorum.BaseDialogue
import Quorum.RequestLimit
import Quorum.BaseGlob
import Quorum.RobotsRules
import Quorum.SynthesisCaveat
import Quorum.RateLimit
import Quorum.FenceAppend
import Quorum.PromptRows
import Quorum.PromptForgery
import Quorum.PromptSurcharge
import Quorum.DebateReply
import Quorum.ConsensusAlignment
import Quorum.ConsensusCoherence
import Quorum.BaseRelabel
import Quorum.PanelRelabel
import Quorum.BaseBracket
import Quorum.LinkScan
import Quorum.LinkReading
import Quorum.LinkOrdinals
import Quorum.RobotsRequest
import Quorum.RobotsAgreement
import Quorum.PassageSpans
import Quorum.PassagePick
import Quorum.JudgePages
import Quorum.LedgerOutcome
import Quorum.SessionMints
import Quorum.SessionExpiry
import Quorum.SessionHistory
import Quorum.BaseRows
import Quorum.RunHistory
import Quorum.RedactionPatterns
import Quorum.RedactionWalk
import Quorum.RedactionRecord
import Quorum.CostVerdict
import Quorum.JudgeSelection
import Quorum.BaseDecimal
import Quorum.BaseIsoDate
import Quorum.InviteLinks
import Quorum.CatalogRows
import Quorum.CatalogFlight
import Quorum.QuickVerdict
import Quorum.TrustCensus
import Quorum.TrustRefusal
import Quorum.BaseWeighted
import Quorum.TrustSignals
import Quorum.TrustRefused
import Quorum.BaseJsonScan
import Quorum.AuditReply
import Quorum.AuditCall
import Quorum.BaseSub
import Quorum.SafetyScan
import Quorum.SafetyResend
import Quorum.LinkTwins
import Quorum.LinkMinted
import Quorum.BaseInquiry
import Quorum.BaseWords
import Quorum.FetchAddress
import Quorum.FetchText
import Quorum.FetchPage
import Quorum.FetchEgress
import Quorum.FetchRun
import Quorum.FetchRows
import Quorum.BaseTotals
import Quorum.RunReceipt
import Quorum.SignInCallback
