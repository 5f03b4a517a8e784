import SenderPolicy.Dns.Message
import SenderPolicy.Header
import SenderPolicy.Proofs.AddressLabels
import SenderPolicy.Proofs.CacheCoherence
import SenderPolicy.Proofs.CaseInsensitivity
import SenderPolicy.Proofs.CharacterStrings
import SenderPolicy.Proofs.DomainSpecGrammar
import SenderPolicy.Proofs.ExchangeOrder
import SenderPolicy.Proofs.ExchangeWalk
import SenderPolicy.Proofs.Explanation
import SenderPolicy.Proofs.FetchedOnce
import SenderPolicy.Proofs.FinalDot
import SenderPolicy.Proofs.FreshName
import SenderPolicy.Proofs.LargerLimits
import SenderPolicy.Proofs.LeastRecentlyUsed
import SenderPolicy.Proofs.MacroConcatenation
import SenderPolicy.Proofs.MissingPolicy
import SenderPolicy.Proofs.NameCut
import SenderPolicy.Proofs.Placement
import SenderPolicy.Proofs.PolicySelection
import SenderPolicy.Proofs.PrefixAgreement
import SenderPolicy.Proofs.QuestionBound
import SenderPolicy.Proofs.QuestionNames
import SenderPolicy.Proofs.QuotedSender
import SenderPolicy.Proofs.ReverseNames
import SenderPolicy.Proofs.SessionComposition
import SenderPolicy.Proofs.Tally
import SenderPolicy.Proofs.TermGrammar
import SenderPolicy.Proofs.Termination
import SenderPolicy.Proofs.TransientFailure
import SenderPolicy.Session
import SenderPolicy.Settings.Reader
