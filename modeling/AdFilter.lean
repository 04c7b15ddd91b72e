import AdFilter.CommandLine.Commands
import AdFilter.Glob.Meaning
import AdFilter.Main
import AdFilter.Proofs.CommandLine.Filter
import AdFilter.Proofs.CommandLine.Session
import AdFilter.Proofs.Domain.Order
import AdFilter.Proofs.DomainSet
import AdFilter.Proofs.Engine.Cache
import AdFilter.Proofs.Engine.Pruning
import AdFilter.Proofs.Engine.SameException
import AdFilter.Proofs.Engine.SameLines
import AdFilter.Proofs.Engine.Statistics
import AdFilter.Proofs.Engine.Verdict
import AdFilter.Proofs.FilterLine.HideLine
import AdFilter.Proofs.FilterLine.MatchCase
import AdFilter.Proofs.FilterLine.OptionEdits
import AdFilter.Proofs.FilterList.Accounts
import AdFilter.Proofs.FilterList.Append
import AdFilter.Proofs.FilterList.Failure
import AdFilter.Proofs.FilterList.Selectors
import AdFilter.Proofs.FilterList.Source
import AdFilter.Proofs.Fingerprint.Polynomial
import AdFilter.Proofs.Glob.HostAnchor
import AdFilter.Proofs.Glob.LongestRun
import AdFilter.Proofs.Glob.Plain
import AdFilter.Proofs.Glob.Source
import AdFilter.Proofs.Hide.ExceptionLine
import AdFilter.Proofs.Hide.FurtherLine
import AdFilter.Proofs.Hide.Optimize
import AdFilter.Proofs.Hide.Stylesheet
import AdFilter.Proofs.KeywordIndex.Grouping
import AdFilter.Proofs.Party
import AdFilter.Proofs.Party.Hosts
import AdFilter.Proofs.ResultCache.Recency
import AdFilter.Proofs.Stats.Average
import AdFilter.Proofs.Url.Source
import AdFilter.Regex.Meaning
