import TypingStore.Checker
import TypingStore.Objects.Assignment
import TypingStore.Objects.Equality
import TypingStore.Store.Commit
import TypingStore.Proofs.Change
import TypingStore.Proofs.Script
import TypingStore.Proofs.Staleness
import TypingStore.Proofs.Lookups
import TypingStore.Proofs.Replay
import TypingStore.Proofs.Speculation
import TypingStore.Proofs.Reports
import TypingStore.Proofs.Hiding
import TypingStore.Proofs.Texts
import TypingStore.Proofs.Unversioned
import TypingStore.Proofs.Telling
import TypingStore.Proofs.Policies
import TypingStore.Proofs.Later
import TypingStore.Proofs.FreshReads
import TypingStore.Proofs.Recommit
import TypingStore.Proofs.FaultFiles
import TypingStore.Proofs.Branches
import TypingStore.Proofs.Outside
import TypingStore.Proofs.Abandoned
import TypingStore.Proofs.ErrorEntries
import TypingStore.Proofs.Isolation
import TypingStore.Proofs.Growth
import TypingStore.Proofs.Renaming
import TypingStore.Proofs.Embedding
import TypingStore.Proofs.EmbeddedReports
import TypingStore.Proofs.Relocation
import TypingStore.Proofs.EmbeddedStores
import TypingStore.Proofs.RelocatedStores
import TypingStore.Proofs.Deeds
import TypingStore.Proofs.Intact
import TypingStore.Proofs.Guests
import TypingStore.Proofs.Units
import TypingStore.Proofs.History
import TypingStore.Proofs.Views
import TypingStore.Proofs.Joins
import TypingStore.Proofs.SameWork
import TypingStore.Proofs.Messages
import TypingStore.Proofs.Routine
import TypingStore.Proofs.Volumes
import TypingStore.Proofs.JoinLaws
import TypingStore.Proofs.Legible
import TypingStore.Proofs.OneLine
import TypingStore.Proofs.DumpLines
import TypingStore.Proofs.Atomic
import TypingStore.Proofs.LatestBinding
import TypingStore.Proofs.FirstBinding
import TypingStore.Proofs.Walks
import TypingStore.Proofs.EqualHandles
import TypingStore.Proofs.Interchange
import TypingStore.Proofs.Attribution
import TypingStore.Proofs.Versions
