import ZfsForensic.Theorems.NoPanic
import ZfsForensic.Theorems.BlockTree
import ZfsForensic.Theorems.Holes
import ZfsForensic.Theorems.Embedded
import ZfsForensic.Theorems.Ditto
import ZfsForensic.Theorems.Verdicts
import ZfsForensic.Theorems.MultiSlot
import ZfsForensic.Theorems.RootSummary
import ZfsForensic.Theorems.RoundTrip
import ZfsForensic.Theorems.ByteOrder
import ZfsForensic.Theorems.Lzjb
import ZfsForensic.Theorems.Zle
import ZfsForensic.Theorems.ExactLength
import ZfsForensic.Theorems.Amplification
import ZfsForensic.Theorems.Tamper
import ZfsForensic.Theorems.Sweep
import ZfsForensic.Theorems.Snapshots
import ZfsForensic.Theorems.FilesOnly
import ZfsForensic.Theorems.LiveRoot
import ZfsForensic.Theorems.NvlistRoundTrip
import ZfsForensic.Theorems.NvlistTruncation
import ZfsForensic.Theorems.Evidence
import ZfsForensic.Theorems.Labels
import ZfsForensic.Theorems.Bootstraps
import ZfsForensic.Theorems.Caps
import ZfsForensic.Theorems.Readers
import ZfsForensic.Theorems.Names
import ZfsForensic.Theorems.Listings
import ZfsForensic.Theorems.FatLeaves
import ZfsForensic.Theorems.SaWalks
import ZfsForensic.Theorems.SaPlacement
import ZfsForensic.Theorems.Xattrs
import ZfsForensic.Theorems.SizeDefault
import ZfsForensic.Theorems.StreamSize
import ZfsForensic.Theorems.Extents
import ZfsForensic.Theorems.Gathering
import ZfsForensic.Theorems.PointerOrder
import ZfsForensic.Theorems.Serving
import ZfsForensic.Theorems.WrittenPools
import ZfsForensic.Theorems.WrittenRecovery
import ZfsForensic.Theorems.WrittenAudit
import ZfsForensic.Theorems.Histories
import ZfsForensic.Theorems.TornLabels
import ZfsForensic.Theorems.WrittenExtents
