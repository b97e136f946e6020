import Ndnfs.Ndn.Reference
import Ndnfs.System.Call
import Ndnfs.Fs.Directory
import Ndnfs.System.Execution
import Ndnfs.Server.Module
import Ndnfs.Foundation.Run
import Ndnfs.Fs.Effect
import Ndnfs.Proof.Agreement
import Ndnfs.Proof.CurrentVersion
import Ndnfs.Proof.FailedOperation
import Ndnfs.Foundation.Interleaving
import Ndnfs.Fs.Content
import Ndnfs.Fs.SegmentName
import Ndnfs.Ndn.Uri
import Ndnfs.Proof.Fetch
import Ndnfs.Proof.Immutability
import Ndnfs.Proof.NameGrammar
import Ndnfs.Proof.Numbers
import Ndnfs.Proof.ParseSafety
import Ndnfs.Proof.Publishing
import Ndnfs.Proof.Release
import Ndnfs.Proof.Renaming
import Ndnfs.Proof.ReplyName
import Ndnfs.Proof.ReturnCodes
import Ndnfs.Proof.SegmentNames
import Ndnfs.Proof.Segmentation
import Ndnfs.Proof.TouchedPath
import Ndnfs.Proof.PathLength
import Ndnfs.Proof.ShortName
import Ndnfs.Proof.ServerOffset
import Ndnfs.Proof.Metadata
import Ndnfs.Proof.MimeType
import Ndnfs.Proof.DirectoryPage
import Ndnfs.Proof.DirectoryListing
import Ndnfs.Proof.ServedTree
import Ndnfs.Proof.StoredSignature
import Ndnfs.Proof.SequentialFetch
import Ndnfs.Proof.PipelinedFetch
import Ndnfs.Proof.Verification
import Ndnfs.Proof.LinkTarget
import Ndnfs.Proof.HandleUse
import Ndnfs.Proof.Truncation
import Ndnfs.Foundation.Refinement
import Ndnfs.Foundation.Patch
import Ndnfs.Fs.View
import Ndnfs.Proof.KeptFile
import Ndnfs.Proof.FileContents
import Ndnfs.Proof.GenuineFetch
import Ndnfs.Proof.GenuineReply
import Ndnfs.Proof.Network
import Ndnfs.Proof.EndToEnd
import Ndnfs.Client.CatFile
import Ndnfs.Proof.MetadataWait
import Ndnfs.Proof.ProgramFetch
import Ndnfs.Foundation.Crash
import Ndnfs.Fs.Change
import Ndnfs.Server.Crash
import Ndnfs.Proof.CrashSafety
import Ndnfs.Fs.Calls
import Ndnfs.Fs.AlikeRows
import Ndnfs.Foundation.Noninterference
import Ndnfs.System.Area
import Ndnfs.Proof.SameObject
import Ndnfs.Proof.Isolation
import Ndnfs.Proof.ConcurrentReply
import Ndnfs.Proof.OrphanRow
import Ndnfs.Foundation.Guards
import Ndnfs.Foundation.Pool
import Ndnfs.Server.Host
import Ndnfs.Foundation.Moments
import Ndnfs.Server.Visit
import Ndnfs.Foundation.Tokens
import Ndnfs.Proof.MknodRace
import Ndnfs.Proof.ParallelCopy
