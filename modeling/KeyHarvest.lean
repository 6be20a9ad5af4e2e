import KeyHarvest.Main
import KeyHarvest.Buffer.Extraction
import KeyHarvest.Proofs.BufferScan
import KeyHarvest.Proofs.BufferAttributes
import KeyHarvest.Proofs.BufferExtraction
import KeyHarvest.Markup.Declaration
import KeyHarvest.Markup.Document
import KeyHarvest.Proofs.Cuts
import KeyHarvest.Proofs.Quotes
import KeyHarvest.Proofs.TagEnd
import KeyHarvest.Proofs.Construct
import KeyHarvest.Proofs.Scan
import KeyHarvest.Proofs.RoundTrip
import KeyHarvest.Proofs.QuotedValues
import KeyHarvest.Keys.Declared
import KeyHarvest.Proofs.AttributeForms
import KeyHarvest.Proofs.Lines
import KeyHarvest.Proofs.Marked
import KeyHarvest.Proofs.Nodes
import KeyHarvest.Proofs.Harvest
import KeyHarvest.Keys.Contribution
import KeyHarvest.Proofs.Contributions
import KeyHarvest.Proofs.Isolation
import KeyHarvest.Proofs.Parts
import KeyHarvest.Proofs.KeyPlaces
import KeyHarvest.Proofs.Decoding
import KeyHarvest.Keys.Undecoded
import KeyHarvest.Proofs.ByteScan
import KeyHarvest.Proofs.ByteExtraction
import KeyHarvest.Files.Place
import KeyHarvest.Proofs.Places
import KeyHarvest.Proofs.Discovered
import KeyHarvest.Proofs.IgnoredPlaces
import KeyHarvest.Proofs.DistinctFiles
import KeyHarvest.Proofs.ExitStatus
import KeyHarvest.Proofs.WrittenBlocks
import KeyHarvest.Report.Reader
import KeyHarvest.Proofs.ReportReading
import KeyHarvest.Proofs.ReportLines
import KeyHarvest.Discovery.Root
import KeyHarvest.Proofs.AskedDirectories
import KeyHarvest.Proofs.LeadingPaths
import KeyHarvest.Proofs.Walks
import KeyHarvest.Proofs.PatternFronts
import KeyHarvest.Proofs.Expansions
import KeyHarvest.Proofs.SourceRoots
import KeyHarvest.Proofs.SameWork
import KeyHarvest.Proofs.ByteOrder
import KeyHarvest.Proofs.AskedOrder
import KeyHarvest.Proofs.Streams
import KeyHarvest.Proofs.WrittenConfig
import KeyHarvest.Proofs.WrittenBytes
import KeyHarvest.Files.Content
import KeyHarvest.Proofs.Contents
import KeyHarvest.Proofs.Overrides
import KeyHarvest.Proofs.NewFile
import KeyHarvest.Proofs.Initialisation
import KeyHarvest.Proofs.Batches
import KeyHarvest.Proofs.Workers
import KeyHarvest.Proofs.WrittenAttributes
import KeyHarvest.Proofs.AttributeLayout
import KeyHarvest.Keys.Merging
import KeyHarvest.Proofs.Mergings
import KeyHarvest.Keys.Written
import KeyHarvest.Proofs.KeyPieces
import KeyHarvest.Proofs.WrittenKeys
import KeyHarvest.Proofs.FilterAlgebra
import KeyHarvest.Files.Lineage
import KeyHarvest.Proofs.Ancestors
import KeyHarvest.Proofs.NearestConfig
import KeyHarvest.Proofs.ReadMembers
import KeyHarvest.Config.Given
import KeyHarvest.Proofs.GivenConfig
import KeyHarvest.Buffer.Next
import KeyHarvest.Proofs.Progress
import KeyHarvest.Proofs.TagPlaces
