import StylesheetBuild.Main
import StylesheetBuild.Proofs.Reference.Pattern
import StylesheetBuild.Proofs.Reference.Preferred
import StylesheetBuild.Proofs.Reference.Found
import StylesheetBuild.Proofs.Reference.Spans
import StylesheetBuild.Proofs.Digest.Extension
import StylesheetBuild.Proofs.Rewrite.Address
import StylesheetBuild.Proofs.Rewrite.Splice
import StylesheetBuild.Proofs.Path.Resolution
import StylesheetBuild.Proofs.Rewrite.CacheBusting
import StylesheetBuild.Proofs.Path.Directory
import StylesheetBuild.Proofs.Rewrite.Probe
import StylesheetBuild.Proofs.Directive.LeadingComment
import StylesheetBuild.Proofs.Text.Runs
import StylesheetBuild.Proofs.Directive.Entry
import StylesheetBuild.Proofs.UrlPattern.Segments
import StylesheetBuild.Proofs.UrlPattern.Rendering
import StylesheetBuild.Proofs.Digest.Recovery
import StylesheetBuild.Proofs.Config.AssetUrl
import StylesheetBuild.Proofs.Directive.Written
import StylesheetBuild.Proofs.Reference.Shape
import StylesheetBuild.Proofs.Reference.Flat
import StylesheetBuild.Proofs.Reference.External
import StylesheetBuild.Proofs.Reference.Delimiters
import StylesheetBuild.Proofs.Rewrite.Weave
import StylesheetBuild.Proofs.Rewrite.Rescan
import StylesheetBuild.Proofs.Path.Characters
import StylesheetBuild.Proofs.Rewrite.Idempotent
import StylesheetBuild.Proofs.Pipeline.Stages
import StylesheetBuild.Proofs.Reference.Locality
import StylesheetBuild.Proofs.Reference.Parted
import StylesheetBuild.Proofs.Rewrite.Concatenation
import StylesheetBuild.Proofs.Path.Climbing
import StylesheetBuild.Proofs.UrlPattern.Browsing
import StylesheetBuild.Proofs.Rewrite.Containment
import StylesheetBuild.Proofs.Disk.Saving
import StylesheetBuild.Proofs.Command.Loading
import StylesheetBuild.Proofs.Command.Reporting
import StylesheetBuild.Proofs.Command.Batch
import StylesheetBuild.Proofs.Rewrite.Suffix
import StylesheetBuild.Proofs.Config.Buildable
import StylesheetBuild.Proofs.Text.Order
import StylesheetBuild.Proofs.Module.Ownership
import StylesheetBuild.Proofs.Rewrite.Spelling
import StylesheetBuild.Proofs.Path.Composition
import StylesheetBuild.Proofs.Config.Modules
import StylesheetBuild.Proofs.Command.Destination
import StylesheetBuild.Proofs.Disk.Reading
import StylesheetBuild.Proofs.Path.Detour
import StylesheetBuild.Proofs.Command.OutputTree
import StylesheetBuild.Proofs.Reference.Partition
import StylesheetBuild.Proofs.Path.Respelling
import StylesheetBuild.Proofs.Rewrite.Respelling
import StylesheetBuild.Proofs.Config.OnePass
import StylesheetBuild.Proofs.Toml.DistinctKeys
import StylesheetBuild.Proofs.Path.Based
import StylesheetBuild.Proofs.Config.Routes
import StylesheetBuild.Proofs.Config.Placement
import StylesheetBuild.Proofs.Path.Ancestors
import StylesheetBuild.Proofs.Disk.Entries
import StylesheetBuild.Proofs.Config.Discovery
import StylesheetBuild.Proofs.Module.History
import StylesheetBuild.Proofs.Path.Relative
import StylesheetBuild.Proofs.Path.NormalForm
