import SiteProject.Disk.Memory
import SiteProject.Disk.Tree
import SiteProject.Main
import SiteProject.Proofs.Solution.Grammar
import SiteProject.Proofs.Path.Settle
import SiteProject.Proofs.Path.Spelling
import SiteProject.Proofs.Path.Way
import SiteProject.Proofs.Solution.Reroot
import SiteProject.Proofs.Solution.Destination
import SiteProject.Proofs.Disk.Run
import SiteProject.Proofs.Path.Rooted
import SiteProject.Proofs.Reference.Hints
import SiteProject.Proofs.Reference.Placement
import SiteProject.Proofs.Reference.Resolution
import SiteProject.Proofs.Conversion.Picked
import SiteProject.Proofs.Conversion.Hints
import SiteProject.Proofs.Disk.Parallel
import SiteProject.Proofs.Path.Below
import SiteProject.Proofs.Solution.Located
import SiteProject.Proofs.Disk.Watched
import SiteProject.Proofs.Reference.Parallel
import SiteProject.Proofs.Conversion.Containment
import SiteProject.Proofs.Disk.Frame
import SiteProject.Proofs.Conversion.Ending
import SiteProject.Proofs.Conversion.Effects
import SiteProject.Proofs.Solution.Swallowed
import SiteProject.Proofs.Solution.Listing
import SiteProject.Proofs.Text.Class
import SiteProject.Proofs.Xml.Allowed
import SiteProject.Proofs.Xml.Block
import SiteProject.Proofs.Xml.Elements
import SiteProject.Proofs.Descriptor.Formed
import SiteProject.Proofs.Descriptor.Accepted
import SiteProject.Proofs.Descriptor.Contents
import SiteProject.Proofs.Disk.View
import SiteProject.Proofs.Reference.Best
import SiteProject.Proofs.Disk.Replay
import SiteProject.Proofs.Reference.Rerun
import SiteProject.Proofs.Conversion.Rerun
import SiteProject.Proofs.Conversion.Shared
import SiteProject.Proofs.Conversion.Input
import SiteProject.Proofs.Path.Relative
import SiteProject.Proofs.Reference.Coverage
import SiteProject.Proofs.Conversion.Agreement
import SiteProject.Proofs.Solution.Properties
import SiteProject.Proofs.Solution.References
import SiteProject.Proofs.Settings.Layers
import SiteProject.Proofs.Library.Metadata
import SiteProject.Proofs.Library.Comment
import SiteProject.Proofs.Conversion.Folder
import SiteProject.Proofs.Settings.Suggestion
import SiteProject.Proofs.Solution.Framework
import SiteProject.Proofs.Settings.Warnings
import SiteProject.Proofs.Solution.Breaks
import SiteProject.Proofs.Path.Canonical
import SiteProject.Proofs.Xml.Unescape
import SiteProject.Proofs.Reference.SiteFolder
