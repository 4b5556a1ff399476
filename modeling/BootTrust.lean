import BootTrust.Text.Utf8
import BootTrust.Text.Blank
import BootTrust.Text.AsciiCase
import BootTrust.Text.Quoted
import BootTrust.SortedMap
import BootTrust.ContentHash
import BootTrust.Json.Number
import BootTrust.Json.Document
import BootTrust.Json.Printer
import BootTrust.Json.Scan
import BootTrust.Json.Reader
import BootTrust.Json.Skip
import BootTrust.Json.Record
import BootTrust.Json.Spelling
import BootTrust.Text.Parts
import BootTrust.Path
import BootTrust.Disk.Access
import BootTrust.MemoryFiles
import BootTrust.Seed
import BootTrust.Config
import BootTrust.Device
import BootTrust.State.File
import BootTrust.Trace
import BootTrust.State.Store
import BootTrust.Signing.Client
import BootTrust.Gate.SignedUrl
import BootTrust.Gate.Session
import BootTrust.Gate.Crowd
import BootTrust.Command.Run
import BootTrust.Description
import BootTrust.Main
import BootTrust.Proofs.Steps
import BootTrust.Proofs.Disk.Surface
import BootTrust.Proofs.Path.Plain
import BootTrust.Proofs.Path.Joining
import BootTrust.Proofs.Path.Respelling
import BootTrust.Proofs.Device.MediaPath
import BootTrust.Proofs.Device.Drives
import BootTrust.Proofs.Device.Volumes
import BootTrust.Proofs.Disk.Resolve
import BootTrust.Proofs.Disk.Plain
import BootTrust.Proofs.Disk.Replace
import BootTrust.Proofs.Disk.Frame
import BootTrust.Proofs.Disk.Reader
import BootTrust.Proofs.Disk.Moments
import BootTrust.Proofs.Json.Printed
import BootTrust.Proofs.Text.Trimming
import BootTrust.Proofs.Text.Utf8
import BootTrust.Proofs.Json.Numbers
import BootTrust.Proofs.Json.Documents
import BootTrust.Proofs.Json.Records
import BootTrust.Proofs.Spelling.Numbers
import BootTrust.Proofs.Spelling.Reals
import BootTrust.Proofs.Spelling.Strings
import BootTrust.Proofs.Spelling.Documents
import BootTrust.Proofs.Spelling.Reading
import BootTrust.Proofs.Spelling.Skipping
import BootTrust.Proofs.Accepted.Numbers
import BootTrust.Proofs.Accepted.Strings
import BootTrust.Proofs.Accepted.Documents
import BootTrust.Proofs.Accepted.Records
import BootTrust.Proofs.Spelling.Typed
import BootTrust.Proofs.Spelling.Members
import BootTrust.Proofs.Spelling.Records
import BootTrust.Proofs.Spelling.Scalars
import BootTrust.Proofs.Spelling.NumberEnds
import BootTrust.Proofs.Spelling.Kept
import BootTrust.Proofs.Configs
import BootTrust.Proofs.Settings
import BootTrust.Proofs.PartialConfigs
import BootTrust.Proofs.Signing.Messages
import BootTrust.Proofs.Signing.RoundTrip
import BootTrust.Proofs.Signing.Responses
import BootTrust.Proofs.Signing.Checks
import BootTrust.Proofs.Signing.Forwarding
import BootTrust.Proofs.State.Spellings
import BootTrust.Proofs.State.File
import BootTrust.Proofs.State.Refinement
import BootTrust.Proofs.State.Moments
import BootTrust.Proofs.State.Frame
import BootTrust.Proofs.SavedConfigs
import BootTrust.Proofs.Gate.Recognition
import BootTrust.Proofs.Gate.Stickiness
import BootTrust.Proofs.Gate.Prepared
import BootTrust.Proofs.Hashing
import BootTrust.Proofs.MemoryFiles
import BootTrust.Proofs.Seeds
import BootTrust.Proofs.Gate.Acceptance
import BootTrust.Proofs.Gate.FirstFailure
import BootTrust.Proofs.Gate.Unreadable
import BootTrust.Proofs.Gate.Interleaving
import BootTrust.Proofs.Gate.HonestService
import BootTrust.Proofs.Gate.Classification
import BootTrust.Proofs.Gate.Endpoints
import BootTrust.Proofs.Command.Words
import BootTrust.Proofs.Command.Lines
import BootTrust.Proofs.Command.Layers
import BootTrust.Proofs.Command.Reports
import BootTrust.Proofs.Command.Launches
