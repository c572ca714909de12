import FarmLink.Main
import FarmLink.Proofs.Cli.Decoding
import FarmLink.Proofs.Cli.Encoding
import FarmLink.Proofs.Cli.Relisting
import FarmLink.Proofs.Downlink.Precedence
import FarmLink.Proofs.PortMap.Reordering
import FarmLink.Proofs.Registration.DictForm
import FarmLink.Proofs.Registration.Document
import FarmLink.Proofs.Registration.Reordering
import FarmLink.Proofs.StateChange.Refusal
import FarmLink.Proofs.StateChange.Slices
import FarmLink.Proofs.Uplink.Routing
import FarmLink.Registration.Digest
import FarmLink.Registration.Frame
import FarmLink.Registration.SystemField
import FarmLink.Report
import FarmLink.Proofs.Downlink.FixedLayout
import FarmLink.Proofs.Binary.Narrowing
import FarmLink.Proofs.Downlink.Threshold
import FarmLink.Proofs.Numeral.Grammar
import FarmLink.Proofs.Numeral.Strict
import FarmLink.Proofs.Token.Number
import FarmLink.Proofs.Binary.NearestDouble
import FarmLink.Proofs.Numeral.Nearest
import FarmLink.Proofs.Token.WholeNumber
import FarmLink.Proofs.Telemetry.Diagnostics
import FarmLink.Proofs.Registration.SystemFields
import FarmLink.Proofs.Registration.FrameGrammar
import FarmLink.Proofs.Registration.Hashing
import FarmLink.Proofs.Uplink.Acknowledgment
import FarmLink.Proofs.Spelling.Base64
import FarmLink.Proofs.Downlink.PassThrough
import FarmLink.Proofs.Cli.StateChanges
