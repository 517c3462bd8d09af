import YulLowering.Json.Writer
import YulLowering.Main
import YulLowering.Proofs.Commands.Validation
import YulLowering.Proofs.Construction.Histories
import YulLowering.Proofs.DefaultTypes
import YulLowering.Proofs.Dialects
import YulLowering.Proofs.Frames.Blocks
import YulLowering.Proofs.Frames.Scopes
import YulLowering.Proofs.Headers
import YulLowering.Proofs.Imports
import YulLowering.Proofs.Independence.Programs
import YulLowering.Proofs.Initialisation.Programs
import YulLowering.Proofs.Listing.Programs
import YulLowering.Proofs.Literals
import YulLowering.Proofs.Meaning.Programs
import YulLowering.Proofs.Reachability.Programs
import YulLowering.Proofs.Refusals.Programs
import YulLowering.Proofs.Renaming.Programs
import YulLowering.Proofs.RoundTrip.Programs
import YulLowering.Proofs.Scopes
import YulLowering.Proofs.SingleAssignment
import YulLowering.Proofs.SpillPools
import YulLowering.Proofs.SpillProtocol
import YulLowering.Proofs.Structure
import YulLowering.Proofs.Typing.Programs
import YulLowering.Proofs.Validation
import YulLowering.Syntax.Encoding
