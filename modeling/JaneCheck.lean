import JaneCheck.Check.Session
import JaneCheck.Main
import JaneCheck.Proofs.Aliases
import JaneCheck.Proofs.ArgumentPairing
import JaneCheck.Proofs.CompoundAssignments
import JaneCheck.Proofs.Containment
import JaneCheck.Proofs.Division
import JaneCheck.Proofs.EnumValues
import JaneCheck.Proofs.Globals
import JaneCheck.Proofs.Hygiene
import JaneCheck.Proofs.Inferability
import JaneCheck.Proofs.IntegerLiterals
import JaneCheck.Proofs.JumpPlacement
import JaneCheck.Proofs.MatchArms
import JaneCheck.Proofs.MissingReturns
import JaneCheck.Proofs.Monomorphisation
import JaneCheck.Proofs.Positions
import JaneCheck.Proofs.Precedence
import JaneCheck.Proofs.Promotion
import JaneCheck.Proofs.Reading
import JaneCheck.Proofs.Redeclarations
import JaneCheck.Proofs.ReportedOnce
import JaneCheck.Proofs.RoundTrip
import JaneCheck.Proofs.Slots
import JaneCheck.Proofs.StructCycles
import JaneCheck.Proofs.Termination
import JaneCheck.Proofs.TextLiterals
import JaneCheck.Proofs.UnparsedFiles
import JaneCheck.Proofs.WrittenCalls
