import DirectiveFences.Main
import DirectiveFences.Decimal.Shortest
import DirectiveFences.Text.Substitute
import DirectiveFences.Proofs.Bisection
import DirectiveFences.Proofs.Kinds
import DirectiveFences.Proofs.LineStarts
import DirectiveFences.Proofs.Run
import DirectiveFences.Proofs.Shapes
import DirectiveFences.Proofs.Recording
import DirectiveFences.Proofs.Groups
import DirectiveFences.Proofs.Backticks
import DirectiveFences.Proofs.Fences
import DirectiveFences.Proofs.Inert
import DirectiveFences.Proofs.Placement
import DirectiveFences.Proofs.Tags
import DirectiveFences.Proofs.Blocks
import DirectiveFences.Proofs.CodeSpans
import DirectiveFences.Proofs.CanonicalText
import DirectiveFences.Proofs.LineClass
import DirectiveFences.Proofs.LostUpdate
import DirectiveFences.Proofs.Replacement
import DirectiveFences.Proofs.LineEndings
import DirectiveFences.Proofs.Parts
import DirectiveFences.Proofs.FencedCode
import DirectiveFences.Proofs.Carried
import DirectiveFences.Proofs.SharedLines
import DirectiveFences.Proofs.Containment
import DirectiveFences.Proofs.ErrorOrder
import DirectiveFences.Proofs.CommandEffects
import DirectiveFences.Proofs.Layers
import DirectiveFences.Proofs.ToggledRuns
import DirectiveFences.Proofs.OpenerTail
import DirectiveFences.Proofs.Rights
import DirectiveFences.Proofs.ShortcodeValue
import DirectiveFences.Proofs.Restored
import DirectiveFences.Proofs.Readings
import DirectiveFences.Proofs.Utf8Sequences
import DirectiveFences.Proofs.ExactBytes
import DirectiveFences.Proofs.LeftmostSpan
import DirectiveFences.Proofs.SkippedFiles
import DirectiveFences.Proofs.PathRefusals
import DirectiveFences.Proofs.PrintedText
import DirectiveFences.Proofs.SpansByLength
