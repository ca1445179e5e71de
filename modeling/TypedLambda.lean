import TypedLambda.Exercise.Session
import TypedLambda.Main
import TypedLambda.Proofs.Alpha.Decision
import TypedLambda.Proofs.Convention.RoundTrip
import TypedLambda.Proofs.Conversion.BoundNames
import TypedLambda.Proofs.Conversion.MinimalRenaming
import TypedLambda.Proofs.Conversion.StepMeaning
import TypedLambda.Proofs.Exercise.RearrangedAnswers
import TypedLambda.Proofs.Exercise.ReferenceAnswers
import TypedLambda.Proofs.Meaning.EarlyReduction
import TypedLambda.Proofs.Meaning.SisterLetters
import TypedLambda.Proofs.Normalisation.Termination
import TypedLambda.Proofs.Reordering.Decision
import TypedLambda.Proofs.Term.LongestBodies
import TypedLambda.Proofs.Term.RoundTrip
import TypedLambda.Proofs.Ty.RoundTrip
import TypedLambda.Proofs.Typing.RefusedRedexes
import TypedLambda.Proofs.Typing.Specialisation
import TypedLambda.Proofs.Nameless.Reordering
import TypedLambda.Proofs.Conversion.Identifiers
import TypedLambda.Proofs.Ty.Separation
import TypedLambda.Proofs.Exercise.Resubmission
import TypedLambda.Proofs.Exercise.RenamedAnswers
import TypedLambda.Proofs.Exercise.SkippedSteps
import TypedLambda.Proofs.Term.Instantiation
import TypedLambda.Proofs.Ty.ErrorPositions
import TypedLambda.Proofs.Ty.Derivations
import TypedLambda.Proofs.Token.Spans
import TypedLambda.Proofs.Conversion.Limits
import TypedLambda.Proofs.Term.LetterBinders
import TypedLambda.Proofs.Token.Errors
import TypedLambda.Proofs.Term.ErrorPositions
import TypedLambda.Proofs.Conversion.FirstRedex
import TypedLambda.Proofs.Term.Shapes
import TypedLambda.Proofs.Reordering.Invariance
import TypedLambda.Proofs.Meaning.Leaves
import TypedLambda.Proofs.Meaning.ExchangedSisters
import TypedLambda.Proofs.Convention.Comments
import TypedLambda.Proofs.Meaning.Membership
import TypedLambda.Proofs.Ty.UnificationCalls
