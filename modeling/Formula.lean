import Formula.Main
import Formula.Proofs.Text.Regex
import Formula.Proofs.Expression.Tree
import Formula.Proofs.Expression.Climbing
import Formula.Proofs.Expression.Arranging
import Formula.Proofs.Expression.Context
import Formula.Proofs.Expression.Names
import Formula.Proofs.Expression.Agreement
import Formula.Proofs.Evaluation.Faults
import Formula.Proofs.Evaluation.Trees
import Formula.Proofs.Expression.TokenRows
import Formula.Proofs.Evaluation.Accepted
import Formula.Proofs.Expression.Substitution
import Formula.Proofs.Expression.TokenSubstitution
import Formula.Proofs.Evaluation.Substitution
import Formula.Proofs.Lexical.Formulas
import Formula.Proofs.Lexical.Pieces
import Formula.Proofs.Lexical.Spacing
import Formula.Proofs.Expression.Printing
import Formula.Proofs.Expression.ReadingBack
import Formula.Proofs.Lexical.Options
import Formula.Proofs.Lexical.Splitting
import Formula.Proofs.Expression.Layout
import Formula.Proofs.Evaluation.StrictRuns
import Formula.Proofs.Lexical.Numbers
import Formula.Proofs.Lexical.Shapes
import Formula.Proofs.Expression.FaultPlaces
import Formula.Proofs.Evaluation.Mentioned
import Formula.Proofs.Evaluation.Histories
import Formula.Proofs.Text.Case
import Formula.Proofs.Number.Case
import Formula.Proofs.Lexical.Case
import Formula.Proofs.Expression.Renaming
import Formula.Proofs.Expression.CaseOfTokens
import Formula.Proofs.Expression.CaseOfItems
import Formula.Proofs.Evaluation.Case
import Formula.Proofs.Lexical.Respelling
import Formula.Proofs.Expression.Alternation
import Formula.Proofs.Expression.Positions
import Formula.Proofs.Expression.Composing
import Formula.Proofs.Number.Doubles
import Formula.Proofs.Value.Json
import Formula.Proofs.CommandLine.Variables
import Formula.Proofs.Evaluation.Refusals
import Formula.Proofs.Expression.Extending
import Formula.Proofs.Expression.PlusSigns
import Formula.Proofs.Lexical.Progress
import Formula.Proofs.Number.Singles
import Formula.Proofs.Evaluation.Literals
import Formula.Proofs.Operations.Integers
import Formula.Proofs.Operations.Powers
import Formula.Proofs.Operations.Shifts
import Formula.Proofs.Operations.IntegerParts
import Formula.Proofs.Operations.Comparisons
import Formula.Proofs.Operations.Mirrored
import Formula.Proofs.Operations.Sums
import Formula.Proofs.Operations.Conversions
import Formula.Proofs.Operations.Patterns
import Formula.Proofs.Operations.Connectives
import Formula.Proofs.Functions.Extremes
import Formula.Proofs.Evaluation.SumChains
import Formula.Proofs.Functions.Dates
import Formula.Proofs.Lexical.LongestNumbers
import Formula.Proofs.Evaluation.QuotedTexts
import Formula.Proofs.Text.Readers
import Formula.Proofs.Text.CharMaps
import Formula.Proofs.Lexical.Scanners
import Formula.Proofs.Registry.Edits
