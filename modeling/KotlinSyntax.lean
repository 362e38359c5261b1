import KotlinSyntax.Log
import KotlinSyntax.Mutation.Rule
import KotlinSyntax.Node.Inspect
import KotlinSyntax.Proofs.Source
import KotlinSyntax.Proofs.Traversal
import KotlinSyntax.Source
import KotlinSyntax.Text.Decimal
import KotlinSyntax.Proofs.Twin.Builder
import KotlinSyntax.Proofs.Twin.Grammar
import KotlinSyntax.Proofs.Twin.Type
import KotlinSyntax.Proofs.Twin.Declaration
import KotlinSyntax.Proofs.Twin.Control
import KotlinSyntax.Proofs.Twin.Expression
import KotlinSyntax.Proofs.Twin.Source
import KotlinSyntax.Proofs.Spans
import KotlinSyntax.Proofs.Refusal
import KotlinSyntax.Proofs.Mutation.Conservation
import KotlinSyntax.Proofs.Plan.Source
import KotlinSyntax.Proofs.Mutation.Renaming
import KotlinSyntax.Proofs.Emission
import KotlinSyntax.Proofs.Placement
import KotlinSyntax.Proofs.Pushdown
import KotlinSyntax.Proofs.Apart.Source
import KotlinSyntax.Proofs.Depth.Source
import KotlinSyntax.Proofs.Mutation.Sharing
import KotlinSyntax.Proofs.Mutation.Order
import KotlinSyntax.Proofs.Parse.Logic
import KotlinSyntax.Proofs.Parse.Sight
import KotlinSyntax.Proofs.Parse.Spelling
import KotlinSyntax.Proofs.Parse.Formula
import KotlinSyntax.Proofs.Parse.Operator
import KotlinSyntax.Proofs.Parse.Precedence
import KotlinSyntax.Proofs.Parse.Roundtrip
import KotlinSyntax.Proofs.Types.Roundtrip
import KotlinSyntax.Proofs.Lexing.Failure
import KotlinSyntax.Proofs.Lexing.RawString
import KotlinSyntax.Proofs.Lexing.Lines
import KotlinSyntax.Proofs.Placement.Lines
import KotlinSyntax.Proofs.Dump
import KotlinSyntax.Proofs.Trim.Source
import KotlinSyntax.Proofs.Builder.Session
import KotlinSyntax.Proofs.Lexing.Comment
import KotlinSyntax.Proofs.Fidelity
