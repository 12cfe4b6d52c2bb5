import ObjectQuery.Chain.Basic
import ObjectQuery.Chain.Collection
import ObjectQuery.Chain.Expansion
import ObjectQuery.Chain.Fault
import ObjectQuery.Chain.View
import ObjectQuery.Command.Arguments
import ObjectQuery.Command.Run
import ObjectQuery.Decimal.Digits
import ObjectQuery.Decimal.Nearest
import ObjectQuery.Decimal.Radix
import ObjectQuery.Decimal.Shortest
import ObjectQuery.Description
import ObjectQuery.Directory
import ObjectQuery.Display
import ObjectQuery.Display.Unseen
import ObjectQuery.Document
import ObjectQuery.Json.Address
import ObjectQuery.Json.Basic
import ObjectQuery.Json.Compare
import ObjectQuery.Json.Numeral
import ObjectQuery.Json.Printer
import ObjectQuery.Json.Reference
import ObjectQuery.Json.Token
import ObjectQuery.Main
import ObjectQuery.NameSet
import ObjectQuery.Pattern.Alphabet
import ObjectQuery.Pattern.Guide
import ObjectQuery.Pattern.IdText
import ObjectQuery.Pattern.Reading
import ObjectQuery.Pattern.Specification
import ObjectQuery.Pattern.Writing
import ObjectQuery.Percent
import ObjectQuery.Proofs.Chain.Arrangement
import ObjectQuery.Proofs.Chain.Growth
import ObjectQuery.Proofs.Chain.Marks
import ObjectQuery.Proofs.Chain.Path
import ObjectQuery.Proofs.Chain.Restriction
import ObjectQuery.Proofs.Chain.Rounds
import ObjectQuery.Proofs.Chain.Session
import ObjectQuery.Proofs.Chain.View
import ObjectQuery.Proofs.Chain.Walk
import ObjectQuery.Proofs.Chain.Way
import ObjectQuery.Proofs.Chain.Wildcard
import ObjectQuery.Proofs.Command.Printing
import ObjectQuery.Proofs.Correspondence
import ObjectQuery.Proofs.Json.Members
import ObjectQuery.Proofs.Json.Within
import ObjectQuery.Proofs.Outcome
import ObjectQuery.Proofs.Pattern.Decoding
import ObjectQuery.Proofs.Pattern.Evaluation
import ObjectQuery.Proofs.Pattern.Grammar
import ObjectQuery.Proofs.Pattern.IdListText
import ObjectQuery.Proofs.Pattern.PrintableText
import ObjectQuery.Proofs.Pattern.RoundTrip
import ObjectQuery.Proofs.Pattern.SpecificationText
import ObjectQuery.Proofs.Pattern.SuppliedLists
import ObjectQuery.Proofs.Pattern.WrittenText
import ObjectQuery.Proofs.Schema.Accepted
import ObjectQuery.Proofs.Schema.Collection
import ObjectQuery.Proofs.Schema.Composition
import ObjectQuery.Proofs.Schema.Connection
import ObjectQuery.Proofs.Schema.Demands
import ObjectQuery.Proofs.Schema.Embedding
import ObjectQuery.Proofs.Schema.Graph
import ObjectQuery.Proofs.Schema.Registration
import ObjectQuery.Proofs.Schema.SameGraph
import ObjectQuery.Proofs.Schema.Validity
import ObjectQuery.Proofs.Shape.Judgement
import ObjectQuery.Proofs.Shape.Reading
import ObjectQuery.Proofs.Shape.Resolution
import ObjectQuery.Proofs.Shape.Vocabulary
import ObjectQuery.Query
import ObjectQuery.Regex.Basic
import ObjectQuery.Regex.Reader
import ObjectQuery.Report
import ObjectQuery.Schema.Basic
import ObjectQuery.Schema.Build
import ObjectQuery.Schema.Fault
import ObjectQuery.Schema.Identity
import ObjectQuery.Schema.Load
import ObjectQuery.Shape.Basic
import ObjectQuery.Shape.Form
import ObjectQuery.Shape.Linkage
import ObjectQuery.Shape.Reader
import ObjectQuery.Shape.Validator
import ObjectQuery.Table
import ObjectQuery.Yaml.Document
import ObjectQuery.Yaml.Node
import ObjectQuery.Yaml.Paragraph
import ObjectQuery.Yaml.Property
import ObjectQuery.Yaml.Scalar
import ObjectQuery.Yaml.Text
import ObjectQuery.Yaml.Token
import ObjectQuery.Yaml.Word
import ObjectQuery.Proofs.Chain.Separate
import ObjectQuery.Proofs.Chain.Acyclic
import ObjectQuery.Proofs.Pattern.Refusal
import ObjectQuery.Proofs.Pattern.Run
import ObjectQuery.Proofs.Pattern.FaultPosition
import ObjectQuery.Proofs.Pattern.Frontier
import ObjectQuery.Proofs.Pattern.Placeholder
import ObjectQuery.Proofs.Pattern.Filling
import ObjectQuery.Proofs.Schema.Record
import ObjectQuery.Proofs.Pattern.Layout
import ObjectQuery.Proofs.Schema.Offers
import ObjectQuery.Proofs.Schema.Identity
import ObjectQuery.Proofs.Chain.Collection
import ObjectQuery.Proofs.Pattern.Squeezing
import ObjectQuery.Proofs.Pattern.Expression
import ObjectQuery.Proofs.Json.Integer
import ObjectQuery.Proofs.Json.Scanning
import ObjectQuery.Proofs.Json.Parsing
import ObjectQuery.Proofs.Schema.DescriptionText
import ObjectQuery.Proofs.Shape.Understanding
