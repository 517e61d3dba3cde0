import RecordCoding.Data.Gallery
import RecordCoding.Json.Coding
import RecordCoding.Visit
import RecordCoding.Code.Parse
import RecordCoding.Synthesis.Expansion
import RecordCoding.Layout.Members
import RecordCoding.CommandLine.Outcome
import RecordCoding.Main
import RecordCoding.Proofs.Number.Narrowing
import RecordCoding.Proofs.Writing.Entries
import RecordCoding.Proofs.Writing.Place
import RecordCoding.Proofs.Writing.Atomic
import RecordCoding.Proofs.Writing.History
import RecordCoding.Proofs.Reading.Container
import RecordCoding.Proofs.Codec
import RecordCoding.Proofs.Synthesis.Meaning
import RecordCoding.Proofs.Synthesis.Statements
import RecordCoding.Proofs.Synthesis.RoundTrip
import RecordCoding.Proofs.Synthesis.Listings
import RecordCoding.Proofs.Data.NormalForm
import RecordCoding.Proofs.Data.RoundTrip
import RecordCoding.Proofs.Reading.Failures
import RecordCoding.Proofs.Reading.Blame
import RecordCoding.Proofs.Data.Parts
import RecordCoding.Proofs.Data.Reference
import RecordCoding.Proofs.Reading.Similar
import RecordCoding.Proofs.Data.Canonical
import RecordCoding.Proofs.Synthesis.Contributions
import RecordCoding.Proofs.Synthesis.Agreement
import RecordCoding.Proofs.Synthesis.Vocabulary
import RecordCoding.Proofs.Synthesis.Precedence
import RecordCoding.Proofs.Synthesis.Strictness
import RecordCoding.Proofs.Synthesis.Shapes
import RecordCoding.Proofs.Tree.UniqueKeys
import RecordCoding.Proofs.Writing.UniqueKeys
import RecordCoding.Proofs.Json.Scanning
import RecordCoding.Proofs.Json.RoundTrip
import RecordCoding.Proofs.Data.Excluded
import RecordCoding.Proofs.Data.Ranges
import RecordCoding.Proofs.Data.Compatible
import RecordCoding.Proofs.Code.Running
import RecordCoding.Proofs.Code.Trees
import RecordCoding.Proofs.Code.Terms
import RecordCoding.Proofs.Code.Expressions
import RecordCoding.Proofs.Code.Statements
import RecordCoding.Proofs.Code.Items
import RecordCoding.Proofs.Code.Parameters
import RecordCoding.Proofs.Code.Paths
import RecordCoding.Proofs.Synthesis.Phrases
import RecordCoding.Proofs.Synthesis.Legible
import RecordCoding.Proofs.Synthesis.Stopping
import RecordCoding.Proofs.Code.Advancing
import RecordCoding.Proofs.Code.AdvancingItems
import RecordCoding.Proofs.Code.Spelling
import RecordCoding.Proofs.Code.Making
import RecordCoding.Proofs.Code.MakingTerms
import RecordCoding.Proofs.Code.MakingItems
import RecordCoding.Proofs.Code.Conditions
import RecordCoding.Proofs.Synthesis.Accepted
import RecordCoding.Proofs.Writing.Joined
import RecordCoding.Proofs.Reading.Sources
import RecordCoding.Proofs.Reading.Keys
import RecordCoding.Proofs.Synthesis.Grouping
import RecordCoding.Proofs.Tree.Equality
import RecordCoding.Proofs.Text.Delimited
import RecordCoding.Proofs.Tree.Printed
import RecordCoding.Proofs.Path
import RecordCoding.Proofs.Synthesis.Parametric
import RecordCoding.Proofs.Reading.Place
import RecordCoding.Proofs.Routines
import RecordCoding.Proofs.Context
import RecordCoding.Proofs.Synthesis.Walk
