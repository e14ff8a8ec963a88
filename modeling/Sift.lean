import Sift.Clause.Compile
import Sift.Query.Codec
import Sift.Query.Validation
import Sift.Saved.Folder
import Sift.Saved.Resolution
import Sift.Schema.Load
import Sift.Proofs.Computation
import Sift.Proofs.Number.Reading
import Sift.Proofs.Syntax.Reader
import Sift.Proofs.Syntax.Delimiter
import Sift.Proofs.Syntax.Phrase
import Sift.Proofs.Syntax.Lexeme
import Sift.Proofs.Syntax.Taken
import Sift.Proofs.Syntax.Grammar
import Sift.Proofs.Syntax.Completeness
import Sift.Proofs.Syntax.Soundness
import Sift.Proofs.Syntax.Transparent
import Sift.Proofs.Syntax.Place
import Sift.Proofs.Syntax.Parentheses
import Sift.Proofs.Syntax.Variation
import Sift.Proofs.Query.Truth
import Sift.Proofs.Query.Faults
import Sift.Proofs.Query.Shown
import Sift.Proofs.Query.RoundTrip
import Sift.Proofs.Query.Literally
import Sift.Proofs.Query.Origin
import Sift.Proofs.Query.WrittenOut
import Sift.Proofs.Query.Form
import Sift.Proofs.Query.Unchecked
import Sift.Proofs.Query.ErrorPlace
import Sift.Proofs.Query.Spelled
import Sift.Proofs.Query.Composition
import Sift.Proofs.Query.Numbers
import Sift.Proofs.Query.Variation
import Sift.Proofs.Pattern.Dialect
import Sift.Proofs.Pattern.Regex
import Sift.Proofs.Pattern.Alternatives
import Sift.Proofs.Pattern.Conversion
import Sift.Proofs.Pattern.Letter
import Sift.Proofs.Pattern.Meaning
import Sift.Proofs.Pattern.Scan
import Sift.Proofs.Pattern.Readable
import Sift.Proofs.Pattern.Pieces
import Sift.Proofs.Pattern.Steps
import Sift.Proofs.Pattern.WellFormed
import Sift.Proofs.Pattern.CaseBlind
import Sift.Proofs.Pattern.RangeCase
import Sift.Proofs.Pattern.BracketText
import Sift.Proofs.Pattern.IgnoreCase
import Sift.Proofs.Clause.Truth
import Sift.Proofs.Clause.Wildcard
import Sift.Proofs.Clause.Support
import Sift.Proofs.Clause.Lookups
import Sift.Proofs.Clause.Exact
import Sift.Proofs.Clause.Document
import Sift.Proofs.Clause.Like
import Sift.Proofs.Clause.Words
import Sift.Proofs.Clause.Sent
import Sift.Proofs.Clause.Cache
import Sift.Proofs.Clause.Numbers
import Sift.Proofs.Data.Json
import Sift.Proofs.Disk
import Sift.Proofs.Saved.Records
import Sift.Proofs.Saved.Folder
import Sift.Proofs.Query.Codec
import Sift.Proofs.Saved.Files
import Sift.Proofs.Saved.Chains
import Sift.Proofs.Saved.Meaning
import Sift.Proofs.Query.Path
import Sift.Proofs.Saved.Extraction
import Sift.Proofs.Saved.Visibility
import Sift.Proofs.Saved.Listing
import Sift.Proofs.Saved.Collapse
import Sift.Proofs.Saved.SelfReference
import Sift.Proofs.Saved.Text
import Sift.Proofs.Saved.Provenance
import Sift.Proofs.Saved.Latest
import Sift.Proofs.Saved.Failure
import Sift.Proofs.Saved.Inside
import Sift.Proofs.Saved.Reload
