import Lexis.Proofs.Anchors
import Lexis.Proofs.Columns
import Lexis.Proofs.Comments
import Lexis.Proofs.Composition
import Lexis.Proofs.Decoding.Literals
import Lexis.Proofs.Detection
import Lexis.Proofs.Feeds
import Lexis.Proofs.Headers
import Lexis.Proofs.Joins
import Lexis.Proofs.LineEnds.Scan
import Lexis.Proofs.LongestMatch
import Lexis.Proofs.NormalForm
import Lexis.Proofs.Numerals.Floats
import Lexis.Proofs.Places
import Lexis.Proofs.Readers
import Lexis.Proofs.Recovery
import Lexis.Proofs.Reports
import Lexis.Proofs.Requests
import Lexis.Proofs.Resumption
import Lexis.Proofs.Spelling
import Lexis.Proofs.Tiling
import Lexis.Proofs.Underlines
import Lexis.Ranking
import Lexis.Source.Summary
import Lexis.Tokenize
