/-
# Tokenizing a source unit

The whole way from a text to its tokens.  Every lexical error is reported, in
the order of detection, once the text has been scanned to its end; the tokens
do not depend on what becomes of the reports.
-/

import Lexis.Report.Basic
import Lexis.Report.Reporter
import Lexis.TokenFeed

namespace Lexis

/-- Hands the reports of the errors in a source unit to a reporter. -/
def reportErrors {σ : Type} (errors : List LexError) (s : Source)
    (reporter : Reporter σ Report) (memory : σ) : σ :=
  reporter.receiveAll memory (errors.map (Report.ofError s))

/-- All tokens of a source unit, the end of the input last, and what the
reporter remembers of the reports. -/
def Source.tokenize {σ : Type} (s : Source) (reporter : Reporter σ Report) (memory : σ) :
    List Token × σ :=
  let (tokens, feed) := (TokenFeed.ofSource s).drain
  (tokens, reportErrors feed.errors s reporter memory)

/-- All tokens of a named text, the end of the input last, and what the reporter
remembers of the reports. -/
def tokenize {σ : Type} (identifier text : String) (reporter : Reporter σ Report) (memory : σ) :
    List Token × σ :=
  (Source.ofString identifier text).tokenize reporter memory

end Lexis
