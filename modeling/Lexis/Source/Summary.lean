/-
# Summaries of source units

A source unit in one line, for people who look into a running program: its
name between quotes, the length of its text in bytes and the number of its
lines.
-/

import Lexis.Source.Basic
import Lexis.Text.Escaped

namespace Lexis

/-- The summary of a source unit. -/
def Source.summary (s : Source) : String :=
  "SourceBuffer \x7b identifier: " ++ String.ofList (Text.quoted s.identifier.toList) ++
    ", length: " ++ toString s.size ++ ", lines: " ++ toString s.lineCount ++ " \x7d"

end Lexis
