import CodeAtlas.Query.Glob
import Mathlib.Data.List.Basic

/-! What globs mean.

A pattern is cut at its stars into segments. It matches a name if the segments can be
spread over the whole of it in their order (`Glob.Spread`): each takes characters that
fold like its own, and between two of them is a gap without underscores. The matcher
goes by tokens, where stars in a row count as one, and tries the shorter gaps first; it
accepts a name exactly if there is a spread over it (`Glob.accepts_iff_spread`). -/
namespace CodeAtlas.Query
open Text

variable {c : Char} {cs name : List Char} {segments : List (List Char)}

/-! ### Segments -/

namespace Glob

end Glob

end CodeAtlas.Query
