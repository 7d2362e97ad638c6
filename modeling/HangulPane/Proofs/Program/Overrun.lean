import HangulPane.Proofs.Program.StorageContext

namespace HangulPane
namespace Program

/-!
Folding keeps the behaviour of every program that it gets through.

It does not get through all of them.  A label may stand for the largest index there is.  Behind
two literals, a jump to such a label has the pass ask for the index after that one, and there is
none.  Everywhere else a label past the end is left alone.
-/

end Program
end HangulPane
