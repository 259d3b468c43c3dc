/-!
# Words

How many numbers there are to count with, in words of thirty-two and of sixty-four bits.
-/

namespace Stencil.Word

/-- The numbers of a word of sixty-four bits. -/
def size : Nat := 0x10000000000000000

/-- The numbers of a word of sixty-four bits that are negative if it has a sign. -/
def negatives : Nat := 0x8000000000000000

/-- The numbers of a word of thirty-two bits. -/
def halfSize : Nat := 0x100000000

end Stencil.Word
