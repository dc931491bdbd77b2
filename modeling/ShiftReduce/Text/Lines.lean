/-!
Text made of lines, each of them ended by a newline. Where no line holds a newline of its own the
text determines them.
-/

namespace ShiftReduce.Text

/-- The lines one after another, every one ended by a newline. -/
def unlines (lines : List String) : String := String.join (lines.map (· ++ "\n"))

@[simp] theorem unlines_nil : unlines [] = "" := rfl

@[simp] theorem unlines_cons (line : String) (lines : List String) :
    unlines (line :: lines) = line ++ "\n" ++ unlines lines := by
  simp [unlines]

end ShiftReduce.Text
