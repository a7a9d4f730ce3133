/-!
# Columns

`padRight w s` fills a text with spaces to at least `w` characters, so that what
follows it stands in one column; a longer text is kept whole.
-/

namespace Chip8.Column

def padRight (w : Nat) (s : String) : String :=
  s ++ String.ofList (List.replicate (w - s.length) ' ')

theorem length_padRight (w : Nat) (s : String) : (padRight w s).length = max w s.length := by
  simp only [padRight, String.length_append, String.length_ofList, List.length_replicate]
  omega

end Chip8.Column
