/-!
# Columns of text

Left-aligned columns, filled up with blanks.
-/

namespace Intel8080

/-- The text, followed by as many blanks as a column of the given width still has room for. -/
def leftAligned (width : Nat) (text : String) : String :=
  String.ofList (text.toList.rightpad width ' ')

@[simp] theorem toList_leftAligned (width : Nat) (text : String) :
    (leftAligned width text).toList = text.toList.rightpad width ' ' := by
  simp [leftAligned]

end Intel8080
