/-!
Places in a text, counted in bytes of UTF-8. A reader that still has the characters `rest` of a text
stands at the offset of what it has read.
-/

namespace FormDependencies.Text

def byteLength : List Char → Nat
  | [] => 0
  | c :: cs => c.utf8Size + byteLength cs

def offset (text rest : List Char) : Nat :=
  byteLength text - byteLength rest

@[simp] theorem byteLength_append (cs ds : List Char) :
    byteLength (cs ++ ds) = byteLength cs + byteLength ds := by
  induction cs with
  | nil => simp [byteLength]
  | cons c cs ih => simp [byteLength, ih, Nat.add_assoc]

theorem byteLength_eq_utf8ByteSize (cs : List Char) :
    byteLength cs = (String.ofList cs).utf8ByteSize := by
  induction cs with
  | nil => rfl
  | cons c cs ih => simp [byteLength, ih, String.ofList_cons]

theorem offset_append (read rest : List Char) : offset (read ++ rest) rest = byteLength read := by
  simp [offset]

end FormDependencies.Text
