/-!
Text in buffers of a fixed number of bytes.  A text that is too long is
cut at a character boundary, and a buffer is always filled to its end with
zeros, at least one of them.
-/

namespace SoftRadio.Text

/-- The longest run of whole characters at the front that fits in `room` bytes of UTF-8. -/
def takeBytes : Nat → List Char → List Char
  | _, [] => []
  | room, c :: cs =>
    if c.utf8Size ≤ room then c :: takeBytes (room - c.utf8Size) cs else []

/-- The size of characters in UTF-8. -/
def byteCount (cs : List Char) : Nat := (cs.map Char.utf8Size).foldr (· + ·) 0

@[simp] theorem byteCount_nil : byteCount [] = 0 := rfl

@[simp] theorem byteCount_cons (c : Char) (cs : List Char) :
    byteCount (c :: cs) = c.utf8Size + byteCount cs := rfl

/-- What is taken fits. -/
theorem byteCount_takeBytes_le (room : Nat) (cs : List Char) :
    byteCount (takeBytes room cs) ≤ room := by
  induction cs generalizing room with
  | nil => simp [takeBytes]
  | cons c cs ih =>
    unfold takeBytes
    split
    · have := ih (room - c.utf8Size)
      rw [byteCount_cons]
      omega
    · simp

/-- What is taken stands at the front. -/
theorem takeBytes_append_drop (room : Nat) (cs : List Char) :
    ∃ rest, cs = takeBytes room cs ++ rest := by
  induction cs generalizing room with
  | nil => exact ⟨[], by simp [takeBytes]⟩
  | cons c cs ih =>
    unfold takeBytes
    split
    · obtain ⟨rest, hrest⟩ := ih (room - c.utf8Size)
      exact ⟨rest, by rw [List.cons_append, ← hrest]⟩
    · exact ⟨c :: cs, rfl⟩

/-- No longer front fits: one that does is a front of what is taken. -/
theorem length_le_takeBytes (room : Nat) (front rest : List Char)
    (h : byteCount front ≤ room) :
    front.length ≤ (takeBytes room (front ++ rest)).length := by
  induction front generalizing room with
  | nil => simp
  | cons c front ih =>
    rw [byteCount_cons] at h
    have hc : c.utf8Size ≤ room := by omega
    have := ih (room - c.utf8Size) (by omega)
    simp only [List.cons_append, takeBytes, if_pos hc, List.length_cons]
    omega

/-- The longest initial part of `s` that ends on a character boundary and
has at most `room` bytes. -/
def truncate (s : String) (room : Nat) : String := String.ofList (takeBytes room s.toList)

def bytes (s : String) : List UInt8 := s.toUTF8.toList

/-- Fill `buffer` with the text, cut to leave room for a zero, and with
zeros after it.  An empty buffer stays empty.  Also the number of bytes
of text. -/
def fill (buffer : List UInt8) (s : String) : Nat × List UInt8 :=
  match buffer.length with
  | 0 => (0, buffer)
  | room + 1 =>
    let text := bytes (truncate s room)
    (text.length, text ++ List.replicate (room + 1 - text.length) 0)

/-- The bytes before the first zero. -/
def untilZero (buffer : List UInt8) : List UInt8 := buffer.takeWhile (· != 0)

/-- The text that bytes spell, if they are well-formed UTF-8. -/
def ofBytes? (bs : List UInt8) : Option String := String.fromUTF8? ⟨bs.toArray⟩

end SoftRadio.Text
