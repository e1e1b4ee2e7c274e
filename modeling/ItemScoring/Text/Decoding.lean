/-!
# Decoding text

Texts are stored in UTF-8.  `decode` turns bytes into characters and keeps the
places that are no character as `none`, so that a reader can accept a damaged
place where it does no harm and refuse it elsewhere.  A damaged place is the
longest run of bytes that begins a character and does not complete it, or a
single byte that begins none.
-/

namespace ItemScoring.Text

/-- What the first byte of a character says: its own bits of the code point, and
the range of each byte that has to follow.  The ranges leave out overlong forms,
surrogates and values above U+10FFFF. -/
def leadOf? (first : Nat) : Option (Nat × List (Nat × Nat)) :=
  let tail := (0x80, 0xbf)
  if first < 0x80 then some (first, [])
  else if first < 0xc2 then none
  else if first < 0xe0 then some (first % 32, [tail])
  else if first = 0xe0 then some (0, [(0xa0, 0xbf), tail])
  else if first = 0xed then some (0xd, [(0x80, 0x9f), tail])
  else if first < 0xf0 then some (first % 16, [tail, tail])
  else if first = 0xf0 then some (0, [(0x90, 0xbf), tail, tail])
  else if first < 0xf4 then some (first % 8, [tail, tail, tail])
  else if first = 0xf4 then some (4, [(0x80, 0x8f), tail, tail])
  else none

/-- Reads the bytes behind the first one as far as they fit their ranges: the
character, if all are there, and the bytes that are left. -/
def takeTail (value : Nat) : List (Nat × Nat) → List UInt8 → Option Char × List UInt8
  | [], bytes => (some (Char.ofNat value), bytes)
  | _ :: _, [] => (none, [])
  | (least, greatest) :: ranges, byte :: bytes =>
    if least ≤ byte.toNat ∧ byte.toNat ≤ greatest then
      takeTail (64 * value + byte.toNat % 64) ranges bytes
    else (none, byte :: bytes)

theorem length_takeTail_le (value : Nat) (ranges : List (Nat × Nat)) (bytes : List UInt8) :
    (takeTail value ranges bytes).2.length ≤ bytes.length := by
  fun_induction takeTail value ranges bytes with
  | case1 => exact Nat.le_refl _
  | case2 => exact Nat.le_refl _
  | case3 value least greatest ranges byte bytes fits ih => exact Nat.le_succ_of_le ih
  | case4 => exact Nat.le_refl _

/-- The characters of a text, with `none` for each damaged place. -/
def decode : List UInt8 → List (Option Char)
  | [] => []
  | byte :: bytes =>
    match leadOf? byte.toNat with
    | none => none :: decode bytes
    | some (value, ranges) =>
      (takeTail value ranges bytes).1 :: decode (takeTail value ranges bytes).2
termination_by bytes => bytes.length
decreasing_by
  · exact Nat.lt_succ_self _
  · exact Nat.lt_succ_of_le (length_takeTail_le value ranges bytes)

/-- The text of characters, with the replacement character at damaged places. -/
def repair (text : List (Option Char)) : String :=
  .ofList (text.map fun c => c.getD '\ufffd')

/-- The text of characters, if there is no damaged place. -/
def whole? (text : List (Option Char)) : Option (List Char) := text.mapM id

end ItemScoring.Text
