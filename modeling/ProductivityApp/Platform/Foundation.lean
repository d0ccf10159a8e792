import Mathlib.Algebra.Order.Field.Rat
import Mathlib.Order.WithBot

/-!
# Swift values the app handles

Strings are Lean strings: Swift compares strings up to canonical equivalence, so a string here
stands for its normal form. Pictures are only ever passed on, encoded and decoded, so a picture is a
name, and data is told apart by whether it decodes.
-/

namespace ProductivityApp

/-- A Swift `Double` in Firestore's order: not-a-number, then minus infinity, the finite values and
plus infinity. -/
abbrev Double := WithBot (WithBot (WithTop ℚ))

/-- The characters `\s` matches in a regular expression of Foundation, as its documentation has
them: tab, newline, form feed, carriage return and the separators of Unicode. The engine may match
U+000B and U+0085 as well. -/
def isRegexSpace (c : Char) : Bool :=
  c.toNat ∈ [0x09, 0x0A, 0x0C, 0x0D, 0x20, 0xA0, 0x1680, 0x2028, 0x2029, 0x202F, 0x205F, 0x3000]
    || (0x2000 ≤ c.toNat && c.toNat ≤ 0x200A)

/-- A `UIImage`, up to JPEG encoding. Not every image can be encoded. -/
inductive Image where
  | systemPerson
  | picture (id : ℕ) (encodable : Bool)
  deriving DecidableEq

/-- Bytes, by what `UIImage(data:)` makes of them. -/
inductive Data where
  | jpeg (image : Image)
  | undecodable (bytes : List UInt8)
  deriving DecidableEq

/-- `jpegData(compressionQuality:)` -/
def Image.jpegData : Image → Option Data
  | .systemPerson => some (.jpeg .systemPerson)
  | .picture id true => some (.jpeg (.picture id true))
  | .picture _ false => none

/-- `UIImage(data:)` -/
def Data.image : Data → Option Image
  | .jpeg image => some image
  | .undecodable _ => none

/-- Encoding loses nothing but what pictures are taken up to. -/
theorem Image.image_of_jpegData {image : Image} {data : Data} (h : image.jpegData = some data) :
    data = .jpeg image := by
  cases image with
  | systemPerson => exact (Option.some.inj h).symm
  | picture id encodable =>
      cases encodable with
      | true => exact (Option.some.inj h).symm
      | false => cases h

end ProductivityApp
