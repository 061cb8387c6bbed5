/-!
The kinds of content that the agent knows.
-/

namespace ClipboardRelay

/-- A kind of content. `none` takes the place of a kind when a question has no answer. -/
inductive ContentType where
  | none
  | utf8Text
  | imagePng
  | imageBmp
  | imageTiff
  | imageJpg
  deriving DecidableEq, Repr

namespace ContentType

def all : List ContentType := [none, utf8Text, imagePng, imageBmp, imageTiff, imageJpg]

def toWire : ContentType → UInt32
  | none => 0
  | utf8Text => 1
  | imagePng => 2
  | imageBmp => 3
  | imageTiff => 4
  | imageJpg => 5

def ofWire? (value : UInt32) : Option ContentType :=
  all.find? (·.toWire == value)

@[simp] theorem ofWire?_toWire (type : ContentType) : ofWire? type.toWire = some type := by
  cases type <;> rfl

theorem toWire_of_ofWire? {value : UInt32} {type : ContentType}
    (h : ofWire? value = some type) : type.toWire = value := by
  simpa using List.find?_some h

def name : ContentType → String
  | none => "none"
  | utf8Text => "utf8"
  | imagePng => "png"
  | imageBmp => "bmp"
  | imageTiff => "tiff"
  | imageJpg => "jpg"

def label : ContentType → String
  | none => "None"
  | utf8Text => "Utf8Text"
  | imagePng => "ImagePng"
  | imageBmp => "ImageBmp"
  | imageTiff => "ImageTiff"
  | imageJpg => "ImageJpg"

/-- The kinds in a list of offers that say anything: without `none`, each at its first place. -/
def distinct (types : List ContentType) : List ContentType :=
  (types.filter (· ≠ none)).eraseDups

theorem none_notMem_distinct (types : List ContentType) : none ∉ distinct types := by
  simp [distinct, List.mem_eraseDups]

end ContentType

end ClipboardRelay
