import ClipboardRelay.ContentType
import ClipboardRelay.Display.Call
/-!
The targets that applications use for each kind of content, and the table of those that the display
has an atom for.
-/

namespace ClipboardRelay

/-- The names of the targets that mean a kind of content. Of several kinds the earlier is offered
first, and of several names the earlier is asked for. -/
def targetNames : List (ContentType × List String) :=
  [ (.utf8Text, ["UTF8_STRING", "text/plain;charset=UTF-8", "text/plain;charset=utf-8"]),
    (.imagePng, ["image/png"]),
    (.imageBmp, ["image/bmp", "image/x-bmp", "image/x-MS-bmp", "image/x-win-bitmap"]),
    (.imageTiff, ["image/tiff"]),
    (.imageJpg, ["image/jpeg"]) ]

structure Format where
  type : ContentType
  targets : List Atom
  deriving DecidableEq, Repr

structure Registry where
  formats : List Format
  deriving DecidableEq, Repr

namespace Registry

variable {δ : Type} [Display δ]

def internNames : List String → Exchange δ (List Atom)
  | [] => return []
  | name :: names => do
    let atom ← Exchange.call (.internAtom name)
    let atoms ← internNames names
    return if atom = Atom.null then atoms else atom :: atoms

def internFormats : List (ContentType × List String) → Exchange δ (List Format)
  | [] => return []
  | (type, names) :: entries => do
    let targets ← internNames names
    let formats ← internFormats entries
    return { type, targets } :: formats

def resolve : Exchange δ Registry :=
  return { formats := ← internFormats targetNames }

def typeFor (registry : Registry) (target : Atom) : Option ContentType :=
  (registry.formats.find? fun format => format.targets.contains target).map (·.type)

def targetsFor (registry : Registry) (types : List ContentType) : List Atom :=
  types.flatMap fun type =>
    (registry.formats.filter fun format => format.type = type).flatMap (·.targets)

/-- For each kind of content that an owner offers, the target to ask for. -/
def negotiate (registry : Registry) (offered : List Atom) : List (ContentType × Atom) :=
  registry.formats.filterMap fun format =>
    (format.targets.find? offered.contains).map fun target => (format.type, target)

@[simp] theorem negotiate_nil (registry : Registry) : registry.negotiate [] = [] := by
  simp [negotiate, List.filterMap_eq_nil_iff]

end Registry

end ClipboardRelay
