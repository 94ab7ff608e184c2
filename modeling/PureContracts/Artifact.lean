import PureContracts.Digest.Sha256
import PureContracts.Function
import PureContracts.Text.Hex
import PureContracts.Text.Utf8

/-!
# Artifacts

The artifact of some functions is a source file for the verifier: a package header, the marker by
which the verifier finds the file, and the functions with a blank line between neighbours.

* `Artifact.render` — the text of an artifact (`render_artifact`).
* `Artifact.hash` — the SHA-256 digest of a text, in hexadecimal (`artifact_hash`).
-/

namespace PureContracts.Artifact

/-- The package of an artifact for which none is given. -/
def defaultPackage : String := "main"

/-- The comment that the verifier looks for. -/
def marker : List Char := "//+gobra".toList

/-- The characters of an artifact. -/
def chars (package : String) (functions : List PureFunction) : List Char :=
  "package ".toList ++ package.toList ++ ['\n', '\n'] ++ marker ++ ['\n', '\n'] ++
    List.intercalate ['\n'] (functions.map fun function => function.chars ++ ['\n'])

/-- The text of an artifact. -/
def render (package : String) (functions : List PureFunction) : String :=
  String.ofList (chars package functions)

/-- The digest of a text, in hexadecimal. -/
def hash (text : String) : String := Text.hex (Sha256.digest (Text.utf8 text))

end PureContracts.Artifact
