import StyleAssets.Path.Resolve
import StyleAssets.Url.Kind

/-!
# Output assets

Where an asset named by a stylesheet comes from and what its copy is called.

* `OutputAsset.derive` — a sheet `style.css` with the url `images/cog.png` gives the copy
  `style_dumped_cog.png` of the file found from the directory of the sheet.
-/

namespace StyleAssets

/-- The source of an asset and the name of its copy. -/
structure OutputAsset where
  name : Text
  source : Path
  deriving DecidableEq, Repr

namespace OutputAsset

def infixText : Text := "_dumped_".toList

/-- The last segment of a url, trailing separators aside. -/
def baseName (url : Text) : Text :=
  let trimmed := url.reverse.dropWhile (· == '/')
  (trimmed.takeWhile (· != '/')).reverse

/-- The file name of a sheet without its extension; nothing if the path ends in no name. -/
def stem (sheet : Path) : Text :=
  match sheet.fileName? with
  | some name => Url.dropExtension (Utf8.lossy name)
  | none => []

def derive (cwd : Option Path) (sheet : Path) (raw : Text) : OutputAsset where
  name := stem sheet ++ infixText ++ baseName raw
  source := ((sheet.parent?.getD ⟨[]⟩).join (.ofText raw)).resolve cwd

end OutputAsset

end StyleAssets
