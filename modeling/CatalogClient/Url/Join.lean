import CatalogClient.Url.Reader
/-!
Paths below a base URL.
-/

namespace CatalogClient.Url

/-- The URL of a path below a base: one slash stands between the text of the base and the path. -/
def below (base : Url) (path : String) : Except UrlFault Url :=
  read (Text.dropTrailing '/' base.render ++ "/" ++ Text.dropLeading '/' path)

end CatalogClient.Url
