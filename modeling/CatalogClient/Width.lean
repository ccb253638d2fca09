/-!
The fixed widths in which counts are kept: the first number beyond 16, 32 and 64 bits.
-/

namespace CatalogClient.Width

abbrev beyond16 : Nat := 65536

abbrev beyond32 : Nat := 4294967296

abbrev beyond64 : Nat := 18446744073709551616

end CatalogClient.Width
