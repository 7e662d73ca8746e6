import NameMigration.Archive.EndRecord
import NameMigration.Archive.Entry

/-!
The directory of a ZIP archive: the headers of its entries, one behind the other.
-/

namespace NameMigration.Archive

def entries? (bytes : Bytes) : Option (List Entry) := do
  let placement ← Placement.ofBytes? bytes
  Entry.takeMany? placement.shift placement.entryCount (bytes.drop placement.directoryStart)

end NameMigration.Archive
