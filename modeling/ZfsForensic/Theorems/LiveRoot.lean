import ZfsForensic.Lemmas.SnapshotImage

/-!
# Deletions and the live root

A recovered file is a deletion only when the live root directory was read and does not hold its name. The code takes a live root
that cannot be read for an empty one, so on such a pool it reports every entry of every snapshot whose content reads; it makes up
no deletion only where the live root reads, or there is nothing to report.
-/

namespace ZfsForensic

open Octets Checked Checked.Run

end ZfsForensic
