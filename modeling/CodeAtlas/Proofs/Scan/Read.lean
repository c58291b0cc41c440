import CodeAtlas.Disk.Local
import CodeAtlas.Engine.Session
import CodeAtlas.Proofs.Engine.Counts
import CodeAtlas.Proofs.Scan.Found

namespace CodeAtlas

namespace Engine

variable {read : String → Reading} {files : List String}

section Listed

variable {path : String} (listed : path ∈ files.map Path.normalize) (reason : SkipReason)
include listed

end Listed

end Engine

namespace Tree

variable {tree : Tree} {root names : Names}

section Scanned

variable (sound : tree.Sound) (rooted : tree.isFolder [] = true) {bytes : ByteArray}
  (there : tree.at? (root ++ names) = some (.file bytes)) (nonempty : names ≠ [])
include sound rooted there nonempty

end Scanned

end Tree

end CodeAtlas
