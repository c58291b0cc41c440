import CodeAtlas.Outline.Source
import CodeAtlas.Proofs.Graph.Links
import CodeAtlas.Proofs.Outline.Functions

namespace CodeAtlas

open Outline Script

namespace Linking

variable {path other caller callee : String} {call : CallSite}

end Linking

namespace Graph

variable {project : Project} {files : List String} {path : String} {outline : Outline}

end Graph

end CodeAtlas
