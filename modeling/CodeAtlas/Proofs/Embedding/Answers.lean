import CodeAtlas.Proofs.Embedding.Lookup

namespace CodeAtlas.Embedder

variable {embedder : Embedder} {now : Nat} {texts : List String}

end CodeAtlas.Embedder
