import CodeAtlas.Path.Basic

namespace CodeAtlas.Path

/-- What may be missing from the name of an imported file, in the order it is tried. -/
def importSuffixes : List String :=
  [".ts", ".tsx", ".js", ".jsx", "/index.ts", "/index.tsx"]

/-- The path that an import names before a suffix is added. -/
def importBase (importer specifier : String) : String :=
  let directory := directory importer
  if directory == "" then normalize specifier else normalize (directory ++ "/" ++ specifier)

/-- The known file that an import means. Only an import that begins with a point names a file. -/
def resolveImport? (importer specifier : String) (known : String → Bool) : Option String :=
  if specifier.startsWith "." then
    (importSuffixes.map (importBase importer specifier ++ ·)).find? known
  else none

end CodeAtlas.Path
