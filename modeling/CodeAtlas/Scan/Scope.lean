import CodeAtlas.Scan.Rule

namespace CodeAtlas

/-- A folder with its rules. -/
structure IgnoreScope where
  /-- How many names lead to the folder. -/
  depth : Nat
  isRepository : Bool
  /-- Rules that hold in any case. -/
  general : List IgnoreRule
  /-- Rules that hold inside of a repository. -/
  shared : List IgnoreRule
  /-- Rules that hold inside of a repository and come last. -/
  excluded : List IgnoreRule
  deriving Repr, DecidableEq

namespace IgnoreScope

/-- What the rules of scopes say, the innermost first, about the end of a way from the root. -/
def firstVerdict? (rules : IgnoreScope → List IgnoreRule) (names : List String) (isFolder : Bool)
    (scopes : List IgnoreScope) : Option Verdict :=
  scopes.findSome? fun scope =>
    IgnoreRule.verdict? (rules scope) ("/".intercalate (names.drop scope.depth)) isFolder

/-- The scopes up to that of the innermost repository; none outside of repositories. -/
def inRepository (scopes : List IgnoreScope) : List IgnoreScope :=
  if scopes.any (·.isRepository) then
    let inner := scopes.takeWhile fun scope => !scope.isRepository
    scopes.take (inner.length + 1)
  else []

/-- What the scopes of a file or folder say about it, the innermost scope first. -/
def verdict? (scopes : List IgnoreScope) (names : List String) (isFolder : Bool) :
    Option Verdict :=
  let tracked := inRepository scopes
  (firstVerdict? general names isFolder scopes).or
    ((firstVerdict? shared names isFolder tracked).or
      (firstVerdict? excluded names isFolder tracked))

/-- Whether a file or folder is looked at: one whose name begins with a point only if a rule keeps
it. -/
def admits (scopes : List IgnoreScope) (names : List String) (isFolder : Bool) : Bool :=
  match verdict? scopes names isFolder with
  | some .ignored => false
  | some .kept => true
  | none => !(names.getLast?.any (·.startsWith "."))

end IgnoreScope

end CodeAtlas
